import Mathlib

/-! Files with a position: reads stop at the end of the file, writes behind
the end fill the gap, and a write of nothing leaves the file as it is. -/

/-- The bytes of an open file and the position of the next access. -/
@[ext] structure SeekFile (α : Type*) where
  bytes : List α
  pos : Nat
deriving DecidableEq

namespace SeekFile

variable {α : Type*}

def opened (bytes : List α) : SeekFile α := ⟨bytes, 0⟩

def ahead (f : SeekFile α) : List α := f.bytes.drop f.pos

def seek (p : Nat) (f : SeekFile α) : SeekFile α := { f with pos := p }

def read (n : Nat) (f : SeekFile α) : List α × SeekFile α :=
  (f.ahead.take n, { f with pos := f.pos + (f.ahead.take n).length })

/-- Write `d` at the position, filling a gap behind the old end with `z`. -/
def write (z : α) (d : List α) (f : SeekFile α) : SeekFile α :=
  if d.isEmpty then f
  else
    ⟨f.bytes.take f.pos ++ List.replicate (f.pos - f.bytes.length) z ++ d ++
      f.bytes.drop (f.pos + d.length), f.pos + d.length⟩

@[simp] theorem opened_ahead (bytes : List α) : (opened bytes).ahead = bytes := by
  simp [opened, ahead]

@[simp] theorem seek_bytes (p : Nat) (f : SeekFile α) : (f.seek p).bytes = f.bytes := rfl

@[simp] theorem seek_pos (p : Nat) (f : SeekFile α) : (f.seek p).pos = p := rfl

@[simp] theorem read_fst (n : Nat) (f : SeekFile α) : (f.read n).1 = f.ahead.take n := rfl

@[simp] theorem read_bytes (n : Nat) (f : SeekFile α) : (f.read n).2.bytes = f.bytes := rfl

theorem read_ahead (n : Nat) (f : SeekFile α) : (f.read n).2.ahead = f.ahead.drop n := by
  have hlen : (f.ahead.drop n) = f.ahead.drop (f.ahead.take n).length := by
    rcases Nat.le_total n f.ahead.length with h | h
    · simp [Nat.min_eq_left h]
    · simp [Nat.min_eq_right h, List.drop_of_length_le h]
  rw [hlen]
  simp only [read, ahead, List.drop_drop]

@[simp] theorem write_nil (z : α) (f : SeekFile α) : f.write z [] = f := rfl

theorem write_beyond {z : α} {d : List α} {f : SeekFile α} (hd : d ≠ [])
    (h : f.bytes.length ≤ f.pos) :
    f.write z d =
      ⟨f.bytes ++ List.replicate (f.pos - f.bytes.length) z ++ d, f.pos + d.length⟩ := by
  have he : d.isEmpty = false := by simpa using hd
  simp only [write, he, Bool.false_eq_true, if_false, List.take_of_length_le h,
    List.drop_of_length_le (Nat.le_trans h (Nat.le_add_right _ _)), List.append_nil]

theorem write_end {z : α} {f : SeekFile α} (d : List α) (h : f.pos = f.bytes.length) :
    f.write z d = ⟨f.bytes ++ d, f.pos + d.length⟩ := by
  by_cases hd : d = []
  · subst d
    rw [write_nil]
    exact SeekFile.ext (by simp) (by simp)
  · rw [write_beyond hd h.ge, h, Nat.sub_self, List.replicate_zero, List.append_nil]

theorem write_write {z : α} {f : SeekFile α} (h : f.bytes.length ≤ f.pos) (d e : List α) :
    (f.write z d).write z e = f.write z (d ++ e) := by
  by_cases hd : d = []
  · simp [hd]
  · have hde : d ++ e ≠ [] := by simp [hd]
    have hpos : (f.write z d).pos = (f.write z d).bytes.length := by
      rw [write_beyond hd h]
      simp
      omega
    rw [write_end e hpos, write_beyond hd h, write_beyond hde h]
    refine SeekFile.ext (by simp) ?_
    simp
    omega

theorem write_inside {z : α} {d : List α} {f : SeekFile α} (h : f.pos + d.length ≤ f.bytes.length) :
    (f.write z d).bytes = f.bytes.take f.pos ++ d ++ f.bytes.drop (f.pos + d.length) := by
  by_cases hd : d = []
  · simp [hd]
  · have he : d.isEmpty = false := by simpa using hd
    have hg : f.pos - f.bytes.length = 0 := by omega
    simp only [write, he, Bool.false_eq_true, if_false, hg, List.replicate_zero, List.append_nil]

end SeekFile
