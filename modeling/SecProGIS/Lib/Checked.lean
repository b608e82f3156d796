import Mathlib

/-! Buffers with checked accesses: a read or a write outside the buffer has no
result, so that a result means that every access was inside. -/

namespace Checked

variable {α : Type*}

def read (b : List α) (i : Nat) : Option α := b[i]?

def write (b : List α) (i : Nat) (x : α) : Option (List α) :=
  if i < b.length then some (b.set i x) else none

def readN (b : List α) : Nat → Nat → Option (List α)
  | _, 0 => some []
  | i, n + 1 => do
    let x ← read b i
    let xs ← readN b (i + 1) n
    return x :: xs

def writeN (b : List α) (i : Nat) : List α → Option (List α)
  | [] => some b
  | x :: xs => do
    let b ← write b i x
    writeN b (i + 1) xs

def copyN (src : List α) : Nat → Nat → List α → Option (List α)
  | _, 0, dst => some dst
  | i, n + 1, dst => do
    let x ← read src i
    let dst ← write dst i x
    copyN src (i + 1) n dst

/-- The buffer with the elements from `i` on replaced by `d`. -/
def splice (b : List α) (i : Nat) (d : List α) : List α := b.take i ++ d ++ b.drop (i + d.length)

variable {b : List α} {i n : Nat}

theorem splice_length {d : List α} (h : i + d.length ≤ b.length) :
    (splice b i d).length = b.length := by
  simp only [splice, List.length_append, List.length_take, List.length_drop]
  omega

@[simp] theorem splice_nil (b : List α) (i : Nat) : splice b i [] = b := by simp [splice]

theorem splice_all {d : List α} (h : d.length = b.length) : splice b 0 d = d := by
  simp [splice, h]

theorem splice_splice {d e : List α} (h : i + d.length ≤ b.length) :
    splice (splice b i d) (i + d.length) e = splice b i (d ++ e) := by
  have hfront : (b.take i ++ d).length = i + d.length := by
    rw [List.length_append, List.length_take, Nat.min_eq_left (by omega)]
  have hback : (splice b i d).drop (i + d.length + e.length) =
      b.drop (i + (d.length + e.length)) := by
    rw [splice, List.drop_append, hfront, List.drop_of_length_le (by omega), List.drop_drop,
      List.nil_append, Nat.add_sub_cancel_left, Nat.add_assoc]
  rw [splice, hback, splice, List.take_left' hfront, splice, List.length_append,
    ← List.append_assoc]

theorem write_eq {x : α} (h : i < b.length) : write b i x = some (splice b i [x]) := by
  rw [write, if_pos h, splice, List.set_eq_take_append_cons_drop, if_pos h]
  simp

theorem readN_eq (h : i + n ≤ b.length) : readN b i n = some ((b.drop i).take n) := by
  induction n generalizing i with
  | zero => rfl
  | succ n ih =>
    have hi : i < b.length := by omega
    rw [readN, ih (by omega), read, List.getElem?_eq_getElem hi, List.drop_eq_getElem_cons hi]
    rfl

theorem writeN_eq {d : List α} (h : i + d.length ≤ b.length) :
    writeN b i d = some (splice b i d) := by
  induction d generalizing b i with
  | nil => simp [writeN]
  | cons x d ih =>
    simp only [List.length_cons] at h
    have hone : i + [x].length ≤ b.length := by
      simp only [List.length_singleton]
      omega
    have hrest : i + 1 + d.length ≤ (splice b i [x]).length := by
      rw [splice_length hone]
      omega
    rw [writeN, write_eq (by omega)]
    exact (ih hrest).trans (congrArg some (splice_splice hone))

theorem copyN_eq {src : List α} (hsrc : i + n ≤ src.length) (h : i + n ≤ b.length) :
    copyN src i n b = some (splice b i ((src.drop i).take n)) := by
  induction n generalizing b i with
  | zero => simp [copyN]
  | succ n ih =>
    have hi : i < src.length := by omega
    have hone : i + [src[i]].length ≤ b.length := by
      simp only [List.length_singleton]
      omega
    have hrest : i + 1 + n ≤ (splice b i [src[i]]).length := by
      rw [splice_length hone]
      omega
    have hcons : (src.drop i).take (n + 1) = [src[i]] ++ (src.drop (i + 1)).take n := by
      rw [List.drop_eq_getElem_cons hi]
      rfl
    have hwrite : write b i src[i] = some (splice b i [src[i]]) := write_eq (by omega)
    rw [copyN, read, List.getElem?_eq_getElem hi, hcons, ← splice_splice hone]
    simp only [Option.bind_eq_bind, Option.bind_some, hwrite]
    exact ih (by omega) hrest

def window (b : List α) (i n : Nat) : List α := (b.drop i).take n

theorem window_length (h : i + n ≤ b.length) : (window b i n).length = n := by
  rw [window, List.length_take, List.length_drop]
  omega

theorem window_getElem? (b : List α) (i n k : Nat) :
    (window b i n)[k]? = if k < n then b[i + k]? else none := by
  rw [window, List.getElem?_take, List.getElem?_drop]

theorem window_all (b : List α) : window b 0 b.length = b := by simp [window]

theorem window_cons (h : i < b.length) : window b i (n + 1) = b[i] :: window b (i + 1) n := by
  rw [window, List.drop_eq_getElem_cons h, List.take_succ_cons, window]

theorem window_append (b : List α) (i m n : Nat) :
    window b i (m + n) = window b i m ++ window b (i + m) n := by
  rw [window, window, window, List.take_add, List.drop_drop]

theorem splice_getElem? {d : List α} (h : i + d.length ≤ b.length) (j : Nat) :
    (splice b i d)[j]? = if i ≤ j ∧ j < i + d.length then d[j - i]? else b[j]? := by
  have hfront : (b.take i).length = i := by
    rw [List.length_take, Nat.min_eq_left (by omega)]
  rw [splice, List.append_assoc]
  by_cases h1 : j < i
  · rw [if_neg (by omega), List.getElem?_append_left (by omega), List.getElem?_take, if_pos h1]
  · rw [List.getElem?_append_right (by omega), hfront]
    by_cases h2 : j < i + d.length
    · rw [if_pos ⟨by omega, h2⟩, List.getElem?_append_left (by omega)]
    · rw [if_neg (by omega), List.getElem?_append_right (by omega), List.getElem?_drop]
      congr 1
      omega

theorem window_splice_same {d : List α} (hd : d.length = n) (h : i + n ≤ b.length) :
    window (splice b i d) i n = d := by
  subst hd
  apply List.ext_getElem?
  intro k
  rw [window_getElem?]
  by_cases hk : k < d.length
  · rw [if_pos hk, splice_getElem? h, if_pos (by omega), Nat.add_sub_cancel_left]
  · rw [if_neg hk, List.getElem?_eq_none (by omega)]

theorem window_splice_apart {d : List α} {j : Nat} (h : i + d.length ≤ b.length)
    (hj : j + n ≤ i ∨ i + d.length ≤ j) : window (splice b i d) j n = window b j n := by
  apply List.ext_getElem?
  intro k
  rw [window_getElem?, window_getElem?]
  by_cases hk : k < n
  · rw [if_pos hk, if_pos hk, splice_getElem? h, if_neg (by omega)]
  · rw [if_neg hk, if_neg hk]

theorem splice_overwrite {d e : List α} (he : d.length ≤ e.length)
    (h : i + e.length ≤ b.length) : splice (splice b i d) i e = splice b i e := by
  have hd : i + d.length ≤ b.length := by omega
  apply List.ext_getElem?
  intro j
  rw [splice_getElem? (by rw [splice_length hd]; exact h), splice_getElem? hd, splice_getElem? h]
  by_cases hj : i ≤ j ∧ j < i + e.length
  · rw [if_pos hj, if_pos hj]
  · rw [if_neg hj, if_neg hj, if_neg (by omega)]

end Checked
