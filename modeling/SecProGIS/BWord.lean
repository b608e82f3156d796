import SecProGIS.Bytes
import SecProGIS.Lib.Hex

/-! `BASE_WORD` of `BWord.cpp`, the heap string with a length, and
`sprint_hex`. -/

namespace SecProGIS

/-- `BASE_WORD`: the heap block `content` points to, or NULL, and the length. -/
structure BaseWord where
  content : Option Bytes
  len : Int
deriving DecidableEq

namespace BaseWord

def empty : BaseWord := ⟨none, 0⟩

def isempty (w : BaseWord) : Int :=
  if w.len ≤ 0 then
    if w.content = none then 0 else -1
  else if w.content = none then -2
  else 1

/-- A new block of `len + 3` bytes, zeroed, with `len` bytes copied into it. -/
def block (src : Bytes) (len : Nat) : Bytes := src.takeD len 0 ++ [0, 0, 0]

/-- `read_in`; the source returns the new `len`. -/
def readIn (src : Option Bytes) (l : Int) : BaseWord :=
  if l ≤ 0 then ⟨none, 0⟩
  else
    match src with
    | none => ⟨none, 0⟩
    | some b => ⟨some (block b l.toNat), l⟩

def copy (src : BaseWord) : BaseWord :=
  if src.isempty = 1 then ⟨src.content.map fun b => block b src.len.toNat, src.len⟩
  else ⟨none, 0⟩

/-- `get_cont(dest)`: copy all `len` bytes. -/
def getContTo {n : Nat} (w : BaseWord) (dest : Vector u8 n) : Int × Vector u8 n :=
  if w.isempty ≠ 1 then (-1, dest)
  else (0, blit dest 0 ((w.content.getD []).take w.len.toNat))

/-- `get_cont(dest, maxlen)`: copy at most `maxlen` bytes. -/
def getContMax {n : Nat} (w : BaseWord) (dest : Vector u8 n) (maxlen : Int) : Int × Vector u8 n :=
  if w.isempty ≠ 1 then (-1, dest)
  else
    let maxlen := if maxlen < w.len then maxlen else w.len
    (0, blit dest 0 ((w.content.getD []).take maxlen.toNat))

/-- The text `get_cont()` points to, up to its terminator; NULL has none. -/
def text (w : BaseWord) : Bytes := cstr (w.content.getD [])

def Holds (w : BaseWord) (b : Bytes) : Prop :=
  w = ⟨some (b ++ [0, 0, 0]), b.length⟩ ∧ b ≠ []

theorem readIn_holds {b c : Bytes} (hb : b ≠ []) : (readIn (some (b ++ c)) b.length).Holds b := by
  have hpos : ¬ (b.length : Int) ≤ 0 := by
    have := List.length_pos_of_ne_nil hb
    omega
  refine ⟨?_, hb⟩
  rw [readIn, if_neg hpos]
  simp [block, List.takeD_eq_take]

theorem isempty_eq_one {w : BaseWord} : w.isempty = 1 ↔ 0 < w.len ∧ w.content ≠ none := by
  unfold isempty
  split_ifs <;> simp_all

theorem copy_isempty {w : BaseWord} (h : w.isempty = 1) : w.copy.isempty = 1 := by
  have hw := isempty_eq_one.mp h
  rw [copy, if_pos h, isempty_eq_one]
  exact ⟨hw.1, by simpa using hw.2⟩

theorem readIn_readIn (src : Option Bytes) (l : Int) :
    readIn (readIn src l).content (readIn src l).len = readIn src l := by
  by_cases hl : l ≤ 0
  · simp [readIn, hl]
  · cases src with
    | none => simp [readIn, hl]
    | some b =>
      have hlen : (b.takeD l.toNat 0).length = l.toNat := List.takeD_length _ _ _
      have hblock : block (block b l.toNat) l.toNat = block b l.toNat := by
        have h := List.takeD_left (b.takeD l.toNat 0) [0, 0, 0] 0
        rw [hlen] at h
        rw [block, block, h]
      simp [readIn, hl, hblock]

theorem readIn_len {b : Bytes} {l : Int} (h : 0 < l) : (readIn (some b) l).len = l := by
  simp [readIn, not_le.mpr h]

section

variable {w : BaseWord} {b : Bytes}

theorem Holds.isempty_eq (h : w.Holds b) : w.isempty = 1 := by
  obtain ⟨rfl, hb⟩ := h
  have hpos := List.length_pos_of_ne_nil hb
  simp [isempty, hb]

theorem Holds.copy_eq (h : w.Holds b) : w.copy = w := by
  obtain ⟨hw, hb⟩ := h
  have he := Holds.isempty_eq ⟨hw, hb⟩
  rw [copy, if_pos he, hw]
  simp [block, List.takeD_eq_take]

theorem Holds.text_eq (h : w.Holds b) (hb : ∀ c ∈ b, c ≠ 0) : w.text = b := by
  rw [text, h.1, Option.getD_some, cstr_append_zero hb]

theorem Holds.getContTo_eq {n : Nat} (h : w.Holds b) (hn : b.length = n) (dest : Vector u8 n) :
    (w.getContTo dest).1 = 0 ∧ (w.getContTo dest).2.toList = b := by
  have he := h.isempty_eq
  rw [getContTo, if_neg (by simp [he]), h.1]
  refine ⟨rfl, ?_⟩
  rw [blit_toList (by simp [hn])]
  simp [hn]

end

end BaseWord

/-- `sprint_hex` on the first `maxlen` bytes of `src`: each `sprintf_s` writes
two digits and a terminator. -/
def sprintHex {n : Nat} (src : Bytes) (maxlen : Nat) (dest : Vector u8 n) : Vector u8 n :=
  Nat.fold maxlen (fun i _ dest => blit dest (2 * i) (Hex.pair (src.getD i 0) ++ [0])) dest

theorem sprintHex_turn {n i : Nat} {src : Bytes} {d : Vector u8 n} (hsrc : i < src.length)
    (hn : 2 * i + 3 ≤ n) (hd : d.toList.take (2 * i) = Hex.text (src.take i)) :
    (blit d (2 * i) (Hex.pair (src.getD i 0) ++ [0])).toList.take (2 * i + 3) =
      Hex.text (src.take (i + 1)) ++ [0] := by
  have hlen : (d.toList.take (2 * i)).length = 2 * i := by simp; omega
  have hget : src[i]? = some (src.getD i 0) := by
    rw [List.getD_eq_getElem?_getD, List.getElem?_eq_getElem hsrc]
    rfl
  have hcount : 2 * i + 3 - 2 * i = 3 := by omega
  rw [blit_toList (by simp [Hex.pair]; omega), List.append_assoc, List.take_append, hlen,
    List.take_of_length_le (by omega), hcount, List.take_add_one (l := src), hget,
    Hex.text_append, ← hd]
  simp only [List.append_assoc]
  rfl

theorem sprintHex_take {n : Nat} {src : Bytes} {maxlen : Nat} (dest : Vector u8 n)
    (hpos : 0 < maxlen) (hsrc : maxlen ≤ src.length) (hn : 2 * maxlen < n) :
    (sprintHex src maxlen dest).toList.take (2 * maxlen + 1) =
      Hex.text (src.take maxlen) ++ [0] := by
  -- the terminator stands behind the last digits, from the first turn on
  let I := fun (i : Nat) (d : Vector u8 n) => d.toList.take (2 * i) = Hex.text (src.take i) ∧
    (0 < i → d.toList.take (2 * i + 1) = Hex.text (src.take i) ++ [0])
  have hstart : I 0 dest := ⟨by simp, fun h => absurd h (by decide)⟩
  have hturn : ∀ i (_ : i < maxlen) d, I i d →
      I (i + 1) (blit d (2 * i) (Hex.pair (src.getD i 0) ++ [0])) := by
    intro i h d hd
    have htake := sprintHex_turn (by omega : i < src.length) (by omega : 2 * i + 3 ≤ n) hd.1
    have hdigits : (Hex.text (src.take (i + 1))).length = 2 * i + 2 := by
      rw [Hex.text_length, List.length_take]
      omega
    have hshort := congrArg (List.take (2 * i + 2)) htake
    rw [List.take_take, Nat.min_eq_left (by omega), List.take_left' hdigits] at hshort
    exact ⟨hshort, fun _ => htake⟩
  exact (fold_invariant I hstart hturn).2 hpos

theorem cstr_sprintHex {n : Nat} {src : Bytes} {maxlen : Nat} (h : src.length = maxlen)
    (hpos : 0 < maxlen) (hn : 2 * maxlen < n) :
    cstr (sprintHex src maxlen (Vector.replicate n (0 : u8))).toList = Hex.text src := by
  have htake := sprintHex_take (Vector.replicate n (0 : u8)) hpos h.ge hn
  rw [List.take_of_length_le (i := maxlen) h.le] at htake
  rw [← List.take_append_drop (2 * maxlen + 1)
    (sprintHex src maxlen (Vector.replicate n (0 : u8))).toList, htake, List.append_assoc]
  exact cstr_append_zero (fun _ => Hex.ne_zero_of_mem) _

end SecProGIS
