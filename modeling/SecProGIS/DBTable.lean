import SecProGIS.BWord

/-! `T_ROW` and `_TABLE` of `DBTable.cpp`: the rows are a linked list with the
newest row at its head, and the index counts from its end. -/

namespace SecProGIS

abbrev Cell := Option Bytes

/-- `((i % size) + size) % size` with the remainder of C. -/
def wrapIndex (i : Int) (size : Nat) : Nat := ((i.tmod size + size).tmod size).toNat

theorem wrapIndex_of_lt {i size : Nat} (h : i < size) : wrapIndex i size = i := by
  have h1 : ((i : Int)).tmod size = i := Int.tmod_eq_of_lt (by omega) (by omega)
  have h2 : ((i + size : Int)).tmod size = i := by
    rw [Int.tmod_eq_emod_of_nonneg (by omega), Int.add_emod_right, Int.emod_eq_of_lt] <;> omega
  rw [wrapIndex, h1, h2, Int.toNat_natCast]

structure TRow where
  cell : List BaseWord
deriving DecidableEq

namespace TRow

def readCell (c : Cell) : BaseWord := BaseWord.readIn c (cstr (c.getD [])).length

def readIn (src : List Cell) : TRow := ⟨src.map readCell⟩

def getSize (r : TRow) : Nat := r.cell.length

/-- `operator []`; a row without cells divides by zero. -/
def get (r : TRow) (i : Int) : Option BaseWord :=
  if r.getSize = 0 then none else r.cell[wrapIndex i r.getSize]?

@[simp] theorem readIn_getSize (src : List Cell) : (readIn src).getSize = src.length := by
  simp [readIn, getSize]

theorem readIn_get {src : List Cell} {i : Nat} (h : i < src.length) :
    (readIn src).get i = some (readCell src[i]) := by
  rw [get, readIn_getSize, if_neg (by omega), wrapIndex_of_lt h]
  simp [readIn, h]

theorem readCell_holds_cstr {b : Bytes} (h : cstr b ≠ []) :
    (readCell (some b)).Holds (cstr b) := by
  have hr := BaseWord.readIn_holds (c := b.dropWhile (· ≠ 0)) h
  have hb : cstr b ++ b.dropWhile (· ≠ 0) = b := List.takeWhile_append_dropWhile
  rw [hb] at hr
  exact hr

theorem readCell_of_cstr_eq_nil {c : Cell} (h : cstr (c.getD []) = []) : readCell c = .empty := by
  rw [readCell, h]
  rfl

theorem readCell_text (c : Cell) : (readCell c).text = cstr (c.getD []) := by
  by_cases h : cstr (c.getD []) = []
  · rw [readCell_of_cstr_eq_nil h, h]
    rfl
  · obtain ⟨b, rfl⟩ : ∃ b, c = some b := by
      cases c with
      | none => exact absurd rfl h
      | some b => exact ⟨b, rfl⟩
    refine (readCell_holds_cstr h).text_eq fun x hx => ?_
    simpa using List.mem_takeWhile_imp hx

end TRow

/-- `_TABLE`, with the list that starts at the node `rows`. -/
structure Table where
  rows : List TRow
  size : Nat
deriving DecidableEq

namespace Table

def empty : Table := ⟨[], 0⟩

def getSize (t : Table) : Nat := t.size

def append (t : Table) (src : List Cell) : Table := ⟨TRow.readIn src :: t.rows, t.size + 1⟩

def get (t : Table) (i : Int) : Option TRow :=
  if t.size = 0 then none else t.rows[t.size - 1 - wrapIndex i t.size]?

def appendAll (t : Table) (result : List (List Cell)) : Table := result.foldl append t

theorem appendAll_eq (t : Table) (result : List (List Cell)) :
    t.appendAll result =
      ⟨(result.map TRow.readIn).reverse ++ t.rows, t.size + result.length⟩ := by
  induction result generalizing t with
  | nil => simp [appendAll]
  | cons r result ih =>
    have hcons : t.appendAll (r :: result) = (t.append r).appendAll result := rfl
    rw [hcons, ih]
    simp [append, Nat.add_assoc, Nat.add_comm 1]

@[simp] theorem appendAll_getSize (result : List (List Cell)) :
    (empty.appendAll result).getSize = result.length := by
  rw [appendAll_eq]
  simp [getSize, empty]

theorem appendAll_get {result : List (List Cell)} {i : Nat} (h : i < result.length) :
    (empty.appendAll result).get i = some (TRow.readIn result[i]) := by
  have hidx : result.length - 1 - (result.length - 1 - i) = i := by omega
  rw [appendAll_eq, get]
  simp only [empty, Nat.zero_add, List.append_nil]
  rw [if_neg (by omega), wrapIndex_of_lt h, List.getElem?_reverse (by simp; omega)]
  simp [hidx, h]

end Table

end SecProGIS
