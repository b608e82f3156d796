import SecProGIS.DBTable

/-! The constructors of `T_ROW` in memory that holds anything. The one from an
array takes the size `read_in` returns for a failure, and the copy of an empty
row sets no member. -/

namespace SecProGIS

/-- What the member `cell` points to: nothing, an array of its own, or an
address that memory happened to hold. -/
inductive CellPtr where
  | null
  | owned (cells : List BaseWord)
  | wild
deriving DecidableEq

structure RawRow where
  cell : CellPtr
  size : Int
deriving DecidableEq

def fillCells (f : Nat → Option BaseWord) : Nat → Option (List BaseWord)
  | 0 => some []
  | n + 1 => do
    let cells ← fillCells f n
    let cell ← f n
    return cells ++ [cell]

namespace RawRow

/-- `T_ROW()`. -/
def default : RawRow := ⟨.null, 0⟩

def isempty (r : RawRow) : Int :=
  if r.size ≤ 0 then
    if r.cell = .null then 0 else -1
  else if r.cell = .null then -2
  else 1

/-- `clear()`; no result is a `delete[]` of a wild address. -/
def clear (r : RawRow) : Option RawRow :=
  match r.cell with
  | .null | .owned _ => some ⟨.null, 0⟩
  | .wild => none

/-- `read_in(src, _size)`, which returns the size; the array has the strings of
the list. -/
def readIn (r : RawRow) (src : Option (List Cell)) (size : Int) : Option (Int × RawRow) :=
  if size ≤ 0 then some (0, ⟨.null, 0⟩)
  else
    match src with
    | none => some (0, ⟨.null, 0⟩)
    | some src => do
      let _ ← r.clear
      let cells ← fillCells (fun i => src[i]?.map TRow.readCell) size.toNat
      return (size, ⟨.owned cells, size⟩)

def get (r : RawRow) (i : Int) : Option BaseWord :=
  match r.cell with
  | .owned cells => if r.size = 0 then none else cells[wrapIndex i r.size.toNat]?
  | _ => none

/-- `T_ROW(src, _size)` in memory that holds `mem`. -/
def ofArray (mem : RawRow) (src : Option (List Cell)) (size : Int) : Option RawRow := do
  let r ← mem.readIn src size
  if r.1 ≠ 0 then return ⟨.null, 0⟩ else return r.2

/-- `T_ROW(src_ob)` in memory that holds `mem`. -/
def ofRow (mem src : RawRow) : Option RawRow :=
  if src.isempty = 1 then do
    let cells ← fillCells (fun i => (src.get i).map BaseWord.copy) src.size.toNat
    return ⟨.owned cells, src.size⟩
  else some mem

end RawRow

def BaseWord.Made (w : BaseWord) : Prop := w = .empty ∨ ∃ b, w.Holds b

/-- A row as its operations leave it: an empty one has no array. -/
structure Row where
  cells : List BaseWord
  made : ∀ w ∈ cells, w.Made

def Row.raw (r : Row) : RawRow :=
  if r.cells = [] then .default else ⟨.owned r.cells, r.cells.length⟩

theorem BaseWord.Made.copy_eq {w : BaseWord} (h : w.Made) : w.copy = w := by
  rcases h with rfl | ⟨b, hb⟩
  · rfl
  · exact hb.copy_eq

theorem TRow.readCell_made (c : Cell) : (readCell c).Made := by
  by_cases h : cstr (c.getD []) = []
  · exact .inl (readCell_of_cstr_eq_nil h)
  · cases c with
    | none => exact absurd rfl h
    | some b => exact .inr ⟨_, readCell_holds_cstr h⟩

def Row.ofStrings (src : List Cell) : Row where
  cells := (TRow.readIn src).cell
  made w hw := by
    obtain ⟨c, _, rfl⟩ := List.mem_map.mp hw
    exact TRow.readCell_made c

theorem fillCells_eq {α : Type*} {f : Nat → Option BaseWord} {g : α → BaseWord} {l : List α}
    (h : ∀ i (hi : i < l.length), f i = some (g l[i])) :
    fillCells f l.length = some (l.map g) := by
  have htake : ∀ n ≤ l.length, fillCells f n = some ((l.take n).map g) := by
    intro n hn
    induction n with
    | zero => rfl
    | succ n ih =>
      rw [fillCells, ih (by omega), h n hn, ← List.take_append_getElem hn, List.map_append]
      rfl
  have hall := htake l.length le_rfl
  rwa [List.take_length] at hall

namespace RawRow

theorem readIn_strings {mem r : RawRow} (hmem : mem.clear = some r) (src : List Cell) :
    mem.readIn (some src) src.length = some ((src.length : Int), (Row.ofStrings src).raw) := by
  cases src with
  | nil => rfl
  | cons c src =>
    have hfill : fillCells (fun i => (c :: src)[i]?.map TRow.readCell) (c :: src).length =
        some ((c :: src).map TRow.readCell) := by
      refine fillCells_eq fun i hi => ?_
      rw [List.getElem?_eq_getElem hi, Option.map_some]
    have hsize : ¬ ((c :: src).length : Int) ≤ 0 := by simp
    simp only [readIn, if_neg hsize, hmem, Option.bind_eq_bind, Option.bind_some,
      Int.toNat_natCast, hfill]
    simp [Row.raw, Row.ofStrings, TRow.readIn]

theorem ofArray_eq (mem : RawRow) (src : List Cell) : mem.ofArray (some src) src.length =
    if src = [] then some default else mem.clear.map fun _ => default := by
  cases src with
  | nil => rfl
  | cons c src =>
    rw [if_neg (List.cons_ne_nil c src)]
    cases hclear : mem.clear with
    | none =>
      have hsize : ¬ ((c :: src).length : Int) ≤ 0 := by simp
      simp only [ofArray, readIn, if_neg hsize, hclear]
      rfl
    | some r =>
      have hcode : ((c :: src).length : Int) ≠ 0 := Int.natCast_ne_zero.mpr (by simp)
      simp only [ofArray, readIn_strings hclear, Option.bind_eq_bind, Option.bind_some]
      rw [if_pos hcode]
      rfl

end RawRow

namespace Row

variable (r : Row)

theorem raw_isempty : r.raw.isempty = if r.cells = [] then 0 else 1 := by
  rw [raw]
  split
  · rfl
  · rename_i h
    simp [RawRow.isempty, h]

theorem raw_eq_default : r.raw = .default ↔ r.cells = [] := by
  rw [raw]
  split
  · rename_i h
    simp [h]
  · rename_i h
    simp [RawRow.default, h]

theorem ofRow_raw (mem : RawRow) :
    mem.ofRow r.raw = some (if r.cells = [] then mem else r.raw) := by
  rw [RawRow.ofRow, raw_isempty]
  by_cases h : r.cells = []
  · simp [h]
  · have hraw : r.raw = ⟨.owned r.cells, r.cells.length⟩ := if_neg h
    have hlen : (r.cells.length : Int) ≠ 0 := by simpa using h
    have hfill : fillCells (fun i => (r.raw.get i).map BaseWord.copy) r.cells.length =
        some (r.cells.map id) := by
      refine fillCells_eq fun i hi => ?_
      have hcopy : r.cells[i].copy = r.cells[i] := (r.made _ (List.getElem_mem hi)).copy_eq
      rw [hraw, RawRow.get]
      simp only [if_neg hlen, Int.toNat_natCast]
      rw [wrapIndex_of_lt hi, List.getElem?_eq_getElem hi, Option.map_some, hcopy]
      rfl
    rw [List.map_id] at hfill
    simp only [if_neg h, if_true, hraw, Int.toNat_natCast, Option.bind_eq_bind] at hfill ⊢
    rw [hfill]
    rfl

end Row

def RawRow.Sound (r : RawRow) : Prop := r.isempty = 0 ∨ r.isempty = 1

/-- The row from an array is the one `read_in` makes of a row without cells. -/
def ArrayAgrees (mem : RawRow) (src : List Cell) : Prop :=
  ∃ row code, mem.ofArray (some src) src.length = some row ∧
    RawRow.default.readIn (some src) src.length = some (code, row) ∧ row.Sound

def CopyAgrees (mem : RawRow) (r : Row) : Prop := mem.ofRow r.raw = some r.raw ∧ r.raw.Sound

/-- The row from an array is right exactly when the array is empty, and a copy
exactly when the row is not empty or memory happened to hold an empty one. -/
theorem row_construct_iff (mem : RawRow) (src : List Cell) (r : Row) :
    (ArrayAgrees mem src ↔ src = []) ∧ (CopyAgrees mem r ↔ r.cells ≠ [] ∨ mem = .default) := by
  have hread : RawRow.default.readIn (some src) src.length =
      some ((src.length : Int), (Row.ofStrings src).raw) := RawRow.readIn_strings rfl src
  constructor
  · constructor
    · rintro ⟨row, code, hrow, hcode, _⟩
      by_contra hsrc
      rw [RawRow.ofArray_eq, if_neg hsrc, Option.map_eq_some_iff] at hrow
      obtain ⟨_, _, rfl⟩ := hrow
      rw [hread, Option.some.injEq, Prod.mk.injEq, Row.raw_eq_default] at hcode
      exact hsrc (List.map_eq_nil_iff.mp hcode.2)
    · rintro rfl
      exact ⟨.default, 0, rfl, rfl, .inl rfl⟩
  · have hsound : r.raw.Sound := by
      rw [RawRow.Sound, Row.raw_isempty]
      split <;> simp
    rw [CopyAgrees, Row.ofRow_raw, and_iff_left hsound]
    by_cases h : r.cells = []
    · have hraw : r.raw = .default := r.raw_eq_default.mpr h
      simp [h, hraw]
    · simp [h]

/-- A row of one string comes out empty, and the copy of an empty row has what
memory held. -/
theorem row_construct_wrong :
    ¬ ArrayAgrees .default [some (ascii "7")] ∧ ¬ CopyAgrees ⟨.wild, 5⟩ ⟨[], by simp⟩ := by
  constructor
  · rintro ⟨row, code, hrow, hcode, _⟩
    have hne : RawRow.default.ofArray (some [some (ascii "7")]) (1 : Nat) ≠
        (RawRow.default.readIn (some [some (ascii "7")]) (1 : Nat)).map Prod.snd := by decide
    exact hne (hrow.trans (congrArg (Option.map Prod.snd) hcode).symm)
  · rintro ⟨hcopy, _⟩
    exact absurd hcopy (by decide)

end SecProGIS
