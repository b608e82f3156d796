import SecProGIS.INTmysql
import SecProGIS.Lib.EventLoop

/-! `_TABLE` over its whole life: every sequence of appends, clears and queries
leaves the rows since the last clear, in the order they came. -/

namespace SecProGIS

theorem wrapIndex_eq_emod (i : Int) {size : Nat} (h : 0 < size) :
    wrapIndex i size = (i % size).toNat := by
  have hlow := Int.lt_tmod_of_pos i (by omega : (0 : Int) < size)
  have hmod : (i.tmod size + size) % size = i % size := by
    rw [Int.add_emod_right, Int.tmod_def, Int.sub_mul_emod_self_left]
  rw [wrapIndex, Int.tmod_eq_emod_of_nonneg (by omega), hmod]

/-- No sum on the way to an index leaves the range of `int`. -/
theorem wrapIndex_fits (i : Int) {size : Nat} (h : 0 < size) (hsize : size ≤ 2 ^ 30) :
    0 ≤ i.tmod size + size ∧ i.tmod size + size < 2 ^ 31 := by
  have hlow := Int.lt_tmod_of_pos i (by omega : (0 : Int) < size)
  have hhigh := Int.tmod_lt_of_pos i (by omega : (0 : Int) < size)
  omega

def Cell.HeldBy (w : BaseWord) : Cell → Prop
  | none => w = .empty
  | some b => if b = [] then w = .empty else w.Holds b

theorem Cell.heldBy_readCell {c : Cell} (h : ∀ b ∈ c, ∀ x ∈ b, x ≠ 0) :
    c.HeldBy (TRow.readCell c) := by
  cases c with
  | none => rfl
  | some b =>
    have hself : cstr b = b := cstr_eq (h b rfl)
    rw [HeldBy]
    split
    · rename_i hnil
      exact TRow.readCell_of_cstr_eq_nil (by rw [hnil]; rfl)
    · rename_i hne
      have hheld := TRow.readCell_holds_cstr (b := b) (by rwa [hself])
      rwa [hself] at hheld

namespace Table

def clear (_ : Table) : Table := ⟨[], 0⟩

def appendRet (t : Table) (src : List Cell) : Int × Table := (0, t.append src)

/-- The loop over `mysql_fetch_row`, on the rows that are left. -/
def fetch (t : Table) : List (List Cell) → Int × Table
  | [] => (0, t)
  | row :: rows =>
    let r := t.appendRet row
    if r.1 ≠ 0 then (-5, r.2) else r.2.fetch rows

theorem fetch_eq (t : Table) (rows : List (List Cell)) : t.fetch rows = (0, t.appendAll rows) := by
  induction rows generalizing t with
  | nil => rfl
  | cons row rows ih =>
    rw [fetch]
    exact ih _

end Table

/-- The second `exec_query_mysql` from `mysql_store_result` on. That can give
NULL, of which `mysql_fetch_row` is not documented to make anything. -/
def execQueryMysqlStored (c : Call) (res : Option (List (List Cell))) (t : Table) :
    Option (Int × Table) :=
  if c.code ≠ 0 then some (c.code, t) else res.map t.fetch

theorem execQueryMysqlStored_some (c : Call) (result : List (List Cell)) (t : Table) :
    execQueryMysqlStored c (some result) t = some (execQueryMysqlInto c result t) := by
  rw [execQueryMysqlStored, execQueryMysqlInto, Option.map_some, Table.fetch_eq]
  by_cases hc : c.code = 0
  · rw [if_neg (not_not.mpr hc), if_pos hc, hc]
  · rw [if_pos hc, if_neg hc]

theorem execQueryMysqlStored_result {c : Call} {res : Option (List (List Cell))} {t t' : Table}
    {code : Int} (h : execQueryMysqlStored c res t = some (code, t')) :
    if code = 0 then ∃ result, res = some result ∧ t'.size = t.size + result.length ∧
      t'.rows.reverse = t.rows.reverse ++ result.map TRow.readIn
    else t' = t := by
  rw [execQueryMysqlStored] at h
  by_cases hc : c.code = 0
  · rw [if_neg (not_not.mpr hc)] at h
    obtain ⟨result, rfl, hfetch⟩ := Option.map_eq_some_iff.mp h
    rw [Table.fetch_eq] at hfetch
    obtain ⟨rfl, rfl⟩ := Prod.mk.inj hfetch
    rw [if_pos rfl, Table.appendAll_eq]
    exact ⟨result, rfl, rfl, by simp⟩
  · rw [if_pos hc] at h
    obtain ⟨rfl, rfl⟩ := Prod.mk.inj (Option.some.inj h)
    rw [if_neg hc]

inductive TableOp where
  | append (src : List Cell)
  | clear
  | query (c : Call) (res : Option (List (List Cell)))

/-- One operation; a result means that the program ends. -/
def Table.step (t : Table) : TableOp → Table × Option Unit
  | .append src => (t.append src, none)
  | .clear => (t.clear, none)
  | .query c res =>
    match execQueryMysqlStored c res t with
    | none => (t, some ())
    | some r => (r.2, none)

def seeRows (rows : List (List Cell)) (_ : Table) : TableOp → List (List Cell)
  | .append src => rows ++ [src]
  | .clear => []
  | .query c res => if c.code = 0 then rows ++ res.getD [] else rows

namespace Table

/-- The chain holds the rows from the newest to the oldest. -/
structure Holds (t : Table) (rows : List (List Cell)) : Prop where
  rows_eq : t.rows = (rows.map TRow.readIn).reverse
  size_eq : t.size = rows.length

variable {t : Table} {rows : List (List Cell)}

theorem Holds.appendAll (h : t.Holds rows) (result : List (List Cell)) :
    (t.appendAll result).Holds (rows ++ result) := by
  rw [appendAll_eq]
  exact ⟨by simp [h.rows_eq], by simp [h.size_eq]⟩

theorem Holds.step (h : t.Holds rows) (op : TableOp) : (t.step op).1.Holds (seeRows rows t op) := by
  cases op with
  | append src => exact h.appendAll [src]
  | clear => exact ⟨rfl, rfl⟩
  | query c res =>
    cases res with
    | none =>
      have hsame : seeRows rows t (.query c none) = rows := by
        simp [seeRows]
      rw [hsame, Table.step, execQueryMysqlStored]
      by_cases hc : c.code = 0 <;> simpa [hc] using h
    | some result =>
      rw [Table.step, execQueryMysqlStored_some, seeRows]
      by_cases hc : c.code = 0
      · simp only [execQueryMysqlInto, hc, if_true]
        exact h.appendAll result
      · simpa only [execQueryMysqlInto, hc, if_false] using h

theorem Holds.get_eq (h : t.Holds rows) (hpos : 0 < t.size) (i : Int) :
    ∃ row, rows[(i % t.size).toNat]? = some row ∧ t.get i = some (TRow.readIn row) := by
  have hlow := Int.emod_nonneg i (by omega : (t.size : Int) ≠ 0)
  have hhigh := Int.emod_lt_of_pos i (by omega : (0 : Int) < t.size)
  have hlt : (i % t.size).toNat < rows.length := by
    rw [← h.size_eq]
    omega
  have hback : rows.length - 1 - (rows.length - 1 - (i % t.size).toNat) = (i % t.size).toNat := by
    omega
  refine ⟨rows[(i % t.size).toNat], List.getElem?_eq_getElem hlt, ?_⟩
  rw [get, if_neg (by omega), wrapIndex_eq_emod i hpos, h.rows_eq,
    List.getElem?_reverse (by rw [List.length_map, h.size_eq]; omega), List.length_map]
  simp only [h.size_eq] at hback hlt ⊢
  rw [hback, List.getElem?_map, List.getElem?_eq_getElem hlt, Option.map_some]

end Table

/-- After every run a table gives its rows back in the order they came, at every
index; a query appends its whole result or changes nothing. -/
theorem table_rows_in_order (ops : List TableOp) :
    let r := (EventLoop.loop (EventLoop.watched Table.step seeRows) (Table.empty, []) ops).1
    let t := r.1
    let rows := r.2
    t.rows.length = t.size ∧ t.size = rows.length ∧
    (∀ i : Int, 0 < t.size → t.size ≤ 2 ^ 30 →
      (0 ≤ i.tmod t.size + t.size ∧ i.tmod t.size + t.size < 2 ^ 31) ∧
      ∃ row, rows[(i % t.size).toNat]? = some row ∧ t.get i = some (TRow.readIn row)) ∧
    (∀ row ∈ rows, ∀ (j : Nat) (c : Cell), row[j]? = some c → (∀ b ∈ c, ∀ x ∈ b, x ≠ 0) →
      ∃ w, (TRow.readIn row).get j = some w ∧ c.HeldBy w) ∧
    ∀ c res code t', execQueryMysqlStored c res t = some (code, t') →
      if code = 0 then ∃ result, res = some result ∧ t'.size = t.size + result.length ∧
        t'.rows.reverse = t.rows.reverse ++ result.map TRow.readIn
      else t' = t := by
  intro r t rows
  have hstep : ∀ (p : Table × List (List Cell)) (op : TableOp), p.1.Holds p.2 →
      (EventLoop.watched Table.step seeRows p op).1.1.Holds
        (EventLoop.watched Table.step seeRows p op).1.2 :=
    fun _ op hp => hp.step op
  have hstart : Table.empty.Holds [] := ⟨rfl, rfl⟩
  have hrun : t.Holds rows := EventLoop.loop_invariant
    (I := fun p : Table × List (List Cell) => p.1.Holds p.2) hstep (s := (Table.empty, [])) hstart
    ops
  refine ⟨?_, hrun.size_eq, ?_, ?_, ?_⟩
  · rw [hrun.rows_eq, hrun.size_eq]
    simp
  · intro i hpos hsize
    exact ⟨wrapIndex_fits i hpos hsize, hrun.get_eq hpos i⟩
  · intro row _ j c hj hc
    obtain ⟨hlt, rfl⟩ := List.getElem?_eq_some_iff.mp hj
    exact ⟨_, TRow.readIn_get hlt, Cell.heldBy_readCell hc⟩
  · exact fun c res code t' hquery => execQueryMysqlStored_result hquery

end SecProGIS
