import SecProGIS.ServiceTable

/-! `store()` keys the rows on the cipher digest alone, `restore()` looks them
up by digest and organisation: only the last organisation to store a digest
finds it again. -/

namespace SecProGIS

open Storing

theorem find?_of_imp {α : Type*} {p q : α → Bool} (hqp : ∀ a, q a = true → p a = true) {a : α}
    {xs : List α} (h : xs.find? p = some a) (ha : q a = true) : xs.find? q = some a := by
  induction xs with
  | nil => simp at h
  | cons x xs ih =>
    by_cases hp : p x = true
    · have hx : x = a := by simpa [List.find?_cons_of_pos hp] using h
      rw [hx, List.find?_cons_of_pos ha]
    · have hq : ¬ q x = true := fun hq => hp (hqp x hq)
      rw [List.find?_cons_of_neg hp] at h
      rw [List.find?_cons_of_neg hq]
      exact ih h

/-- The rows found for a digest and an organisation after a history of stores:
none, or the row of the last accepted store when that organisation made it. -/
theorem restoreRows_foldl (skTable : Bytes) {hist : List Storing} {db : Db Column}
    (hempty : db (cstr skTable) = []) (hcalls : ∀ r ∈ hist, r.sel.code = 0 ∧ r.wr.code = 0)
    (o : Int) (m : Bytes) :
    let rows := restoreRows skTable (hist.foldl (Storing.run skTable) db) o m
    let last := (made skTable hist).reverse.find? fun r => decide (r.digest = m)
    (last = none → rows = []) ∧
      ∀ r, last = some r →
        if r.serv.orgnization = o then
          ∃ row, rows = [row] ∧ row .md5P = some r.serv.md5Plaint.text ∧
            row .expire = some (Decimal.intText r.serv.expireT)
        else rows = [] := by
  intro rows last
  let puts := (made skTable hist).map fun r => (r.digest, r.values skTable)
  have hput := Rows.select_foldl_put (k := Column.md5C) m puts fun h hm => by
    obtain ⟨r, _, rfl⟩ := List.mem_map.mp hm
    exact KmServ.stored_lookup_md5C _ _
  have hlast : Rows.lastPut m puts = last.map (Storing.values skTable) := lastPut_eq skTable m _
  have hrows : rows = Rows.select [(Column.org, Decimal.intText o)]
      (Rows.select [(Column.md5C, m)] (puts.foldl (Rows.put Column.md5C) [])) := by
    simp only [rows, restoreRows]
    rw [Rows.select_and, foldl_run skTable hcalls, hempty]
  constructor
  · intro hnone
    rw [hrows, hput.1 (by rw [hlast, hnone]; rfl)]
    rfl
  · intro r hr
    obtain ⟨row, hsel, hval⟩ := hput.2 (r.values skTable) (by rw [hlast, hr]; rfl)
    have horg : row .org = some (Decimal.intText r.serv.orgnization) := hval _ _ rfl
    rw [hrows, hsel, Rows.select_singleton]
    split
    · rename_i ho
      exact ⟨row, by simp [horg, ho], hval _ _ rfl, hval _ _ rfl⟩
    · rename_i ho
      have hne : Decimal.intText r.serv.orgnization ≠ Decimal.intText o :=
        fun he => ho (Decimal.intText_inj he)
      simp [horg, hne]

/-- The select of `restore()` tells the stores of `(o, m)` correctly exactly
when the last store of `m`, if `o` ever stored it, was made by `o`. -/
theorem restore_finds_last_store_iff (skTable : Bytes) (hist : List Storing) (db : Db Column)
    (hempty : db (cstr skTable) = []) (hcalls : ∀ r ∈ hist, r.sel.code = 0 ∧ r.wr.code = 0)
    (o : Int) (m : Bytes) :
    let rows := restoreRows skTable (hist.foldl (Storing.run skTable) db) o m
    ((rows ≠ [] ↔ ∃ r ∈ made skTable hist, r.isFor o m) ∧
      ∀ row, rows.head? = some row →
        ∃ r, (made skTable hist).reverse.find? (isFor o m) = some r ∧
          row .md5P = some r.serv.md5Plaint.text ∧
          row .expire = some (Decimal.intText r.serv.expireT)) ↔
    ((∃ r ∈ made skTable hist, r.isFor o m) →
      ∀ r, (made skTable hist).reverse.find? (fun r => decide (r.digest = m)) = some r →
        r.serv.orgnization = o) := by
  intro rows
  have hfold := restoreRows_foldl skTable hempty hcalls o m
  cases hlast : (made skTable hist).reverse.find? fun r => decide (r.digest = m) with
  | none =>
    have hrows : rows = [] := hfold.1 hlast
    have hno : ¬ ∃ r ∈ made skTable hist, r.isFor o m := by
      rintro ⟨r, hr, hfor⟩
      have hd := List.find?_eq_none.mp hlast r (List.mem_reverse.mpr hr)
      simp only [isFor, Bool.and_eq_true] at hfor
      exact hd hfor.2
    simp [hrows, hno]
  | some r =>
    have hcase := hfold.2 r hlast
    by_cases ho : r.serv.orgnization = o
    · rw [if_pos ho] at hcase
      obtain ⟨row, hrow, hmd5, hexp⟩ := hcase
      have hrows : rows = [row] := hrow
      have hdig := List.find?_some hlast
      have hfor : r.isFor o m = true := by
        simp only [isFor, ho, decide_true, Bool.true_and]
        exact hdig
      have hfind : (made skTable hist).reverse.find? (isFor o m) = some r :=
        find?_of_imp (fun a ha => ((Bool.and_eq_true _ _).mp ha).2) hlast hfor
      have hmade : ∃ r ∈ made skTable hist, r.isFor o m :=
        ⟨r, List.mem_reverse.mp (List.mem_of_find?_eq_some hlast), hfor⟩
      refine ⟨fun _ _ r' hr' => ?_, fun _ => ⟨by simp [hrows, hmade], fun row' hrow' => ?_⟩⟩
      · cases hr'
        exact ho
      · have he : row = row' := by simpa [hrows] using hrow'
        rw [← he]
        exact ⟨r, hfind, hmd5, hexp⟩
    · rw [if_neg ho] at hcase
      have hrows : rows = [] := hcase
      simp [hrows, ho]

def storingBy (o : Int) : Storing :=
  ⟨sampleServ o, sampleDigest, 1600000000, 1, answered, answered⟩

theorem restore_finds_last_store_two :
    let hist := [storingBy 1, storingBy 2]
    let rows := restoreRows (ascii "service")
      (hist.foldl (Storing.run (ascii "service")) fun _ => []) 2 (List.replicate 64 0x61)
    (rows ≠ [] ↔ ∃ r ∈ made (ascii "service") hist, r.isFor 2 (List.replicate 64 0x61)) :=
  ((restore_finds_last_store_iff (ascii "service") [storingBy 1, storingBy 2] (fun _ => []) rfl
    (by decide) 2 (List.replicate 64 0x61)).mpr fun _ r hr => by
      have he : storingBy 2 = r := Option.some.inj hr
      rw [← he]
      rfl).1

/-- Organisation 1 stored the digest, organisation 2 stored it after that. -/
theorem restore_misses_overwritten_store :
    ¬ ∀ (hist : List Storing) (o : Int) (m : Bytes),
      (∀ r ∈ hist, r.sel.code = 0 ∧ r.wr.code = 0) →
      (restoreRows (ascii "service")
          (hist.foldl (Storing.run (ascii "service")) fun _ => []) o m ≠ [] ↔
        ∃ r ∈ made (ascii "service") hist, r.isFor o m) := by
  intro h
  have hone := h [storingBy 1, storingBy 2] 1 (List.replicate 64 0x61) (by decide)
  exact absurd hone (by decide)

end SecProGIS
