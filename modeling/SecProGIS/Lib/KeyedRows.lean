import SecProGIS.Lib.Rows

/-! A table as a map from the values of a key column to rows: it implements the
map when every key has the one row the map gives it, or none. -/

namespace Rows

variable {κ ν : Type*} [DecidableEq ν]

abbrev Records (κ ν : Type*) := ν → Option (Row κ ν)

def Implements (k : κ) (t : List (Row κ ν)) (m : Records κ ν) : Prop :=
  ∀ v, select [(k, v)] t = (m v).toList

namespace Records

variable [DecidableEq κ]

/-- Write the values to the record of a key, which is made when there is none. -/
def upsert (k : κ) (m : Records κ ν) (v : ν) (vs : Values κ ν) : Records κ ν :=
  Function.update m v
    (some ((m v).elim (assign ((k, v) :: vs) fun _ => none) (assign vs)))

def modify (m : Records κ ν) (v : ν) (vs : Values κ ν) : Records κ ν :=
  Function.update m v ((m v).map (assign vs))

end Records

section

variable {k : κ} {t : List (Row κ ν)} {m : Records κ ν}

theorem implements_nil : Implements k ([] : List (Row κ ν)) fun _ => none := fun _ => rfl

theorem Implements.keyCount_eq_zero (h : Implements k t m) (v : ν) :
    keyCount k v t = 0 ↔ m v = none := by
  rw [← length_select_key, h v]
  cases m v <;> simp

variable [DecidableEq κ]

theorem Implements.update (h : Implements k t m) {vs : Values κ ν} (hk : vs.lookup k = none)
    (v : ν) : Implements k (update vs [(k, v)] t) (m.modify v vs) := by
  intro w
  by_cases hw : w = v
  · subst hw
    rw [select_update_same hk, h, Records.modify, Function.update_self]
    cases m w <;> rfl
  · rw [select_update_other hk hw, h, Records.modify, Function.update_of_ne hw]

theorem Implements.insert (h : Implements k t m) (vs : Values κ ν) {v : ν} (hv : m v = none) :
    Implements k (insert ((k, v) :: vs) t) (m.upsert k v vs) := by
  intro w
  by_cases hw : w = v
  · subst hw
    rw [select_insert_same (by simp), h, Records.upsert, Function.update_self, hv]
    rfl
  · have hkey : ((k, v) :: vs).lookup k = some v := by simp
    rw [select_insert_other hkey hw, h, Records.upsert, Function.update_of_ne hw]

theorem Implements.update_upsert (h : Implements k t m) {vs : Values κ ν} (hk : vs.lookup k = none)
    {v : ν} (hv : m v ≠ none) : Implements k (Rows.update vs [(k, v)] t) (m.upsert k v vs) := by
  obtain ⟨r, hr⟩ := Option.ne_none_iff_exists'.mp hv
  have hsame : m.upsert k v vs = m.modify v vs := by
    rw [Records.upsert, Records.modify, hr]
    rfl
  rw [hsame]
  exact h.update hk v

/-- A second row of a key implements no map. -/
theorem Implements.not_insert (h : Implements k t m) (vs : Values κ ν) {v : ν} (hv : m v ≠ none)
    (m' : Records κ ν) : ¬ Implements k (Rows.insert ((k, v) :: vs) t) m' := by
  intro h'
  obtain ⟨r, hr⟩ := Option.ne_none_iff_exists'.mp hv
  have hlen := congrArg List.length (h' v)
  rw [select_insert_same (by simp), h, hr] at hlen
  cases hm : m' v <;> simp [hm] at hlen

/-- Writes to distinct new keys append their rows, in that order. -/
theorem foldl_put_distinct {hist : List (ν × Values κ ν)}
    (hk : ∀ h ∈ hist, h.2.lookup k = none) (hdistinct : (hist.map Prod.fst).Nodup)
    (hnew : ∀ h ∈ hist, select [(k, h.1)] t = []) :
    hist.foldl (put k) t = t ++ hist.map fun h => assign ((k, h.1) :: h.2) fun _ => none := by
  induction hist generalizing t with
  | nil => simp
  | cons h hist ih =>
    rw [List.forall_mem_cons] at hk hnew
    rw [List.map_cons, List.nodup_cons] at hdistinct
    have hput : put k t h = t ++ [assign ((k, h.1) :: h.2) fun _ => none] := by
      rw [put, hnew.1]
      rfl
    have hrest : ∀ h' ∈ hist, select [(k, h'.1)] (put k t h) = [] := by
      intro h' hmem
      have hne : h'.1 ≠ h.1 := fun he => hdistinct.1 (he ▸ List.mem_map_of_mem hmem)
      rw [select_put_other hk.1 hne, hnew.2 h' hmem]
    rw [List.foldl_cons, ih hk.2 hdistinct.2 hrest, hput, List.append_assoc, List.map_cons,
      List.singleton_append]

end

end Rows
