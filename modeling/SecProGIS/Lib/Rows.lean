import Mathlib

/-! Tables as lists of rows: what `select`, `insert` and `update` with a
conjunctive where-clause do, the key column of a table, and the effect of a
history of writes that update the row of a key or insert it. -/

namespace Rows

variable {κ ν : Type*}

/-- A row gives every column a value or leaves it null. -/
abbrev Row (κ ν : Type*) := κ → Option ν

abbrev Values (κ ν : Type*) := List (κ × ν)

def column (k : κ) (t : List (Row κ ν)) : List (Option ν) := t.map fun r => r k

def UniqueKey (k : κ) (t : List (Row κ ν)) : Prop := (column k t).Nodup

section Select

variable [DecidableEq ν]

instance (k : κ) (t : List (Row κ ν)) : Decidable (UniqueKey k t) :=
  inferInstanceAs (Decidable (column k t).Nodup)

def holds (w : Values κ ν) (r : Row κ ν) : Bool := w.all fun cv => r cv.1 = some cv.2

def select (w : Values κ ν) (t : List (Row κ ν)) : List (Row κ ν) := t.filter (holds w)

@[simp] theorem holds_nil (r : Row κ ν) : holds [] r = true := rfl

@[simp] theorem holds_cons (c : κ) (v : ν) (w : Values κ ν) (r : Row κ ν) :
    holds ((c, v) :: w) r = (decide (r c = some v) && holds w r) := rfl

theorem select_append (w : Values κ ν) (t u : List (Row κ ν)) :
    select w (t ++ u) = select w t ++ select w u := List.filter_append _ _

theorem select_cons (w : Values κ ν) (r : Row κ ν) (t : List (Row κ ν)) :
    select w (r :: t) = select w [r] ++ select w t := select_append w [r] t

theorem select_singleton (w : Values κ ν) (r : Row κ ν) :
    select w [r] = if holds w r then [r] else [] := by
  by_cases h : holds w r = true <;> simp [select, h]

theorem select_and (c : κ) (v : ν) (w : Values κ ν) (t : List (Row κ ν)) :
    select ((c, v) :: w) t = select w (select [(c, v)] t) := by
  simp only [select, List.filter_filter]
  refine List.filter_congr fun r _ => ?_
  simp [Bool.and_comm]

def keyCount (k : κ) (v : ν) (t : List (Row κ ν)) : Nat := (column k t).count (some v)

theorem length_select_key (k : κ) (v : ν) (t : List (Row κ ν)) :
    (select [(k, v)] t).length = keyCount k v t := by
  rw [keyCount, column, List.count_eq_countP, List.countP_map, select,
    ← List.countP_eq_length_filter]
  refine List.countP_congr fun r _ => ?_
  simp

theorem not_mem_column_iff {k : κ} {v : ν} {t : List (Row κ ν)} :
    some v ∉ column k t ↔ keyCount k v t = 0 := List.count_eq_zero.symm

end Select

section Assign

variable [DecidableEq κ]

def assign (vs : Values κ ν) (r : Row κ ν) : Row κ ν := fun c => (vs.lookup c).or (r c)

def insert (vs : Values κ ν) (t : List (Row κ ν)) : List (Row κ ν) :=
  t ++ [assign vs fun _ => none]

theorem assign_of_lookup {vs : Values κ ν} {c : κ} {v : ν} (h : vs.lookup c = some v)
    (r : Row κ ν) : assign vs r c = some v := by simp [assign, h]

theorem assign_of_none {vs : Values κ ν} {c : κ} (h : vs.lookup c = none) (r : Row κ ν) :
    assign vs r c = r c := by simp [assign, h]

theorem assign_cons_of_lookup {k : κ} {vs : Values κ ν} (hk : vs.lookup k = none) {c : κ} {x : ν}
    (hx : vs.lookup c = some x) (v : ν) (r : Row κ ν) : assign ((k, v) :: vs) r c = some x := by
  have hc : ¬ c = k := fun he => by simp [he, hk] at hx
  have hb : (c == k) = false := by simpa using hc
  refine assign_of_lookup ?_ r
  rw [List.lookup_cons, hb]
  exact hx

theorem assign_assign (vs ws : Values κ ν) (r : Row κ ν) :
    assign ws (assign vs r) = assign (ws ++ vs) r := by
  funext c
  simp only [assign, List.lookup_append, Option.or_assoc]

theorem insert_congr {vs ws : Values κ ν} (h : ∀ c, vs.lookup c = ws.lookup c)
    (t : List (Row κ ν)) : insert vs t = insert ws t := by
  have hrow : assign vs = assign ws := by
    funext r c
    rw [assign, assign, h]
  rw [insert, insert, hrow]

theorem column_insert {k : κ} {v : ν} {vs : Values κ ν} (hv : vs.lookup k = some v)
    (t : List (Row κ ν)) : column k (insert vs t) = column k t ++ [some v] := by
  simp [column, insert, assign_of_lookup hv]

theorem uniqueKey_insert {k : κ} {v : ν} {vs : Values κ ν} (hv : vs.lookup k = some v)
    {t : List (Row κ ν)} (ht : UniqueKey k t) :
    UniqueKey k (insert vs t) ↔ some v ∉ column k t := by
  rw [UniqueKey, column_insert hv]
  exact ⟨fun h hm => (List.disjoint_of_nodup_append h) hm (by simp),
    fun h => ht.append (List.nodup_singleton _) (by simpa using h)⟩

end Assign

section Update

variable [DecidableEq κ] [DecidableEq ν]

def update (vs w : Values κ ν) (t : List (Row κ ν)) : List (Row κ ν) :=
  t.map fun r => if holds w r then assign vs r else r

theorem column_update {k : κ} {vs : Values κ ν} (hk : vs.lookup k = none) (w : Values κ ν)
    (t : List (Row κ ν)) : column k (update vs w t) = column k t := by
  simp only [column, update, List.map_map]
  refine List.map_congr_left fun r _ => ?_
  by_cases h : holds w r = true <;> simp [h, assign_of_none hk]

theorem uniqueKey_update {k : κ} {vs : Values κ ν} (hk : vs.lookup k = none) (w : Values κ ν)
    (t : List (Row κ ν)) : UniqueKey k (update vs w t) ↔ UniqueKey k t := by
  rw [UniqueKey, column_update hk, UniqueKey]

theorem keyCount_insert {k : κ} {v' : ν} {vs : Values κ ν} (hv : vs.lookup k = some v') (v : ν)
    (t : List (Row κ ν)) :
    keyCount k v (insert vs t) = keyCount k v t + if v' = v then 1 else 0 := by
  rw [keyCount, column_insert hv, List.count_append, List.count_singleton]
  simp [keyCount]

theorem keyCount_update {k : κ} {vs : Values κ ν} (hv : vs.lookup k = none) (v : ν)
    (w : Values κ ν) (t : List (Row κ ν)) : keyCount k v (update vs w t) = keyCount k v t := by
  rw [keyCount, column_update hv, keyCount]

theorem select_update_same {k : κ} {v : ν} {vs : Values κ ν} (hk : vs.lookup k = none)
    (t : List (Row κ ν)) :
    select [(k, v)] (update vs [(k, v)] t) = (select [(k, v)] t).map (assign vs) := by
  induction t with
  | nil => rfl
  | cons r t ih =>
    have hcons : update vs [(k, v)] (r :: t) =
        (if holds [(k, v)] r then assign vs r else r) :: update vs [(k, v)] t := rfl
    rw [hcons, select_cons, ih, select_cons _ r t, select_singleton, select_singleton]
    by_cases h : r k = some v <;> simp [h, assign_of_none hk]

theorem select_update_other {k : κ} {v v' : ν} {vs : Values κ ν} (hk : vs.lookup k = none)
    (hv : v ≠ v') (t : List (Row κ ν)) :
    select [(k, v)] (update vs [(k, v')] t) = select [(k, v)] t := by
  induction t with
  | nil => rfl
  | cons r t ih =>
    have hcons : update vs [(k, v')] (r :: t) =
        (if holds [(k, v')] r then assign vs r else r) :: update vs [(k, v')] t := rfl
    rw [hcons, select_cons, ih, select_cons _ r t, select_singleton, select_singleton]
    by_cases h : r k = some v' <;> simp [h, assign_of_none hk, hv.symm]

theorem select_insert_same {k : κ} {v : ν} {vs : Values κ ν} (hv : vs.lookup k = some v)
    (t : List (Row κ ν)) :
    select [(k, v)] (insert vs t) = select [(k, v)] t ++ [assign vs fun _ => none] := by
  rw [insert, select_append, select_singleton]
  simp [assign_of_lookup hv]

theorem select_insert_other {k : κ} {v v' : ν} {vs : Values κ ν} (hv : vs.lookup k = some v')
    (hne : v ≠ v') (t : List (Row κ ν)) : select [(k, v)] (insert vs t) = select [(k, v)] t := by
  rw [insert, select_append, select_singleton]
  simp [assign_of_lookup hv, hne.symm]

def put (k : κ) (t : List (Row κ ν)) (h : ν × Values κ ν) : List (Row κ ν) :=
  if (select [(k, h.1)] t).isEmpty then insert ((k, h.1) :: h.2) t
  else update h.2 [(k, h.1)] t

def lastPut (v : ν) (hist : List (ν × Values κ ν)) : Option (Values κ ν) :=
  (hist.reverse.find? fun h => h.1 = v).map Prod.snd

theorem select_put_other {k : κ} {v : ν} {t : List (Row κ ν)} {h : ν × Values κ ν}
    (hk : h.2.lookup k = none) (hv : v ≠ h.1) :
    select [(k, v)] (put k t h) = select [(k, v)] t := by
  unfold put
  split
  · exact select_insert_other (by simp) hv t
  · exact select_update_other hk hv t

theorem select_put_same {k : κ} {v : ν} {t : List (Row κ ν)} {vs : Values κ ν}
    (hk : vs.lookup k = none) (ht : (select [(k, v)] t).length ≤ 1) :
    ∃ r, select [(k, v)] (put k t (v, vs)) = [r] ∧
      ∀ c x, vs.lookup c = some x → r c = some x := by
  have hput : put k t (v, vs) = if (select [(k, v)] t).isEmpty then insert ((k, v) :: vs) t
      else update vs [(k, v)] t := rfl
  rw [hput]
  cases hs : select [(k, v)] t with
  | nil =>
    have hv : ((k, v) :: vs).lookup k = some v := by simp
    refine ⟨assign ((k, v) :: vs) fun _ => none, ?_, ?_⟩
    · simpa [hs] using select_insert_same hv t
    · exact fun c x hx => assign_cons_of_lookup hk hx v _
  | cons r rs =>
    have hrs : rs = [] := by simpa [hs] using ht
    refine ⟨assign vs r, ?_, fun c x hx => assign_of_lookup hx r⟩
    simp [select_update_same hk, hs, hrs]

theorem head_put {k : κ} {v : ν} {vs : Values κ ν} (hk : vs.lookup k = none)
    (t : List (Row κ ν)) : ∃ r, (select [(k, v)] (put k t (v, vs))).head? = some r ∧
      ∀ c x, vs.lookup c = some x → r c = some x := by
  have hput : put k t (v, vs) = if (select [(k, v)] t).isEmpty then insert ((k, v) :: vs) t
      else update vs [(k, v)] t := rfl
  rw [hput]
  cases hs : select [(k, v)] t with
  | nil =>
    refine ⟨assign ((k, v) :: vs) fun _ => none, ?_, fun c x hx =>
      assign_cons_of_lookup hk hx v _⟩
    have hkey : ((k, v) :: vs).lookup k = some v := List.lookup_cons_self ..
    have hsame := select_insert_same hkey t
    rw [hs] at hsame
    exact congrArg List.head? hsame
  | cons r rs =>
    refine ⟨assign vs r, ?_, fun c x hx => assign_of_lookup hx r⟩
    have hsame := select_update_same (v := v) hk t
    rw [hs] at hsame
    exact congrArg List.head? hsame

theorem update_of_select_nil {w : Values κ ν} {t : List (Row κ ν)} (h : select w t = [])
    (vs : Values κ ν) : update vs w t = t := by
  rw [select, List.filter_eq_nil_iff] at h
  have hmap : ∀ r ∈ t, (if holds w r then assign vs r else r) = r :=
    fun r hr => if_neg (h r hr)
  rw [update, List.map_congr_left hmap, List.map_id']

/-- An update of the row just put comes to one put with both lists of values. -/
theorem update_put {k : κ} {v : ν} {vs ws : Values κ ν} (hv : vs.lookup k = none)
    (hw : ws.lookup k = none) (t : List (Row κ ν)) :
    update ws [(k, v)] (put k t (v, vs)) = put k t (v, ws ++ vs) := by
  have hput : ∀ us, put k t (v, us) = if (select [(k, v)] t).isEmpty then insert ((k, v) :: us) t
      else update us [(k, v)] t := fun _ => rfl
  rw [hput, hput]
  split
  · rename_i hnil
    rw [List.isEmpty_iff] at hnil
    have hold := update_of_select_nil hnil ws
    have hrow : assign ws (assign ((k, v) :: vs) fun _ => none) =
        assign ((k, v) :: (ws ++ vs)) fun _ => none := by
      funext c
      by_cases hc : c = k
      · simp [assign, hc, hw]
      · have hb : (c == k) = false := by simpa using hc
        simp only [assign, List.lookup_cons, hb, List.lookup_append, Option.or_assoc]
    have hholds : holds [(k, v)] (assign ((k, v) :: vs) fun _ => none) = true := by simp [assign]
    rw [update] at hold
    rw [insert, update, List.map_append, hold, List.map_singleton, if_pos hholds, hrow, insert]
  · rw [update, update, update, List.map_map]
    refine List.map_congr_left fun r _ => ?_
    have hkeep : holds [(k, v)] (assign vs r) = holds [(k, v)] r := by
      simp [assign_of_none hv]
    by_cases h : holds [(k, v)] r = true
    · simp only [Function.comp_apply, h, if_true, hkeep, assign_assign]
    · simp only [Function.comp_apply, h, if_false, Bool.false_eq_true]

/-- After any history of writes to an empty table a key has a row exactly
when it was written, and that row holds the values of the last write. -/
theorem select_foldl_put {k : κ} (v : ν) (hist : List (ν × Values κ ν))
    (hk : ∀ h ∈ hist, h.2.lookup k = none) :
    (lastPut v hist = none → select [(k, v)] (hist.foldl (put k) []) = []) ∧
    ∀ vs, lastPut v hist = some vs →
      ∃ r, select [(k, v)] (hist.foldl (put k) []) = [r] ∧
        ∀ c x, vs.lookup c = some x → r c = some x := by
  induction hist using List.reverseRecOn with
  | nil => simp [lastPut, select]
  | append_singleton hist h ih =>
    have ih := ih fun h' hm => hk h' (by simp [hm])
    have hkh := hk h (by simp)
    rw [List.foldl_append, List.foldl_cons, List.foldl_nil]
    by_cases hv : h.1 = v
    · have hl : lastPut v (hist ++ [h]) = some h.2 := by simp [lastPut, hv]
      have hone : (select [(k, v)] (hist.foldl (put k) [])).length ≤ 1 := by
        cases hp : lastPut v hist with
        | none => simp [ih.1 hp]
        | some vs =>
          obtain ⟨r, hr, _⟩ := ih.2 vs hp
          simp [hr]
      have hsame := select_put_same hkh hone
      have hpair : (v, h.2) = h := Prod.ext hv.symm rfl
      rw [hpair] at hsame
      rw [hl]
      exact ⟨fun hn => by simp at hn, fun vs hs => by cases hs; exact hsame⟩
    · have hl : lastPut v (hist ++ [h]) = lastPut v hist := by simp [lastPut, hv]
      rw [hl, select_put_other hkh (Ne.symm hv)]
      exact ih

end Update

end Rows
