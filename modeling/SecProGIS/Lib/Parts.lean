import Mathlib

/-! The parts of a list behind the first and behind the last of its separators. -/

namespace Parts

variable {α : Type*} [DecidableEq α] {c : α}

def afterFirst (c : α) (l : List α) : List α := (l.dropWhile (· ≠ c)).tail

def afterLast (c : α) (l : List α) : List α := l.rtakeWhile (· ≠ c)

theorem afterFirst_append {u : List α} (h : c ∉ u) (v : List α) :
    afterFirst c (u ++ c :: v) = v := by
  have hu : ∀ x ∈ u, decide (x ≠ c) = true := fun x hx => decide_eq_true fun he => h (he ▸ hx)
  rw [afterFirst, List.dropWhile_append_of_pos hu, List.dropWhile_cons_of_neg (by simp)]
  rfl

theorem afterLast_append (u : List α) {v : List α} (h : c ∉ v) : afterLast c (u ++ c :: v) = v := by
  have hv : ∀ x ∈ v.reverse, decide (x ≠ c) = true :=
    fun x hx => decide_eq_true fun he => h (he ▸ List.mem_reverse.mp hx)
  rw [afterLast, List.rtakeWhile, List.reverse_append, List.reverse_cons, List.append_assoc,
    List.takeWhile_append_of_pos hv, List.singleton_append, List.takeWhile_cons_of_neg (by simp),
    List.append_nil, List.reverse_reverse]

theorem afterLast_append_of_mem (u : List α) {v : List α} (h : c ∈ v) :
    afterLast c (u ++ c :: v) = afterLast c v := by
  obtain ⟨w, x, hv, hx⟩ := List.eq_append_cons_of_mem (List.mem_reverse.mpr h)
  have hv' : v = x.reverse ++ c :: w.reverse := by
    rw [← List.reverse_reverse v, hv]
    simp
  have hw : c ∉ w.reverse := fun hc => hx (List.mem_reverse.mp hc)
  rw [hv', afterLast_append _ hw, ← List.cons_append, ← List.append_assoc, afterLast_append _ hw]

theorem not_mem_afterLast (l : List α) : c ∉ afterLast c l := fun h => by
  simpa using List.mem_rtakeWhile_imp h

theorem eq_append_afterLast {l : List α} (h : c ∈ l) : ∃ u, l = u ++ c :: afterLast c l := by
  obtain ⟨w, x, hl, hx⟩ := List.eq_append_cons_of_mem (List.mem_reverse.mpr h)
  have hl' : l = x.reverse ++ c :: w.reverse := by
    rw [← List.reverse_reverse l, hl]
    simp
  have hw : c ∉ w.reverse := fun hc => hx (List.mem_reverse.mp hc)
  exact ⟨x.reverse, by rw [hl', afterLast_append _ hw]⟩

/-- A list is cut at its last separator in one way only. -/
theorem append_cons_inj {u u' v v' : List α} (h : c ∉ v) (h' : c ∉ v') :
    u ++ c :: v = u' ++ c :: v' ↔ u = u' ∧ v = v' := by
  constructor
  · intro he
    have hv : v = v' := by rw [← afterLast_append u h, he, afterLast_append u' h']
    rw [hv] at he
    exact ⟨List.append_cancel_right he, hv⟩
  · rintro ⟨rfl, rfl⟩
    rfl

theorem afterFirst_eq_afterLast_iff {l : List α} (h : c ∈ l) :
    afterFirst c l = afterLast c l ↔ l.count c = 1 := by
  obtain ⟨u, v, rfl, hu⟩ := List.eq_append_cons_of_mem h
  have hcount : (u ++ c :: v).count c = v.count c + 1 := by
    rw [List.count_append, List.count_eq_zero_of_not_mem hu, List.count_cons_self, Nat.zero_add]
  rw [afterFirst_append hu, hcount]
  by_cases hv : c ∈ v
  · have hpos := List.count_pos_iff.mpr hv
    refine iff_of_false (fun he => ?_) (by omega)
    rw [afterLast_append_of_mem _ hv] at he
    exact not_mem_afterLast v (he ▸ hv)
  · rw [afterLast_append _ hv, List.count_eq_zero_of_not_mem hv]
    exact iff_of_true rfl rfl

end Parts
