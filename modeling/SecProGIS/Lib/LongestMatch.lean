import Mathlib

/-! The leftmost longest match of a pattern in a list, the pattern being given
as a test of whole words. Empty words do not count. -/

namespace LongestMatch

variable {α : Type*} (P : List α → Bool)

def longest (xs : List α) : Nat → Option Nat
  | 0 => none
  | n + 1 => if P (xs.take (n + 1)) then some (n + 1) else longest xs n

def search : List α → Nat → Option (Nat × Nat)
  | [], _ => none
  | c :: xs, i =>
    match longest P (c :: xs) (xs.length + 1) with
    | some n => some (i, i + n)
    | none => search xs (i + 1)

/-- Where the first match from `start` on begins and ends. -/
def find (xs : List α) (start : Nat) : Option (Nat × Nat) := search P (xs.drop start) start

variable {P}

theorem longest_bounds {xs : List α} {n k : Nat} (h : longest P xs n = some k) :
    0 < k ∧ k ≤ n := by
  induction n with
  | zero => cases h
  | succ n ih =>
    rw [longest] at h
    split at h
    · cases h
      omega
    · have := ih h
      omega

theorem search_bounds {xs : List α} {i a b : Nat} (h : search P xs i = some (a, b)) :
    i ≤ a ∧ a < b ∧ b ≤ i + xs.length := by
  induction xs generalizing i with
  | nil => cases h
  | cons c xs ih =>
    rw [search] at h
    cases hl : longest P (c :: xs) (xs.length + 1) with
    | some n =>
      have hn := longest_bounds hl
      rw [hl] at h
      cases h
      rw [List.length_cons]
      omega
    | none =>
      rw [hl] at h
      have := ih h
      rw [List.length_cons]
      omega

theorem find_bounds {xs : List α} {start a b : Nat} (h : find P xs start = some (a, b)) :
    start ≤ a ∧ a < b ∧ b ≤ xs.length := by
  have hs := search_bounds h
  rw [List.length_drop] at hs
  omega

variable (P) in
/-- A match between `a` and `b`. -/
def Word (xs : List α) (a b : Nat) : Prop :=
  a < b ∧ b ≤ xs.length ∧ P ((xs.drop a).take (b - a))

theorem longest_spec {xs : List α} {n k : Nat} (h : longest P xs n = some k) :
    P (xs.take k) ∧ ∀ j ≤ n, P (xs.take j) → j ≤ k := by
  induction n with
  | zero => cases h
  | succ n ih =>
    rw [longest] at h
    split at h
    next hP =>
      cases h
      exact ⟨hP, fun j hj _ => hj⟩
    next hP =>
      refine ⟨(ih h).1, fun j hj hPj => ?_⟩
      rcases Nat.lt_succ_iff_lt_or_eq.mp (Nat.lt_succ_of_le hj) with hlt | rfl
      · exact (ih h).2 j (Nat.lt_succ_iff.mp hlt) hPj
      · exact absurd hPj hP

theorem longest_none {xs : List α} {n : Nat} (h : longest P xs n = none) {j : Nat} (hpos : 0 < j)
    (hj : j ≤ n) : ¬ P (xs.take j) := by
  induction n with
  | zero => omega
  | succ n ih =>
    rw [longest] at h
    split at h
    · cases h
    · rcases Nat.lt_succ_iff_lt_or_eq.mp (Nat.lt_succ_of_le hj) with hlt | rfl
      · exact ih h (Nat.lt_succ_iff.mp hlt)
      · assumption

theorem longest_drop_some {xs : List α} {i n : Nat} (hi : i ≤ xs.length)
    (h : longest P (xs.drop i) (xs.length - i) = some n) :
    Word P xs i (i + n) ∧ ∀ j, Word P xs i j → j ≤ i + n := by
  obtain ⟨hpos, hn⟩ := longest_bounds h
  obtain ⟨hP, hmax⟩ := longest_spec h
  refine ⟨⟨by omega, by omega, by rwa [Nat.add_sub_cancel_left]⟩, ?_⟩
  rintro j ⟨hlt, hle, hPj⟩
  have := hmax (j - i) (by omega) hPj
  omega

theorem longest_drop_none {xs : List α} {i : Nat}
    (h : longest P (xs.drop i) (xs.length - i) = none) (j : Nat) : ¬ Word P xs i j := by
  rintro ⟨hlt, hle, hP⟩
  exact longest_none h (j := j - i) (by omega) (by omega) hP

theorem search_cons_drop {xs ys : List α} {c : α} {i : Nat} (h : xs.drop i = c :: ys) :
    i < xs.length ∧ ys.length + 1 = xs.length - i ∧ xs.drop (i + 1) = ys := by
  have hlen : (xs.drop i).length = ys.length + 1 := by rw [h, List.length_cons]
  rw [List.length_drop] at hlen
  refine ⟨by omega, hlen.symm, ?_⟩
  rw [List.drop_add_one_eq_tail_drop, h, List.tail_cons]

theorem search_some {xs ys : List α} {i a b : Nat} (hys : xs.drop i = ys)
    (h : search P ys i = some (a, b)) :
    Word P xs a b ∧ (∀ j, Word P xs a j → j ≤ b) ∧
      ∀ k, i ≤ k → k < a → ∀ j, ¬ Word P xs k j := by
  induction ys generalizing i with
  | nil => cases h
  | cons c ys ih =>
    obtain ⟨hi, hlen, hnext⟩ := search_cons_drop hys
    rw [search, ← hys, hlen] at h
    cases hl : longest P (xs.drop i) (xs.length - i) with
    | some n =>
      rw [hl] at h
      cases h
      obtain ⟨hword, hmax⟩ := longest_drop_some hi.le hl
      exact ⟨hword, hmax, fun k hik hka => absurd hka (Nat.not_lt.mpr hik)⟩
    | none =>
      rw [hl] at h
      obtain ⟨hword, hmax, hleft⟩ := ih hnext h
      refine ⟨hword, hmax, fun k hik hka => ?_⟩
      rcases hik.eq_or_lt with rfl | hlt
      · exact longest_drop_none hl
      · exact hleft k hlt hka

theorem search_none {xs ys : List α} {i : Nat} (hys : xs.drop i = ys)
    (h : search P ys i = none) {k : Nat} (hik : i ≤ k) (j : Nat) : ¬ Word P xs k j := by
  induction ys generalizing i with
  | nil =>
    rintro ⟨hlt, hle, -⟩
    have := List.drop_eq_nil_iff.mp hys
    omega
  | cons c ys ih =>
    obtain ⟨-, hlen, hnext⟩ := search_cons_drop hys
    rw [search, ← hys, hlen] at h
    cases hl : longest P (xs.drop i) (xs.length - i) with
    | some n =>
      rw [hl] at h
      cases h
    | none =>
      rw [hl] at h
      rcases hik.eq_or_lt with rfl | hlt
      · exact longest_drop_none hl j
      · exact ih hnext h hlt

theorem find_some {xs : List α} {start a b : Nat} (h : find P xs start = some (a, b)) :
    Word P xs a b ∧ (∀ j, Word P xs a j → j ≤ b) ∧
      ∀ k, start ≤ k → k < a → ∀ j, ¬ Word P xs k j :=
  search_some rfl h

theorem find_none {xs : List α} {start : Nat} (h : find P xs start = none) {k : Nat}
    (hk : start ≤ k) (j : Nat) : ¬ Word P xs k j :=
  search_none rfl h hk j

theorem longest_eq_none {c : α} (h : ∀ w, P (c :: w) = false) (xs : List α) (n : Nat) :
    longest P (c :: xs) n = none := by
  induction n with
  | zero => rfl
  | succ n ih =>
    rw [longest, List.take_succ_cons, h, ih]
    rfl

theorem search_append {xs : List α} (h : ∀ c ∈ xs, ∀ w, P (c :: w) = false) (ys : List α)
    (i : Nat) : search P (xs ++ ys) i = search P ys (i + xs.length) := by
  induction xs generalizing i with
  | nil => rfl
  | cons c xs ih =>
    rw [List.forall_mem_cons] at h
    rw [List.cons_append, search, longest_eq_none h.1, ih h.2, List.length_cons, Nat.add_assoc,
      Nat.add_comm 1]

theorem search_singleton (c : α) (i : Nat) :
    search P [c] i = if P [c] then some (i, i + 1) else none := by
  rw [search, List.length_nil, longest, longest]
  split <;> rename_i h <;> split at h <;> simp_all [search]

theorem find_append {xs : List α} (h : ∀ c ∈ xs, ∀ w, P (c :: w) = false) (ys : List α)
    {start : Nat} (hs : start ≤ xs.length) : find P (xs ++ ys) start = search P ys xs.length := by
  have hdrop : ∀ c ∈ xs.drop start, ∀ w, P (c :: w) = false :=
    fun c hc => h c (List.mem_of_mem_drop hc)
  rw [find, List.drop_append_of_le_length hs, search_append hdrop, List.length_drop,
    Nat.add_sub_cancel' hs]

theorem find_of_length_le {xs : List α} {start : Nat} (h : xs.length ≤ start) :
    find P xs start = none := by
  rw [find, List.drop_of_length_le h]
  rfl

end LongestMatch
