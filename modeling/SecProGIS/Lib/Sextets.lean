import Mathlib

/-! Octets regrouped as sextets, the highest bits first, and back. What is left of
a group of three octets fills up with zero bits. -/

namespace Sextets

def sextets : List Nat → List Nat
  | a :: b :: c :: l =>
    a / 4 :: (a % 4 * 16 + b / 16) :: (b % 16 * 4 + c / 64) :: c % 64 :: sextets l
  | [a, b] => [a / 4, a % 4 * 16 + b / 16, b % 16 * 4]
  | [a] => [a / 4, a % 4 * 16]
  | [] => []

/-- The whole octets in a list of sextets; a last part of one is dropped. -/
def octets : List Nat → List Nat
  | p :: q :: r :: s :: l =>
    (p * 4 + q / 16) :: (q % 16 * 16 + r / 4) :: (r % 4 * 64 + s) :: octets l
  | [p, q, r] => [p * 4 + q / 16, q % 16 * 16 + r / 4]
  | [p, q] => [p * 4 + q / 16]
  | [_] => []
  | [] => []

theorem sextets_lt {l : List Nat} (hl : ∀ a ∈ l, a < 256) : ∀ d ∈ sextets l, d < 64 := by
  induction l using sextets.induct with
  | case1 a b c l ih =>
    simp only [List.forall_mem_cons] at hl
    obtain ⟨ha, hb, hc, hl⟩ := hl
    simp only [sextets, List.forall_mem_cons]
    exact ⟨by omega, by omega, by omega, by omega, ih hl⟩
  | case2 a b =>
    simp only [List.forall_mem_cons] at hl
    simp only [sextets, List.forall_mem_cons]
    exact ⟨by omega, by omega, by omega, by simp⟩
  | case3 a =>
    simp only [List.forall_mem_cons] at hl
    simp only [sextets, List.forall_mem_cons]
    exact ⟨by omega, by omega, by simp⟩
  | case4 => simp [sextets]

theorem octets_lt {l : List Nat} (hl : ∀ d ∈ l, d < 64) : ∀ a ∈ octets l, a < 256 := by
  induction l using octets.induct with
  | case1 p q r s l ih =>
    simp only [List.forall_mem_cons] at hl
    obtain ⟨hp, hq, hr, hs, hl⟩ := hl
    simp only [octets, List.forall_mem_cons]
    exact ⟨by omega, by omega, by omega, ih hl⟩
  | case2 p q r =>
    simp only [List.forall_mem_cons] at hl
    simp only [octets, List.forall_mem_cons]
    exact ⟨by omega, by omega, by simp⟩
  | case3 p q =>
    simp only [List.forall_mem_cons] at hl
    simp only [octets, List.forall_mem_cons]
    exact ⟨by omega, by simp⟩
  | case4 p => simp [octets]
  | case5 => simp [octets]

theorem sextets_length (l : List Nat) : (sextets l).length = (4 * l.length + 2) / 3 := by
  induction l using sextets.induct with
  | case1 a b c l ih =>
    simp only [sextets, List.length_cons, ih]
    omega
  | case2 a b => simp [sextets]
  | case3 a => simp [sextets]
  | case4 => rfl

theorem octets_length (l : List Nat) : (octets l).length = 3 * l.length / 4 := by
  induction l using octets.induct with
  | case1 p q r s l ih =>
    simp only [octets, List.length_cons, ih]
    omega
  | case2 p q r => simp [octets]
  | case3 p q => simp [octets]
  | case4 p => simp [octets]
  | case5 => rfl

theorem octets_sextets {l : List Nat} (hl : ∀ a ∈ l, a < 256) : octets (sextets l) = l := by
  induction l using sextets.induct with
  | case1 a b c l ih =>
    simp only [List.forall_mem_cons] at hl
    obtain ⟨ha, hb, hc, hl⟩ := hl
    simp only [sextets, octets, ih hl, List.cons.injEq, and_true]
    omega
  | case2 a b =>
    simp only [List.forall_mem_cons] at hl
    simp only [sextets, octets, List.cons.injEq, and_true]
    omega
  | case3 a =>
    simp only [List.forall_mem_cons] at hl
    simp only [sextets, octets, List.cons.injEq, and_true]
    omega
  | case4 => rfl

/-- All sextets but the last come back from the octets. -/
theorem sextets_octets_take {l : List Nat} (hl : ∀ d ∈ l, d < 64) :
    (sextets (octets l)).take (l.length - 1) = l.take (l.length - 1) := by
  induction l using octets.induct with
  | case1 p q r s l ih =>
    simp only [List.forall_mem_cons] at hl
    obtain ⟨hp, hq, hr, hs, hl⟩ := hl
    have hgroup : (p * 4 + q / 16) / 4 = p ∧
        (p * 4 + q / 16) % 4 * 16 + (q % 16 * 16 + r / 4) / 16 = q ∧
        (q % 16 * 16 + r / 4) % 16 * 4 + (r % 4 * 64 + s) / 64 = r ∧
        (r % 4 * 64 + s) % 64 = s := by omega
    obtain ⟨h1, h2, h3, h4⟩ := hgroup
    simp only [octets, sextets, h1, h2, h3, h4, List.length_cons]
    cases l with
    | nil => rfl
    | cons d l =>
      have hlen : (d :: l).length + 1 + 1 + 1 + 1 - 1 = ((d :: l).length - 1) + 1 + 1 + 1 + 1 := by
        simp only [List.length_cons]
        omega
      rw [hlen]
      simp only [List.take_succ_cons, ih hl]
  | case2 p q r =>
    simp only [List.forall_mem_cons] at hl
    simp only [octets, sextets, List.length_cons, List.length_nil]
    simp only [List.take_succ_cons, List.take_zero, List.cons.injEq, and_true]
    omega
  | case3 p q =>
    simp only [List.forall_mem_cons] at hl
    simp only [octets, sextets, List.length_cons, List.length_nil]
    simp only [List.take_succ_cons, List.take_zero, List.cons.injEq, and_true]
    omega
  | case4 p => rfl
  | case5 => rfl

end Sextets
