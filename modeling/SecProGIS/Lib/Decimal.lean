import Mathlib

/-! Integers printed in decimal as ASCII bytes and read back; different integers
have different texts. -/

namespace Decimal

def digit (d : Nat) : BitVec 8 := BitVec.ofNat 8 (48 + d)

def natText (n : Nat) : List (BitVec 8) :=
  if n = 0 then [digit 0] else ((Nat.digits 10 n).map digit).reverse

def intText : Int → List (BitVec 8)
  | Int.ofNat n => natText n
  | Int.negSucc n => 45#8 :: natText (n + 1)

theorem digit_toNat {d : Nat} (h : d < 10) : (digit d).toNat = 48 + d := by
  rw [digit, BitVec.toNat_ofNat]
  omega

theorem digit_ne {d : Nat} (h : d < 10) {c : BitVec 8} (hc : c.toNat < 48) : digit d ≠ c := by
  intro he
  have hd := digit_toNat h
  rw [he] at hd
  omega

theorem exists_digit_of_mem {n : Nat} {b : BitVec 8} (h : b ∈ natText n) :
    ∃ d < 10, b = digit d := by
  unfold natText at h
  split at h
  · exact ⟨0, by decide, by simpa using h⟩
  · obtain ⟨d, hd, rfl⟩ := List.mem_map.mp (List.mem_reverse.mp h)
    exact ⟨d, Nat.digits_lt_base (by decide) hd, rfl⟩

def space (c : BitVec 8) : Bool := c = 32 ∨ (9 ≤ c ∧ c ≤ 13)

/-- The integer a text starts with, behind white space; 0 when there is none. -/
def value (b : List (BitVec 8)) : Int :=
  let b := b.dropWhile space
  let neg := b.head? = some 45
  let b := if b.head? = some 45 ∨ b.head? = some 43 then b.tail else b
  let n : Nat := (b.takeWhile fun c => 48 ≤ c ∧ c ≤ 57).foldl (fun n c => n * 10 + (c.toNat - 48)) 0
  if neg then -n else n

theorem digit_not_space {d : Nat} (h : d < 10) : ¬ space (digit d) := by
  have hd := digit_toNat h
  rw [space, decide_eq_true_eq]
  rintro (he | ⟨-, hle⟩)
  · exact digit_ne h (by decide) he
  · rw [BitVec.le_def, hd] at hle
    exact absurd hle (by simp; omega)

theorem takeWhile_natText (n : Nat) :
    (natText n).takeWhile (fun c => decide (48 ≤ c ∧ c ≤ 57)) = natText n := by
  rw [List.takeWhile_eq_self_iff]
  intro c hc
  obtain ⟨d, hd, rfl⟩ := exists_digit_of_mem hc
  have hval := digit_toNat hd
  rw [decide_eq_true_eq, BitVec.le_def, BitVec.le_def, hval]
  exact ⟨Nat.le_add_right 48 d, show 48 + d ≤ 57 by omega⟩

theorem foldl_natText (n : Nat) :
    (natText n).foldl (fun n c => n * 10 + (c.toNat - 48)) 0 = n := by
  have hdigits : ∀ ds : List Nat, (∀ d ∈ ds, d < 10) →
      (ds.map digit).reverse.foldl (fun n c => n * 10 + (c.toNat - 48)) 0 = Nat.ofDigits 10 ds := by
    intro ds hds
    induction ds with
    | nil => rfl
    | cons d ds ih =>
      have hd : d < 10 := hds d List.mem_cons_self
      rw [List.map_cons, List.reverse_cons, List.foldl_append,
        ih fun e he => hds e (List.mem_cons_of_mem d he), Nat.ofDigits_cons]
      simp only [List.foldl_cons, List.foldl_nil, digit_toNat hd]
      omega
  unfold natText
  split
  · rename_i h
    rw [h]
    rfl
  · rw [hdigits _ fun d hd => Nat.digits_lt_base (by decide) hd, Nat.ofDigits_digits]

theorem natText_head (n : Nat) : ∃ d < 10, ∃ cs, natText n = digit d :: cs := by
  have hne : natText n ≠ [] := by
    unfold natText
    split
    · exact List.cons_ne_nil _ _
    · rename_i h
      simpa [Nat.digits_eq_nil_iff_eq_zero] using h
  obtain ⟨c, cs, hcs⟩ := List.exists_cons_of_ne_nil hne
  obtain ⟨d, hd, rfl⟩ := exists_digit_of_mem (n := n) (b := c) (by rw [hcs]; simp)
  exact ⟨d, hd, cs, hcs⟩

theorem value_intText (i : Int) : value (intText i) = i := by
  cases i with
  | ofNat n =>
    obtain ⟨d, hd, cs, hcs⟩ := natText_head n
    have hdrop : (natText n).dropWhile space = natText n := by
      rw [hcs, List.dropWhile_cons_of_neg (digit_not_space hd)]
    have hminus : (natText n).head? ≠ some 45 := by
      rw [hcs]
      simpa using digit_ne hd (c := 45) (by decide)
    have hplus : (natText n).head? ≠ some 43 := by
      rw [hcs]
      simpa using digit_ne hd (c := 43) (by decide)
    simp only [value, intText, hdrop, hminus, hplus, or_self, if_false]
    rw [takeWhile_natText, foldl_natText]
    rfl
  | negSucc n =>
    have hdrop : (45#8 :: natText (n + 1)).dropWhile space = 45#8 :: natText (n + 1) :=
      List.dropWhile_cons_of_neg (by decide)
    simp only [value, intText, hdrop, List.head?_cons, BitVec.ofNat_eq_ofNat, true_or, if_true,
      List.tail_cons]
    have htake := takeWhile_natText (n + 1)
    simp only [BitVec.ofNat_eq_ofNat] at htake
    rw [htake, foldl_natText]
    exact (Int.negSucc_eq n).symm

theorem intText_inj {i j : Int} (h : intText i = intText j) : i = j := by
  rw [← value_intText i, h, value_intText]

theorem mem_intText {i : Int} {b : BitVec 8} (h : b ∈ intText i) :
    b = 45 ∨ ∃ d < 10, b = digit d := by
  cases i with
  | ofNat n => exact .inr (exists_digit_of_mem h)
  | negSucc n =>
    rcases List.mem_cons.mp h with rfl | h
    · exact .inl rfl
    · exact .inr (exists_digit_of_mem h)

theorem ne_zero_of_mem {i : Int} {b : BitVec 8} (h : b ∈ intText i) : b ≠ 0 := by
  rcases mem_intText h with rfl | ⟨d, hd, rfl⟩
  · decide
  · exact digit_ne hd (by decide)

theorem intText_ne_nil (i : Int) : intText i ≠ [] := by
  cases i with
  | ofNat n =>
    obtain ⟨d, -, cs, hcs⟩ := natText_head n
    rw [intText, hcs]
    exact List.cons_ne_nil _ _
  | negSucc n => exact List.cons_ne_nil _ _

theorem natText_length {n k : Nat} (hk : 0 < k) (h : n < 10 ^ k) : (natText n).length ≤ k := by
  unfold natText
  split
  · exact hk
  · rw [List.length_reverse, List.length_map, Nat.digits_length_le_iff (by decide)]
    exact h

theorem intText_length {i : Int} {k : Nat} (hk : 0 < k) (hneg : -10 ^ (k - 1) < i)
    (hpos : i < 10 ^ k) : (intText i).length ≤ k := by
  cases i with
  | ofNat n =>
    have hcast : (n : Int) < 10 ^ k := hpos
    exact natText_length hk (by exact_mod_cast hcast)
  | negSucc n =>
    obtain ⟨k, rfl⟩ := Nat.exists_eq_succ_of_ne_zero hk.ne'
    have hn : n + 1 < 10 ^ k := by
      rw [Int.negSucc_eq] at hneg
      have hcast : (n : Int) + 1 < 10 ^ k := by simpa using hneg
      exact_mod_cast hcast
    rw [intText, List.length_cons]
    refine Nat.succ_le_succ (natText_length ?_ hn)
    by_contra hzero
    simp [Nat.eq_zero_of_not_pos hzero] at hn

end Decimal
