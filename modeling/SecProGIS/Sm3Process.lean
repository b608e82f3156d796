import SecProGIS.Sm3
import SecProGIS.Lib.Sm3Compression

/-! `sm3_process` is the compression function of the SM3 standard. -/

namespace SecProGIS

open Sm3Compression (W rounds)

theorem rotl_eq_rotateLeft (x : u32) (n : Nat) : rotl x n = x.rotateLeft n := by
  have hmask : x &&& 0xFFFFFFFF = x := BitVec.and_allOnes
  have hn : n % 32 < 32 := Nat.mod_lt _ (by decide)
  rw [rotl, hmask, BitVec.rotateLeft_def]
  by_cases h : n % 32 = 0
  · have hgone : x >>> 32 = 0#32 := BitVec.ushiftRight_eq_zero le_rfl
    simp [h, hgone]
  · rw [Nat.mod_eq_of_lt (by omega : 32 - n % 32 < 32)]

theorem wordBE_eq_append (a b c d : u8) : wordBE a b c d = a ++ b ++ c ++ d := by
  have hlt : ∀ (x : u8) k, k ≤ 24 → x.toNat <<< k < 2 ^ 32 := by
    intro x k hk
    have hx := x.isLt
    have hpow := Nat.pow_le_pow_right (by decide : 0 < 2) hk
    rw [Nat.shiftLeft_eq]
    nlinarith
  have hself : ∀ x : u8, x.toNat % 2 ^ 32 = x.toNat := fun x => Nat.mod_eq_of_lt (by omega)
  apply BitVec.eq_of_toNat_eq
  simp only [wordBE, BitVec.toNat_or, BitVec.toNat_shiftLeft, BitVec.toNat_setWidth,
    BitVec.toNat_append, hself]
  rw [Nat.mod_eq_of_lt (hlt a 24 (by decide)), Nat.mod_eq_of_lt (hlt b 16 (by decide)),
    Nat.mod_eq_of_lt (hlt c 8 (by decide))]
  simp only [Nat.shiftLeft_or_distrib, ← Nat.shiftLeft_add]

theorem getUlongBE_block (B : Vector u8 64) {j : Nat} (h : j < 16) :
    getUlongBE B.toList (4 * j) = W B j := by
  have hbyte : ∀ k (hk : k < 64), B.toList.getD k 0 = B[k] := by
    intro k hk
    simp [List.getD_eq_getElem?_getD, hk]
  rw [Sm3Compression.W_of_lt B h, Sm3Compression.blockWord, ← wordBE_eq_append, getUlongBE,
    hbyte (4 * j) (by omega), hbyte (4 * j + 1) (by omega), hbyte (4 * j + 2) (by omega),
    hbyte (4 * j + 3) (by omega)]

theorem sm3Load_eq (B : Vector u8 64) (j : Nat) (hj : j < 68) (h : j < 16) :
    (sm3Load B.toList)[j] = W B j := by
  let I := fun (i : Nat) (w : Vector u32 68) => ∀ j (_ : j < 68), j < i → i ≤ 16 → w[j] = W B j
  have hstart : I 0 (Vector.replicate 68 0) := fun _ _ h => absurd h (by omega)
  have hturn : ∀ i (_ : i < 16) w, I i w → I (i + 1) (w.set i (getUlongBE B.toList (4 * i))) := by
    intro i hi w hw j hj hlt _
    rw [Vector.getElem_set]
    by_cases hij : i = j
    · rw [if_pos hij, getUlongBE_block B hi, hij]
    · rw [if_neg hij]
      exact hw j hj (by omega) hi.le
  exact fold_invariant I hstart hturn j hj h le_rfl

theorem sm3Expand_eq (B : Vector u8 64) (j : Nat) (hj : j < 68) :
    (sm3Expand (sm3Load B.toList))[j] = W B j := by
  let I := fun (i : Nat) (w : Vector u32 68) => ∀ j (_ : j < 68), j < i + 16 → w[j] = W B j
  have hstart : I 0 (sm3Load B.toList) := fun j hj h => sm3Load_eq B j hj (by omega)
  have hturn : ∀ i (_ : i < 52) w, I i w → I (i + 1) (w.set (i + 16)
      (p1 (w[i] ^^^ w[i + 7] ^^^ rotl w[i + 13] 15) ^^^ (rotl w[i + 3] 7 ^^^ w[i + 10]))) := by
    intro i hi w hw j hj hlt
    rw [Vector.getElem_set]
    by_cases hij : i + 16 = j
    · rw [if_pos hij, hw i (by omega) (by omega), hw (i + 7) (by omega) (by omega),
        hw (i + 13) (by omega) (by omega), hw (i + 3) (by omega) (by omega),
        hw (i + 10) (by omega) (by omega), ← hij, Sm3Compression.W_add_sixteen]
      simp only [p1, Sm3Compression.P1, rotl_eq_rotateLeft, BitVec.xor_assoc]
    · rw [if_neg hij]
      exact hw j hj (by omega)
  exact fold_invariant I hstart hturn j hj (by omega)

def Sm3Regs.regs (r : Sm3Regs) : Sm3Compression.Regs :=
  ⟨r.a, r.b, r.c, r.d, r.e, r.f, r.g, r.h⟩

theorem ff0_eq {j : Nat} (h : j < 16) : ff0 = Sm3Compression.FF j := by
  funext X Y Z
  rw [ff0, Sm3Compression.FF, if_pos h]

theorem gg0_eq {j : Nat} (h : j < 16) : gg0 = Sm3Compression.GG j := by
  funext X Y Z
  rw [gg0, Sm3Compression.GG, if_pos h]

theorem ff1_eq {j : Nat} (h : 16 ≤ j) : ff1 = Sm3Compression.FF j := by
  funext X Y Z
  rw [ff1, Sm3Compression.FF, if_neg (not_lt.mpr h)]

theorem gg1_eq {j : Nat} (h : 16 ≤ j) : gg1 = Sm3Compression.GG j := by
  funext X Y Z
  rw [gg1, Sm3Compression.GG, if_neg (not_lt.mpr h)]

theorem sm3T_getElem {j : Nat} (h : j < 64) : sm3T[j] = Sm3Compression.T j := by
  simp [sm3T, Sm3Compression.T]

theorem sm3Round_eq (B : Vector u8 64) {j : Nat} {ff gg : u32 → u32 → u32 → u32} {t w w1 : u32}
    (hff : ff = Sm3Compression.FF j) (hgg : gg = Sm3Compression.GG j)
    (ht : t = Sm3Compression.T j) (hw : w = W B j) (hw1 : w1 = Sm3Compression.W' B j)
    (r : Sm3Regs) : (sm3Round ff gg j t w w1 r).regs = Sm3Compression.round B j r.regs := by
  have hcount : (Sm3Compression.T j).rotateLeft j = (Sm3Compression.T j).rotateLeft (j % 32) := by
    rw [BitVec.rotateLeft_mod_eq_rotateLeft]
  simp only [sm3Round, Sm3Regs.regs, Sm3Compression.round, hff, hgg, ht, hw, hw1,
    rotl_eq_rotateLeft, hcount, p0, Sm3Compression.P0]

theorem fold_rounds {B : Vector u8 64} {n o : Nat} {f : (i : Nat) → i < n → Sm3Regs → Sm3Regs}
    (hf : ∀ i hi r, (f i hi r).regs = Sm3Compression.round B (i + o) r.regs) {r : Sm3Regs}
    {s : Sm3Compression.Regs} (h : r.regs = rounds B s o) :
    (Nat.fold n f r).regs = rounds B s (n + o) := by
  have hstart : r.regs = rounds B s (0 + o) := by rwa [Nat.zero_add]
  refine fold_invariant (fun i (x : Sm3Regs) => x.regs = rounds B s (i + o)) hstart ?_
  intro i hi x hx
  rw [hf, hx, Nat.add_right_comm]
  rfl

/-- `sm3_process` turns every chaining value and block into what the standard's
function does. -/
theorem sm3_process_standard (V : Vector u32 8) (B : Vector u8 64) :
    sm3Process V B.toList = Sm3Compression.CF V B := by
  let w := sm3Expand (sm3Load B.toList)
  let w1 : Vector u32 64 := Vector.ofFn fun j => w[j.val] ^^^ w[j.val + 4]
  have hw : ∀ j (_ : j < 68), w[j] = W B j := sm3Expand_eq B
  have hw1 : ∀ j (_ : j < 64), w1[j] = Sm3Compression.W' B j := by
    intro j hj
    rw [Vector.getElem_ofFn, hw j (by omega), hw (j + 4) (by omega), Sm3Compression.W']
  have hfirst : ∀ i (_ : i < 16) r, (sm3Round ff0 gg0 i sm3T[i] w[i] w1[i] r).regs =
      Sm3Compression.round B (i + 0) r.regs := fun i hi =>
    sm3Round_eq B (ff0_eq hi) (gg0_eq hi) (sm3T_getElem _) (hw i _) (hw1 i _)
  have hlast : ∀ i (_ : i < 48) r,
      (sm3Round ff1 gg1 (i + 16) sm3T[i + 16] w[i + 16] w1[i + 16] r).regs =
        Sm3Compression.round B (i + 16) r.regs := fun i _ =>
    sm3Round_eq B (ff1_eq (by omega)) (gg1_eq (by omega)) (sm3T_getElem _) (hw _ _) (hw1 _ _)
  let r : Sm3Regs := ⟨V[0], V[1], V[2], V[3], V[4], V[5], V[6], V[7]⟩
  have hrounds : Sm3Regs.regs _ = rounds B
      ⟨V.get 0, V.get 1, V.get 2, V.get 3, V.get 4, V.get 5, V.get 6, V.get 7⟩ 64 :=
    fold_rounds hlast (fold_rounds hfirst (rfl : r.regs = rounds B _ 0))
  simp only [Sm3Compression.CF, ← hrounds]
  apply Vector.ext
  intro i hi
  rw [Vector.getElem_zipWith, BitVec.xor_comm]
  rcases (by omega : i = 0 ∨ i = 1 ∨ i = 2 ∨ i = 3 ∨ i = 4 ∨ i = 5 ∨ i = 6 ∨ i = 7) with
    rfl | rfl | rfl | rfl | rfl | rfl | rfl | rfl <;> rfl

end SecProGIS
