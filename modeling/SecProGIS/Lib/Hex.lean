import Mathlib

/-! Bytes printed as two lower-case hexadecimal digits each, and read back. -/

namespace Hex

abbrev Byte := BitVec 8

def digit (d : Nat) : Byte := BitVec.ofNat 8 (if d < 10 then 48 + d else 87 + d)

def pair (b : Byte) : List Byte := [digit (b.toNat / 16), digit (b.toNat % 16)]

def text (bs : List Byte) : List Byte := bs.flatMap pair

@[simp] theorem text_nil : text [] = [] := rfl

@[simp] theorem text_cons (b : Byte) (bs : List Byte) : text (b :: bs) = pair b ++ text bs := rfl

theorem text_append (bs cs : List Byte) : text (bs ++ cs) = text bs ++ text cs :=
  List.flatMap_append

theorem text_length (bs : List Byte) : (text bs).length = 2 * bs.length := by
  induction bs with
  | nil => rfl
  | cons b bs ih =>
    rw [text_cons, List.length_append, ih, List.length_cons]
    simp only [pair, List.length_cons, List.length_nil]
    omega

theorem digit_toNat {d : Nat} (h : d < 16) :
    (digit d).toNat = if d < 10 then 48 + d else 87 + d := by
  rw [digit, BitVec.toNat_ofNat]
  split <;> omega

theorem digit_ne_zero {d : Nat} (h : d < 16) : digit d ≠ 0 := by
  intro he
  have hz := congrArg BitVec.toNat he
  rw [digit_toNat h] at hz
  simp only [BitVec.ofNat_eq_ofNat, BitVec.toNat_ofNat] at hz
  split at hz <;> omega

theorem exists_digit_of_mem {bs : List Byte} {c : Byte} (h : c ∈ text bs) :
    ∃ d < 16, c = digit d := by
  obtain ⟨b, _, hc⟩ := List.mem_flatMap.mp h
  have hb := b.isLt
  rcases List.mem_cons.mp hc with rfl | hc
  · exact ⟨b.toNat / 16, by omega, rfl⟩
  · exact ⟨b.toNat % 16, by omega, List.mem_singleton.mp hc⟩

theorem ne_zero_of_mem {bs : List Byte} {c : Byte} (h : c ∈ text bs) : c ≠ 0 := by
  obtain ⟨d, hd, rfl⟩ := exists_digit_of_mem h
  exact digit_ne_zero hd

end Hex
