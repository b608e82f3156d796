import Mathlib

/-! The compression function of the SM3 standard: the expansion of a block into
words, the rounds on eight registers, and the sum with the chaining value. -/

namespace Sm3Compression

abbrev Word := BitVec 32

abbrev Block := Vector (BitVec 8) 64

def P0 (X : Word) : Word := X ^^^ X.rotateLeft 9 ^^^ X.rotateLeft 17

def P1 (X : Word) : Word := X ^^^ X.rotateLeft 15 ^^^ X.rotateLeft 23

def T (j : Nat) : Word := if j < 16 then 0x79CC4519 else 0x7A879D8A

def FF (j : Nat) (X Y Z : Word) : Word :=
  if j < 16 then X ^^^ Y ^^^ Z else (X &&& Y) ||| (X &&& Z) ||| (Y &&& Z)

def GG (j : Nat) (X Y Z : Word) : Word :=
  if j < 16 then X ^^^ Y ^^^ Z else (X &&& Y) ||| (~~~X &&& Z)

def blockWord (B : Block) (j : Nat) (h : j < 16) : Word :=
  B[4 * j] ++ B[4 * j + 1] ++ B[4 * j + 2] ++ B[4 * j + 3]

def W (B : Block) (j : Nat) : Word :=
  if h : j < 16 then blockWord B j h
  else
    P1 (W B (j - 16) ^^^ W B (j - 9) ^^^ (W B (j - 3)).rotateLeft 15) ^^^
      (W B (j - 13)).rotateLeft 7 ^^^ W B (j - 6)
termination_by j

def W' (B : Block) (j : Nat) : Word := W B j ^^^ W B (j + 4)

structure Regs where
  A : Word
  B : Word
  C : Word
  D : Word
  E : Word
  F : Word
  G : Word
  H : Word

def round (B : Block) (j : Nat) (r : Regs) : Regs :=
  let SS1 := (r.A.rotateLeft 12 + r.E + (T j).rotateLeft (j % 32)).rotateLeft 7
  let SS2 := SS1 ^^^ r.A.rotateLeft 12
  let TT1 := FF j r.A r.B r.C + r.D + SS2 + W' B j
  let TT2 := GG j r.E r.F r.G + r.H + SS1 + W B j
  ⟨TT1, r.A, r.B.rotateLeft 9, r.C, P0 TT2, r.E, r.F.rotateLeft 19, r.G⟩

def rounds (B : Block) (r : Regs) : Nat → Regs
  | 0 => r
  | j + 1 => round B j (rounds B r j)

def CF (V : Vector Word 8) (B : Block) : Vector Word 8 :=
  let r := rounds B
    ⟨V.get 0, V.get 1, V.get 2, V.get 3, V.get 4, V.get 5, V.get 6, V.get 7⟩ 64
  #v[r.A, r.B, r.C, r.D, r.E, r.F, r.G, r.H].zipWith (· ^^^ ·) V

theorem W_of_lt (B : Block) {j : Nat} (h : j < 16) : W B j = blockWord B j h := by
  rw [W, dif_pos h]

theorem W_add_sixteen (B : Block) (i : Nat) : W B (i + 16) =
    P1 (W B i ^^^ W B (i + 7) ^^^ (W B (i + 13)).rotateLeft 15) ^^^
      (W B (i + 3)).rotateLeft 7 ^^^ W B (i + 10) := by
  rw [W, dif_neg (by omega)]
  rfl

end Sm3Compression
