import Mathlib

/-! The block cipher of the SM4 standard: its substitution through inversion in
a field of 256 elements, the expansion of the key, and the 32 rounds. -/

namespace Sm4Cipher

abbrev Byte := BitVec 8

abbrev Word := BitVec 32

def timesX (a : Byte) : Byte := if a.msb then a <<< 1 ^^^ 0xf5 else a <<< 1

def mul (a b : Byte) : Byte :=
  (List.range 8).foldr (fun i r => timesX r ^^^ if b.getLsbD i then a else 0) 0

/-- The power 254, which is the inverse but for the zero. -/
def inverse (a : Byte) : Byte :=
  let a2 := mul a a
  let a4 := mul a2 a2
  let a8 := mul a4 a4
  let a16 := mul a8 a8
  let a32 := mul a16 a16
  let a64 := mul a32 a32
  let a128 := mul a64 a64
  mul a2 (mul a4 (mul a8 (mul a16 (mul a32 (mul a64 a128)))))

def affine (a : Byte) : Byte :=
  a ^^^ a.rotateLeft 1 ^^^ a.rotateLeft 3 ^^^ a.rotateLeft 6 ^^^ a.rotateLeft 7 ^^^ 0xd3

def Sbox (a : Byte) : Byte := affine (inverse (affine a))

def bytes (w : Word) : List Byte :=
  [(w >>> 24).setWidth 8, (w >>> 16).setWidth 8, (w >>> 8).setWidth 8, w.setWidth 8]

def τ (w : Word) : Word :=
  Sbox ((w >>> 24).setWidth 8) ++ Sbox ((w >>> 16).setWidth 8) ++ Sbox ((w >>> 8).setWidth 8) ++
    Sbox (w.setWidth 8)

def L (B : Word) : Word :=
  B ^^^ B.rotateLeft 2 ^^^ B.rotateLeft 10 ^^^ B.rotateLeft 18 ^^^ B.rotateLeft 24

def L' (B : Word) : Word := B ^^^ B.rotateLeft 13 ^^^ B.rotateLeft 23

def T (w : Word) : Word := L (τ w)

def T' (w : Word) : Word := L' (τ w)

def word (b : Vector Byte 16) (i : Nat) : Word :=
  b.toList.getD (4 * i) 0 ++ b.toList.getD (4 * i + 1) 0 ++ b.toList.getD (4 * i + 2) 0 ++
    b.toList.getD (4 * i + 3) 0

def ck (j : Nat) : Byte := BitVec.ofNat 8 (7 * j)

def CK (i : Nat) : Word := ck (4 * i) ++ ck (4 * i + 1) ++ ck (4 * i + 2) ++ ck (4 * i + 3)

def K (MK : Vector Byte 16) : Nat → Word
  | 0 => word MK 0 ^^^ 0xa3b1bac6
  | 1 => word MK 1 ^^^ 0x56aa3350
  | 2 => word MK 2 ^^^ 0x677d9197
  | 3 => word MK 3 ^^^ 0xb27022dc
  | i + 4 => K MK i ^^^ T' (K MK (i + 1) ^^^ K MK (i + 2) ^^^ K MK (i + 3) ^^^ CK i)

def rk (MK : Vector Byte 16) (i : Nat) : Word := K MK (i + 4)

def X (rk : Nat → Word) (x : Vector Byte 16) : Nat → Word
  | 0 => word x 0
  | 1 => word x 1
  | 2 => word x 2
  | 3 => word x 3
  | i + 4 => X rk x i ^^^ T (X rk x (i + 1) ^^^ X rk x (i + 2) ^^^ X rk x (i + 3) ^^^ rk i)

/-- The block after 32 rounds, its last four words in reverse. -/
def output (rk : Nat → Word) (x : Vector Byte 16) : List Byte :=
  bytes (X rk x 35) ++ bytes (X rk x 34) ++ bytes (X rk x 33) ++ bytes (X rk x 32)

def encrypt (MK x : Vector Byte 16) : List Byte := output (rk MK) x

def decrypt (MK x : Vector Byte 16) : List Byte := output (fun i => rk MK (31 - i)) x

end Sm4Cipher
