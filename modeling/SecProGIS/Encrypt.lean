import SecProGIS.EcbBuffer

/-! `encrypt.cpp`, a second implementation of SM4. Its header is missing: types
and context are those of `sm4.h`. -/

namespace SecProGIS

namespace Encrypt

def SboxTable : List (List u8) := [
  [0xd6, 0x90, 0xe9, 0xfe, 0xcc, 0xe1, 0x3d, 0xb7, 0x16, 0xb6, 0x14, 0xc2, 0x28, 0xfb, 0x2c, 0x05],
  [0x2b, 0x67, 0x9a, 0x76, 0x2a, 0xbe, 0x04, 0xc3, 0xaa, 0x44, 0x13, 0x26, 0x49, 0x86, 0x06, 0x99],
  [0x9c, 0x42, 0x50, 0xf4, 0x91, 0xef, 0x98, 0x7a, 0x33, 0x54, 0x0b, 0x43, 0xed, 0xcf, 0xac, 0x62],
  [0xe4, 0xb3, 0x1c, 0xa9, 0xc9, 0x08, 0xe8, 0x95, 0x80, 0xdf, 0x94, 0xfa, 0x75, 0x8f, 0x3f, 0xa6],
  [0x47, 0x07, 0xa7, 0xfc, 0xf3, 0x73, 0x17, 0xba, 0x83, 0x59, 0x3c, 0x19, 0xe6, 0x85, 0x4f, 0xa8],
  [0x68, 0x6b, 0x81, 0xb2, 0x71, 0x64, 0xda, 0x8b, 0xf8, 0xeb, 0x0f, 0x4b, 0x70, 0x56, 0x9d, 0x35],
  [0x1e, 0x24, 0x0e, 0x5e, 0x63, 0x58, 0xd1, 0xa2, 0x25, 0x22, 0x7c, 0x3b, 0x01, 0x21, 0x78, 0x87],
  [0xd4, 0x00, 0x46, 0x57, 0x9f, 0xd3, 0x27, 0x52, 0x4c, 0x36, 0x02, 0xe7, 0xa0, 0xc4, 0xc8, 0x9e],
  [0xea, 0xbf, 0x8a, 0xd2, 0x40, 0xc7, 0x38, 0xb5, 0xa3, 0xf7, 0xf2, 0xce, 0xf9, 0x61, 0x15, 0xa1],
  [0xe0, 0xae, 0x5d, 0xa4, 0x9b, 0x34, 0x1a, 0x55, 0xad, 0x93, 0x32, 0x30, 0xf5, 0x8c, 0xb1, 0xe3],
  [0x1d, 0xf6, 0xe2, 0x2e, 0x82, 0x66, 0xca, 0x60, 0xc0, 0x29, 0x23, 0xab, 0x0d, 0x53, 0x4e, 0x6f],
  [0xd5, 0xdb, 0x37, 0x45, 0xde, 0xfd, 0x8e, 0x2f, 0x03, 0xff, 0x6a, 0x72, 0x6d, 0x6c, 0x5b, 0x51],
  [0x8d, 0x1b, 0xaf, 0x92, 0xbb, 0xdd, 0xbc, 0x7f, 0x11, 0xd9, 0x5c, 0x41, 0x1f, 0x10, 0x5a, 0xd8],
  [0x0a, 0xc1, 0x31, 0x88, 0xa5, 0xcd, 0x7b, 0xbd, 0x2d, 0x74, 0xd0, 0x12, 0xb8, 0xe5, 0xb4, 0xb0],
  [0x89, 0x69, 0x97, 0x4a, 0x0c, 0x96, 0x77, 0x7e, 0x65, 0xb9, 0xf1, 0x09, 0xc5, 0x6e, 0xc6, 0x84],
  [0x18, 0xf0, 0x7d, 0xec, 0x3a, 0xdc, 0x4d, 0x20, 0x79, 0xee, 0x5f, 0x3e, 0xd7, 0xcb, 0x39, 0x48]]

def FK : List u32 := [0xa3b1bac6, 0x56aa3350, 0x677d9197, 0xb27022dc]

def CK : List u32 := [
  0x00070e15, 0x1c232a31, 0x383f464d, 0x545b6269,
  0x70777e85, 0x8c939aa1, 0xa8afb6bd, 0xc4cbd2d9,
  0xe0e7eef5, 0xfc030a11, 0x181f262d, 0x343b4249,
  0x50575e65, 0x6c737a81, 0x888f969d, 0xa4abb2b9,
  0xc0c7ced5, 0xdce3eaf1, 0xf8ff060d, 0x141b2229,
  0x30373e45, 0x4c535a61, 0x686f767d, 0x848b9299,
  0xa0a7aeb5, 0xbcc3cad1, 0xd8dfe6ed, 0xf4fb0209,
  0x10171e25, 0x2c333a41, 0x484f565d, 0x646b7279]

/-- The table is read as one row of 256 bytes. -/
def sm4Sbox (inch : u8) : u8 := SboxTable.flatten.getD inch.toNat 0

def sm4CalciRK (ka : u32) : u32 :=
  let bb := getUlongBE ((putUlongBE ka).map sm4Sbox) 0
  bb ^^^ (rotl bb 13 ^^^ rotl bb 23)

def sm4SetkeyTurn (i : Nat) (_ : i < 28) (s : Vector u32 32 × Vector u32 32) :
    Vector u32 32 × Vector u32 32 :=
  let v := s.1[i] ^^^ sm4CalciRK (s.1[i + 1] ^^^ s.1[i + 2] ^^^ s.1[i + 3] ^^^ CK.getD i 0)
  (s.1.set (i + 4) v, s.2.set i v)

/-- The loop makes 28 turns, and leaves the last four words of `SK` as they are. -/
def sm4Setkey (SK : Vector u32 32) (key : Vector u8 16) : Vector u32 32 :=
  let word := fun i => getUlongBE key.toList i
  let k : Vector u32 32 := Vector.replicate 32 0
  let k := (((k.set 0 (word 0 ^^^ FK.getD 0 0)).set 1 (word 4 ^^^ FK.getD 1 0)).set 2
    (word 8 ^^^ FK.getD 2 0)).set 3 (word 12 ^^^ FK.getD 3 0)
  (Nat.fold 28 sm4SetkeyTurn (k, SK)).2

def sm4Lt (ka : u32) : u32 :=
  let bb := getUlongBE ((putUlongBE ka).map sm4Sbox) 0
  bb ^^^ rotl bb 2 ^^^ rotl bb 10 ^^^ rotl bb 18 ^^^ rotl bb 24

def sm4F (x0 x1 x2 x3 rk : u32) : u32 := x0 ^^^ sm4Lt (x1 ^^^ x2 ^^^ x3 ^^^ rk)

def sm4OneRound (sk : Vector u32 32) (input : Bytes) : Bytes := sm4OneRoundBy sm4F sk input

def sm4SetkeyEnc (ctx : Sm4Context) (key : Vector u8 16) : Sm4Context := ⟨1, sm4Setkey ctx.sk key⟩

/-- One turn of the loop over the buffer: a block, or the bytes that are left. -/
def sm4CryptTurn (ctx : Sm4Context) (length : Int) (input : Bytes) (i : Nat) (output : Bytes) :
    Option Bytes :=
  if (i : Int) ≤ length - 16 then do
    let blockInput ← Checked.readN input i 16
    Checked.writeN output i (sm4OneRound ctx.sk blockInput)
  else Checked.copyN input i (length - i).toNat output

def sm4CryptFrom (ctx : Sm4Context) (length : Int) (input : Bytes) (i : Nat) (output : Bytes) :
    Option Bytes :=
  if _h : (i : Int) < length then do
    let output ← sm4CryptTurn ctx length input i output
    sm4CryptFrom ctx length input (i + 16) output
  else some output
termination_by (length - i).toNat

def sm4CryptEcb (ctx : Sm4Context) (length : Int) (input output : Bytes) : Option Bytes :=
  sm4CryptFrom ctx length input 0 output

def sm4SetkeyDec (ctx : Sm4Context) (key : Vector u8 16) : Sm4Context :=
  ⟨1, Nat.fold 16 sm4SwapTurn (sm4Setkey ctx.sk key)⟩

end Encrypt

theorem encrypt_sm4Sbox : Encrypt.sm4Sbox = sm4Sbox := by
  have htable : Encrypt.SboxTable.flatten = SboxTable := by decide +kernel
  funext inch
  rw [Encrypt.sm4Sbox, htable, sm4Sbox]

theorem encrypt_CK {i : Nat} (h : i < 32) : Encrypt.CK.getD i 0 = CK[i] := by
  have htable : Encrypt.CK = CK.toList := rfl
  rw [htable, List.getD_eq_getElem?_getD, List.getElem?_eq_getElem (by simpa using h),
    Vector.getElem_toList, Option.getD_some]

theorem encrypt_sm4CalciRK : Encrypt.sm4CalciRK = sm4CalciRK := by
  funext ka
  simp only [Encrypt.sm4CalciRK, encrypt_sm4Sbox, sm4CalciRK, sm4Sbox4, BitVec.xor_assoc]

theorem encrypt_sm4F : Encrypt.sm4F = sm4F := by
  funext x0 x1 x2 x3 rk
  simp only [Encrypt.sm4F, Encrypt.sm4Lt, encrypt_sm4Sbox, sm4F, sm4Lt, sm4Sbox4]

theorem encrypt_sm4OneRound : Encrypt.sm4OneRound = sm4OneRound := by
  funext sk input
  rw [Encrypt.sm4OneRound, encrypt_sm4F, sm4OneRound]

end SecProGIS
