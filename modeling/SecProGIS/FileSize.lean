import SecProGIS.EcbPieces
import SecProGIS.EncryptFile

/-! The sizes `OnEncryptFile` computes: the lengths of both files are cut to an
`int`, and the buffers for the two digests are allocated and read by them. -/

namespace SecProGIS

/-- What `CFile::Read` gives for the count `n`, which it takes as an `UINT`. -/
def readInto (n : Int) (f : SeekFile u8) : Bytes := (f.read (BitVec.ofInt 32 n).toNat).1

/-- A buffer that is allocated with the size `n`, filled by one `Read` of as
much and hashed. -/
structure Filled (n : Int) (f : SeekFile u8) : Prop where
  nonneg : 0 ≤ n
  read_eq : ((readInto n f).length : Int) = n
  hashed_eq : readBuf n.toNat f = readInto n f

def addInt (a b : Int) : Option Int :=
  if -2 ^ 31 ≤ a + b ∧ a + b < 2 ^ 31 then some (a + b) else none

def totalReadNum (plain : SeekFile u8) : Option Int :=
  (blocksRead plain).foldlM (fun (total : Int) block => addInt total block.length) 0

namespace Session

variable (s : Session)

def cipherFile (plain : Bytes) : SeekFile u8 := writeCipher s.dlg.contentKey 1 s.dlg.mDate64t plain

structure SizesRight (plain : Bytes) : Prop where
  plainLen_eq : (s.measured plain).dlg.plainLen = plain.length
  plain_filled : Filled (s.measured plain).dlg.plainLen (.opened plain)
  total_fits : totalReadNum (.opened plain) ≠ none
  cipherLen_eq : cipherLen (s.cipherFile plain) = plain.length
  cipher_filled : Filled (cipherLen (s.cipherFile plain)) ((s.cipherFile plain).seek 44)

end Session

theorem toInt32_lt (n : Nat) : toInt32 n < 2 ^ 31 := by
  have h := BitVec.toInt_lt (x := BitVec.ofNat 32 n)
  rw [toInt32]
  omega

theorem toInt32_of_ge {n : Nat} (h : 2 ^ 31 ≤ n) (hn : n < 2 ^ 32) : toInt32 n = n - 2 ^ 32 := by
  have hmod : n % 2 ^ 32 = n := Nat.mod_eq_of_lt hn
  rw [toInt32, BitVec.toInt_eq_toNat_cond, BitVec.toNat_ofNat, hmod, if_neg (by omega)]
  rfl

theorem filled_of_ahead {f : SeekFile u8} {n : Nat} (h : f.ahead.length = n) (hn : n < 2 ^ 31) :
    Filled n f := by
  have hcount : (BitVec.ofInt 32 (n : Int)).toNat = n := by
    rw [BitVec.ofInt_natCast, BitVec.toNat_ofNat]
    exact Nat.mod_eq_of_lt (by omega)
  have hread : readInto n f = f.ahead := by
    rw [readInto, hcount, SeekFile.read_fst, List.take_of_length_le h.le]
  refine ⟨Int.natCast_nonneg n, by rw [hread, h], ?_⟩
  rw [hread, Int.toNat_natCast, readBuf_of_le h.ge, List.take_of_length_le h.le]

theorem foldlM_addInt (blocks : List Bytes) {total : Nat}
    (h : total + blocks.flatten.length < 2 ^ 31) :
    blocks.foldlM (fun (total : Int) block => addInt total block.length) (total : Int) =
      some ((total + blocks.flatten.length : Nat) : Int) := by
  induction blocks generalizing total with
  | nil => rfl
  | cons block blocks ih =>
    rw [List.flatten_cons, List.length_append] at h ⊢
    have hadd : addInt total block.length = some ((total + block.length : Nat) : Int) := by
      rw [addInt, if_pos (by omega), Nat.cast_add]
    rw [List.foldlM_cons, hadd, Option.bind_eq_bind, Option.bind_some,
      ih (by rwa [Nat.add_assoc]), Nat.add_assoc]

theorem totalReadNum_eq {plain : SeekFile u8} (h : plain.ahead.length < 2 ^ 31) :
    totalReadNum plain = some (plain.ahead.length : Int) := by
  have hsum : 0 + (blocksRead plain).flatten.length < 2 ^ 31 := by
    rwa [Nat.zero_add, blocksRead_flatten]
  have hfold := foldlM_addInt (blocksRead plain) hsum
  rw [Nat.zero_add, blocksRead_flatten] at hfold
  exact hfold

theorem cipherFile_length (s : Session) {plain : Bytes} (h : plain ≠ []) :
    (s.cipherFile plain).bytes.length = 44 + plain.length := by
  rw [Session.cipherFile, writeCipher_eq _ _ _ h, List.length_append, smCryptEcb16_length,
    header_length _ _ (List.length_replicate ..)]

theorem cipherFile_ahead (s : Session) {plain : Bytes} (h : plain ≠ []) :
    ((s.cipherFile plain).seek 44).ahead.length = plain.length := by
  rw [SeekFile.ahead, SeekFile.seek_bytes, SeekFile.seek_pos, Session.cipherFile,
    writeCipher_eq _ _ _ h, List.drop_left' (header_length _ _ (List.length_replicate ..)),
    smCryptEcb16_length]

/-- The sizes are right for the lengths from 1 to `2 ^ 31 - 1`. From `2 ^ 31 - 44`
on they are so because the subtraction of the header wraps. -/
theorem file_sizes_iff (s : Session) (plain : Bytes) :
    (s.SizesRight plain ↔ 0 < plain.length ∧ plain.length < 2 ^ 31) ∧
    (0 < plain.length → plain.length < 2 ^ 31 →
      (addInt (toInt32 (s.cipherFile plain).bytes.length) (-44) = none ↔
        2 ^ 31 - 44 ≤ plain.length)) := by
  refine ⟨⟨fun h => ?_, fun ⟨hpos, hlt⟩ => ?_⟩, fun hpos hlt => ?_⟩
  · have hplain : toInt32 plain.length = plain.length := h.plainLen_eq
    have hcipher := h.cipherLen_eq
    rw [Session.cipherFile, cipherLen_writeCipher] at hcipher
    constructor
    · apply List.length_pos_iff.mpr
      intro hnil
      rw [if_pos hnil] at hcipher
      omega
    · have hlt := toInt32_lt plain.length
      omega
  · have hne : plain ≠ [] := List.length_pos_iff.mp hpos
    have hplain : (s.measured plain).dlg.plainLen = plain.length := toInt32_of_lt hlt
    have hcipher : cipherLen (s.cipherFile plain) = plain.length := by
      rw [Session.cipherFile, cipherLen_writeCipher, if_neg hne, toInt32_of_lt hlt]
    refine ⟨hplain, ?_, ?_, hcipher, ?_⟩
    · rw [hplain]
      exact filled_of_ahead (by rw [SeekFile.opened_ahead]) hlt
    · rw [totalReadNum_eq (by rwa [SeekFile.opened_ahead])]
      exact Option.some_ne_none _
    · rw [hcipher]
      exact filled_of_ahead (cipherFile_ahead s hne) hlt
  · rw [cipherFile_length s (List.length_pos_iff.mp hpos)]
    by_cases hwrap : 2 ^ 31 ≤ 44 + plain.length
    · rw [toInt32_of_ge hwrap (by omega), addInt, if_neg (by omega)]
      exact iff_of_true rfl (by omega)
    · rw [toInt32_of_lt (by omega), addInt, if_pos (by omega)]
      exact iff_of_false (Option.some_ne_none _) (by omega)

/-- Of an empty file nothing is written behind the header, and the size of the
second buffer comes out as -32. -/
theorem file_sizes_empty : ¬ sampleSession.SizesRight [] := by
  intro h
  have hcipher := h.cipherLen_eq
  rw [Session.cipherFile, cipherLen_writeCipher, if_pos rfl] at hcipher
  exact absurd hcipher (by decide)

end SecProGIS
