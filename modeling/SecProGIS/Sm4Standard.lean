import SecProGIS.EncryptAgree
import SecProGIS.Sm3Process
import SecProGIS.Lib.Sm4Cipher

/-! `sm4.cpp` computes the cipher of the SM4 standard. -/

namespace SecProGIS

open Sm4Cipher (X)

theorem SboxTable_eq :
    SboxTable = (List.range 256).map fun i => Sm4Cipher.Sbox (BitVec.ofNat 8 i) := by
  decide +kernel

theorem CK_eq : CK.toList = (List.range 32).map Sm4Cipher.CK := by
  decide +kernel

theorem sm4Sbox_eq (b : u8) : sm4Sbox b = Sm4Cipher.Sbox b := by
  have hb : b.toNat < 256 := b.isLt
  rw [sm4Sbox, SboxTable_eq, List.getD_eq_getElem?_getD, List.getElem?_map,
    List.getElem?_range hb, Option.map_some, Option.getD_some, BitVec.ofNat_toNat,
    BitVec.setWidth_eq]

theorem sm4Sbox4_eq (ka : u32) : sm4Sbox4 ka = Sm4Cipher.τ ka := by
  have hbytes : sm4Sbox4 ka =
      wordBE (sm4Sbox ((ka >>> 24).setWidth 8)) (sm4Sbox ((ka >>> 16).setWidth 8))
        (sm4Sbox ((ka >>> 8).setWidth 8)) (sm4Sbox (ka.setWidth 8)) := rfl
  simp only [hbytes, wordBE_eq_append, sm4Sbox_eq, Sm4Cipher.τ]

theorem sm4Lt_eq (ka : u32) : sm4Lt ka = Sm4Cipher.T ka := by
  simp only [sm4Lt, sm4Sbox4_eq, rotl_eq_rotateLeft, Sm4Cipher.T, Sm4Cipher.L]

theorem sm4CalciRK_eq (ka : u32) : sm4CalciRK ka = Sm4Cipher.T' ka := by
  simp only [sm4CalciRK, sm4Sbox4_eq, rotl_eq_rotateLeft, Sm4Cipher.T', Sm4Cipher.L']

theorem CK_getElem {i : Nat} (h : i < 32) : CK[i] = Sm4Cipher.CK i := by
  have hlist : CK.toList[i]? = some (Sm4Cipher.CK i) := by
    rw [CK_eq, List.getElem?_map, List.getElem?_range h, Option.map_some]
  simpa [h] using hlist

theorem getUlongBE_word (b : Vector u8 16) (i : Nat) :
    getUlongBE b.toList (4 * i) = Sm4Cipher.word b i := by
  rw [getUlongBE, wordBE_eq_append, Sm4Cipher.word]

theorem getUlongBE_words (b : Vector u8 16) :
    getUlongBE b.toList 0 = Sm4Cipher.word b 0 ∧ getUlongBE b.toList 4 = Sm4Cipher.word b 1 ∧
      getUlongBE b.toList 8 = Sm4Cipher.word b 2 ∧ getUlongBE b.toList 12 = Sm4Cipher.word b 3 :=
  ⟨getUlongBE_word b 0, getUlongBE_word b 1, getUlongBE_word b 2, getUlongBE_word b 3⟩

/-- The four words of the key schedule from turn `i` on. -/
theorem sm4KeyState_eq (key : Vector u8 16) {i : Nat} (h : i ≤ 32) :
    sm4KeyState key i = (Sm4Cipher.K key i, Sm4Cipher.K key (i + 1), Sm4Cipher.K key (i + 2),
      Sm4Cipher.K key (i + 3)) := by
  induction i with
  | zero =>
    obtain ⟨h0, h1, h2, h3⟩ := getUlongBE_words key
    have hstart : sm4KeyState key 0 = sm4KeyStart key := rfl
    rw [hstart, sm4KeyStart, h0, h1, h2, h3]
    rfl
  | succ i ih =>
    rw [sm4KeyState_succ key (by omega), ih (by omega), CK_getElem (by omega)]
    simp only [Feistel.round, sm4KeyT, sm4CalciRK_eq]
    rfl

theorem sm4Setkey_getElem (key : Vector u8 16) {i : Nat} (h : i < 32) :
    (sm4Setkey key)[i] = Sm4Cipher.rk key i := by
  rw [← sm4SetkeyInto_eq key (Vector.replicate 32 0), sm4SetkeyInto_getElem key _ h,
    sm4RoundKey, sm4KeyState_eq key (by omega)]
  rfl

section

variable {sk : Vector u32 32} {rk : Nat → u32} (hsk : ∀ i (h : i < 32), sk[i] = rk i)

include hsk

theorem sm4Rounds_eq (block : Vector u8 16) {i : Nat} (h : i ≤ 32) :
    (sk.toList.take i).foldl (Feistel.round (· ^^^ ·) sm4T) (sm4Words block.toList) =
      (X rk block i, X rk block (i + 1), X rk block (i + 2), X rk block (i + 3)) := by
  induction i with
  | zero =>
    obtain ⟨h0, h1, h2, h3⟩ := getUlongBE_words block
    rw [List.take_zero, List.foldl_nil, sm4Words, h0, h1, h2, h3]
    rfl
  | succ i ih =>
    have hlen : i < sk.toList.length := by simpa using h
    rw [Feistel.foldl_take_succ hlen, ih (by omega), Vector.getElem_toList, hsk i (by omega)]
    simp only [Feistel.round, sm4T, sm4Lt_eq]
    rfl

theorem sm4OneRound_output (block : Vector u8 16) :
    sm4OneRound sk block.toList = Sm4Cipher.output rk block := by
  have hall : sk.toList.take 32 = sk.toList := List.take_of_length_le (by simp)
  have hrounds := sm4Rounds_eq hsk block (i := 32) le_rfl
  rw [hall] at hrounds
  rw [sm4OneRound_eq_crypt, Feistel.crypt, hrounds]
  rfl

end

/-- The context that a schedule leaves has the round keys of the standard, and
a block comes out as the standard has it, encrypted or decrypted. -/
theorem sm4_standard (key block : Vector u8 16) :
    (∀ i (h : i < 32), (sm4SetkeyEnc key).sk[i] = Sm4Cipher.rk key i) ∧
      sm4OneRound (sm4SetkeyEnc key).sk block.toList = Sm4Cipher.encrypt key block ∧
      sm4OneRound (sm4SetkeyDec key).sk block.toList = Sm4Cipher.decrypt key block := by
  have henc : ∀ i (h : i < 32), (sm4SetkeyEnc key).sk[i] = Sm4Cipher.rk key i :=
    fun i h => sm4Setkey_getElem key h
  have hdec : ∀ i (h : i < 32), (sm4SetkeyDec key).sk[i] = Sm4Cipher.rk key (31 - i) := by
    intro i h
    have hswap : (sm4SetkeyDec key).sk = (sm4Setkey key).reverse := sm4SwapTurns_eq _
    simp only [hswap, Vector.getElem_reverse]
    exact sm4Setkey_getElem key (by omega)
  exact ⟨henc, sm4OneRound_output henc block, sm4OneRound_output hdec block⟩

end SecProGIS
