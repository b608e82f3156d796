import SecProGIS.Bytes
import SecProGIS.Lib.Blocks
import SecProGIS.Lib.Feistel

/-! The SM4 routines of `sm4.cpp`, and that the reversed key schedule undoes
the encryption of a buffer of any length. -/

namespace SecProGIS

def SboxTable : List u8 := [
  0xd6, 0x90, 0xe9, 0xfe, 0xcc, 0xe1, 0x3d, 0xb7, 0x16, 0xb6, 0x14, 0xc2, 0x28, 0xfb, 0x2c, 0x05,
  0x2b, 0x67, 0x9a, 0x76, 0x2a, 0xbe, 0x04, 0xc3, 0xaa, 0x44, 0x13, 0x26, 0x49, 0x86, 0x06, 0x99,
  0x9c, 0x42, 0x50, 0xf4, 0x91, 0xef, 0x98, 0x7a, 0x33, 0x54, 0x0b, 0x43, 0xed, 0xcf, 0xac, 0x62,
  0xe4, 0xb3, 0x1c, 0xa9, 0xc9, 0x08, 0xe8, 0x95, 0x80, 0xdf, 0x94, 0xfa, 0x75, 0x8f, 0x3f, 0xa6,
  0x47, 0x07, 0xa7, 0xfc, 0xf3, 0x73, 0x17, 0xba, 0x83, 0x59, 0x3c, 0x19, 0xe6, 0x85, 0x4f, 0xa8,
  0x68, 0x6b, 0x81, 0xb2, 0x71, 0x64, 0xda, 0x8b, 0xf8, 0xeb, 0x0f, 0x4b, 0x70, 0x56, 0x9d, 0x35,
  0x1e, 0x24, 0x0e, 0x5e, 0x63, 0x58, 0xd1, 0xa2, 0x25, 0x22, 0x7c, 0x3b, 0x01, 0x21, 0x78, 0x87,
  0xd4, 0x00, 0x46, 0x57, 0x9f, 0xd3, 0x27, 0x52, 0x4c, 0x36, 0x02, 0xe7, 0xa0, 0xc4, 0xc8, 0x9e,
  0xea, 0xbf, 0x8a, 0xd2, 0x40, 0xc7, 0x38, 0xb5, 0xa3, 0xf7, 0xf2, 0xce, 0xf9, 0x61, 0x15, 0xa1,
  0xe0, 0xae, 0x5d, 0xa4, 0x9b, 0x34, 0x1a, 0x55, 0xad, 0x93, 0x32, 0x30, 0xf5, 0x8c, 0xb1, 0xe3,
  0x1d, 0xf6, 0xe2, 0x2e, 0x82, 0x66, 0xca, 0x60, 0xc0, 0x29, 0x23, 0xab, 0x0d, 0x53, 0x4e, 0x6f,
  0xd5, 0xdb, 0x37, 0x45, 0xde, 0xfd, 0x8e, 0x2f, 0x03, 0xff, 0x6a, 0x72, 0x6d, 0x6c, 0x5b, 0x51,
  0x8d, 0x1b, 0xaf, 0x92, 0xbb, 0xdd, 0xbc, 0x7f, 0x11, 0xd9, 0x5c, 0x41, 0x1f, 0x10, 0x5a, 0xd8,
  0x0a, 0xc1, 0x31, 0x88, 0xa5, 0xcd, 0x7b, 0xbd, 0x2d, 0x74, 0xd0, 0x12, 0xb8, 0xe5, 0xb4, 0xb0,
  0x89, 0x69, 0x97, 0x4a, 0x0c, 0x96, 0x77, 0x7e, 0x65, 0xb9, 0xf1, 0x09, 0xc5, 0x6e, 0xc6, 0x84,
  0x18, 0xf0, 0x7d, 0xec, 0x3a, 0xdc, 0x4d, 0x20, 0x79, 0xee, 0x5f, 0x3e, 0xd7, 0xcb, 0x39, 0x48]

def FK : Vector u32 4 := #v[0xa3b1bac6, 0x56aa3350, 0x677d9197, 0xb27022dc]

def CK : Vector u32 32 := #v[
  0x00070e15, 0x1c232a31, 0x383f464d, 0x545b6269,
  0x70777e85, 0x8c939aa1, 0xa8afb6bd, 0xc4cbd2d9,
  0xe0e7eef5, 0xfc030a11, 0x181f262d, 0x343b4249,
  0x50575e65, 0x6c737a81, 0x888f969d, 0xa4abb2b9,
  0xc0c7ced5, 0xdce3eaf1, 0xf8ff060d, 0x141b2229,
  0x30373e45, 0x4c535a61, 0x686f767d, 0x848b9299,
  0xa0a7aeb5, 0xbcc3cad1, 0xd8dfe6ed, 0xf4fb0209,
  0x10171e25, 0x2c333a41, 0x484f565d, 0x646b7279]

def sm4Sbox (inch : u8) : u8 := SboxTable.getD inch.toNat 0

def sm4Sbox4 (ka : u32) : u32 := getUlongBE ((putUlongBE ka).map sm4Sbox) 0

def sm4Lt (ka : u32) : u32 :=
  let bb := sm4Sbox4 ka
  bb ^^^ rotl bb 2 ^^^ rotl bb 10 ^^^ rotl bb 18 ^^^ rotl bb 24

def sm4F (x0 x1 x2 x3 rk : u32) : u32 := x0 ^^^ sm4Lt (x1 ^^^ x2 ^^^ x3 ^^^ rk)

def sm4CalciRK (ka : u32) : u32 :=
  let bb := sm4Sbox4 ka
  bb ^^^ rotl bb 13 ^^^ rotl bb 23

structure Sm4Context where
  mode : Int
  sk : Vector u32 32

def sm4SetkeyLoop (k : Vector u32 36) : Vector u32 36 × Vector u32 32 :=
  Nat.fold 32 (fun i _ s =>
    let v := s.1[i] ^^^ sm4CalciRK (s.1[i + 1] ^^^ s.1[i + 2] ^^^ s.1[i + 3] ^^^ CK[i])
    (s.1.set (i + 4) v, s.2.set i v)) (k, Vector.replicate 32 0)

def sm4Setkey (key : Vector u8 16) : Vector u32 32 :=
  let word := fun i => getUlongBE key.toList i
  let k : Vector u32 36 := Vector.replicate 36 0
  (sm4SetkeyLoop ((((k.set 0 (word 0 ^^^ FK[0])).set 1 (word 4 ^^^ FK[1])).set 2
    (word 8 ^^^ FK[2])).set 3 (word 12 ^^^ FK[3]))).2

/-- One turn of the rounds. Both SM4 sources have these, each with its `sm4F`. -/
def sm4TurnBy (F : u32 → u32 → u32 → u32 → u32 → u32) (sk : Vector u32 32) (i : Nat) (_ : i < 32)
    (ulbuf : Vector u32 36) : Vector u32 36 :=
  ulbuf.set (i + 4) (F ulbuf[i] ulbuf[i + 1] ulbuf[i + 2] ulbuf[i + 3] sk[i])

def sm4OneRoundBy (F : u32 → u32 → u32 → u32 → u32 → u32) (sk : Vector u32 32) (input : Bytes) :
    Bytes :=
  let ulbuf : Vector u32 36 := Vector.replicate 36 0
  let ulbuf := (((ulbuf.set 0 (getUlongBE input 0)).set 1 (getUlongBE input 4)).set 2
    (getUlongBE input 8)).set 3 (getUlongBE input 12)
  let ulbuf := Nat.fold 32 (sm4TurnBy F sk) ulbuf
  putUlongBE ulbuf[35] ++ putUlongBE ulbuf[34] ++ putUlongBE ulbuf[33] ++ putUlongBE ulbuf[32]

def sm4OneRound (sk : Vector u32 32) (input : Bytes) : Bytes := sm4OneRoundBy sm4F sk input

def sm4SetkeyEnc (key : Vector u8 16) : Sm4Context := ⟨1, sm4Setkey key⟩

/-- `SWAP( ctx->sk[ i ], ctx->sk[ 31-i] )`. -/
def sm4SwapTurn (i : Nat) (_ : i < 16) (sk : Vector u32 32) : Vector u32 32 :=
  sk.swap i (31 - i)

/-- Both schedules set the mode to `SM4_ENCRYPT`; no ECB routine reads it. -/
def sm4SetkeyDec (key : Vector u8 16) : Sm4Context :=
  ⟨1, Nat.fold 16 sm4SwapTurn (sm4Setkey key)⟩

def sm4CryptEcb (ctx : Sm4Context) (input : Bytes) : Bytes :=
  if _h : 0 < input.length then
    sm4OneRound ctx.sk (input.take 16) ++ sm4CryptEcb ctx (input.drop 16)
  else []
termination_by input.length
decreasing_by simp only [List.length_drop]; omega

/-- Encrypt the whole blocks and copy the last `length mod 16` bytes. -/
def smCryptEcb16 (ctx : Sm4Context) (input : Bytes) : Bytes :=
  let ilen := (input.length >>> 4) <<< 4
  sm4CryptEcb ctx (input.take ilen) ++ input.drop ilen

def sm4Words (b : Bytes) : u32 × u32 × u32 × u32 :=
  (getUlongBE b 0, getUlongBE b 4, getUlongBE b 8, getUlongBE b 12)

def sm4Bytes (s : u32 × u32 × u32 × u32) : Bytes :=
  putUlongBE s.1 ++ putUlongBE s.2.1 ++ putUlongBE s.2.2.1 ++ putUlongBE s.2.2.2

def sm4T (x1 x2 x3 rk : u32) : u32 := sm4Lt (x1 ^^^ x2 ^^^ x3 ^^^ rk)

def sm4TBy (lt : u32 → u32) (x1 x2 x3 rk : u32) : u32 := lt (x1 ^^^ x2 ^^^ x3 ^^^ rk)

/-- `sm4F` with any function for `sm4Lt`. -/
def sm4FBy (lt : u32 → u32) (x0 x1 x2 x3 rk : u32) : u32 := x0 ^^^ lt (x1 ^^^ x2 ^^^ x3 ^^^ rk)

theorem sm4OneRound_eq_by : sm4OneRound = sm4OneRoundBy (sm4FBy sm4Lt) := rfl

theorem sm4TBy_reverse (lt : u32 → u32) (a b c k : u32) :
    sm4TBy lt c b a k = sm4TBy lt a b c k := by
  rw [sm4TBy, sm4TBy, BitVec.xor_comm c b, BitVec.xor_assoc b c a, BitVec.xor_comm c a,
    ← BitVec.xor_assoc, BitVec.xor_comm b a]

theorem sm4Bytes_length (s : u32 × u32 × u32 × u32) : (sm4Bytes s).length = 16 := by
  simp [sm4Bytes]

theorem sm4Words_sm4Bytes (s : u32 × u32 × u32 × u32) : sm4Words (sm4Bytes s) = s := by
  obtain ⟨a, b, c, d⟩ := s
  simp [sm4Words, sm4Bytes, putUlongBE, getUlongBE, wordBE_putUlongBE]

theorem sm4Bytes_sm4Words {b : Bytes} (h : b.length = 16) : sm4Bytes (sm4Words b) = b := by
  match b, h with
  | [x0, x1, x2, x3, x4, x5, x6, x7, x8, x9, x10, x11, x12, x13, x14, x15], _ =>
    simp [sm4Words, sm4Bytes, getUlongBE, putUlongBE_wordBE]

/-- The network's state is the four words of `ulbuf` from `i` on. -/
theorem sm4TurnBy_words (lt : u32 → u32) (sk : Vector u32 32) {i : Nat} (h : i < 32)
    (b : Vector u32 36) :
    let b' := sm4TurnBy (sm4FBy lt) sk i h b
    (b'[i + 1], b'[i + 2], b'[i + 3], b'[i + 4]) =
      Feistel.round (· ^^^ ·) (sm4TBy lt) (b[i], b[i + 1], b[i + 2], b[i + 3]) sk[i] := by
  simp [sm4TurnBy, Feistel.round, sm4FBy, sm4TBy]

theorem sm4OneRoundBy_eq_crypt (lt : u32 → u32) (sk : Vector u32 32) (input : Bytes) :
    sm4OneRoundBy (sm4FBy lt) sk input =
      sm4Bytes (Feistel.crypt (· ^^^ ·) (sm4TBy lt) sk.toList (sm4Words input)) := by
  let start : Vector u32 36 := (((((Vector.replicate 36 0).set 0 (getUlongBE input 0)).set 1
    (getUlongBE input 4)).set 2 (getUlongBE input 8)).set 3 (getUlongBE input 12))
  let state (i : Nat) :=
    (sk.toList.take i).foldl (Feistel.round (· ^^^ ·) (sm4TBy lt)) (sm4Words input)
  let I := fun (i : Nat) (b : Vector u32 36) =>
    ∀ _ : i ≤ 32, (b[i], b[i + 1], b[i + 2], b[i + 3]) = state i
  have hstart : I 0 start := fun _ => by simp [start, state, sm4Words]
  have hturn : ∀ i (h : i < 32) b, I i b → I (i + 1) (sm4TurnBy (sm4FBy lt) sk i h b) := by
    intro i h b hb _
    have hlen : i < sk.toList.length := by simpa using h
    have hnext : state (i + 1) = Feistel.round (· ^^^ ·) (sm4TBy lt) (state i) sk[i] := by
      rw [← Vector.getElem_toList hlen]
      exact Feistel.foldl_take_succ hlen _
    rw [hnext, ← hb h.le]
    exact sm4TurnBy_words lt sk h b
  have hend := fold_invariant I hstart hturn le_rfl
  have hall : state 32 =
      sk.toList.foldl (Feistel.round (· ^^^ ·) (sm4TBy lt)) (sm4Words input) := by
    simp only [state]
    rw [List.take_of_length_le (by simp)]
  rw [hall] at hend
  rw [Feistel.crypt, ← hend]
  rfl

theorem sm4OneRoundBy_length (lt : u32 → u32) (sk : Vector u32 32) (input : Bytes) :
    (sm4OneRoundBy (sm4FBy lt) sk input).length = 16 := by
  rw [sm4OneRoundBy_eq_crypt, sm4Bytes_length]

theorem sm4OneRound_eq_crypt (sk : Vector u32 32) (input : Bytes) :
    sm4OneRound sk input =
      sm4Bytes (Feistel.crypt (· ^^^ ·) sm4T sk.toList (sm4Words input)) :=
  sm4OneRoundBy_eq_crypt sm4Lt sk input

theorem sm4OneRound_length (sk : Vector u32 32) (input : Bytes) :
    (sm4OneRound sk input).length = 16 := by
  rw [sm4OneRound_eq_crypt, sm4Bytes_length]

theorem sm4OneRoundBy_reverse (lt : u32 → u32) {sk sk' : Vector u32 32}
    (h : sk'.toList = sk.toList.reverse) {b : Bytes} (hb : b.length = 16) :
    sm4OneRoundBy (sm4FBy lt) sk' (sm4OneRoundBy (sm4FBy lt) sk b) = b := by
  rw [sm4OneRoundBy_eq_crypt lt sk', h, sm4OneRoundBy_eq_crypt, sm4Words_sm4Bytes,
    Feistel.crypt_reverse_crypt (fun x y => by rw [BitVec.xor_assoc, BitVec.xor_self,
      BitVec.xor_zero]) (sm4TBy_reverse lt), sm4Bytes_sm4Words hb]

theorem sm4OneRound_reverse {sk sk' : Vector u32 32} (h : sk'.toList = sk.toList.reverse)
    {b : Bytes} (hb : b.length = 16) : sm4OneRound sk' (sm4OneRound sk b) = b := by
  rw [sm4OneRound_eq_by, sm4OneRoundBy_reverse sm4Lt h hb]

theorem sm4SwapTurn_outer (sk0 : Vector u32 32) {i : Nat} (h : i < 16) {sk : Vector u32 32}
    (hsk : ∀ j (hj : j < 32), sk[j] = if j < i ∨ 31 - i < j then sk0[31 - j] else sk0[j])
    (j : Nat) (hj : j < 32) :
    (sm4SwapTurn i h sk)[j] = if j < i + 1 ∨ 31 - (i + 1) < j then sk0[31 - j] else sk0[j] := by
  rw [sm4SwapTurn, Vector.getElem_swap]
  by_cases h1 : j = i
  · subst j
    rw [if_pos rfl, hsk, if_neg (by omega), if_pos (by omega)]
  · by_cases h2 : j = 31 - i
    · subst j
      rw [if_neg h1, if_pos rfl, hsk, if_neg (by omega), if_pos (by omega)]
      congr 1
      omega
    · rw [if_neg h1, if_neg h2, hsk]
      have hiff : (j < i ∨ 31 - i < j) ↔ (j < i + 1 ∨ 31 - (i + 1) < j) := by omega
      simp only [hiff]

theorem sm4SwapTurns_eq (sk : Vector u32 32) : Nat.fold 16 sm4SwapTurn sk = sk.reverse := by
  let I := fun (i : Nat) (sk' : Vector u32 32) =>
    ∀ j (hj : j < 32), sk'[j] = if j < i ∨ 31 - i < j then sk[31 - j] else sk[j]
  have hstart : I 0 sk := fun j hj => by rw [if_neg (by omega)]
  have hturn : ∀ i (h : i < 16) sk', I i sk' → I (i + 1) (sm4SwapTurn i h sk') :=
    fun _ h _ hsk => sm4SwapTurn_outer sk h hsk
  have hloop := fold_invariant I hstart hturn
  apply Vector.ext
  intro j hj
  rw [Vector.getElem_reverse]
  refine (hloop j hj).trans ?_
  split
  · congr 1
  · omega

theorem sm4SetkeyDec_sk (key : Vector u8 16) :
    (sm4SetkeyDec key).sk.toList = (sm4SetkeyEnc key).sk.toList.reverse := by
  have hrev : (sm4SetkeyDec key).sk = (sm4Setkey key).reverse := sm4SwapTurns_eq _
  rw [hrev, Vector.toList_reverse]
  rfl

theorem sm4CryptEcb_eq (ctx : Sm4Context) {input : Bytes} (h : 16 ∣ input.length) :
    sm4CryptEcb ctx input = ((Blocks.whole 16 input).map (sm4OneRound ctx.sk)).flatten := by
  induction input using Blocks.induction (b := 16) (by decide) with
  | short xs hlt =>
    have hnil : xs = [] := List.eq_nil_of_length_eq_zero (by omega)
    subst hnil
    rw [sm4CryptEcb]
    simp
  | long xs hle ih =>
    rw [sm4CryptEcb, dif_pos (by omega), ih (by simp only [List.length_drop]; omega),
      Blocks.whole_step (by decide) hle]
    simp

theorem smCryptEcb16_eq (ctx : Sm4Context) (input : Bytes) :
    smCryptEcb16 ctx input = Blocks.mapWhole 16 (sm4OneRound ctx.sk) input := by
  have hlen : (input.length >>> 4) <<< 4 = input.length / 16 * 16 := by
    rw [Nat.shiftRight_eq_div_pow, Nat.shiftLeft_eq]
  have hdvd : 16 ∣ (input.take (input.length / 16 * 16)).length := by
    rw [List.length_take, Nat.min_eq_left (Nat.div_mul_le_self _ _)]
    exact Nat.dvd_mul_left _ _
  have hwhole : Blocks.whole 16 input = Blocks.whole 16 (input.take (input.length / 16 * 16)) := by
    have ha := Blocks.whole_append (b := 16) (by decide) (input.take (input.length / 16 * 16))
      (Blocks.rest 16 input)
    have hr : (Blocks.rest 16 input).length < 16 := by
      rw [Blocks.rest_length]
      exact Nat.mod_lt _ (by decide)
    rw [Blocks.rest_eq_nil hdvd, List.nil_append, Blocks.whole_of_lt hr, List.append_nil,
      Blocks.rest, List.take_append_drop] at ha
    exact ha
  simp only [smCryptEcb16, hlen, Blocks.mapWhole]
  rw [sm4CryptEcb_eq ctx hdvd, hwhole]
  rfl

theorem smCryptEcb16_length (ctx : Sm4Context) (input : Bytes) :
    (smCryptEcb16 ctx input).length = input.length := by
  rw [smCryptEcb16_eq]
  exact Blocks.mapWhole_length (by decide) (fun x _ => sm4OneRound_length ctx.sk x) input

theorem smCryptEcb16_of_lt (ctx : Sm4Context) {input : Bytes} (h : input.length < 16) :
    smCryptEcb16 ctx input = input := by
  rw [smCryptEcb16_eq, Blocks.mapWhole_of_lt h]

theorem smCryptEcb16_block (ctx : Sm4Context) {input : Bytes} (h : input.length = 16) :
    smCryptEcb16 ctx input = sm4OneRound ctx.sk input := by
  have hone := Blocks.whole_step (b := 16) (by decide) h.ge
  rw [List.take_of_length_le h.le, List.drop_of_length_le h.le, Blocks.whole_nil] at hone
  rw [smCryptEcb16_eq, Blocks.mapWhole, hone, Blocks.rest_eq_nil (by rw [h])]
  simp

theorem smCryptEcb16_append (ctx : Sm4Context) {xs : Bytes} (h : 16 ∣ xs.length) (ys : Bytes) :
    smCryptEcb16 ctx (xs ++ ys) = smCryptEcb16 ctx xs ++ smCryptEcb16 ctx ys := by
  simp only [smCryptEcb16_eq]
  exact Blocks.mapWhole_append (by decide) h ys

theorem smCryptEcb16_reverse {ctx ctx' : Sm4Context} (h : ctx'.sk.toList = ctx.sk.toList.reverse)
    (input : Bytes) : smCryptEcb16 ctx' (smCryptEcb16 ctx input) = input := by
  simp only [smCryptEcb16_eq]
  exact Blocks.mapWhole_inverse (by decide) (fun x _ => sm4OneRound_length ctx.sk x)
    (fun x hx => sm4OneRound_reverse h hx) input

theorem smCryptEcb16_dec_enc (key : Vector u8 16) (input : Bytes) :
    smCryptEcb16 (sm4SetkeyDec key) (smCryptEcb16 (sm4SetkeyEnc key) input) = input :=
  smCryptEcb16_reverse (sm4SetkeyDec_sk key) input

theorem smCryptEcb16_enc_dec (key : Vector u8 16) (input : Bytes) :
    smCryptEcb16 (sm4SetkeyEnc key) (smCryptEcb16 (sm4SetkeyDec key) input) = input :=
  smCryptEcb16_reverse (by rw [sm4SetkeyDec_sk, List.reverse_reverse]) input

end SecProGIS
