import SecProGIS.Sm3Stream
import SecProGIS.Sm4

/-! The container of an archived file: how `OnEncryptFile` writes it and how
`OnDecryptFile` reads it. -/

namespace SecProGIS

def encBlockSize : Nat := 102400

def readBuf (n : Nat) (f : SeekFile u8) : Bytes := (f.read n).1.takeD n 0

def writeHeader (ifEncFlag : u32) (date : Int) : SeekFile u8 :=
  let f := SeekFile.opened []
  let f := f.write 0 (leBytes 4 ifEncFlag)
  let f := f.write 0 (leBytes 8 (BitVec.ofInt 64 date))
  f.seek (f.pos + 32)

def encryptBlocks (key : Vector u8 16) (plain cipher : SeekFile u8) : SeekFile u8 :=
  if _h : 0 < (plain.read encBlockSize).1.length then
    encryptBlocks key (plain.read encBlockSize).2
      (cipher.write 0 (smCryptEcb16 (sm4SetkeyEnc key) (plain.read encBlockSize).1))
  else cipher
termination_by plain.ahead.length
decreasing_by
  rw [SeekFile.read_ahead, List.length_drop]
  simp only [SeekFile.read_fst, List.length_take] at _h
  unfold encBlockSize at *
  omega

def cipherLen (f : SeekFile u8) : Int := (BitVec.ofNat 32 f.bytes.length - 44).toInt

def writeDigest (f : SeekFile u8) : SeekFile u8 × Bytes :=
  let n := (cipherLen f).toNat
  let f := f.seek 44
  let cipherMd5 := sm3 (readBuf n f)
  let f := (f.read n).2.seek 12
  (f.write 0 cipherMd5, cipherMd5)

def writeCipher (key : Vector u8 16) (ifEncFlag : u32) (date : Int) (plain : Bytes) : SeekFile u8 :=
  encryptBlocks key (SeekFile.opened plain) (writeHeader ifEncFlag date)

/-- What `OnDecryptFile` writes to the decrypted file: it reads a flag of one
byte and eight bytes of deadline, then `PlainLen` bytes of ciphertext. -/
def decryptContainer (key : Vector u8 16) (plainLen : Nat) (ifEncFlag : u32) (container : Bytes) :
    Bytes :=
  let f := SeekFile.opened container
  let ifenc := (readBuf 1 f).headD 0
  let f := (f.read 1).2
  let f := (f.read 8).2
  if ifenc.toInt = ifEncFlag.toInt then
    smCryptEcb16 (sm4SetkeyDec key) (readBuf plainLen f)
  else []

theorem readBuf_of_le {n : Nat} {f : SeekFile u8} (h : n ≤ f.ahead.length) :
    readBuf n f = f.ahead.take n := by
  rw [readBuf, SeekFile.read_fst, List.takeD_eq_take _ (by simp; omega), List.take_take, min_self]

def header (ifEncFlag : u32) (date : Int) (md5 : Bytes) : Bytes :=
  leBytes 4 ifEncFlag ++ leBytes 8 (BitVec.ofInt 64 date) ++ md5

theorem writeHeader_eq (ifEncFlag : u32) (date : Int) : writeHeader ifEncFlag date =
    ⟨leBytes 4 ifEncFlag ++ leBytes 8 (BitVec.ofInt 64 date), 44⟩ := by
  rw [writeHeader, SeekFile.write_end _ rfl, SeekFile.write_end _ (by simp [SeekFile.opened])]
  simp [SeekFile.seek, SeekFile.opened]

/-- The loop writes the ciphertext of what lies ahead as one piece: all blocks
but the last are multiples of 16 bytes. -/
theorem encryptBlocks_eq (key : Vector u8 16) (plain cipher : SeekFile u8)
    (h : cipher.bytes.length ≤ cipher.pos) :
    encryptBlocks key plain cipher =
      cipher.write 0 (smCryptEcb16 (sm4SetkeyEnc key) plain.ahead) := by
  induction plain, cipher using encryptBlocks.induct key with
  | case1 plain cipher hread ih =>
    have hnext := ih (by
      by_cases hd : smCryptEcb16 (sm4SetkeyEnc key) (plain.read encBlockSize).1 = []
      · rwa [hd, SeekFile.write_nil]
      · rw [SeekFile.write_beyond hd h]
        simp
        omega)
    rw [encryptBlocks, dif_pos hread, hnext, SeekFile.write_write h, SeekFile.read_ahead,
      SeekFile.read_fst]
    congr 1
    by_cases hlong : encBlockSize ≤ plain.ahead.length
    · have h16 : 16 ∣ (plain.ahead.take encBlockSize).length := by
        rw [List.length_take, Nat.min_eq_left hlong]
        exact ⟨6400, rfl⟩
      rw [← smCryptEcb16_append _ h16, List.take_append_drop]
    · have hshort : plain.ahead.length ≤ encBlockSize := by omega
      have hnil : smCryptEcb16 (sm4SetkeyEnc key) [] = [] :=
        List.eq_nil_of_length_eq_zero (smCryptEcb16_length _ _)
      rw [List.take_of_length_le hshort, List.drop_of_length_le hshort, hnil, List.append_nil]
  | case2 plain cipher hread =>
    have hnil : plain.ahead = [] := by
      rw [SeekFile.read_fst, List.length_take] at hread
      unfold encBlockSize at hread
      exact List.eq_nil_of_length_eq_zero (by omega)
    have hempty : smCryptEcb16 (sm4SetkeyEnc key) [] = [] :=
      List.eq_nil_of_length_eq_zero (smCryptEcb16_length _ _)
    rw [encryptBlocks, dif_neg hread, hnil, hempty, SeekFile.write_nil]

theorem writeCipher_eq (key : Vector u8 16) (ifEncFlag : u32) (date : Int) {plain : Bytes}
    (h : plain ≠ []) : (writeCipher key ifEncFlag date plain).bytes =
      header ifEncFlag date (List.replicate 32 0) ++ smCryptEcb16 (sm4SetkeyEnc key) plain := by
  have hlen : (leBytes 4 ifEncFlag ++ leBytes 8 (BitVec.ofInt 64 date)).length = 12 := by simp
  have hne : smCryptEcb16 (sm4SetkeyEnc key) plain ≠ [] := by
    intro hnil
    have hl := smCryptEcb16_length (sm4SetkeyEnc key) plain
    rw [hnil, List.length_nil] at hl
    exact h (List.eq_nil_of_length_eq_zero hl.symm)
  rw [writeCipher, writeHeader_eq, encryptBlocks_eq _ _ _ (by simp), SeekFile.opened_ahead,
    SeekFile.write_beyond hne (by simp)]
  simp only [hlen, header]

theorem header_length (ifEncFlag : u32) (date : Int) {md5 : Bytes} (h : md5.length = 32) :
    (header ifEncFlag date md5).length = 44 := by
  simp [header, h]

theorem cipherLen_eq {f : SeekFile u8} {n : Nat} (hf : f.bytes.length = 44 + n) :
    cipherLen f = toInt32 n := by
  have hsub : (BitVec.ofNat 32 f.bytes.length - 44 : u32) = BitVec.ofNat 32 n := by
    rw [hf, Nat.add_comm, BitVec.ofNat_add]
    exact BitVec.add_sub_cancel _ _
  rw [cipherLen, hsub, toInt32]

theorem cipherLen_writeCipher (key : Vector u8 16) (ifEncFlag : u32) (date : Int) (plain : Bytes) :
    cipherLen (writeCipher key ifEncFlag date plain) =
      if plain = [] then -32 else toInt32 plain.length := by
  split
  · rename_i hnil
    have hempty : smCryptEcb16 (sm4SetkeyEnc key) [] = [] :=
      List.eq_nil_of_length_eq_zero (smCryptEcb16_length _ _)
    rw [writeCipher, writeHeader_eq, encryptBlocks_eq _ _ _ (by simp), hnil,
      SeekFile.opened_ahead, hempty, SeekFile.write_nil, cipherLen]
    simp
  · rename_i hne
    have hlen : (writeCipher key ifEncFlag date plain).bytes.length = 44 + plain.length := by
      rw [writeCipher_eq key ifEncFlag date hne, List.length_append, smCryptEcb16_length,
        header_length _ _ (List.length_replicate ..)]
    exact cipherLen_eq hlen

theorem writeDigest_bytes {f : SeekFile u8} {ifEncFlag : u32} {date : Int} {md5 c : Bytes}
    (hmd5 : md5.length = 32) (hf : f.bytes = header ifEncFlag date md5 ++ c) :
    (writeDigest f).1.bytes = header ifEncFlag date (writeDigest f).2 ++ c := by
  have hhead := header_length ifEncFlag date hmd5
  have hpre : (leBytes 4 ifEncFlag ++ leBytes 8 (BitVec.ofInt 64 date)).length = 12 := by simp
  have hf' : f.bytes = leBytes 4 ifEncFlag ++ leBytes 8 (BitVec.ofInt 64 date) ++ (md5 ++ c) := by
    rw [hf, header, List.append_assoc]
  have hfront : f.bytes.take 12 = leBytes 4 ifEncFlag ++ leBytes 8 (BitVec.ofInt 64 date) := by
    rw [hf', List.take_left' hpre]
  have hback : f.bytes.drop (12 + 32) = c := by rw [hf, List.drop_left' hhead]
  have hlen : f.bytes.length = 44 + c.length := by rw [hf, List.length_append, hhead]
  simp only [writeDigest]
  rw [SeekFile.write_inside]
  · simp only [SeekFile.seek_bytes, SeekFile.seek_pos, SeekFile.read_bytes, sm3_length]
    rw [hfront, hback, header]
  · simp only [SeekFile.seek_bytes, SeekFile.seek_pos, SeekFile.read_bytes, sm3_length, hlen]
    omega

theorem writeDigest_snd {f : SeekFile u8} {ifEncFlag : u32} {date : Int} {md5 c : Bytes}
    (hmd5 : md5.length = 32) (hf : f.bytes = header ifEncFlag date md5 ++ c)
    (hc : c.length < 2 ^ 31) : (writeDigest f).2 = sm3 c := by
  have hhead := header_length ifEncFlag date hmd5
  have hlen : (cipherLen f).toNat = c.length := by
    rw [cipherLen_eq (by rw [hf, List.length_append, hhead]), toInt32_of_lt hc, Int.toNat_natCast]
  have hahead : (f.seek 44).ahead = c := by
    rw [SeekFile.ahead, SeekFile.seek_bytes, SeekFile.seek_pos, hf, List.drop_left' hhead]
  have hbuf : readBuf c.length (f.seek 44) = c := by
    rw [readBuf_of_le (by rw [hahead]), hahead, List.take_length]
  simp only [writeDigest, hlen, hbuf]

def container (key : Vector u8 16) (date : Int) (plain : Bytes) : Bytes :=
  (writeDigest (writeCipher key 1 date plain)).1.bytes

theorem container_eq (key : Vector u8 16) (date : Int) {plain : Bytes} (h : plain ≠ [])
    (hlen : plain.length < 2 ^ 31) :
    let c := smCryptEcb16 (sm4SetkeyEnc key) plain
    container key date plain = header 1 date (sm3 c) ++ c ∧
      (writeDigest (writeCipher key 1 date plain)).2 = sm3 c := by
  intro c
  have hbytes := writeDigest_bytes (List.length_replicate ..) (writeCipher_eq key 1 date h)
  have hmd5 : (writeDigest (writeCipher key 1 date plain)).2 = sm3 c :=
    writeDigest_snd (List.length_replicate ..) (writeCipher_eq key 1 date h)
      (by rwa [smCryptEcb16_length])
  rw [hmd5] at hbytes
  exact ⟨hbytes, hmd5⟩

theorem decryptContainer_eq (key : Vector u8 16) (date : Int) {md5 c : Bytes} {n : Nat}
    (hn : n ≤ 35 + c.length) (hmd5 : md5.length = 32) :
    decryptContainer key n 1 (header 1 date md5 ++ c) =
      smCryptEcb16 (sm4SetkeyDec key)
        (((leBytes 8 (BitVec.ofInt 64 date)).drop 5 ++ md5 ++ c).take n) := by
  have hhead := header_length 1 date hmd5
  let f := SeekFile.opened (header 1 date md5 ++ c)
  have hflag : (readBuf 1 f).headD 0 = 1 := by
    rw [readBuf_of_le (by rw [SeekFile.opened_ahead, List.length_append, hhead]; omega)]
    rfl
  have hahead : ((f.read 1).2.read 8).2.ahead =
      (leBytes 8 (BitVec.ofInt 64 date)).drop 5 ++ md5 ++ c := by
    rw [SeekFile.read_ahead, SeekFile.read_ahead, SeekFile.opened_ahead, List.drop_drop]
    rfl
  have hbuf : readBuf n ((f.read 1).2.read 8).2 =
      ((leBytes 8 (BitVec.ofInt 64 date)).drop 5 ++ md5 ++ c).take n := by
    rw [readBuf_of_le (by rw [hahead]; simp [hmd5]; omega), hahead]
  have hone : ((1 : u8).toInt = (1 : u32).toInt) := by decide
  simp only [decryptContainer]
  rw [hflag, if_pos hone, hbuf]

/-- A container decrypts to its plaintext exactly when the ciphertext is also
what stands, as long as the plaintext, behind the ninth byte. -/
theorem decrypt_container_iff (key : Vector u8 16) (date : Int) (plain : Bytes) (h : plain ≠ [])
    (hlen : plain.length < 2 ^ 31 - 44) :
    let c := smCryptEcb16 (sm4SetkeyEnc key) plain
    decryptContainer key plain.length 1 (container key date plain) = plain ↔
      ((leBytes 8 (BitVec.ofInt 64 date)).drop 5 ++ sm3 c ++ c).take plain.length = c := by
  intro c
  have hn : plain.length ≤ 35 + c.length := by
    rw [smCryptEcb16_length]
    omega
  rw [(container_eq key date h (by omega)).1, decryptContainer_eq key date hn (sm3_length _)]
  constructor
  · intro hplain
    rw [← smCryptEcb16_enc_dec key (List.take _ _), hplain]
  · intro htake
    rw [htake, smCryptEcb16_dec_enc]

theorem decrypt_container_zero :
    decryptContainer (Vector.replicate 16 0) 1 1 (container (Vector.replicate 16 0) 0 [0]) = [0] :=
  (decrypt_container_iff (Vector.replicate 16 0) 0 [0] (by decide) (by decide)).mpr
    (by rw [smCryptEcb16_of_lt _ (by decide)]; rfl)

/-- The file `A`, with a deadline in November 2023, decrypts to a zero byte. -/
theorem decrypt_container_letter :
    decryptContainer (Vector.replicate 16 0) 1 1
      (container (Vector.replicate 16 0) 1700000000 [0x41]) ≠ [0x41] := by
  have htake : ∀ md5 c : Bytes, ((leBytes 8 (BitVec.ofInt 64 1700000000)).drop 5 ++ md5 ++
      c).take 1 = [0] := fun _ _ => rfl
  rw [(container_eq _ _ (by decide) (by decide)).1,
    decryptContainer_eq _ _ (by omega) (sm3_length _), htake, smCryptEcb16_of_lt _ (by decide)]
  decide

end SecProGIS
