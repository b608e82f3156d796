import SecProGIS.ArchiveDlg
import SecProGIS.ServiceTable

/-! One turn of `OnEncryptFile`: when it writes a container and what that is,
and when it stores the row. -/

namespace SecProGIS

theorem cstr_hexBuf {md5 : Bytes} (h : md5.length = 32) :
    cstr (hexBuf md5).toList = Hex.text md5 :=
  cstr_sprintHex h (by decide) (by decide)

theorem hexWord_holds {md5 : Bytes} (h : md5.length = 32) : (hexWord md5).Holds (Hex.text md5) := by
  have htake := sprintHex_take (Vector.replicate 66 (0 : u8)) (by decide : 0 < 32) h.ge (by decide)
  rw [List.take_of_length_le (i := 32) h.le] at htake
  have hbuf : (hexBuf md5).toList = Hex.text md5 ++ ([0] ++ (hexBuf md5).toList.drop 65) := by
    rw [← List.append_assoc, hexBuf, ← htake, List.take_append_drop]
  have hlen : (Hex.text md5).length = 64 := by rw [Hex.text_length, h]
  have hne : Hex.text md5 ≠ [] := List.ne_nil_of_length_pos (by omega)
  have hread := BaseWord.readIn_holds (c := [0] ++ (hexBuf md5).toList.drop 65) hne
  rw [hlen, ← hbuf] at hread
  exact hread

def Session.keyed (s : Session) (rng : Rng) (e : FileEnv) (plain : Bytes) : Session :=
  let s := (s.shown e).measured plain
  s.withKey (s.fileServ rng e plain) e

/-- What a turn needs to come to its container: both files, and a plaintext
that is not empty and whose length does not come out negative. -/
structure Sealable (s : Session) (e : FileEnv) (findex : Nat) (plain : Bytes) (path : CString) :
    Prop where
  plain_eq : s.openPlain e findex = some plain
  path_eq : s.openCipher e findex = some path
  ne_nil : plain ≠ []
  length_nonneg : 0 ≤ toInt32 plain.length

section

variable (rng : Rng) {s : Session} {e : FileEnv} {findex : Nat} {plain : Bytes} {path : CString}

def Session.written (s : Session) (rng : Rng) (e : FileEnv) (plain : Bytes) (path : CString) :
    Session :=
  ((s.keyed rng e plain).writeContainer path plain).1

def Session.sealed (s : Session) (rng : Rng) (e : FileEnv) (plain : Bytes) : Sealed :=
  ⟨((s.shown e).measured plain).fileServ rng e plain,
    (writeDigest (writeCipher (s.keyed rng e plain).dlg.contentKey 1 s.dlg.mDate64t plain)).2⟩

theorem writeContainer_snd (s : Session) (path : CString) (plain : Bytes) :
    (s.writeContainer path plain).2 = if plain = [] ∨ toInt32 plain.length < 0 then none
      else some (writeDigest (writeCipher s.dlg.contentKey 1 s.dlg.mDate64t plain)).2 := by
  simp only [Session.writeContainer, cipherLen_writeCipher]
  by_cases h : plain = [] <;> simp [h]

theorem sealFile_eq (hplain : s.openPlain e findex = some plain)
    (hlen : 0 ≤ toInt32 plain.length) (hpath : s.openCipher e findex = some path) :
    sealFile rng e findex s = (s.written rng e plain path,
      if plain = [] then none else some (s.sealed rng e plain)) := by
  have hplain' : (s.shown e).openPlain e findex = some plain := hplain
  have hlen' : ¬ ((s.shown e).measured plain).dlg.plainLen < 0 := not_lt.mpr hlen
  have hpath' : (s.keyed rng e plain).openCipher e findex = some path := hpath
  have hsnd := writeContainer_snd (s.keyed rng e plain) path plain
  simp only [sealFile, hplain', if_neg hlen']
  rw [Session.keyed] at hpath' hsnd
  rw [hpath']
  simp only [hsnd, not_lt.mpr hlen, or_false]
  by_cases hnil : plain = []
  · simp [hnil, Session.written, Session.keyed]
  · simp only [hnil, if_false, Option.map_some]
    rfl

theorem Sealable.sealFile_eq (h : Sealable s e findex plain path) :
    sealFile rng e findex s = (s.written rng e plain path, some (s.sealed rng e plain)) := by
  rw [SecProGIS.sealFile_eq rng h.plain_eq h.length_nonneg h.path_eq, if_neg h.ne_nil]

theorem sealFile_eq_none (h : ∀ plain path, ¬ Sealable s e findex plain path) :
    (sealFile rng e findex s).2 = none := by
  cases hplain : s.openPlain e findex with
  | none =>
    have hplain' : (s.shown e).openPlain e findex = none := hplain
    simp only [sealFile, hplain']
  | some plain =>
    have hplain' : (s.shown e).openPlain e findex = some plain := hplain
    by_cases hlen : 0 ≤ toInt32 plain.length
    · cases hpath : s.openCipher e findex with
      | none =>
        have hlen' : ¬ ((s.shown e).measured plain).dlg.plainLen < 0 := not_lt.mpr hlen
        have hpath' : (s.keyed rng e plain).openCipher e findex = none := hpath
        rw [Session.keyed] at hpath'
        simp only [sealFile, hplain', if_neg hlen', hpath']
      | some path =>
        have hnil : plain = [] := by
          by_contra hne
          exact h plain path ⟨hplain, hpath, hne, hlen⟩
        rw [SecProGIS.sealFile_eq rng hplain hlen hpath, if_pos hnil]
    · have hlen' : ((s.shown e).measured plain).dlg.plainLen < 0 := not_le.mp hlen
      simp only [sealFile, hplain', if_pos hlen']

theorem writeDigest_length (f : SeekFile u8) : (writeDigest f).2.length = 32 := sm3_length _

theorem Sealable.written_disk (h : Sealable s e findex plain path) :
    (s.written rng e plain path).disk path =
      some (container (s.keyed rng e plain).dlg.contentKey s.dlg.mDate64t plain) := by
  have hcipher := cipherLen_writeCipher (s.keyed rng e plain).dlg.contentKey 1
    (s.keyed rng e plain).dlg.mDate64t plain
  rw [if_neg h.ne_nil] at hcipher
  simp only [Session.written, Session.writeContainer, Function.update_self]
  rw [if_neg (by rw [hcipher]; exact not_lt.mpr h.length_nonneg)]
  rfl

theorem container_header (key : Vector u8 16) (date : Int) {plain : Bytes} (h : plain ≠ []) :
    container key date plain =
      header 1 date (writeDigest (writeCipher key 1 date plain)).2 ++
        smCryptEcb16 (sm4SetkeyEnc key) plain :=
  writeDigest_bytes (List.length_replicate ..) (writeCipher_eq key 1 date h)

/-- The digest stands in bytes 12 to 43, and the ciphertext behind it. -/
theorem container_parts (key : Vector u8 16) (date : Int) {plain : Bytes} (h : plain ≠ []) :
    ((container key date plain).drop 12).take 32 =
      (writeDigest (writeCipher key 1 date plain)).2 ∧
    (container key date plain).drop 44 = smCryptEcb16 (sm4SetkeyEnc key) plain := by
  have hmd5 := writeDigest_length (writeCipher key 1 date plain)
  have hpre : (leBytes 4 (1 : u32) ++ leBytes 8 (BitVec.ofInt 64 date)).length = 12 := by simp
  rw [container_header key date h]
  constructor
  · rw [header, List.append_assoc, List.drop_left' hpre]
    exact List.take_left' hmd5
  · exact List.drop_left' (header_length 1 date hmd5)

/-- What `serv->store` returns in a turn, when the turn comes to it. -/
def storeOf (rng : Rng) (e : FileEnv) (findex : Nat) (s : Session) :
    Option (Int × KmServ × Db Column) :=
  let r := sealFile rng e findex s
  r.2.map fun x => x.serv.store r.1.kmConf (hexWord x.cipherMd5) e.storeNow e.sel e.wr r.1.db

def Stores (s : Session) (e : FileEnv) (findex : Nat) : Prop :=
  (∃ plain path, Sealable s e findex plain path) ∧ s.dlg.mDate64t ≠ 0 ∧ e.wr.code = 0

theorem written_configured : (s.written rng e plain path).kmConf.configured = true := by
  have hconf : (s.written rng e plain path).kmConf =
      if s.kmConf.configured then s.kmConf
      else KmConf.setConf (ascii "service") s.dlg.adminID := rfl
  rw [hconf]
  split
  · assumption
  · rfl

def fileServOf (o : Int) (p : Bytes) (t mem : Int) (rng : Rng) (now : Int) : KmServ :=
  (KmServ.ofPlain o (hexWord (sm3 p)) t mem).genKey rng now 16

theorem fileServOf_accepts_iff (o : Int) (p : Bytes) (t mem : Int) (rng : Rng) (now : Int)
    {conf : KmConf} (hconf : conf.configured = true) (c : Bytes) (enctm : Int) :
    (fileServOf o p t mem rng now).accepts conf (hexWord (sm3 c)) enctm ↔ t ≠ 0 := by
  let serv := (fileServOf o p t mem rng now).withCipher (hexWord (sm3 c)) enctm
  have hword : ∀ b : Bytes, (hexWord (sm3 b)).isempty = 1 :=
    fun b => (hexWord_holds (sm3_length b)).isempty_eq
  have hcipher : serv.md5Cipher.isempty = 1 := BaseWord.copy_isempty (hword c)
  have hplain : serv.md5Plaint.isempty = 1 := BaseWord.copy_isempty (hword p)
  have hkey : serv.skey.isempty = 1 := (generate_holds rng now (by decide : 0 < 16)).isempty_eq
  have hexp : serv.expireT = t := rfl
  have hstorable : serv.storable conf ↔ t ≠ 0 := by
    simp [KmServ.storable, hcipher, hplain, hkey, hexp, hconf]
  rw [KmServ.accepts, Bool.and_eq_true, decide_eq_true_eq, and_iff_right (hword c)]
  exact hstorable

theorem sealed_accepts_iff (conf : KmConf) (hconf : conf.configured = true) (enctm : Int) :
    (s.sealed rng e plain).serv.accepts conf (hexWord (s.sealed rng e plain).cipherMd5) enctm ↔
      s.dlg.mDate64t ≠ 0 :=
  fileServOf_accepts_iff s.dlg.orgID _ s.dlg.mDate64t e.mem rng e.genNow hconf _ enctm

theorem storeOf_eq_zero : (∃ r, storeOf rng e findex s = some r ∧ r.1 = 0) ↔ Stores s e findex := by
  by_cases h : ∃ plain path, Sealable s e findex plain path
  · obtain ⟨plain, path, hs⟩ := h
    have hstores : Stores s e findex ↔ s.dlg.mDate64t ≠ 0 ∧ e.wr.code = 0 :=
      and_iff_right ⟨plain, path, hs⟩
    rw [hstores]
    simp only [storeOf, hs.sealFile_eq rng, Option.map_some, Option.some.injEq,
      exists_eq_left', KmServ.store_fst_eq_zero]
    rw [sealed_accepts_iff rng _ (written_configured rng)]
  · have hnone : (sealFile rng e findex s).2 = none :=
      sealFile_eq_none rng fun plain path hs => h ⟨plain, path, hs⟩
    simp [storeOf, hnone, Stores, h]

theorem Sealable.encryptFile_eq (acp : CString → Bytes) {env : Nat → FileEnv}
    (h : Sealable s (env findex) findex plain path) :
    encryptFile rng acp env s findex = recordFile acp (env findex) findex
      (s.written rng (env findex) plain path) (s.sealed rng (env findex) plain) := by
  simp only [encryptFile, h.sealFile_eq rng]

theorem judgeBeforeEncrypt_frame (acp : CString → Bytes) (d : ArchiveDlg) (combo1 : CString)
    (q : ArchiveDlg.OrgQuery) : ∃ name id,
    (d.judgeBeforeEncrypt acp combo1 q).2 = { d with orgName := name, orgID := id } := by
  simp only [ArchiveDlg.judgeBeforeEncrypt]
  split_ifs <;> exact ⟨_, _, rfl⟩

theorem sealFile_frame (e : FileEnv) (findex : Nat) (s : Session) : ∃ len flag key name remark,
    (sealFile rng e findex s).1.dlg =
      { s.dlg with
        plainLen := len, ifEncFlag := flag, contentKey := key, orgName := name
        remark := remark } := by
  simp only [sealFile]
  split
  · exact ⟨_, _, _, _, _, rfl⟩
  · split
    · exact ⟨_, _, _, _, _, rfl⟩
    · split <;> exact ⟨_, _, _, _, _, rfl⟩

theorem recordFile_frame (acp : CString → Bytes) (e : FileEnv) (findex : Nat) (s : Session)
    (x : Sealed) : (recordFile acp e findex s x).1.disk = s.disk ∧
      (recordFile acp e findex s x).1.kmConf = s.kmConf ∧ ∃ name remark,
      (recordFile acp e findex s x).1.dlg =
        { s.dlg with currentDate64t := e.storeNow, orgName := name, remark := remark } := by
  simp only [recordFile]
  split
  · exact ⟨rfl, rfl, _, _, rfl⟩
  · split
    · exact ⟨rfl, rfl, _, _, rfl⟩
    · split
      · exact ⟨rfl, rfl, _, _, rfl⟩
      · split <;> exact ⟨rfl, rfl, _, _, rfl⟩

def ArchiveDlg.arrays (d : ArchiveDlg) :=
  (d.plainPathAry, d.plainNameAry, d.plainExtAry, d.cipherPathAry, d.selFileNum)

theorem judged_arrays (acp : CString → Bytes) (s : Session) (combo1 : CString)
    (q : ArchiveDlg.OrgQuery) : (s.judged acp combo1 q).dlg.arrays = s.dlg.arrays := by
  obtain ⟨_, _, hdlg⟩ := judgeBeforeEncrypt_frame acp s.dlg combo1 q
  rw [Session.judged, hdlg]
  rfl

theorem encryptFile_arrays (acp : CString → Bytes) (env : Nat → FileEnv) (s : Session)
    (findex : Nat) : (encryptFile rng acp env s findex).1.dlg.arrays = s.dlg.arrays := by
  obtain ⟨_, _, _, _, _, hdlg⟩ := sealFile_frame rng (env findex) findex s
  rcases hseal : sealFile rng (env findex) findex s with ⟨s', o⟩
  rw [hseal] at hdlg
  have hsame : s'.dlg.arrays = s.dlg.arrays := by
    rw [hdlg]
    rfl
  simp only [encryptFile, hseal]
  cases o with
  | none => exact hsame
  | some x =>
    obtain ⟨_, _, _, _, hrecord⟩ := recordFile_frame acp (env findex) findex s' x
    refine Eq.trans ?_ hsame
    rw [hrecord]
    rfl

theorem Sealable.encryptFile_disk (acp : CString → Bytes) {env : Nat → FileEnv}
    (h : Sealable s (env findex) findex plain path) {p : CString} (hp : p ≠ path) :
    (encryptFile rng acp env s findex).1.disk p = s.disk p := by
  rw [h.encryptFile_eq rng acp, (recordFile_frame acp (env findex) findex _ _).1]
  exact Function.update_of_ne hp ..

theorem Sealable.encryptFile_left (acp : CString → Bytes) {env : Nat → FileEnv}
    (h : Sealable s (env findex) findex plain path) :
    let s' := (encryptFile rng acp env s findex).1
    s'.disk path = some (container s'.dlg.contentKey s.dlg.mDate64t plain) ∧
      s'.kmConf = (s.written rng (env findex) plain path).kmConf ∧
      s'.dlg.contentKey = (s.keyed rng (env findex) plain).dlg.contentKey := by
  obtain ⟨hdisk, hconf, _, _, hdlg⟩ := recordFile_frame acp (env findex) findex
    (s.written rng (env findex) plain path) (s.sealed rng (env findex) plain)
  rw [← h.encryptFile_eq rng acp] at hdisk hconf hdlg
  have hkey : (encryptFile rng acp env s findex).1.dlg.contentKey =
      (s.keyed rng (env findex) plain).dlg.contentKey := by
    rw [hdlg]
    rfl
  refine ⟨?_, hconf, hkey⟩
  rw [hdisk, h.written_disk rng, hkey]

end

def AtTurns (rng : Rng) (acp : CString → Bytes) (s : Session) (combo1 : CString)
    (q : ArchiveDlg.OrgQuery) (env : Nat → FileEnv) (C : Session → Nat → Prop) : Prop :=
  (s.dlg.judgeBeforeEncrypt acp combo1 q).1 = some true →
    EventLoop.Along (encryptFile rng acp env) C (s.judged acp combo1 q)
      (List.range (s.judged acp combo1 q).dlg.selFileNum)

/-- The container of every plaintext, key and deadline; a turn leaves it on the
disk, and its digests are the words of the service. -/
theorem container_format (plain : Bytes) (hne : plain ≠ []) (hlen : plain.length < 2 ^ 31 - 44) :
    (∀ (key : Vector u8 16) (date : Int),
      let c := smCryptEcb16 (sm4SetkeyEnc key) plain
      container key date plain =
        leBytes 4 (1 : u32) ++ leBytes 8 (BitVec.ofInt 64 date) ++ sm3 c ++ c ∧
      c.length = plain.length ∧ (container key date plain).length = plain.length + 44) ∧
    ∀ (rng : Rng) (acp : CString → Bytes) (env : Nat → FileEnv) (s : Session) (findex : Nat)
      (path : CString), s.openPlain (env findex) findex = some plain →
      s.openCipher (env findex) findex = some path →
      let s' := (encryptFile rng acp env s findex).1
      let file := container s'.dlg.contentKey s.dlg.mDate64t plain
      s'.disk path = some file ∧
      ∃ x, (sealFile rng (env findex) findex s).2 = some x ∧
        x.serv.md5Plaint.Holds (Hex.text (sm3 plain)) ∧
        (hexWord x.cipherMd5).Holds (Hex.text ((file.drop 12).take 32)) := by
  have hc : ∀ key : Vector u8 16, (smCryptEcb16 (sm4SetkeyEnc key) plain).length = plain.length :=
    fun key => smCryptEcb16_length _ _
  constructor
  · intro key date c
    have hfile := (container_eq key date hne (by omega)).1
    refine ⟨hfile, hc key, ?_⟩
    rw [hfile, List.length_append, header_length _ _ (sm3_length _), hc key, Nat.add_comm]
  · intro rng acp env s findex path hplain hpath s' file
    have hint : toInt32 plain.length = plain.length := toInt32_of_lt (by omega)
    have hs : Sealable s (env findex) findex plain path :=
      ⟨hplain, hpath, hne, by rw [hint]; omega⟩
    obtain ⟨hdisk, _, hkey⟩ := hs.encryptFile_left rng acp
    refine ⟨hdisk, _, by rw [hs.sealFile_eq rng], ?_, ?_⟩
    · have hread : readBuf (toInt32 plain.length).toNat (SeekFile.opened plain) = plain := by
        rw [hint, Int.toNat_natCast, readBuf_of_le (by simp), SeekFile.opened_ahead,
          List.take_length]
      have hword := hexWord_holds (sm3_length plain)
      have hserv : (s.sealed rng (env findex) plain).serv.md5Plaint =
          (hexWord (sm3 (readBuf (toInt32 plain.length).toNat (SeekFile.opened plain)))).copy := rfl
      rw [hserv, hread, hword.copy_eq]
      exact hword
    · have hmd5 : (file.drop 12).take 32 = (s.sealed rng (env findex) plain).cipherMd5 := by
        have hparts := (container_parts s'.dlg.contentKey s.dlg.mDate64t hne).1
        exact hparts.trans (by rw [hkey]; rfl)
      rw [hmd5]
      exact hexWord_holds (writeDigest_length _)

def samplePlain : Bytes := List.replicate 16 0x41

def sampleSession : Session where
  dlg :=
    { plainLen := 0, orgID := 0, adminID := 1, ifEncFlag := 0
      contentKey := Vector.replicate 16 0
      mDate64t := 1700000000, currentDate64t := 1699990000
      remark := [], orgName := []
      plainPathAry := ["C:\\a.dwg".toList]
      plainNameAry := ["a.dwg".toList]
      plainExtAry := ["dwg".toList]
      cipherPathAry := ["C:\\b.dwg".toList]
      selFileNum := 1 }
  disk := fun p => if p = "C:\\a.dwg".toList then some samplePlain else none
  db := fun _ => []
  kmConf := ⟨[], 0⟩

/-- All calls succeed but the one that sets the name; the clock is read once
for the key, then for the check of the deadline and for the time of storing. -/
def sampleEnv (verifyNow : Int) (name : Call) (_ : Nat) : FileEnv :=
  ⟨⟨"org".toList, []⟩, true, true, 1699990000, verifyNow, verifyNow, answered, answered, name, 0,
    .reading .gbk⟩

def sampleOrg : ArchiveDlg.OrgQuery := ⟨answered, fun _ => [[some (ascii "7")]]⟩

def sampleJudged : Session := sampleSession.judged latin "org".toList sampleOrg

theorem sample_judge :
    (sampleSession.dlg.judgeBeforeEncrypt latin "org".toList sampleOrg).1 = some true := by
  decide

theorem sampleJudged_sealable (verifyNow : Int) (name : Call) :
    Sealable sampleJudged (sampleEnv verifyNow name 0) 0 samplePlain "C:\\b.dwg".toList :=
  ⟨rfl, rfl, by decide, by decide⟩

theorem sampleJudged_stores (verifyNow : Int) (name : Call) :
    Stores sampleJudged (sampleEnv verifyNow name 0) 0 :=
  ⟨⟨_, _, sampleJudged_sealable verifyNow name⟩, by decide, (by decide : answered.code = 0)⟩

theorem container_format_block :
    (container (Vector.replicate 16 0) 0 samplePlain).length = 60 ∧
    (encryptFile (fun _ _ => 0) latin (sampleEnv 1699990000 answered) sampleSession
      0).1.disk "C:\\b.dwg".toList ≠ none := by
  have h := container_format samplePlain (by decide) (by decide)
  refine ⟨(h.1 (Vector.replicate 16 0) 0).2.2, ?_⟩
  rw [(h.2 (fun _ _ => 0) latin (sampleEnv 1699990000 answered) sampleSession 0
    "C:\\b.dwg".toList rfl rfl).1]
  simp

end SecProGIS
