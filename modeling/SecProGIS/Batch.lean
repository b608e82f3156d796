import SecProGIS.Lib.Archive
import SecProGIS.StoredKey
import SecProGIS.Completion
import SecProGIS.PathArrays
import SecProGIS.HexCodec
import SecProGIS.SqlShape

/-! What the dialog is for: an archive of enciphered files with a record of
each. A run whose turns all go well files one entry a turn, and a file stays
recoverable until a later turn takes its path or its digest. -/

namespace SecProGIS

/-- A file of the archive with all that its container and its row tell. -/
structure Filed where
  path : CString
  plain : Bytes
  key : Vector u8 16
  expire : Int
  org : Int
  admin : Int
  encTm : Int
  fname : Bytes
  rmrk : Bytes

namespace Filed

variable (x : Filed)

def cipher : Bytes := smCryptEcb16 (sm4SetkeyEnc x.key) x.plain

def file : Bytes := header 1 x.expire (sm3 x.cipher) ++ x.cipher

def values : Rows.Values Column Bytes :=
  [(.fname, x.fname), (.rmrk, x.rmrk), (.org, Decimal.intText x.org),
    (.md5P, Hex.text (sm3 x.plain)), (.skey, x.key.toList), (.expire, Decimal.intText x.expire),
    (.admin, Decimal.intText x.admin), (.encTm, Decimal.intText x.encTm)]

def entry : Archive.Entry CString Bytes Column Bytes :=
  ⟨x.path, x.file, Hex.text (sm3 x.cipher), x.values⟩

end Filed

def Session.archive (s : Session) : Archive CString Bytes Column Bytes :=
  ⟨s.disk, s.db (ascii "service")⟩

/-- Get a file back: the row of the digest in its header has the key, and the
digest of what comes out is checked. -/
def recover (a : Archive CString Bytes Column Bytes) (path : CString) : Option Bytes := do
  let file ← a.files path
  let row ← (Rows.select [(.md5C, Hex.text ((file.drop 12).take 32))] a.rows).head?
  let skey ← row .skey
  if h : skey.length = 16 then
    let plain := smCryptEcb16 (sm4SetkeyDec ⟨skey.toArray, h⟩) (file.drop 44)
    if row .md5P = some (Hex.text (sm3 plain)) then some plain else none
  else none

theorem FileEnv.newKey_size (e : FileEnv) (rng : Rng) : (e.newKey rng).toArray.size = 16 :=
  keyText_length _ 16

def FileEnv.keyVector (e : FileEnv) (rng : Rng) : Vector u8 16 :=
  ⟨(e.newKey rng).toArray, e.newKey_size rng⟩

def filedAt (rng : Rng) (acp : CString → Bytes) (env : Nat → FileEnv) (s : Session)
    (findex : Nat) : Option Filed := do
  let e := env findex
  let plain ← s.openPlain e findex
  let path ← s.openCipher e findex
  let plainName ← s.dlg.plainNameAry[findex]?
  return {
    path, plain, key := e.keyVector rng, expire := s.dlg.mDate64t, org := s.dlg.orgID
    admin := s.dlg.adminID, encTm := e.storeNow, fname := cstr (acp plainName)
    rmrk := cstr (acp e.controls.edit3) }

/-- All goes well in a turn: it comes to its end, its queries are answered, the
key is given out in time, the sizes of the file are exact, and the server reads
its file name and its remark as they stand. -/
structure Clean (acp : CString → Bytes) (s : Session) (e : FileEnv) (findex : Nat) : Prop where
  passes : Passes acp s e findex
  sel_code : e.sel.code = 0
  name_code : e.name.code = 0
  in_time : e.verifyNow ≤ s.dlg.mDate64t
  length_lt : ∀ plain, s.openPlain e findex = some plain → plain.length < 2 ^ 31
  plain : PlainTurn acp s e findex

/-- The statics of `KM_SERV` are not set, or are what the dialog sets. -/
def Session.ServiceConf (s : Session) : Prop :=
  s.kmConf.configured → s.kmConf = ⟨ascii "service", s.dlg.adminID⟩

section

variable (rng : Rng) (acp : CString → Bytes) {s : Session}

theorem written_kmConf (h : s.ServiceConf) {e : FileEnv} {plain : Bytes} {path : CString} :
    (s.written rng e plain path).kmConf = ⟨ascii "service", s.dlg.adminID⟩ := by
  have hconf : (s.written rng e plain path).kmConf =
      if s.kmConf.configured then s.kmConf
      else KmConf.setConf (ascii "service") s.dlg.adminID := rfl
  rw [hconf]
  split
  · rename_i hset
    exact h hset
  · rfl

theorem recordFile_db {e : FileEnv} {findex : Nat} {x : Sealed} {plainName : CString}
    (hstore : (x.serv.store s.kmConf (hexWord x.cipherMd5) e.storeNow e.sel e.wr s.db).1 = 0)
    (hname : s.dlg.plainNameAry[findex]? = some plainName)
    (hfit : (nameSql acp plainName e.controls.edit3 x.cipherMd5).length < 300)
    (hcode : e.name.code = 0) (hplain : PlainText acp e.server plainName e.controls.edit3)
    (hmd5 : x.cipherMd5.length = 32) : (recordFile acp e findex s x).1.db =
      (nameStatement acp plainName e.controls.edit3 x.cipherMd5).run
        (x.serv.store s.kmConf (hexWord x.cipherMd5) e.storeNow e.sel e.wr s.db).2.2 := by
  simp only [recordFile, Session.stamped, Session.withDb, Session.shown, ArchiveDlg.updateData,
    hstore, hname, not_le.mpr hfit, execQueryText_nameSql hplain hmd5, execQueryMysql, hcode,
    if_true, if_false]
  rfl

theorem hexWord_copy_text {md5 : Bytes} (h : md5.length = 32) :
    (hexWord md5).copy.text = Hex.text md5 := by
  have hword := hexWord_holds h
  rw [hword.copy_eq]
  exact hword.text_eq fun _ => Hex.ne_zero_of_mem

/-- The row that `store()` puts in a turn, without the file name and remark. -/
theorem sealed_stored (e : FileEnv) {plain : Bytes} (hlen : plain.length < 2 ^ 31)
    (conf : KmConf) :
    ((s.sealed rng e plain).serv.withCipher (hexWord (s.sealed rng e plain).cipherMd5)
      e.storeNow).stored conf =
    [(.org, Decimal.intText s.dlg.orgID), (.md5P, Hex.text (sm3 plain)), (.skey, e.newKey rng),
      (.expire, Decimal.intText s.dlg.mDate64t), (.admin, Decimal.intText conf.admin),
      (.encTm, Decimal.intText e.storeNow)] := by
  have hread : readBuf (toInt32 plain.length).toNat (SeekFile.opened plain) = plain := by
    rw [toInt32_of_lt hlen, Int.toNat_natCast, readBuf_of_le (by simp), SeekFile.opened_ahead,
      List.take_length]
  have hserv : (s.sealed rng e plain).serv.md5Plaint =
      (hexWord (sm3 (readBuf (toInt32 plain.length).toNat (SeekFile.opened plain)))).copy := rfl
  have hplain : (s.sealed rng e plain).serv.md5Plaint.text = Hex.text (sm3 plain) := by
    rw [hserv, hread, hexWord_copy_text (sm3_length plain)]
  have hkey : (s.sealed rng e plain).serv.skey.text = e.newKey rng :=
    (sealed_skey s rng e plain).text_eq fun _ => keyText_ne_zero
  rw [← hplain, ← hkey]
  rfl

theorem Clean.filed {env : Nat → FileEnv} {findex : Nat}
    (h : Clean acp s (env findex) findex) : ∃ x, filedAt rng acp env s findex = some x := by
  obtain ⟨⟨⟨⟨plain, path, hs⟩, _⟩, ⟨plainName, hname, _⟩, _⟩, _⟩ := h
  simp [filedAt, hs.plain_eq, hs.path_eq, hname]

theorem Sealable.cipherMd5_eq {e : FileEnv} {findex : Nat} {plain : Bytes} {path : CString}
    (hs : Sealable s e findex plain path) (hdate : s.dlg.mDate64t ≠ 0)
    (htime : e.verifyNow ≤ s.dlg.mDate64t) (hlen : plain.length < 2 ^ 31) :
    (s.keyed rng e plain).dlg.contentKey = e.keyVector rng ∧
      (s.sealed rng e plain).cipherMd5 =
        sm3 (smCryptEcb16 (sm4SetkeyEnc (e.keyVector rng)) plain) := by
  have hkey : (s.keyed rng e plain).dlg.contentKey = e.keyVector rng := by
    apply Vector.toList_inj.mp
    rw [keyed_contentKey rng, if_pos ⟨hdate, htime⟩]
    rfl
  refine ⟨hkey, ?_⟩
  rw [← (container_eq (e.keyVector rng) s.dlg.mDate64t hs.ne_nil hlen).2, ← hkey]
  rfl

theorem Clean.encryptFile_rows {env : Nat → FileEnv} {findex : Nat}
    (h : Clean acp s (env findex) findex) (hconf : s.ServiceConf) {x : Filed}
    (hx : filedAt rng acp env s findex = some x) :
    (encryptFile rng acp env s findex).1.archive.rows =
      Rows.put .md5C s.archive.rows (Hex.text (sm3 x.cipher), x.values) := by
  obtain ⟨⟨⟨⟨plain, path, hs⟩, hdate, hwr⟩, ⟨plainName, hname, hfit⟩, _⟩, hsel, hcode, htime,
    hlt, hplain⟩ := h
  let e := env findex
  let y := s.sealed rng e plain
  let s' := s.written rng e plain path
  let serv := y.serv.withCipher (hexWord y.cipherMd5) e.storeNow
  have hlen := hlt plain hs.plain_eq
  have hmd5 := (hs.cipherMd5_eq rng hdate htime hlen).2
  have hmd5_length : y.cipherMd5.length = 32 := writeDigest_length _
  simp only [filedAt, hs.plain_eq, hs.path_eq, hname, Option.bind_eq_bind, Option.bind_some,
    Option.pure_def, Option.some.injEq] at hx
  have hkm : s'.kmConf = ⟨ascii "service", s.dlg.adminID⟩ := written_kmConf rng hconf
  have haccepts : y.serv.accepts s'.kmConf (hexWord y.cipherMd5) e.storeNow :=
    (sealed_accepts_iff rng _ (written_configured rng) _).mpr hdate
  have hstore : (y.serv.store s'.kmConf (hexWord y.cipherMd5) e.storeNow e.sel e.wr s'.db).1 = 0 :=
    (KmServ.store_fst_eq_zero ..).mpr ⟨haccepts, hwr⟩
  have hfit' : (nameSql acp plainName e.controls.edit3 y.cipherMd5).length < 300 := by
    rw [nameSql_length acp _ _ hmd5_length]
    exact hfit
  have htext : serv.md5Cipher.text = Hex.text y.cipherMd5 := hexWord_copy_text hmd5_length
  have hservice : cstr (ascii "service") = ascii "service" := by decide
  have hput : (y.serv.store s'.kmConf (hexWord y.cipherMd5) e.storeNow e.sel e.wr s'.db).2.2
      (ascii "service") =
      Rows.put .md5C s.archive.rows (Hex.text y.cipherMd5, serv.stored s'.kmConf) := by
    rw [KmServ.store_db, if_pos ⟨haccepts, hwr⟩, KmServ.rowsAfter_eq_put _ _ _ _ hsel, htext, hkm]
    simp only [hservice, Function.update_self]
    rfl
  have hdb := recordFile_db (s := s') acp hstore hname hfit' hcode (hplain plainName hname)
    hmd5_length
  rw [hs.encryptFile_eq rng acp]
  change (recordFile acp e findex s' y).1.db (ascii "service") = _
  rw [hdb]
  simp only [nameStatement, Statement.run, Function.update_self]
  rw [hput, cstr_hexBuf hmd5_length, Rows.update_put (by rfl) (by rfl),
    sealed_stored rng e hlen, hkm, hmd5, ← hx]
  rfl

theorem Clean.encryptFile_archive {env : Nat → FileEnv} {findex : Nat}
    (h : Clean acp s (env findex) findex) (hconf : s.ServiceConf) {x : Filed}
    (hx : filedAt rng acp env s findex = some x) :
    (encryptFile rng acp env s findex).1.archive = s.archive.put .md5C x.entry := by
  have hrows := h.encryptFile_rows rng acp hconf hx
  obtain ⟨⟨⟨⟨plain, path, hs⟩, hdate, _⟩, ⟨plainName, hname, _⟩, _⟩, _, _, htime, hlt, _⟩ := h
  have hlen := hlt plain hs.plain_eq
  simp only [filedAt, hs.plain_eq, hs.path_eq, hname, Option.bind_eq_bind, Option.bind_some,
    Option.pure_def, Option.some.injEq] at hx
  have hkey := (hs.cipherMd5_eq rng hdate htime hlen).1
  obtain ⟨hdisk, _, hkept⟩ := hs.encryptFile_left rng acp
  rw [hkept, hkey, (container_eq _ _ hs.ne_nil hlen).1] at hdisk
  have hfiles : (encryptFile rng acp env s findex).1.archive.files =
      Function.update s.disk path (some x.file) := by
    funext p
    by_cases hp : p = path
    · subst hp
      rw [Function.update_self, ← hx]
      exact hdisk
    · rw [Function.update_of_ne hp]
      exact hs.encryptFile_disk rng acp hp
  have hpath : x.path = path := by rw [← hx]
  rw [← hpath] at hfiles
  exact congrArg₂ Archive.mk hfiles hrows

theorem Session.ServiceConf.of_eq {s' : Session} (h : s.ServiceConf) (hkm : s'.kmConf = s.kmConf)
    (hadmin : s'.dlg.adminID = s.dlg.adminID) : s'.ServiceConf := by
  rw [Session.ServiceConf, hkm, hadmin]
  exact h

theorem serviceConf_sealFile (e : FileEnv) (findex : Nat) (h : s.ServiceConf) :
    (sealFile rng e findex s).1.ServiceConf ∧
      (sealFile rng e findex s).1.dlg.adminID = s.dlg.adminID := by
  have hkeyed : ∀ plain, ((s.keyed rng e plain).ServiceConf) := by
    intro plain _
    have hset : (s.written rng e plain []).kmConf = ⟨ascii "service", s.dlg.adminID⟩ :=
      written_kmConf rng h
    exact hset
  obtain ⟨_, _, _, _, _, hdlg⟩ := sealFile_frame rng e findex s
  refine ⟨?_, by rw [hdlg]⟩
  simp only [sealFile]
  split
  · exact h.of_eq rfl rfl
  · rename_i plain _
    split
    · exact h.of_eq rfl rfl
    · split
      · exact hkeyed plain
      · exact (hkeyed plain).of_eq rfl rfl

theorem serviceConf_encryptFile (env : Nat → FileEnv) (findex : Nat) (h : s.ServiceConf) :
    (encryptFile rng acp env s findex).1.ServiceConf := by
  have hseal := (serviceConf_sealFile rng (env findex) findex h).1
  rcases hs : sealFile rng (env findex) findex s with ⟨s', o⟩
  rw [hs] at hseal
  simp only [encryptFile, hs]
  cases o with
  | none => exact hseal
  | some x =>
    obtain ⟨_, hkm, _, _, hdlg⟩ := recordFile_frame acp (env findex) findex s' x
    exact hseal.of_eq hkm (by rw [hdlg])

theorem serviceConf_onEncryptFile (h : s.ServiceConf) (combo1 : CString) (q : ArchiveDlg.OrgQuery)
    (env : Nat → FileEnv) : (onEncryptFile rng acp s combo1 q env).1.ServiceConf := by
  obtain ⟨_, _, hdlg⟩ := judgeBeforeEncrypt_frame acp s.dlg combo1 q
  have hjudged : (s.judged acp combo1 q).ServiceConf := h.of_eq rfl (by rw [Session.judged, hdlg])
  rw [onEncryptFile_fst]
  split
  · exact EventLoop.loop_invariant (I := Session.ServiceConf)
      (fun _ findex ht => serviceConf_encryptFile rng acp env findex ht) hjudged _
  · exact hjudged

theorem serviceConf_handle (h : s.ServiceConf) (e : Message) :
    (s.handle rng acp e).1.ServiceConf := by
  cases e with
  | readFile combo1 selection =>
    refine h.of_eq rfl ?_
    simp only [Session.handle, ArchiveDlg.onReadFile_scans]
  | savePath choice =>
    refine h.of_eq rfl ?_
    simp only [Session.handle, ArchiveDlg.onSavePath]
    split_ifs <;> rfl
  | datetimechange date now => exact h.of_eq rfl rfl
  | cbnSelchange entry q =>
    simp only [Session.handle]
    cases horg : s.dlg.onCbnSelchange acp entry q with
    | none => exact h
    | some d =>
      refine h.of_eq rfl ?_
      simp only [ArchiveDlg.onCbnSelchange] at horg
      split_ifs at horg <;> cases horg <;> rfl
  | enChangeEdit3 c => exact h.of_eq rfl rfl
  | encryptFile combo1 q env now => exact serviceConf_onEncryptFile rng acp h combo1 q env

end

def seeFiled (rng : Rng) (acp : CString → Bytes) (env : Nat → FileEnv) (xs : List Filed)
    (s : Session) (findex : Nat) : List Filed :=
  xs ++ (filedAt rng acp env s findex).toList

def filedBy (rng : Rng) (acp : CString → Bytes) (xs : List Filed) (s : Session) :
    Message → List Filed
  | .encryptFile combo1 q env _ =>
    if (s.dlg.judgeBeforeEncrypt acp combo1 q).1 = some true then
      let s := s.judged acp combo1 q
      (EventLoop.loop (EventLoop.watched (encryptFile rng acp env) (seeFiled rng acp env))
        (s, xs) (List.range s.dlg.selFileNum)).1.2
    else xs
  | _ => xs

def CleanMessage (rng : Rng) (acp : CString → Bytes) (s : Session) : Message → Prop
  | .encryptFile combo1 q env _ =>
    AtTurns rng acp s combo1 q env fun s findex => Clean acp s (env findex) findex
  | _ => True

/-- The session has filed these files, one after the other, into an archive. -/
structure Files (a : Archive CString Bytes Column Bytes) (s : Session) (xs : List Filed) :
    Prop where
  serviceConf : s.ServiceConf
  archive_eq : s.archive = (xs.map Filed.entry).foldl (Archive.put .md5C) a

section

variable (rng : Rng) (acp : CString → Bytes) {a : Archive CString Bytes Column Bytes} {s : Session}
  {xs : List Filed}

theorem Files.of_archive {s' : Session} (h : Files a s xs) (hconf : s'.ServiceConf)
    (harchive : s'.archive = s.archive) : Files a s' xs :=
  ⟨hconf, harchive.trans h.archive_eq⟩

theorem Files.encryptFile {env : Nat → FileEnv} {findex : Nat} (h : Files a s xs)
    (hclean : Clean acp s (env findex) findex) :
    Files a (encryptFile rng acp env s findex).1 (seeFiled rng acp env xs s findex) := by
  obtain ⟨x, hx⟩ := hclean.filed rng acp
  refine ⟨serviceConf_encryptFile rng acp env findex h.serviceConf, ?_⟩
  rw [hclean.encryptFile_archive rng acp h.serviceConf hx, h.archive_eq, seeFiled, hx]
  simp only [Option.toList_some, List.map_append, List.map_singleton, List.foldl_append,
    List.foldl_cons, List.foldl_nil]

theorem Files.onEncryptFile (h : Files a s xs) {combo1 : CString} {q : ArchiveDlg.OrgQuery}
    {env : Nat → FileEnv} (now : Int)
    (hclean : CleanMessage rng acp s (.encryptFile combo1 q env now)) :
    Files a (onEncryptFile rng acp s combo1 q env).1
      (filedBy rng acp xs s (.encryptFile combo1 q env now)) := by
  obtain ⟨_, _, hdlg⟩ := judgeBeforeEncrypt_frame acp s.dlg combo1 q
  have hjudged : Files a (s.judged acp combo1 q) xs :=
    h.of_archive (h.serviceConf.of_eq rfl (by rw [Session.judged, hdlg])) rfl
  rw [onEncryptFile_fst, filedBy]
  split
  · rename_i hok
    have halong := (EventLoop.along_watched (seeFiled rng acp env) _ xs _).mpr (hclean hok)
    have hloop := EventLoop.Along.loop_invariant
      (I := fun p : Session × List Filed => Files a p.1 p.2)
      (fun _ _ hturn hp => hp.encryptFile rng acp hturn) halong hjudged
    rw [(EventLoop.loop_watched _ _ _ _).1] at hloop
    exact hloop
  · exact hjudged

theorem Files.handle (h : Files a s xs) (e : Message) (hclean : CleanMessage rng acp s e) :
    Files a (s.handle rng acp e).1 (filedBy rng acp xs s e) := by
  have hconf := serviceConf_handle rng acp h.serviceConf e
  cases e with
  | encryptFile combo1 q env now => exact h.onEncryptFile rng acp now hclean
  | cbnSelchange entry q =>
    refine h.of_archive hconf ?_
    simp only [Session.handle]
    cases s.dlg.onCbnSelchange acp entry q <;> rfl
  | _ => exact h.of_archive hconf rfl

theorem files_run (hconf : s.ServiceConf) {run : List Message}
    (hclean : EventLoop.Along (Session.handle rng acp) (CleanMessage rng acp) s run) :
    Files s.archive
      (EventLoop.loop (EventLoop.watched (Session.handle rng acp) (filedBy rng acp))
        (s, []) run).1.1
      (EventLoop.loop (EventLoop.watched (Session.handle rng acp) (filedBy rng acp))
        (s, []) run).1.2 := by
  have hstart : Files s.archive s [] := ⟨hconf, rfl⟩
  have halong := (EventLoop.along_watched (filedBy rng acp) s [] run).mpr hclean
  exact EventLoop.Along.loop_invariant
    (I := fun p : Session × List Filed => Files s.archive p.1 p.2)
    (fun _ e hmsg hp => hp.handle rng acp e hmsg) halong hstart

end

def cleanEnv : Nat → FileEnv := sampleEnv 1699990000 answered

def cleanClick : Message := .encryptFile "org".toList sampleOrg cleanEnv 1699990000

theorem sample_serviceConf : sampleSession.ServiceConf := fun h => absurd h (by decide)

theorem clean_plain {s : Session} (hs : s.dlg.plainNameAry = ["a.dwg".toList]) (findex : Nat) :
    PlainTurn latin s (cleanEnv findex) findex := by
  intro plainName h
  have hread : SqlText.plain .gbk (cstr (latin "a.dwg".toList)) = true ∧
      SqlText.plain .gbk (cstr (latin [])) = true := by decide
  have hmem := List.mem_of_getElem? h
  rw [hs, List.mem_singleton] at hmem
  rw [hmem]
  exact hread

theorem sample_clean : EventLoop.Along (Session.handle (fun _ _ => 0) latin)
    (CleanMessage (fun _ _ => 0) latin) sampleSession [cleanClick] := by
  have hpass : Passes latin sampleJudged (cleanEnv 0) 0 :=
    ⟨sampleJudged_stores 1699990000 answered, ⟨"a.dwg".toList, rfl, by decide⟩, by decide⟩
  have hopen : sampleJudged.openPlain (cleanEnv 0) 0 = some samplePlain := rfl
  have hlen : ∀ plain, sampleJudged.openPlain (cleanEnv 0) 0 = some plain →
      plain.length < 2 ^ 31 := by
    intro plain h
    rw [← Option.some.inj (hopen.symm.trans h)]
    decide
  exact ⟨fun _ => ⟨⟨hpass, by decide, by decide, by decide, hlen, clean_plain rfl 0⟩,
    fun _ => trivial⟩, fun _ => trivial⟩

def sampleFiled : Filed where
  path := "C:\\b.dwg".toList
  plain := samplePlain
  key := (cleanEnv 0).keyVector fun _ _ => 0
  expire := 1700000000
  org := 7
  admin := 1
  encTm := 1699990000
  fname := ascii "a.dwg"
  rmrk := []

theorem sample_filed :
    (EventLoop.loop (EventLoop.watched (Session.handle (fun _ _ => 0) latin)
      (filedBy (fun _ _ => 0) latin)) (sampleSession, []) [cleanClick]).1.2 =
      [sampleFiled] := by
  have hturn : (EventLoop.loop (EventLoop.watched (encryptFile (fun _ _ => 0) latin
      cleanEnv) (seeFiled (fun _ _ => 0) latin cleanEnv)) (sampleJudged, []) [0]).1.2 =
      seeFiled (fun _ _ => 0) latin cleanEnv [] sampleJudged 0 :=
    EventLoop.loop_watched_singleton _ _ _
  rw [EventLoop.loop_watched_singleton]
  simp only [filedBy, cleanClick, sample_judge, if_true]
  exact hturn

end SecProGIS
