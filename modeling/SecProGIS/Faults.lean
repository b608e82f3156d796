import SecProGIS.Isolation

/-! Runs in which any call may fail. A turn changes the file it opens for
writing and the rows of the digest it makes; a file that a turn has stored with
its key survives whatever fails before and after. -/

namespace SecProGIS

/-- A turn of `OnEncryptFile`: the organisation chosen at the click and the
answer of the server for it, the answers of the turn's calls, its index, and the
session it finds. -/
structure Turn where
  combo1 : CString
  q : ArchiveDlg.OrgQuery
  env : Nat → FileEnv
  findex : Nat
  before : Session

namespace Turn

variable (t : Turn) (rng : Rng) (acp : CString → Bytes)

/-- The file it opens for writing. -/
def path : Option CString := t.before.openCipher (t.env t.findex) t.findex

/-- The digest it makes, when it comes to that. -/
def digest : Option Bytes :=
  (sealFile rng (t.env t.findex) t.findex t.before).2.map fun x => Hex.text x.cipherMd5

def after : Session := (encryptFile rng acp t.env t.before t.findex).1

/-- The server reads its file name and its remark as they stand. -/
def Plain : Prop := PlainTurn acp t.before (t.env t.findex) t.findex

/-- The rows the server has for the organisation. -/
def orgTable : Table :=
  (execQueryMysqlInto t.q.call (t.q.rows (cstr (acp t.combo1))) Table.empty).2

/-- It stores the key it encrypted with. Its first query may fail when the
digest is new, and nothing is asked of its last statement. -/
structure Stored (x : Filed) : Prop where
  filed : filedAt rng acp t.env t.before t.findex = some x
  stores : Stores t.before (t.env t.findex) t.findex
  in_time : (t.env t.findex).verifyNow ≤ t.before.dlg.mDate64t
  length_lt : x.plain.length < 2 ^ 31
  looked_up : (t.env t.findex).sel.code = 0 ∨
    Clients.rowsOf (Hex.text (sm3 x.cipher)) t.before.archive.rows = []

end Turn

/-- The tables agree but for the rows of digests outside `D`. -/
structure Elsewhere (D : Set Bytes) (db db' : Db Column) : Prop where
  rows_eq : ∀ d ∈ D, Clients.rowsOf d (db' (ascii "service")) =
    Clients.rowsOf d (db (ascii "service"))
  tables_eq : ∀ skTable, skTable ≠ ascii "service" → db' skTable = db skTable

namespace Elsewhere

variable {D : Set Bytes} {db db' db'' : Db Column}

theorem refl (D : Set Bytes) (db : Db Column) : Elsewhere D db db :=
  ⟨fun _ _ => rfl, fun _ _ => rfl⟩

theorem trans (h : Elsewhere D db db') (h' : Elsewhere D db' db'') : Elsewhere D db db'' :=
  ⟨fun d hd => (h'.rows_eq d hd).trans (h.rows_eq d hd),
    fun skTable ht => (h'.tables_eq skTable ht).trans (h.tables_eq skTable ht)⟩

theorem mono {E : Set Bytes} (h : Elsewhere D db db') (hsub : E ⊆ D) : Elsewhere E db db' :=
  ⟨fun d hd => h.rows_eq d (hsub hd), h.tables_eq⟩

theorem update {rows : List (Rows.Row Column Bytes)}
    (h : ∀ d ∈ D, Clients.rowsOf d rows = Clients.rowsOf d (db (ascii "service"))) :
    Elsewhere D db (Function.update db (ascii "service") rows) := by
  constructor
  · intro d hd
    rw [Function.update_self]
    exact h d hd
  · intro skTable ht
    exact Function.update_of_ne ht ..

end Elsewhere

section

variable (rng : Rng) (acp : CString → Bytes)

theorem rowsAfter_elsewhere {D : Set Bytes} (serv : KmServ) (admin : Int) (sel : Call)
    (db : Db Column) (hD : serv.md5Cipher.text ∉ D) : Elsewhere D db (Function.update db
      (ascii "service") (serv.rowsAfter ⟨ascii "service", admin⟩ sel db)) := by
  refine Elsewhere.update fun d hd => ?_
  have hne : d ≠ serv.md5Cipher.text := fun he => hD (he ▸ hd)
  rw [KmServ.rowsAfter]
  split
  · exact Rows.select_update_other rfl hne _
  · exact Rows.select_insert_other (List.lookup_cons_self ..) hne _

theorem store_elsewhere {D : Set Bytes} (serv : KmServ) (admin : Int) {md5 : Bytes}
    (hlen : md5.length = 32) (hD : Hex.text md5 ∉ D) (enctm : Int) (sel wr : Call)
    (db : Db Column) : Elsewhere D db
      (serv.store ⟨ascii "service", admin⟩ (hexWord md5) enctm sel wr db).2.2 := by
  rw [KmServ.store_db]
  split
  · have htext : (serv.withCipher (hexWord md5) enctm).md5Cipher.text = Hex.text md5 :=
      hexWord_copy_text hlen
    exact rowsAfter_elsewhere _ admin sel db (htext ▸ hD)
  · exact Elsewhere.refl D db

theorem nameStatement_elsewhere {D : Set Bytes} (plainName remark : CString) {md5 : Bytes}
    (hlen : md5.length = 32) (hD : Hex.text md5 ∉ D) (db : Db Column) :
    Elsewhere D db ((nameStatement acp plainName remark md5).run db) := by
  refine Elsewhere.update fun d hd => ?_
  have hne : d ≠ Hex.text md5 := fun he => hD (he ▸ hd)
  rw [cstr_hexBuf hlen]
  exact Rows.select_update_other rfl hne _

/-- What the second half of a turn leaves in the tables: what the store left,
with the file named or not. -/
theorem recordFile_db_or {e : FileEnv} {findex : Nat} {s : Session} {x : Sealed}
    (hplain : PlainTurn acp s e findex) (hlen : x.cipherMd5.length = 32) :
    let db := (x.serv.store s.kmConf (hexWord x.cipherMd5) e.storeNow e.sel e.wr s.db).2.2
    (recordFile acp e findex s x).1.db = db ∨ ∃ plainName, (recordFile acp e findex s x).1.db =
      (nameStatement acp plainName e.controls.edit3 x.cipherMd5).run db := by
  rw [recordFile_db_eq]
  simp only
  split
  · exact .inl rfl
  · cases hname : s.dlg.plainNameAry[findex]? with
    | none => exact .inl rfl
    | some plainName =>
      simp only
      split
      · exact .inl rfl
      · rw [execQueryText_nameSql (hplain plainName hname) hlen, execQueryMysql]
        split
        · exact .inr ⟨plainName, rfl⟩
        · exact .inl rfl

theorem recordFile_elsewhere {D : Set Bytes} {e : FileEnv} {findex : Nat} {s : Session} {x : Sealed}
    {admin : Int} (hplain : PlainTurn acp s e findex)
    (hkm : s.kmConf = ⟨ascii "service", admin⟩) (hlen : x.cipherMd5.length = 32)
    (hD : Hex.text x.cipherMd5 ∉ D) : Elsewhere D s.db (recordFile acp e findex s x).1.db := by
  have hstore := store_elsewhere x.serv admin hlen hD e.storeNow e.sel e.wr s.db
  rw [← hkm] at hstore
  rcases recordFile_db_or acp hplain hlen with hdb | ⟨plainName, hdb⟩
  · rw [hdb]
    exact hstore
  · rw [hdb]
    exact hstore.trans (nameStatement_elsewhere acp plainName _ hlen hD _)

theorem sealFile_disk {e : FileEnv} {findex : Nat} {s : Session} {p : CString}
    (h : s.openCipher e findex ≠ some p) : (sealFile rng e findex s).1.disk p = s.disk p := by
  simp only [sealFile]
  split
  · rfl
  · split
    · rfl
    · split
      · rfl
      · rename_i path hpath
        have hne : p ≠ path := fun he => h (he ▸ hpath)
        exact Function.update_of_ne hne ..

theorem sealed_length {e : FileEnv} {findex : Nat} {s s' : Session} {x : Sealed}
    (h : sealFile rng e findex s = (s', some x)) : x.cipherMd5.length = 32 := by
  obtain ⟨plain, path, _, _, rfl⟩ := sealFile_some rng h
  exact writeDigest_length _

theorem Turn.after_disk (t : Turn) {p : CString} (h : t.path ≠ some p) :
    (t.after rng acp).disk p = t.before.disk p := by
  have hseal := sealFile_disk rng h
  rcases hs : sealFile rng (t.env t.findex) t.findex t.before with ⟨s', o⟩
  rw [hs] at hseal
  simp only [Turn.after, encryptFile, hs]
  cases o with
  | none => exact hseal
  | some x => rw [(recordFile_frame acp (t.env t.findex) t.findex s' x).1, hseal]

theorem Turn.after_elsewhere (t : Turn) (hconf : t.before.ServiceConf) (hplain : t.Plain acp) :
    Elsewhere {d | t.digest rng ≠ some d} t.before.db (t.after rng acp).db := by
  have hdb := sealFile_db rng (t.env t.findex) t.findex t.before
  rcases hs : sealFile rng (t.env t.findex) t.findex t.before with ⟨s', o⟩
  rw [hs] at hdb
  simp only [Turn.after, Turn.digest, encryptFile, hs, ← hdb]
  cases o with
  | none => exact Elsewhere.refl _ _
  | some x =>
    have hkm : s'.kmConf = ⟨ascii "service", t.before.dlg.adminID⟩ := by
      obtain ⟨_, _, _, rfl, _⟩ := sealFile_some rng hs
      exact written_kmConf rng hconf
    exact recordFile_elsewhere acp (hplain.sealed rng acp hs) hkm (sealed_length rng hs)
      fun h => h rfl

end

/-- A file is on the disk, and the first row of its digest has its key. -/
structure Kept (a : Archive CString Bytes Column Bytes) (x : Filed) : Prop where
  file_eq : a.files x.path = some x.file
  row : ∃ r, (Clients.rowsOf (Hex.text (sm3 x.cipher)) a.rows).head? = some r ∧
    r .skey = some x.key.toList ∧ r .md5P = some (Hex.text (sm3 x.plain))

theorem Kept.congr {a a' : Archive CString Bytes Column Bytes} {x : Filed} (h : Kept a x)
    (hfile : a'.files x.path = a.files x.path)
    (hrows : Clients.rowsOf (Hex.text (sm3 x.cipher)) a'.rows =
      Clients.rowsOf (Hex.text (sm3 x.cipher)) a.rows) : Kept a' x :=
  ⟨hfile.trans h.file_eq, hrows ▸ h.row⟩

section

variable (rng : Rng) (acp : CString → Bytes)

/-- The row survives the statement that names the file, when that is sent. -/
theorem recordFile_head {e : FileEnv} {findex : Nat} {s : Session} {x : Sealed} {skey md5P : Bytes}
    (hplain : PlainTurn acp s e findex) (hlen : x.cipherMd5.length = 32)
    (hrow : ∃ r, (Clients.rowsOf (Hex.text x.cipherMd5) ((x.serv.store s.kmConf
      (hexWord x.cipherMd5) e.storeNow e.sel e.wr s.db).2.2 (ascii "service"))).head? = some r ∧
      r .skey = some skey ∧ r .md5P = some md5P) :
    ∃ r, (Clients.rowsOf (Hex.text x.cipherMd5)
      ((recordFile acp e findex s x).1.db (ascii "service"))).head? = some r ∧
      r .skey = some skey ∧ r .md5P = some md5P := by
  rcases recordFile_db_or acp hplain hlen with hdb | ⟨plainName, hdb⟩
  · rw [hdb]
    exact hrow
  · obtain ⟨r, hhead, hkey, hmd5⟩ := hrow
    refine ⟨Rows.assign [(.fname, cstr (acp plainName)), (.rmrk, cstr (acp e.controls.edit3))] r,
      ?_, hkey, hmd5⟩
    rw [hdb]
    simp only [nameStatement, Statement.run, Function.update_self, cstr_hexBuf hlen]
    rw [Clients.rowsOf, Rows.select_update_same rfl, List.head?_map]
    exact congrArg _ hhead

theorem filedAt_eq {env : Nat → FileEnv} {s : Session} {findex : Nat} {plain : Bytes}
    {path : CString} {x : Filed} (hs : Sealable s (env findex) findex plain path)
    (hx : filedAt rng acp env s findex = some x) : x.path = path ∧ x.plain = plain ∧
      x.key = (env findex).keyVector rng ∧ x.expire = s.dlg.mDate64t := by
  simp only [filedAt, hs.plain_eq, hs.path_eq, Option.bind_eq_bind, Option.bind_some,
    Option.pure_def, Option.bind_eq_some_iff, Option.some.injEq] at hx
  obtain ⟨_, _, rfl⟩ := hx
  exact ⟨rfl, rfl, rfl, rfl⟩

/-- The row a store puts, when its first query is answered or the digest is new. -/
theorem store_head {serv : KmServ} {admin : Int} {md5 : Bytes} (hlen : md5.length = 32)
    {enctm : Int} {sel wr : Call} {db : Db Column} {skey md5P : Bytes}
    (hstore : (serv.store ⟨ascii "service", admin⟩ (hexWord md5) enctm sel wr db).1 = 0)
    (hnew : sel.code = 0 ∨ Clients.rowsOf (Hex.text md5) (db (ascii "service")) = [])
    (hskey : serv.skey.text = skey) (hplain : serv.md5Plaint.text = md5P) :
    ∃ r, (Clients.rowsOf (Hex.text md5) ((serv.store ⟨ascii "service", admin⟩ (hexWord md5) enctm
      sel wr db).2.2 (ascii "service"))).head? = some r ∧
      r .skey = some skey ∧ r .md5P = some md5P := by
  let y := serv.withCipher (hexWord md5) enctm
  have htext : y.md5Cipher.text = Hex.text md5 := hexWord_copy_text hlen
  have hput : y.rowsAfter ⟨ascii "service", admin⟩ sel db = Rows.put .md5C
      (db (ascii "service")) (Hex.text md5, y.stored ⟨ascii "service", admin⟩) := by
    rcases hnew with hsel | hnone
    · rw [KmServ.rowsAfter_eq_put _ _ _ _ hsel, htext]
      rfl
    · have hselect : Rows.select y.existing (db (cstr (ascii "service"))) = [] := by
        rw [KmServ.existing, htext]
        exact hnone
      rw [KmServ.rowsAfter, if_neg fun h => h.2 hselect, Rows.put, if_pos, htext]
      · rfl
      · exact List.isEmpty_iff.mpr hnone
  obtain ⟨r, hr, hvalues⟩ := Rows.head_put
    (KmServ.stored_lookup_md5C ⟨ascii "service", admin⟩ y) (v := Hex.text md5)
    (db (ascii "service"))
  rw [← hput] at hr
  refine ⟨r, ?_, ?_, ?_⟩
  · rw [KmServ.store_db, if_pos ((KmServ.store_fst_eq_zero ..).mp hstore)]
    exact hr
  · rw [← hskey]
    exact hvalues _ _ rfl
  · rw [← hplain]
    exact hvalues _ _ rfl

theorem Turn.Stored.kept {t : Turn} {x : Filed} (h : t.Stored rng acp x)
    (hconf : t.before.ServiceConf) (hturn : t.Plain acp) : Kept (t.after rng acp).archive x := by
  obtain ⟨hfiled, hstores, htime, hlt, hnew⟩ := h
  obtain ⟨⟨plain, path, hs⟩, hdate, hwr⟩ := id hstores
  obtain ⟨hpath, rfl, hkey, hexpire⟩ := filedAt_eq rng acp hs hfiled
  obtain ⟨hcontent, hmd5⟩ := hs.cipherMd5_eq rng hdate htime hlt
  rw [← hkey] at hcontent hmd5
  change (t.before.sealed rng (t.env t.findex) x.plain).cipherMd5 = sm3 x.cipher at hmd5
  constructor
  · obtain ⟨hdisk, _, hkept⟩ := hs.encryptFile_left rng acp
    rw [hkept, hcontent, (container_eq _ _ hs.ne_nil hlt).1, ← hexpire, ← hpath] at hdisk
    exact hdisk
  · let s' := t.before.written rng (t.env t.findex) x.plain path
    let y := t.before.sealed rng (t.env t.findex) x.plain
    have hkm : s'.kmConf = ⟨ascii "service", t.before.dlg.adminID⟩ := written_kmConf rng hconf
    have hlen : y.cipherMd5.length = 32 := writeDigest_length _
    have hstore : (y.serv.store s'.kmConf (hexWord y.cipherMd5) (t.env t.findex).storeNow
        (t.env t.findex).sel (t.env t.findex).wr s'.db).1 = 0 :=
      (KmServ.store_fst_eq_zero ..).mpr
        ⟨(sealed_accepts_iff rng _ (written_configured rng) _).mpr hdate, hwr⟩
    have hvalues := sealed_stored rng (t.env t.findex) (s := t.before) hlt s'.kmConf
    have hskey : y.serv.skey.text = x.key.toList := by
      rw [hkey]
      exact Option.some.inj (congrArg (List.lookup Column.skey) hvalues)
    have hplain : y.serv.md5Plaint.text = Hex.text (sm3 x.plain) :=
      Option.some.inj (congrArg (List.lookup Column.md5P) hvalues)
    rw [← hmd5] at hnew ⊢
    rw [hkm] at hstore
    have hrow := store_head hlen hstore hnew hskey hplain
    rw [← hkm] at hrow
    have hafter : t.after rng acp = (recordFile acp (t.env t.findex) t.findex s' y).1 :=
      congrArg Prod.fst (hs.encryptFile_eq rng acp)
    rw [hafter]
    exact recordFile_head acp (hturn.sealed rng acp (hs.sealFile_eq rng)) hlen hrow

end

def seeTurns (combo1 : CString) (q : ArchiveDlg.OrgQuery) (env : Nat → FileEnv) (ts : List Turn)
    (s : Session) (findex : Nat) : List Turn :=
  ts ++ [⟨combo1, q, env, findex, s⟩]

def turnsBy (rng : Rng) (acp : CString → Bytes) (ts : List Turn) (s : Session) :
    Message → List Turn
  | .encryptFile combo1 q env _ =>
    if (s.dlg.judgeBeforeEncrypt acp combo1 q).1 = some true then
      let s := s.judged acp combo1 q
      (EventLoop.loop (EventLoop.watched (encryptFile rng acp env) (seeTurns combo1 q env))
        (s, ts) (List.range s.dlg.selFileNum)).1.2
    else ts
  | _ => ts

/-- A click adds turns of its own, which all find the arrays of the click. -/
theorem turnsBy_encryptFile (rng : Rng) (acp : CString → Bytes) (ts : List Turn) (s : Session)
    (combo1 : CString) (q : ArchiveDlg.OrgQuery) (env : Nat → FileEnv) (now : Int) :
    ∃ added, turnsBy rng acp ts s (.encryptFile combo1 q env now) = ts ++ added ∧
      ∀ u ∈ added, u.env = env ∧ u.before.dlg.arrays = s.dlg.arrays := by
  let I : Session × List Turn → Prop := fun p => p.1.dlg.arrays = s.dlg.arrays ∧
    ∃ added, p.2 = ts ++ added ∧ ∀ u ∈ added, u.env = env ∧ u.before.dlg.arrays = s.dlg.arrays
  rw [turnsBy]
  split
  · have hstep : ∀ (p : Session × List Turn) (findex : Nat), I p →
        I (EventLoop.watched (encryptFile rng acp env) (seeTurns combo1 q env) p findex).1 := by
      rintro p findex ⟨harrays, added, hts, hadded⟩
      refine ⟨(encryptFile_arrays rng acp env p.1 findex).trans harrays,
        added ++ [⟨combo1, q, env, findex, p.1⟩], ?_, ?_⟩
      · rw [← List.append_assoc, ← hts]
        rfl
      · rw [List.forall_mem_append, List.forall_mem_singleton]
        exact ⟨hadded, rfl, harrays⟩
    have hstart : I (s.judged acp combo1 q, ts) :=
      ⟨judged_arrays acp s combo1 q, [], (List.append_nil ts).symm, by simp⟩
    exact (EventLoop.loop_invariant hstep hstart _).2
  · exact ⟨[], (List.append_nil ts).symm, by simp⟩

/-- They are plain when the names and remarks of the click are. -/
theorem turnsBy_plain (rng : Rng) {acp : CString → Bytes} {ts : List Turn} {s : Session}
    (hts : ∀ t ∈ ts, t.Plain acp) {env : Nat → FileEnv}
    (henv : ∀ findex, PlainTurn acp s (env findex) findex) (combo1 : CString)
    (q : ArchiveDlg.OrgQuery) (now : Int) :
    ∀ t ∈ turnsBy rng acp ts s (.encryptFile combo1 q env now), t.Plain acp := by
  obtain ⟨added, hadded, hclick⟩ := turnsBy_encryptFile rng acp ts s combo1 q env now
  rw [hadded, List.forall_mem_append]
  refine ⟨hts, fun u hu => ?_⟩
  obtain ⟨hu, harrays⟩ := hclick u hu
  rw [Turn.Plain, hu]
  exact (henv u.findex).congr (congrArg (fun a => a.2.1) harrays)

/-- The dialog of an administrator, with the statics of `KM_SERV` not set or set
for it. -/
def Session.Serves (s : Session) (admin : Int) : Prop := s.dlg.adminID = admin ∧ s.ServiceConf

/-- What holds when a turn begins, in the dialog of an administrator: the number
of the organisation is that of its first row. -/
structure Turn.Checked (t : Turn) (acp : CString → Bytes) (admin : Int) : Prop where
  serves : t.before.Serves admin
  org : 0 < (t.orgTable acp).getSize ∧
    t.before.dlg.orgID = ArchiveDlg.firstCell (t.orgTable acp)

/-- What is about the files and the tables alone, and is kept by every turn
whatever its calls return. -/
structure KeptByTurns (rng : Rng) (acp : CString → Bytes) (admin : Int)
    (I : Session → List Turn → Prop) : Prop where
  congr : ∀ s s' ts, s'.disk = s.disk → s'.db = s.db → I s ts → I s' ts
  turn : ∀ (t : Turn) ts, t.Checked acp admin → I t.before ts → I (t.after rng acp) (ts ++ [t])

/-- What is kept by the turns whose texts are plain holds as long as all are. -/
theorem KeptByTurns.of_plain {rng : Rng} {acp : CString → Bytes} {admin : Int}
    {I : Session → List Turn → Prop}
    (hcongr : ∀ s s' ts, s'.disk = s.disk → s'.db = s.db → I s ts → I s' ts)
    (hturn : ∀ (t : Turn) ts, t.Checked acp admin → t.Plain acp → I t.before ts →
      I (t.after rng acp) (ts ++ [t])) :
    KeptByTurns rng acp admin fun s ts => (∀ t ∈ ts, t.Plain acp) → I s ts where
  congr := fun s s' ts hdisk hdb h hplain => hcongr s s' ts hdisk hdb (h hplain)
  turn := by
    intro t ts ht h hplain
    rw [List.forall_mem_append, List.forall_mem_singleton] at hplain
    exact hturn t ts ht hplain.2 (h hplain.1)

section

variable (rng : Rng) (acp : CString → Bytes) {admin : Int} {I : Session → List Turn → Prop}

theorem Turn.after_dlg (t : Turn) : (t.after rng acp).dlg.adminID = t.before.dlg.adminID ∧
    (t.after rng acp).dlg.orgID = t.before.dlg.orgID := by
  obtain ⟨_, _, _, _, _, hdlg⟩ := sealFile_frame rng (t.env t.findex) t.findex t.before
  rcases hs : sealFile rng (t.env t.findex) t.findex t.before with ⟨s', o⟩
  rw [hs] at hdlg
  have hsame : s'.dlg.adminID = t.before.dlg.adminID ∧ s'.dlg.orgID = t.before.dlg.orgID := by
    rw [hdlg]
    exact ⟨rfl, rfl⟩
  simp only [Turn.after, encryptFile, hs]
  cases o with
  | none => exact hsame
  | some x =>
    obtain ⟨_, _, _, _, hrecord⟩ := recordFile_frame acp (t.env t.findex) t.findex s' x
    rw [hrecord]
    exact hsame

theorem Session.Serves.turn {t : Turn} (h : t.before.Serves admin) :
    (t.after rng acp).Serves admin :=
  ⟨(t.after_dlg rng acp).1.trans h.1, serviceConf_encryptFile rng acp t.env t.findex h.2⟩

theorem Session.Serves.judged {s : Session} (h : s.Serves admin) (combo1 : CString)
    (q : ArchiveDlg.OrgQuery) : (s.judged acp combo1 q).Serves admin := by
  obtain ⟨_, _, hdlg⟩ := judgeBeforeEncrypt_frame acp s.dlg combo1 q
  have hadmin : (s.judged acp combo1 q).dlg.adminID = s.dlg.adminID := by rw [Session.judged, hdlg]
  exact ⟨hadmin.trans h.1, h.2.of_eq rfl hadmin⟩

/-- `JudgeBeforeEncrypt` lets a click through with the number of the first row. -/
theorem judged_orgID {s : Session} {combo1 : CString} {q : ArchiveDlg.OrgQuery}
    (h : (s.dlg.judgeBeforeEncrypt acp combo1 q).1 = some true) :
    let table := (execQueryMysqlInto q.call (q.rows (cstr (acp combo1))) Table.empty).2
    0 < table.getSize ∧ (s.judged acp combo1 q).dlg.orgID = ArchiveDlg.firstCell table := by
  rw [Session.judged]
  simp only [ArchiveDlg.judgeBeforeEncrypt] at h ⊢
  split_ifs at h ⊢ with hplain hname hfit hcode hsize hdate hpast hcipher
  all_goals first | exact ⟨hsize, rfl⟩ | cases h

theorem KeptByTurns.onEncryptFile (hI : KeptByTurns rng acp admin I) {s : Session}
    {ts : List Turn} (hs : s.Serves admin) (h : I s ts) (combo1 : CString)
    (q : ArchiveDlg.OrgQuery) (env : Nat → FileEnv) (now : Int) :
    (onEncryptFile rng acp s combo1 q env).1.Serves admin ∧
      I (onEncryptFile rng acp s combo1 q env).1
        (turnsBy rng acp ts s (.encryptFile combo1 q env now)) := by
  have hjudged := hs.judged acp combo1 q
  have hkept : I (s.judged acp combo1 q) ts := hI.congr s _ _ rfl rfl h
  rw [onEncryptFile_fst, turnsBy]
  split
  · rename_i hok
    let table := (execQueryMysqlInto q.call (q.rows (cstr (acp combo1))) Table.empty).2
    obtain ⟨hsize, horg⟩ := judged_orgID acp hok
    let J : Session × List Turn → Prop := fun p =>
      p.1.Serves admin ∧ p.1.dlg.orgID = ArchiveDlg.firstCell table ∧ I p.1 p.2
    have hstep : ∀ p findex, J p →
        J (EventLoop.watched (encryptFile rng acp env) (seeTurns combo1 q env) p findex).1 := by
      intro p findex hp
      let t : Turn := ⟨combo1, q, env, findex, p.1⟩
      have ht : t.Checked acp admin := ⟨hp.1, hsize, hp.2.1⟩
      exact ⟨ht.serves.turn rng acp, (t.after_dlg rng acp).2.trans hp.2.1,
        hI.turn t p.2 ht hp.2.2⟩
    have hloop := EventLoop.loop_invariant hstep (s := (s.judged acp combo1 q, ts))
      ⟨hjudged, horg, hkept⟩ (List.range (s.judged acp combo1 q).dlg.selFileNum)
    have hend := And.intro hloop.1 hloop.2.2
    rw [(EventLoop.loop_watched _ _ _ _).1] at hend
    exact hend
  · exact ⟨hjudged, hkept⟩

theorem handle_adminID {s : Session} {e : Message}
    (he : ∀ combo1 q env now, e ≠ .encryptFile combo1 q env now) :
    (s.handle rng acp e).1.dlg.adminID = s.dlg.adminID := by
  cases e with
  | readFile combo1 selection => simp only [Session.handle, ArchiveDlg.onReadFile_scans]
  | savePath choice =>
    simp only [Session.handle, ArchiveDlg.onSavePath]
    split_ifs <;> rfl
  | cbnSelchange entry q =>
    simp only [Session.handle]
    cases horg : s.dlg.onCbnSelchange acp entry q with
    | none => rfl
    | some d =>
      simp only [ArchiveDlg.onCbnSelchange] at horg
      split_ifs at horg <;> cases horg <;> rfl
  | encryptFile combo1 q env now => exact absurd rfl (he combo1 q env now)
  | _ => rfl

theorem KeptByTurns.handle (hI : KeptByTurns rng acp admin I) {s : Session} {ts : List Turn}
    (hs : s.Serves admin) (h : I s ts) (e : Message) :
    (s.handle rng acp e).1.Serves admin ∧
      I (s.handle rng acp e).1 (turnsBy rng acp ts s e) := by
  have hserves : (∀ combo1 q env now, e ≠ .encryptFile combo1 q env now) →
      (s.handle rng acp e).1.Serves admin := fun he =>
    ⟨(handle_adminID rng acp he).trans hs.1, serviceConf_handle rng acp hs.2 e⟩
  cases e with
  | encryptFile combo1 q env now => exact hI.onEncryptFile rng acp hs h combo1 q env now
  | cbnSelchange entry q =>
    refine ⟨hserves (by simp), ?_⟩
    simp only [Session.handle]
    cases s.dlg.onCbnSelchange acp entry q with
    | none => exact h
    | some d => exact hI.congr s _ _ rfl rfl h
  | _ => exact ⟨hserves (by simp), hI.congr s _ _ rfl rfl h⟩

theorem KeptByTurns.run (hI : KeptByTurns rng acp admin I) {s : Session} (hs : s.Serves admin)
    (h : I s []) (run : List Message) :
    I (EventLoop.loop (EventLoop.watched (Session.handle rng acp) (turnsBy rng acp))
        (s, []) run).1.1
      (EventLoop.loop (EventLoop.watched (Session.handle rng acp) (turnsBy rng acp))
        (s, []) run).1.2 :=
  (EventLoop.loop_invariant (I := fun p : Session × List Turn => p.1.Serves admin ∧ I p.1 p.2)
    (fun _ e hp => hI.handle rng acp hp.1 hp.2 e) ⟨hs, h⟩ run).2

end

/-- Nothing changed but the files that turns opened for writing, and the rows of
the digests they made. -/
structure Untouched (rng : Rng) (s₀ s : Session) (ts : List Turn) : Prop where
  disk_eq : ∀ p, (∀ t ∈ ts, t.path ≠ some p) → s.disk p = s₀.disk p
  elsewhere : Elsewhere {d | ∀ t ∈ ts, t.digest rng ≠ some d} s₀.db s.db

theorem Untouched.keptByTurns (rng : Rng) (acp : CString → Bytes) (admin : Int) (s₀ : Session) :
    KeptByTurns rng acp admin fun s ts => (∀ t ∈ ts, t.Plain acp) → Untouched rng s₀ s ts := by
  refine KeptByTurns.of_plain
    (fun s s' ts hdisk hdb h => ⟨hdisk ▸ h.disk_eq, hdb ▸ h.elsewhere⟩) ?_
  intro t ts ht hplain h
  constructor
  · intro p hp
    simp only [List.forall_mem_append, List.forall_mem_singleton] at hp
    rw [t.after_disk rng acp hp.2, h.disk_eq p hp.1]
  · have hold : Elsewhere {d | ∀ u ∈ ts ++ [t], u.digest rng ≠ some d} s₀.db t.before.db :=
      h.elsewhere.mono fun d hd u hu => hd u (List.mem_append_left _ hu)
    have hnew : Elsewhere {d | ∀ u ∈ ts ++ [t], u.digest rng ≠ some d} t.before.db
        (t.after rng acp).db :=
      (t.after_elsewhere rng acp ht.serves.2 hplain).mono fun d hd => hd t (by simp)
    exact hold.trans hnew

/-- Every file that a turn has stored is kept until a turn takes its path or
its digest. -/
def Surviving (rng : Rng) (acp : CString → Bytes) (s : Session) (ts : List Turn) : Prop :=
  ∀ before t after x, ts = before ++ t :: after → t.Stored rng acp x →
    (∀ u ∈ after, u.path ≠ some x.path ∧ u.digest rng ≠ some (Hex.text (sm3 x.cipher))) →
    Kept s.archive x

theorem Surviving.keptByTurns (rng : Rng) (acp : CString → Bytes) (admin : Int) :
    KeptByTurns rng acp admin fun s ts => (∀ t ∈ ts, t.Plain acp) → Surviving rng acp s ts := by
  refine KeptByTurns.of_plain (fun s s' ts hdisk hdb h before t after x hts hstored hlater =>
    (h before t after x hts hstored hlater).congr (congrFun hdisk _)
      (congrArg (Clients.rowsOf _) (congrFun hdb _))) ?_
  intro t ts ht hplain h before u after x hts hstored hlater
  rcases List.eq_nil_or_concat after with rfl | ⟨after, last, rfl⟩
  · obtain ⟨rfl, hlast⟩ := List.append_inj' hts rfl
    obtain rfl : t = u := List.singleton_inj.mp hlast
    exact hstored.kept rng acp ht.serves.2 hplain
  · rw [List.concat_eq_append, ← List.cons_append, ← List.append_assoc] at hts
    obtain ⟨rfl, hlast⟩ := List.append_inj' hts rfl
    obtain rfl : t = last := List.singleton_inj.mp hlast
    simp only [List.concat_eq_append, List.forall_mem_append, List.forall_mem_singleton] at hlater
    have hkept := h before u after x rfl hstored hlater.1
    exact hkept.congr (t.after_disk rng acp hlater.2.1)
      ((t.after_elsewhere rng acp ht.serves.2 hplain).rows_eq _ hlater.2.2)

theorem clean_turns {s : Session}
    (hjudge : (s.dlg.judgeBeforeEncrypt latin "org".toList sampleOrg).1 = some true)
    (hone : s.dlg.selFileNum = 1) : turnsBy (fun _ _ => 0) latin [] s cleanClick =
      [⟨"org".toList, sampleOrg, cleanEnv, 0, s.judged latin "org".toList sampleOrg⟩] := by
  have harrays := judged_arrays latin s "org".toList sampleOrg
  have hnum : (s.judged latin "org".toList sampleOrg).dlg.selFileNum = 1 :=
    (congrArg (fun a => a.2.2.2.2) harrays).trans hone
  simp only [turnsBy, cleanClick, hjudge, if_true, hnum]
  exact EventLoop.loop_watched_singleton _ _ _

end SecProGIS
