import SecProGIS.Server
import SecProGIS.Container
import SecProGIS.Lib.EventLoop

/-! The main dialog of `ArchiveDlg.cpp`: the choice of files, save paths and
deadline, the check before an encryption, and the encryption of the files. -/

namespace SecProGIS

abbrev CString := List Char

/-- A code page of one byte for a character. -/
def latin (s : CString) : Bytes := s.map fun c => BitVec.ofNat 8 c.toNat

/-- The members of `CArchiveDlg` that the handlers below read or set. -/
structure ArchiveDlg where
  plainLen : Int
  orgID : Int
  adminID : Int
  ifEncFlag : u32
  contentKey : Vector u8 16
  mDate64t : Int
  currentDate64t : Int
  remark : CString
  orgName : CString
  plainPathAry : List CString
  plainNameAry : List CString
  plainExtAry : List CString
  cipherPathAry : List CString
  selFileNum : Nat

structure Controls where
  combo1 : CString
  edit3 : CString

namespace ArchiveDlg

def onInitDialog (d : ArchiveDlg) : ArchiveDlg := { d with mDate64t := -1 }

def updateData (d : ArchiveDlg) (c : Controls) : ArchiveDlg :=
  { d with orgName := c.combo1, remark := c.edit3 }

/-- The loop over a path from its last character to its second: the name and
the extension as it finds them, from those of the file before. -/
def splitPath (path : CString) : Nat → CString × CString → CString × CString
  | 0, s => s
  | i + 1, (strName, strExt) =>
    let right := path.drop (i + 2)
    if path[i + 1]? = some '.' then splitPath path i (strName, right)
    else if path[i + 1]? = some '\\' then (right, strExt)
    else splitPath path i (strName, strExt)

def addPaths (d : ArchiveDlg) (s : CString × CString) : List CString → ArchiveDlg
  | [] => d
  | path :: paths =>
    let s := splitPath path (path.length - 1) s
    addPaths
      { d with
        plainPathAry := d.plainPathAry ++ [path]
        plainNameAry := d.plainNameAry ++ [s.1]
        plainExtAry := d.plainExtAry ++ [s.2] } s paths

/-- `OnReadFile`; no selection means that the file dialog is cancelled. The
remark box is set before the members are read from the controls. -/
def onReadFile (d : ArchiveDlg) (combo1 : CString) (selection : Option (List CString)) :
    ArchiveDlg :=
  let d := { d with plainPathAry := [], plainNameAry := [], plainExtAry := [], cipherPathAry := [] }
  let d := d.updateData ⟨combo1, "无".toList⟩
  let d := d.addPaths ([], []) (selection.getD [])
  { d with selFileNum := d.plainPathAry.length }

/-- `OnBnClickedButtonsavepath` with the path or the folder that is chosen. -/
def onSavePath (d : ArchiveDlg) (choice : Option CString) : ArchiveDlg :=
  if d.plainPathAry.isEmpty then d
  else if d.selFileNum = 1 then { d with cipherPathAry := choice.toList }
  else
    let cDir := choice.getD []
    { d with cipherPathAry := (List.range d.selFileNum).map fun findex =>
        cDir ++ ['\\'] ++ ("(加密)".toList ++ d.plainNameAry.getD findex []) }

def onDatetimechange (d : ArchiveDlg) (date now : Int) : ArchiveDlg :=
  { d with mDate64t := date, currentDate64t := now }

structure OrgQuery where
  call : Call
  rows : Bytes → List (List Cell)

/-- `orgID[0][0]` as a number; a row of a result has at least one cell. -/
def firstCell (t : Table) : Int :=
  atoi (((t.get 0).bind fun row => row.get 0).elim [] BaseWord.text)

def orgSql (name : Bytes) : Bytes :=
  ascii "select * from org where name = '" ++ name ++ ascii "';"

/-- `OnCbnSelchangeCombo1`, on the list entry that is selected. There is no
result when the text does not fit its 100 bytes: `sprintf_s` ends the program. -/
def onCbnSelchange (acp : CString → Bytes) (d : ArchiveDlg) (entry : CString) (q : OrgQuery) :
    Option ArchiveDlg :=
  let d := { d with orgName := entry }
  let name := cstr (acp d.orgName)
  if 100 ≤ (orgSql name).length then none
  else
    let r := execQueryMysqlInto q.call (q.rows name) Table.empty
    if r.1 = -3 then some d
    else if 0 < r.2.getSize then some { d with orgID := firstCell r.2 }
    else some d

/-- `JudgeBeforeEncrypt`, with the same end of the program. -/
def judgeBeforeEncrypt (acp : CString → Bytes) (d : ArchiveDlg) (combo1 : CString) (q : OrgQuery) :
    Option Bool × ArchiveDlg :=
  if d.plainPathAry.isEmpty then (some false, d)
  else
    let d := { d with orgName := combo1 }
    if d.orgName.isEmpty then (some false, d)
    else
      let name := cstr (acp d.orgName)
      if 100 ≤ (orgSql name).length then (none, d)
      else
        let r := execQueryMysqlInto q.call (q.rows name) Table.empty
        if r.1 = -3 then (some false, d)
        else if 0 < r.2.getSize then
          let d := { d with orgID := firstCell r.2 }
          if d.mDate64t = -1 then (some false, d)
          else if d.currentDate64t ≥ d.mDate64t then (some false, d)
          else if d.cipherPathAry.isEmpty then (some false, d)
          else (some true, d)
        else (some false, d)

end ArchiveDlg

/-- The dialog with what its handlers change outside it: the files, the tables
of the server and the statics of `KM_SERV`. -/
structure Session where
  dlg : ArchiveDlg
  disk : CString → Option Bytes
  db : Db Column
  kmConf : KmConf

/-- What the turn of the loop for one file meets: the controls, whether the
plaintext can be opened (twice, with the same outcome and content) and the other
file created, the readings of the clock, the answers to its three queries, what
memory holds in the new service, and the server that gets its last text. -/
structure FileEnv where
  controls : Controls
  canOpen : Bool
  canCreate : Bool
  genNow : Int
  verifyNow : Int
  storeNow : Int
  sel : Call
  wr : Call
  name : Call
  mem : Int
  server : Server

/-- How a turn of the loop can end the handler; `terminated` ends the program. -/
inductive Stop where
  | exception | storeFailed | nameFailed | terminated
deriving DecidableEq

inductive EncryptEnd where
  | refused | stopped (s : Stop) | done
deriving DecidableEq

def hexBuf (md5 : Bytes) : Vector u8 66 := sprintHex md5 32 (Vector.replicate 66 0)

/-- `KM_WORD((char*)buf, 64)`. -/
def hexWord (md5 : Bytes) : BaseWord := .readIn (some (hexBuf md5).toList) 64

structure Sealed where
  serv : KmServ
  cipherMd5 : Bytes

namespace Session

variable (s : Session)

/-- `UpdateData(true)` at the start of a turn and before the names are read. -/
def shown (e : FileEnv) : Session := { s with dlg := s.dlg.updateData e.controls }

def openPlain (e : FileEnv) (findex : Nat) : Option Bytes :=
  if e.canOpen then s.dlg.plainPathAry[findex]?.bind s.disk else none

def measured (plain : Bytes) : Session :=
  { s with dlg := { s.dlg with plainLen := toInt32 plain.length } }

def fileServ (rng : Rng) (e : FileEnv) (plain : Bytes) : KmServ :=
  let plainMd5 := sm3 (readBuf s.dlg.plainLen.toNat (SeekFile.opened plain))
  (KmServ.ofPlain s.dlg.orgID (hexWord plainMd5) s.dlg.mDate64t e.mem).genKey rng e.genNow 16

/-- The key table is set when it was not, and `get_skey` writes to `ContentKey`;
its code is not looked at. -/
def withKey (serv : KmServ) (e : FileEnv) : Session :=
  { s with
    kmConf := if s.kmConf.configured then s.kmConf
      else KmConf.setConf (ascii "service") s.dlg.adminID
    dlg := { s.dlg with contentKey := (serv.getSkey e.verifyNow s.dlg.contentKey).2 } }

def openCipher (e : FileEnv) (findex : Nat) : Option CString :=
  if e.canCreate then s.dlg.cipherPathAry[findex]? else none

/-- Write the container and return the digest of its ciphertext; the buffer to
read the ciphertext back into may not be allocated. -/
def writeContainer (path : CString) (plain : Bytes) : Session × Option Bytes :=
  let f := writeCipher s.dlg.contentKey 1 s.dlg.mDate64t plain
  let fail := cipherLen f < 0
  ({ s with
      dlg := { s.dlg with ifEncFlag := 1 }
      disk := Function.update s.disk path
        (some (if fail then f.bytes else (writeDigest f).1.bytes)) },
    if fail then none else some (writeDigest f).2)

def stamped (e : FileEnv) : Session :=
  { s with dlg := { s.dlg with currentDate64t := e.storeNow } }

def withDb (db : Db Column) : Session := { s with db := db }

end Session

/-- The first half of a turn: the digest of the plaintext, the service with its
key, and the container. Without a result the turn ends in an exception. -/
def sealFile (rng : Rng) (e : FileEnv) (findex : Nat) (s : Session) : Session × Option Sealed :=
  let s := s.shown e
  match s.openPlain e findex with
  | none => (s, none)
  | some plain =>
    let s := s.measured plain
    if s.dlg.plainLen < 0 then (s, none)
    else
      let serv := s.fileServ rng e plain
      let s := s.withKey serv e
      match s.openCipher e findex with
      | none => (s, none)
      | some path =>
        let r := s.writeContainer path plain
        (r.1, r.2.map fun cipherMd5 => ⟨serv, cipherMd5⟩)

/-- The statement that the text below is meant to be. -/
def nameStatement (acp : CString → Bytes) (plainName remark : CString) (cipherMd5 : Bytes) :
    Statement Column :=
  .update (ascii "service") [(.fname, cstr (acp plainName)), (.rmrk, cstr (acp remark))]
    [(.md5C, cstr (hexBuf cipherMd5).toList)]

def nameSql (acp : CString → Bytes) (plainName remark : CString) (cipherMd5 : Bytes) : Bytes :=
  ascii "update service set fname = '" ++ cstr (acp plainName) ++ ascii "', rmrk = '" ++
    cstr (acp remark) ++ ascii "' where md5_c = '" ++ cstr (hexBuf cipherMd5).toList ++ ascii "';"

/-- The second half of a turn: the row of the key table, then the file name and
the remark in it. The text of the second statement has to fit 300 bytes, and
what it does is up to the server: nothing in it is escaped. -/
def recordFile (acp : CString → Bytes) (e : FileEnv) (findex : Nat) (s : Session) (x : Sealed) :
    Session × Option Stop :=
  let s := s.stamped e
  let r := x.serv.store s.kmConf (hexWord x.cipherMd5) s.dlg.currentDate64t e.sel e.wr s.db
  let s := s.withDb r.2.2
  if r.1 = -1 then (s, some .storeFailed)
  else
    match s.dlg.plainNameAry[findex]? with
    | none => (s, some .exception)
    | some plainName =>
      let s := s.shown e
      if 300 ≤ (nameSql acp plainName s.dlg.remark x.cipherMd5).length then (s, some .terminated)
      else
        let q := execQueryText e.server e.name (nameSql acp plainName s.dlg.remark x.cipherMd5) s.db
        let s := s.withDb q.2
        if q.1 = -3 then (s, some .nameFailed) else (s, none)

def encryptFile (rng : Rng) (acp : CString → Bytes) (env : Nat → FileEnv) (s : Session)
    (findex : Nat) : Session × Option Stop :=
  match sealFile rng (env findex) findex s with
  | (s, none) => (s, some .exception)
  | (s, some x) => recordFile acp (env findex) findex s x

def Session.judged (acp : CString → Bytes) (s : Session) (combo1 : CString)
    (q : ArchiveDlg.OrgQuery) : Session :=
  { s with dlg := (s.dlg.judgeBeforeEncrypt acp combo1 q).2 }

def onEncryptFile (rng : Rng) (acp : CString → Bytes) (s : Session) (combo1 : CString)
    (q : ArchiveDlg.OrgQuery) (env : Nat → FileEnv) : Session × EncryptEnd :=
  let ok := (s.dlg.judgeBeforeEncrypt acp combo1 q).1
  let s := s.judged acp combo1 q
  match ok with
  | none => (s, .stopped .terminated)
  | some false => (s, .refused)
  | some true =>
    match EventLoop.loop (encryptFile rng acp env) s (List.range s.dlg.selFileNum) with
    | (s, some stop) => (s, .stopped stop)
    | (s, none) => (s, .done)

theorem onEncryptFile_fst (rng : Rng) (acp : CString → Bytes) (s : Session) (combo1 : CString)
    (q : ArchiveDlg.OrgQuery) (env : Nat → FileEnv) :
    (onEncryptFile rng acp s combo1 q env).1 =
      if (s.dlg.judgeBeforeEncrypt acp combo1 q).1 = some true then
        (EventLoop.loop (encryptFile rng acp env) (s.judged acp combo1 q)
          (List.range (s.judged acp combo1 q).dlg.selFileNum)).1
      else s.judged acp combo1 q := by
  rcases hok : (s.dlg.judgeBeforeEncrypt acp combo1 q).1 with _ | _ | _
  · simp [onEncryptFile, hok]
  · simp [onEncryptFile, hok]
  · simp only [onEncryptFile, hok, if_true]
    rcases EventLoop.loop (encryptFile rng acp env) (s.judged acp combo1 q)
      (List.range (s.judged acp combo1 q).dlg.selFileNum) with ⟨s', o⟩
    cases o <;> rfl

end SecProGIS
