import SecProGIS.INTmysql
import SecProGIS.Lib.EventLoop
import SecProGIS.ArchiveDlg

/-! `LoginDlg.cpp`: the check of an administrator, the messages to the login
dialog, and what its loop returns. -/

namespace SecProGIS

structure LoginDlg where
  managerName : CString
  managerPassword : CString
  admid : Int

/-- A row of the table `admin`: the columns by number, then any others. -/
structure AdminRow where
  id : Cell
  acc : Cell
  password : Cell
  more : List Cell

def AdminRow.cells (r : AdminRow) : List Cell := r.id :: r.acc :: r.password :: r.more

structure LoginBoxes where
  userName : CString
  password : CString

/-- What a click on the login button meets: the call, under the configuration
`LinkDataBase` reads, the rows of the table for a name, and the boxes. -/
structure Attempt where
  call : Call
  rows : Bytes → List AdminRow
  boxes : LoginBoxes

inductive LoginMessage where
  | buttonLogin (a : Attempt)
  | enChange (boxes : LoginBoxes)
  | idOk (boxes : LoginBoxes)
  | idCancel

/-- How the message loop ends: with the result of the dialog, or with the
program. -/
inductive LoginEnd where
  | ended (result : Int) | terminated
deriving DecidableEq

def idOk : Int := 1

def idCancel : Int := 2

def idAbort : Int := 3

/-- MD5, of which the repository has the header alone. -/
abbrev Md5 := Bytes → Vector u8 16

def md5Log (md5 : Md5) (pas : Bytes) : Bytes :=
  (sprintHex (md5 pas).toList 16 (Vector.replicate 33 0)).toList

def adminSql (cAdmin : Bytes) : Bytes :=
  ascii "select * from admin where acc = '" ++ cAdmin ++ ascii "';"

/-- `strcmp` of a word with a text; NULL ends the program. -/
def BaseWord.strcmpEq (w : BaseWord) (text : Bytes) : Option Bool :=
  w.content.map fun b => decide (cstr b = text)

namespace LoginDlg

def updateData (d : LoginDlg) (b : LoginBoxes) : LoginDlg :=
  { d with managerName := b.userName, managerPassword := b.password }

def onOK (d : LoginDlg) (b : LoginBoxes) : LoginDlg × Option LoginEnd :=
  (d.updateData b, some (.ended idOk))

/-- The comparisons of `CheckAdmin` with the first row; no result means that
an index or a comparison is taken into nothing. -/
def matchRow (t : Table) (cAdmin md5Log : Bytes) : Option (Option Int) := do
  let row ← t.get 0
  let acc ← row.get 1
  if ← acc.strcmpEq cAdmin then
    let password ← row.get 2
    if ← password.strcmpEq md5Log then
      let id ← row.get 0
      return some (atoi id.text)
    else return none
  else return none

def checkAdmin (acp : CString → Bytes) (md5 : Md5) (d : LoginDlg) (a : Attempt)
    (adm pas : CString) : LoginDlg × Option LoginEnd :=
  if !a.call.conf.configured then (d, none)
  else
    let cAdmin := cstr (acp adm)
    if 100 ≤ (adminSql cAdmin).length then (d, some .terminated)
    else
      let r := execQueryMysqlInto a.call ((a.rows cAdmin).map AdminRow.cells) Table.empty
      if r.1 = -3 then (d, none)
      else if r.2.getSize = 0 then (d, none)
      else
        match matchRow r.2 cAdmin (cstr (md5Log md5 (acp pas))) with
        | none => (d, some .terminated)
        | some none => (d, none)
        | some (some admid) => { d with admid := admid }.onOK a.boxes

/-- The handlers of the message map and the inherited `OnOK` and `OnCancel`. -/
def handle (acp : CString → Bytes) (md5 : Md5) (d : LoginDlg) :
    LoginMessage → LoginDlg × Option LoginEnd
  | .buttonLogin a => d.checkAdmin acp md5 a d.managerName d.managerPassword
  | .enChange b => (d.updateData b, none)
  | .idOk b => d.onOK b
  | .idCancel => (d, some (.ended idCancel))

end LoginDlg

/-- Whether the dialog can be created; otherwise `DoModal` returns -1 or
`IDABORT` at once. -/
inductive Creation where
  | created | failed | aborted
deriving DecidableEq

def LoginDlg.doModal (acp : CString → Bytes) (md5 : Md5) (c : Creation) (d : LoginDlg)
    (run : List LoginMessage) : LoginDlg × Option Int :=
  match c with
  | .failed => (d, some (-1))
  | .aborted => (d, some idAbort)
  | .created =>
    match EventLoop.loop (LoginDlg.handle acp md5) d run with
    | (d, some (.ended result)) => (d, some result)
    | (d, _) => (d, none)

theorem TRow.strcmpEq_readCell (c : Cell) (text : Bytes) : (TRow.readCell c).strcmpEq text =
    if cstr (c.getD []) = [] then none else some (decide (cstr (c.getD []) = text)) := by
  by_cases h : cstr (c.getD []) = []
  · rw [TRow.readCell_of_cstr_eq_nil h, if_pos h]
    rfl
  · cases c with
    | none => exact absurd rfl h
    | some b =>
      have hword := TRow.readCell_holds_cstr h
      have htext := TRow.readCell_text (some b)
      rw [Option.getD_some] at h hword htext ⊢
      rw [hword.1, BaseWord.text] at htext
      rw [if_neg h, hword.1, BaseWord.strcmpEq, Option.map_some]
      exact congrArg (fun b => some (decide (b = text))) htext

/-- The first row the server has for the entered name has that name and the
hash of the entered password, and `id` is its number. -/
def Accepted (acp : CString → Bytes) (md5 : Md5) (d : LoginDlg) (a : Attempt) (id : Int) : Prop :=
  a.call.code = 0 ∧ ∃ row, (a.rows (cstr (acp d.managerName))).head? = some row ∧
    cstr (row.acc.getD []) = cstr (acp d.managerName) ∧
    cstr (row.password.getD []) = Hex.text (md5 (acp d.managerPassword)).toList ∧
    id = atoi (cstr (row.id.getD []))

theorem cstr_md5Log (md5 : Md5) (pas : Bytes) : cstr (md5Log md5 pas) = Hex.text (md5 pas).toList :=
  cstr_sprintHex (by simp) (by decide) (by decide)

def AdminRow.verdict (row : AdminRow) (cAdmin md5Log : Bytes) : Option (Option Int) :=
  if cstr (row.acc.getD []) = [] then none
  else if cstr (row.acc.getD []) = cAdmin then
    if cstr (row.password.getD []) = [] then none
    else if cstr (row.password.getD []) = md5Log then some (some (atoi (cstr (row.id.getD []))))
    else some none
  else some none

theorem matchRow_cons (row : AdminRow) (rows : List AdminRow) (cAdmin md5Log : Bytes) :
    LoginDlg.matchRow (Table.empty.appendAll ((row :: rows).map AdminRow.cells)) cAdmin md5Log =
      row.verdict cAdmin md5Log := by
  have hget : (Table.empty.appendAll ((row :: rows).map AdminRow.cells)).get 0 =
      some (TRow.readIn row.cells) := Table.appendAll_get (i := 0) (by simp)
  have hid : (TRow.readIn row.cells).get 0 = some (TRow.readCell row.id) :=
    TRow.readIn_get (i := 0) (by simp [AdminRow.cells])
  have hacc : (TRow.readIn row.cells).get 1 = some (TRow.readCell row.acc) :=
    TRow.readIn_get (i := 1) (by simp [AdminRow.cells])
  have hpassword : (TRow.readIn row.cells).get 2 = some (TRow.readCell row.password) :=
    TRow.readIn_get (i := 2) (by simp [AdminRow.cells])
  simp only [LoginDlg.matchRow, hget, hid, hacc, hpassword, TRow.strcmpEq_readCell,
    TRow.readCell_text, Option.bind_eq_bind, Option.bind_some, AdminRow.verdict]
  generalize cstr (row.acc.getD []) = acc
  generalize cstr (row.password.getD []) = password
  by_cases hnull : acc = []
  · simp [hnull]
  · by_cases hname : acc = cAdmin
    · subst hname
      by_cases hempty : password = []
      · simp [hnull, hempty]
      · by_cases hhash : password = md5Log
        · subst hhash
          simp [hnull, hempty]
        · simp [hnull, hempty, hhash]
    · simp [hnull, hname]

section

variable {acp : CString → Bytes} {md5 : Md5} {d : LoginDlg} {a : Attempt}

theorem handle_buttonLogin :
    d.handle acp md5 (.buttonLogin a) =
      if !a.call.conf.configured then (d, none)
      else if 100 ≤ (adminSql (cstr (acp d.managerName))).length then (d, some .terminated)
      else if a.call.code ≠ 0 then (d, none)
      else
        match (a.rows (cstr (acp d.managerName))).head? with
        | none => (d, none)
        | some row =>
          match row.verdict (cstr (acp d.managerName))
            (Hex.text (md5 (acp d.managerPassword)).toList) with
          | none => (d, some .terminated)
          | some none => (d, none)
          | some (some admid) => { d with admid := admid }.onOK a.boxes := by
  have hsize := execQueryMysqlInto_getSize a.call
    ((a.rows (cstr (acp d.managerName))).map AdminRow.cells)
  have hcode : (execQueryMysqlInto a.call
      ((a.rows (cstr (acp d.managerName))).map AdminRow.cells) Table.empty).1 = a.call.code := rfl
  simp only [LoginDlg.handle, LoginDlg.checkAdmin, cstr_md5Log, hcode, hsize, List.length_map]
  by_cases hcall : a.call.code = 0
  · cases hrows : a.rows (cstr (acp d.managerName)) with
    | nil => simp [hcall]
    | cons row rows =>
      have htable : (execQueryMysqlInto a.call ((row :: rows).map AdminRow.cells) Table.empty).2 =
          Table.empty.appendAll ((row :: rows).map AdminRow.cells) := by
        simp [execQueryMysqlInto, hcall]
      rw [htable, matchRow_cons]
      simp [hcall]
  · by_cases hoff : a.call.code = -3 <;> simp [hcall, hoff]

theorem AdminRow.verdict_eq_some {row : AdminRow} {cAdmin md5Log : Bytes} {id : Int}
    (h : row.verdict cAdmin md5Log = some (some id)) : cstr (row.acc.getD []) = cAdmin ∧
      cstr (row.password.getD []) = md5Log ∧ id = atoi (cstr (row.id.getD [])) := by
  rw [AdminRow.verdict] at h
  split_ifs at h with hnull hname hempty hhash
  · simp only [Option.some.injEq] at h
    exact ⟨hname, hhash, h.symm⟩
  all_goals simp at h

theorem accepted_of_ended {result : Int}
    (h : (d.handle acp md5 (.buttonLogin a)).2 = some (.ended result)) :
    result = idOk ∧ Accepted acp md5 d a (d.handle acp md5 (.buttonLogin a)).1.admid := by
  rw [handle_buttonLogin] at h ⊢
  by_cases hconf : a.call.conf.configured = true
  · by_cases hfit : 100 ≤ (adminSql (cstr (acp d.managerName))).length
    · simp [hconf, hfit] at h
    · by_cases hcall : a.call.code = 0
      · simp only [hconf, hfit, hcall, Bool.not_true, Bool.false_eq_true, if_false, ne_eq,
          not_true] at h ⊢
        cases hrow : (a.rows (cstr (acp d.managerName))).head? with
        | none => simp [hrow] at h
        | some row =>
          match hverdict : row.verdict (cstr (acp d.managerName))
            (Hex.text (md5 (acp d.managerPassword)).toList) with
          | none => simp [hrow, hverdict] at h
          | some none => simp [hrow, hverdict] at h
          | some (some admid) =>
            simp only [hrow, hverdict, LoginDlg.onOK, LoginDlg.updateData, Option.some.injEq,
              LoginEnd.ended.injEq] at h ⊢
            exact ⟨h.symm, hcall, row, hrow, AdminRow.verdict_eq_some hverdict⟩
      · simp [hconf, hfit, hcall] at h
  · simp [hconf] at h

theorem Accepted.handle_ne_none {id : Int} (h : Accepted acp md5 d a id) :
    (d.handle acp md5 (.buttonLogin a)).2 ≠ none := by
  obtain ⟨hcall, row, hrow, hacc, hpassword, _⟩ := h
  have hconf : a.call.conf.configured = true := (Call.code_eq_zero.mp hcall).1
  have hverdict : row.verdict (cstr (acp d.managerName))
      (Hex.text (md5 (acp d.managerPassword)).toList) ≠ some none := by
    rw [AdminRow.verdict, if_pos hacc, if_pos hpassword]
    split_ifs <;> simp
  rw [handle_buttonLogin]
  by_cases hfit : 100 ≤ (adminSql (cstr (acp d.managerName))).length
  · simp [hconf, hfit]
  · simp only [hconf, hfit, hcall, hrow, Bool.not_true, Bool.false_eq_true, if_false, ne_eq,
      not_true]
    split
    · simp
    · exact absurd (by assumption) hverdict
    · simp [LoginDlg.onOK]

end

end SecProGIS
