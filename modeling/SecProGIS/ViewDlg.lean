import SecProGIS.KM

/-! `AddEncList` of `ViewDlg.cpp`: the list of what an administrator has
archived, read from the key table joined with the organisations. -/

namespace SecProGIS

/-- A row of the answer, with the columns the statement names. -/
structure EncRow where
  md5P : Cell
  expire : Cell
  encTm : Cell
  fname : Cell
  rmrk : Cell
  orgName : Cell

def EncRow.cells (r : EncRow) : List Cell := [r.md5P, r.expire, r.encTm, r.fname, r.rmrk, r.orgName]

/-- A line of the list. In place of two of its texts stand the numbers that
`SecondToDate` and `SecondToClock` are given for them. -/
structure EncItem where
  managerName : List Char
  orgName : Bytes
  fileName : Bytes
  deadline : Int
  plainMd5 : Bytes
  encTime : Int
  remark : Bytes

def encListSql (admID : Bytes) : Bytes :=
  ascii "select service.md5_p, service.expire, service.enc_tm, service.fname, " ++
    ascii "service.rmrk, org.name from service inner join org on service.org=org.id " ++
    ascii "where service.admin = '" ++ admID ++ ascii "' order by service.enc_tm desc;"

theorem encListSql_length (admID : Bytes) : (encListSql admID).length = 196 + admID.length := by
  have hlits : (ascii "select service.md5_p, service.expire, service.enc_tm, service.fname, ").length =
        69 ∧
      (ascii "service.rmrk, org.name from service inner join org on service.org=org.id ").length =
        73 ∧
      (ascii "where service.admin = '").length = 23 ∧
      (ascii "' order by service.enc_tm desc;").length = 31 := by decide
  simp only [encListSql, List.length_append, hlits]
  omega

structure EncQuery where
  call : Call
  rows : Bytes → List EncRow

section

variable (toInt : Bytes → Int) (managerName : List Char)

def encItem (t : Table) (i : Nat) : Option EncItem := do
  let row ← t.get i
  let plainMd5 ← row.get 0
  let deadline ← row.get 1
  let encTime ← row.get 2
  let fileName ← row.get 3
  let remark ← row.get 4
  let orgName ← row.get 5
  return ⟨managerName, orgName.text, fileName.text, toInt deadline.text, plainMd5.text,
    toInt encTime.text, remark.text⟩

/-- The loop over the table from the row `i` on, with `n` rows to go. -/
def encItems (t : Table) (i : Nat) : Nat → Option (List EncItem)
  | 0 => some []
  | n + 1 => do
    let item ← encItem toInt managerName t i
    let items ← encItems t (i + 1) n
    return item :: items

/-- `AddEncList`; no result means that the statement does not fit its 400 bytes
or an index is taken into nothing. -/
def addEncList (adminID : Int) (q : EncQuery) : Option (List EncItem) :=
  if !q.call.conf.configured then some []
  else
    let sql := encListSql (Decimal.intText adminID)
    if 400 ≤ sql.length then none
    else
      let r := execQueryMysqlInto q.call ((q.rows sql).map EncRow.cells) Table.empty
      if r.1 = -3 then some []
      else encItems toInt managerName r.2 0 r.2.getSize

def EncRow.item (r : EncRow) : EncItem where
  managerName := managerName
  orgName := cstr (r.orgName.getD [])
  fileName := cstr (r.fname.getD [])
  deadline := toInt (cstr (r.expire.getD []))
  plainMd5 := cstr (r.md5P.getD [])
  encTime := toInt (cstr (r.encTm.getD []))
  remark := cstr (r.rmrk.getD [])

theorem encItem_eq {rows : List EncRow} {i : Nat} (h : i < rows.length) :
    encItem toInt managerName (Table.empty.appendAll (rows.map EncRow.cells)) i =
      some (rows[i].item toInt managerName) := by
  have hrow : (Table.empty.appendAll (rows.map EncRow.cells)).get i =
      some (TRow.readIn rows[i].cells) := by
    rw [Table.appendAll_get (by simpa using h), List.getElem_map]
  have hcell : ∀ (j : Nat) (hj : j < rows[i].cells.length),
      (TRow.readIn rows[i].cells).get j = some (TRow.readCell rows[i].cells[j]) :=
    fun j hj => TRow.readIn_get hj
  have h0 := hcell 0 (by simp [EncRow.cells])
  have h1 := hcell 1 (by simp [EncRow.cells])
  have h2 := hcell 2 (by simp [EncRow.cells])
  have h3 := hcell 3 (by simp [EncRow.cells])
  have h4 := hcell 4 (by simp [EncRow.cells])
  have h5 := hcell 5 (by simp [EncRow.cells])
  simp only [Nat.cast_zero, Nat.cast_one, Nat.cast_ofNat] at h0 h1 h2 h3 h4 h5
  simp only [encItem, hrow, h0, h1, h2, h3, h4, h5, Option.bind_eq_bind, Option.bind_some,
    TRow.readCell_text]
  rfl

theorem encItems_eq {rows : List EncRow} {i n : Nat} (h : i + n = rows.length) :
    encItems toInt managerName (Table.empty.appendAll (rows.map EncRow.cells)) i n =
      some ((rows.drop i).map (EncRow.item toInt managerName)) := by
  induction n generalizing i with
  | zero =>
    rw [List.drop_of_length_le (by omega)]
    rfl
  | succ n ih =>
    have hi : i < rows.length := by omega
    have hrest := ih (i := i + 1) (by omega)
    rw [encItems, encItem_eq toInt managerName hi, hrest, List.drop_eq_getElem_cons hi]
    rfl

theorem addEncList_eq {adminID : Int} {q : EncQuery} (hq : q.call.code = 0) :
    addEncList toInt managerName adminID q =
      if 400 ≤ (encListSql (Decimal.intText adminID)).length then none
      else some ((q.rows (encListSql (Decimal.intText adminID))).map
        (EncRow.item toInt managerName)) := by
  have hconf : q.call.conf.configured = true := by
    by_contra hno
    rw [Call.code, if_pos (by simpa using hno)] at hq
    exact absurd hq (by decide)
  have hitems := encItems_eq toInt managerName
    (Nat.zero_add (q.rows (encListSql (Decimal.intText adminID))).length)
  rw [addEncList, if_neg (by simp [hconf])]
  simp only [execQueryMysqlInto, hq, if_true, Table.appendAll_getSize, List.length_map, hitems,
    List.drop_zero]
  rfl

end

end SecProGIS
