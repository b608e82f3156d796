import SecProGIS.Lib.KeyedRows
import SecProGIS.Batch
import SecProGIS.Times

/-! The record list against the archive: what the window shows an administrator
after a run of the dialog is what that run has filed. -/

namespace SecProGIS

/-- A row of the table of organisations. -/
structure OrgRow where
  id : Bytes
  name : Cell

/-- The rows of the join that the statement of `AddEncList` selects, before
they are ordered. -/
def encRows (service : List (Rows.Row Column Bytes)) (orgs : List OrgRow) (admin : Bytes) :
    List EncRow :=
  service.flatMap fun r =>
    if r .admin = some admin then
      (orgs.filter fun o => r .org = some o.id).map fun o => encRow r o.name
    else []

namespace Filed

variable (x : Filed)

def row : Rows.Row Column Bytes :=
  Rows.assign ((.md5C, Hex.text (sm3 x.cipher)) :: x.values) fun _ => none

def item (toInt : Bytes → Int) (managerName : List Char) (o : OrgRow) : EncItem where
  managerName := managerName
  orgName := cstr (o.name.getD [])
  fileName := cstr x.fname
  deadline := toInt (Decimal.intText x.expire)
  plainMd5 := Hex.text (sm3 x.plain)
  encTime := toInt (Decimal.intText x.encTm)
  remark := cstr x.rmrk

end Filed

/-- The lines of the files that an administrator has filed, one for each
organisation with the number of the file. -/
def filedItems (toInt : Bytes → Int) (managerName : List Char) (orgs : List OrgRow) (admin : Int)
    (xs : List Filed) : List EncItem :=
  (xs.filter fun x => x.admin = admin).flatMap fun x =>
    (orgs.filter fun o => o.id = Decimal.intText x.org).map (x.item toInt managerName)

theorem archive_rows {xs : List Filed} (hdistinct : (xs.map fun x => sm3 x.cipher).Nodup)
    {files : CString → Option Bytes} :
    ((xs.map Filed.entry).foldl (Archive.put .md5C) ⟨files, []⟩).rows = xs.map Filed.row := by
  have hkeys : ((xs.map Filed.entry).map fun e => (e.key, e.values)).map Prod.fst =
      (xs.map fun x => sm3 x.cipher).map Hex.text := by
    simp only [List.map_map]
    rfl
  rw [Archive.foldl_put_rows, Rows.foldl_put_distinct]
  · simp only [List.nil_append, List.map_map]
    rfl
  · intro h hmem
    simp only [List.map_map, List.mem_map] at hmem
    obtain ⟨x, _, rfl⟩ := hmem
    rfl
  · rw [hkeys]
    exact hdistinct.map hexText_injective
  · exact fun _ _ => rfl

theorem Filed.item_eq (x : Filed) (toInt : Bytes → Int) (managerName : List Char) (o : OrgRow) :
    (encRow x.row o.name).item toInt managerName = x.item toInt managerName o := by
  have hplain : cstr (Hex.text (sm3 x.plain)) = Hex.text (sm3 x.plain) :=
    cstr_eq fun _ => Hex.ne_zero_of_mem
  have hitem : (encRow x.row o.name).item toInt managerName =
      ⟨managerName, cstr (o.name.getD []), cstr x.fname, toInt (cstr (Decimal.intText x.expire)),
        cstr (Hex.text (sm3 x.plain)), toInt (cstr (Decimal.intText x.encTm)), cstr x.rmrk⟩ := rfl
  rw [hitem, hplain, cstr_intText, cstr_intText]
  rfl

theorem encRows_filed (toInt : Bytes → Int) (managerName : List Char) (orgs : List OrgRow)
    (admin : Int) (xs : List Filed) :
    (encRows (xs.map Filed.row) orgs (Decimal.intText admin)).map
        (EncRow.item toInt managerName) =
      filedItems toInt managerName orgs admin xs := by
  induction xs with
  | nil => rfl
  | cons x xs ih =>
    have hadmin : x.row .admin = some (Decimal.intText x.admin) := rfl
    have horg : x.row .org = some (Decimal.intText x.org) := rfl
    have hrow : ∀ o : OrgRow, (x.row .org = some o.id) = (o.id = Decimal.intText x.org) := by
      intro o
      rw [horg, Option.some.injEq]
      exact propext eq_comm
    simp only [encRows, filedItems] at ih
    simp only [encRows, filedItems, List.map_cons, List.flatMap_cons, List.map_append, ih]
    by_cases hx : x.admin = admin
    · simp only [hadmin, hx, if_true, hrow, List.map_map]
      rw [List.filter_cons_of_pos (by simpa using hx), List.flatMap_cons]
      congr 1
      refine List.map_congr_left fun o _ => ?_
      exact x.item_eq toInt managerName o
    · have hne : ¬ x.row .admin = some (Decimal.intText admin) := by
        rw [hadmin, Option.some.injEq]
        exact fun h => hx (Decimal.intText_inj h)
      rw [if_neg hne, List.filter_cons_of_neg (by simpa using hx)]
      rfl

/-- After a run of the dialog from an empty key table, in which all goes well
and no two ciphertexts have one digest, an administrator's list has the lines
of the files that the run has filed, in the order the server gives them. -/
theorem record_list (rng : Rng) (acp : CString → Bytes) (s : Session) (hconf : s.ServiceConf)
    (hempty : s.db (ascii "service") = []) (run : List Message)
    (hclean : EventLoop.Along (Session.handle rng acp) (CleanMessage rng acp) s run)
    (toInt : Bytes → Int) (managerName : List Char) (orgs : List OrgRow) (admin : Int)
    (hadmin : -2 ^ 31 ≤ admin ∧ admin < 2 ^ 31) (q : EncQuery) (hq : q.call.code = 0) :
    let r := EventLoop.loop (EventLoop.watched (Session.handle rng acp) (filedBy rng acp))
      (s, []) run
    (r.1.2.map fun x => sm3 x.cipher).Nodup →
    (q.rows (encListSql (Decimal.intText admin))).Perm
      (encRows r.1.1.archive.rows orgs (Decimal.intText admin)) →
    ∃ items, addEncList toInt managerName admin q = some items ∧
      items.Perm (filedItems toInt managerName orgs admin r.1.2) := by
  intro r hdistinct hanswer
  have hrows : r.1.1.archive.rows = r.1.2.map Filed.row := by
    have hfiles : r.1.1.archive = (r.1.2.map Filed.entry).foldl (Archive.put .md5C) s.archive :=
      (files_run rng acp hconf hclean).archive_eq
    have hstart : s.archive = ⟨s.disk, []⟩ := congrArg (Archive.mk s.disk) hempty
    rw [hfiles, hstart, archive_rows hdistinct]
  have hlen := Decimal.intText_length (i := admin) (k := 11) (by decide) (by omega) (by omega)
  have hsql : ¬ 400 ≤ (encListSql (Decimal.intText admin)).length := by
    rw [encListSql_length]
    omega
  rw [hrows] at hanswer
  refine ⟨_, (addEncList_eq toInt managerName hq).trans (if_neg hsql), ?_⟩
  rw [← encRows_filed]
  exact hanswer.map _

def sampleList : EncQuery where
  call := answered
  rows := fun _ => encRows (EventLoop.loop (EventLoop.watched (Session.handle (fun _ _ => 0)
      latin) (filedBy (fun _ _ => 0) latin)) (sampleSession, [])
      [cleanClick]).1.1.archive.rows
    [⟨ascii "7", some (ascii "design")⟩] (Decimal.intText 1)

theorem record_list_sample : ∃ items, addEncList atoi "user".toList 1 sampleList = some items ∧
    items.Perm [sampleFiled.item atoi "user".toList ⟨ascii "7", some (ascii "design")⟩] := by
  have h := record_list (fun _ _ => 0) latin sampleSession sample_serviceConf rfl
    [cleanClick] sample_clean atoi "user".toList [⟨ascii "7", some (ascii "design")⟩] 1
    (by decide) sampleList (by decide)
  simp only [sample_filed] at h
  exact h (List.nodup_singleton _) (List.Perm.refl _)

end SecProGIS
