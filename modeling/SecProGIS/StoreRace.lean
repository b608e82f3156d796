import SecProGIS.ServiceTable
import SecProGIS.Lib.EventLoop

/-! Several clients storing at once: the two statements of a store are
separate, and its select may fail. When the key table keeps one row a digest. -/

namespace SecProGIS

/-- A store between its two statements: the service, what its select left in
`table`, and, for the record, whether that select was answered and the key
table it ran on. -/
structure Pending where
  conf : KmConf
  serv : KmServ
  table : Table
  selected : Bool
  seen : List (Rows.Row Column Bytes)

structure Clients (ι : Type*) where
  db : Db Column
  pending : ι → Option Pending

/-- One statement of one client: the select of a new store, or the insert or
update of the store it is in. -/
inductive Sent (ι : Type*) where
  | select (i : ι) (admin : Int) (serv : KmServ) (md5C : BaseWord) (enctm : Int) (sel : Call)
  | write (i : ι) (wr : Call)

namespace Clients

variable {ι : Type*} [DecidableEq ι]

def start : Clients ι := ⟨fun _ => [], fun _ => none⟩

/-- The state after one statement. A client inside a store starts no other,
and a store whose guards fail sends nothing. -/
def next (skTable : Bytes) (c : Clients ι) : Sent ι → Clients ι
  | .select i admin serv md5C enctm sel =>
    let conf : KmConf := ⟨skTable, admin⟩
    if c.pending i = none ∧ serv.accepts conf md5C enctm then
      let s := serv.withCipher md5C enctm
      let p : Pending := ⟨conf, s, s.lookup conf sel c.db, sel.code = 0, c.db (cstr skTable)⟩
      { c with pending := Function.update c.pending i (some p) }
    else c
  | .write i wr =>
    match c.pending i with
    | none => c
    | some p =>
      ⟨(execQueryMysql wr (p.serv.writing p.conf p.table) c.db).2,
        Function.update c.pending i none⟩

theorem next_select_write {skTable : Bytes} {c : Clients ι} {i : ι} (hidle : c.pending i = none)
    (admin : Int) (serv : KmServ) (md5C : BaseWord) (enctm : Int) (sel wr : Call) :
    ((c.next skTable (.select i admin serv md5C enctm sel)).next skTable (.write i wr)).db =
      (serv.store ⟨skTable, admin⟩ md5C enctm sel wr c.db).2.2 := by
  rw [KmServ.store_db]
  by_cases ha : serv.accepts ⟨skTable, admin⟩ md5C enctm
  · have hrun := KmServ.run_writing ⟨skTable, admin⟩ (serv.withCipher md5C enctm) sel c.db
    by_cases hw : wr.code = 0 <;> simp [next, hidle, ha, hw, execQueryMysql, hrun]
  · simp [next, hidle, ha]

def step (skTable : Bytes) (c : Clients ι) (e : Sent ι) : Clients ι × Option Empty :=
  (c.next skTable e, none)

def rowsFor (m : Bytes) (t : List (Rows.Row Column Bytes)) : Nat := Rows.keyCount .md5C m t

/-- An insert that takes effect comes from a select that saw the table as it
was (it was answered, or there was no row to see), and no row of the digest
came into the table after that select. -/
def Timely (skTable : Bytes) (c : Clients ι) : Sent ι → Prop
  | .select .. => True
  | .write i wr => ∀ p, c.pending i = some p → wr.code = 0 → p.table.getSize < 1 →
      (p.selected ∨ rowsFor p.serv.md5Cipher.text p.seen = 0) ∧
      rowsFor p.serv.md5Cipher.text (c.db (cstr skTable)) =
        rowsFor p.serv.md5Cipher.text p.seen

def Consistent (skTable : Bytes) (c : Clients ι) : Prop :=
  ∀ i p, c.pending i = some p → p.conf.skTable = skTable ∧
    p.table.getSize = (if p.selected then rowsFor p.serv.md5Cipher.text p.seen else 0) ∧
    rowsFor p.serv.md5Cipher.text p.seen ≤
      rowsFor p.serv.md5Cipher.text (c.db (cstr skTable))

theorem run_writing_table (conf : KmConf) (s : KmServ) (t : Table) (db : Db Column) :
    (s.writing conf t).run db (cstr conf.skTable) =
      if t.getSize < 1 then
        Rows.insert ((.md5C, s.md5Cipher.text) :: s.stored conf) (db (cstr conf.skTable))
      else Rows.update (s.stored conf) s.existing (db (cstr conf.skTable)) := by
  rw [KmServ.writing]
  split
  · rw [← KmServ.insert_digest]
    exact Function.update_self _ _ _
  · exact Function.update_self _ _ _

theorem rowsFor_le_write (m : Bytes) (p : Pending) (wr : Call) (db : Db Column) :
    rowsFor m (db (cstr p.conf.skTable)) ≤
      rowsFor m ((execQueryMysql wr (p.serv.writing p.conf p.table) db).2
        (cstr p.conf.skTable)) := by
  simp only [execQueryMysql]
  split
  · rw [run_writing_table]
    split
    · rw [rowsFor, rowsFor, Rows.keyCount_insert rfl]
      omega
    · rw [rowsFor, rowsFor, Rows.keyCount_update rfl]
  · exact le_rfl

theorem consistent_next {skTable : Bytes} {c : Clients ι} (h : c.Consistent skTable) (e : Sent ι) :
    (c.next skTable e).Consistent skTable := by
  cases e with
  | select i admin serv md5C enctm sel =>
    simp only [next]
    split
    · intro j p hj
      simp only at hj
      by_cases hij : j = i
      · subst hij
        rw [Function.update_self] at hj
        cases hj
        refine ⟨rfl, ?_, le_rfl⟩
        simp only [KmServ.lookup_getSize, decide_eq_true_eq]
        rw [KmServ.existing, Rows.length_select_key]
        rfl
      · rw [Function.update_of_ne hij] at hj
        exact h j p hj
    · exact h
  | write i wr =>
    simp only [next]
    split
    · exact h
    · rename_i p hp
      intro j q hj
      by_cases hij : j = i
      · subst hij
        simp at hj
      · simp only at hj
        rw [Function.update_of_ne hij] at hj
        obtain ⟨htab, hsize, hle⟩ := h j q hj
        have hgrow := rowsFor_le_write q.serv.md5Cipher.text p wr c.db
        rw [(h i p hp).1] at hgrow
        exact ⟨htab, hsize, hle.trans hgrow⟩

theorem uniqueKey_next_iff {skTable : Bytes} {c : Clients ι} (h : c.Consistent skTable)
    (hu : Rows.UniqueKey .md5C (c.db (cstr skTable))) (e : Sent ι) :
    Rows.UniqueKey .md5C ((c.next skTable e).db (cstr skTable)) ↔ c.Timely skTable e := by
  cases e with
  | select i admin serv md5C enctm sel =>
    have hdb : (c.next skTable (.select i admin serv md5C enctm sel)).db = c.db := by
      simp only [next]
      split <;> rfl
    simp [hdb, hu, Timely]
  | write i wr =>
    cases hp : c.pending i with
    | none => simp [next, hp, hu, Timely]
    | some p =>
      obtain ⟨htab, hsize, hle⟩ := h i p hp
      have hnext : (c.next skTable (.write i wr)).db =
          (execQueryMysql wr (p.serv.writing p.conf p.table) c.db).2 := by simp only [next, hp]
      have htimely : c.Timely skTable (.write i wr) ↔ (wr.code = 0 → p.table.getSize < 1 →
          rowsFor p.serv.md5Cipher.text (c.db (cstr skTable)) = 0) := by
        simp only [Timely, hp, Option.some.injEq, forall_eq']
        refine forall_congr' fun _ => forall_congr' fun hins => ?_
        by_cases hsel : p.selected = true
        · rw [if_pos hsel] at hsize
          simp only [hsel, true_or, true_and]
          omega
        · simp only [hsel, false_or, Bool.false_eq_true]
          omega
      rw [hnext, htimely]
      simp only [execQueryMysql]
      by_cases hw : wr.code = 0
      · simp only [hw, if_true, true_implies]
        rw [← htab, run_writing_table]
        by_cases hins : p.table.getSize < 1
        · rw [if_pos hins, Rows.uniqueKey_insert rfl (by rwa [htab]), Rows.not_mem_column_iff, htab]
          simp [hins, rowsFor]
        · rw [if_neg hins, Rows.uniqueKey_update rfl]
          simp [hins, htab, hu]
      · simp [hw, hu]

/-- In every run of any clients from an empty table, the table keeps one row
a digest in all its states exactly when all its inserts are timely. -/
theorem uniqueKey_run_iff (skTable : Bytes) (sent : List (Sent ι)) :
    (∀ c ∈ EventLoop.visited (step skTable) start sent,
      Rows.UniqueKey .md5C (c.db (cstr skTable))) ↔
    EventLoop.Along (step skTable) (Timely skTable) start sent := by
  have hcons : (start : Clients ι).Consistent skTable := fun i p hp => by simp [start] at hp
  have hempty : Rows.UniqueKey .md5C ((start : Clients ι).db (cstr skTable)) := List.nodup_nil
  have hstep : ∀ (c : Clients ι) (e : Sent ι), c.Consistent skTable →
      (step skTable c e).1.Consistent skTable := fun _ e h => consistent_next h e
  have hiff : ∀ (c : Clients ι) (e : Sent ι), c.Consistent skTable →
      Rows.UniqueKey .md5C (c.db (cstr skTable)) →
      (Rows.UniqueKey .md5C ((step skTable c e).1.db (cstr skTable)) ↔ c.Timely skTable e) :=
    fun _ e h hu => uniqueKey_next_iff h hu e
  exact EventLoop.forall_visited_iff hstep hiff hcons hempty sent

def selectBy (i : Nat) (sel : Call) : Sent Nat := .select i 1 (sampleServ 1) sampleDigest 0 sel

def writeBy (i : Nat) : Sent Nat := .write i answered

/-- Two stores of one client, the second with a failed select; and two stores
of two clients that both read before either writes. -/
theorem two_rows_for_digest :
    (¬ ∀ c ∈ EventLoop.visited (step (ascii "service")) start
        [selectBy 0 answered, writeBy 0, selectBy 0 offline, writeBy 0],
      Rows.UniqueKey .md5C (c.db (ascii "service"))) ∧
    ¬ ∀ c ∈ EventLoop.visited (step (ascii "service")) start
        [selectBy 0 answered, selectBy 1 answered, writeBy 0, writeBy 1],
      Rows.UniqueKey .md5C (c.db (ascii "service")) := by
  decide

end Clients

end SecProGIS
