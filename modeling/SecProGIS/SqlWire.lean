import SecProGIS.Isolation
import SecProGIS.SqlShape

/-! The server on the texts it is sent: it reads a text into tokens, these into
a statement, and carries that out. With plain names and remarks the tables are
those of the model, whose clients hand the statements over as they are. -/

namespace SecProGIS

open SqlText

def Statement.rows (db : Db Column) : Statement Column → List (List Cell)
  | .select table cond => db.result serviceColumns table cond
  | _ => []

/-- What a text does to the tables, and the rows it answers with. -/
def serve (cs : Charset) (text : Bytes) (db : Db Column) : Option (Db Column × List (List Cell)) :=
  ((lex cs text).bind Statement.parse).map fun st => (st.run db, st.rows db)

/-- A call that sends a text: the server is asked when the call goes through,
and a text that it cannot read has no effect and no rows. -/
def wireQuery (cs : Charset) (c : Call) (text : Bytes) (db : Db Column) :
    Db Column × List (List Cell) :=
  if c.code = 0 then (serve cs text db).getD (db, []) else (db, [])

theorem serve_of_lex {cs : Charset} {text : Bytes} {st : Statement Column} (hst : st.Full)
    (h : lex cs text = some (st.tokens Column.name)) (db : Db Column) :
    serve cs text db = some (st.run db, st.rows db) := by
  rw [serve, h, Option.bind_some, Statement.parse_tokens hst, Option.map_some]

theorem wireQuery_fst {cs : Charset} {text : Bytes} {st : Statement Column} (hst : st.Full)
    (h : lex cs text = some (st.tokens Column.name)) (c : Call) (db : Db Column) :
    (wireQuery cs c text db).1 = (execQueryMysql c st db).2 := by
  rw [wireQuery, execQueryMysql, serve_of_lex hst h]
  split <;> rfl

namespace KmServ

variable {cs : Charset} {s : KmServ} {conf : KmConf}

theorem wire_lookup (h : s.PlainTexts cs) (htable : conf.skTable = ascii "service") (sel : Call)
    (db : Db Column) :
    (execQueryMysqlInto sel (wireQuery cs sel (s.selectSql conf) db).2 Table.empty).2 =
      s.lookup conf sel db := by
  have hst : (Statement.select (cstr conf.skTable) s.existing).Full := by
    simp [Statement.Full, existing]
  rw [lookup, wireQuery, serve_of_lex hst (lex_selectSql conf s cs htable h.md5Cipher)]
  by_cases hsel : sel.code = 0
  · simp only [hsel, if_true, Option.getD_some]
    rfl
  · simp only [execQueryMysqlInto, hsel, if_false]

theorem wire_write (h : s.PlainTexts cs) (htable : conf.skTable = ascii "service") (table : Table)
    (wr : Call) (db : Db Column) :
    (wireQuery cs wr (if table.getSize < 1 then s.insertSql conf else s.updateSql conf) db).1 =
      (execQueryMysql wr (s.writing conf table) db).2 := by
  have hst : (s.writing conf table).Full := by
    rw [writing]
    split <;> simp [Statement.Full, stored, existing]
  exact wireQuery_fst hst
    (lex_store conf s cs table htable h.md5Plaint h.md5Cipher h.skey).2 wr db

end KmServ

theorem wire_name {acp : CString → Bytes} {server : Server} {plainName remark : CString}
    (h : PlainText acp server plainName remark) {md5 : Bytes} (hmd5 : md5.length = 32) (c : Call)
    (db : Db Column) : (wireQuery server.charset c (nameSql acp plainName remark md5) db).1 =
      (execQueryText server c (nameSql acp plainName remark md5) db).2 := by
  have hst : (nameStatement acp plainName remark md5).Full := by
    simp [Statement.Full, nameStatement]
  rw [execQueryText_nameSql h hmd5]
  exact wireQuery_fst hst ((lex_nameSql_iff _ acp plainName remark hmd5).mpr h) c db

namespace Clients

variable {ι : Type*} [DecidableEq ι] (cs : Charset) (acp : CString → Bytes)

def wireRequest (c : Clients ι) : Request ι → Clients ι
  | .store (.select i admin serv md5C enctm sel) =>
    let conf : KmConf := ⟨ascii "service", admin⟩
    if c.pending i = none ∧ serv.accepts conf md5C enctm then
      let s := serv.withCipher md5C enctm
      let rows := (wireQuery cs sel (s.selectSql conf) c.db).2
      let p : Pending :=
        ⟨conf, s, (execQueryMysqlInto sel rows Table.empty).2, sel.code = 0, c.service⟩
      { c with pending := Function.update c.pending i (some p) }
    else c
  | .store (.write i wr) =>
    match c.pending i with
    | none => c
    | some p =>
      ⟨(wireQuery cs wr
          (if p.table.getSize < 1 then p.serv.insertSql p.conf else p.serv.updateSql p.conf)
          c.db).1,
        Function.update c.pending i none⟩
  | .name _ _ plainName remark cipherMd5 call =>
    { c with db := (wireQuery cs call (nameSql acp plainName remark cipherMd5) c.db).1 }

/-- A text that is sent with a server of its own is read in this character set. -/
def ReadIn : Request ι → Prop
  | .name _ server _ _ _ _ => server.charset = cs
  | _ => True

def PlainPending (c : Clients ι) : Prop :=
  ∀ i p, c.pending i = some p → p.conf.skTable = ascii "service" ∧ p.serv.PlainTexts cs

section

variable {cs acp} {c : Clients ι} {r : Request ι}

theorem wireRequest_eq (hc : c.PlainPending cs) (hr : r.Plain acp) (hread : ReadIn cs r) :
    c.wireRequest cs acp r = c.request acp r := by
  cases r with
  | name i server plainName remark cipherMd5 call =>
    obtain ⟨hmd5, hplain⟩ := hr
    have hcs : server.charset = cs := hread
    simp only [wireRequest, request, ← hcs, wire_name hplain hmd5]
  | store sent =>
    cases sent with
    | select i admin serv md5C enctm sel =>
      have hlookup : (execQueryMysqlInto sel (wireQuery cs sel ((serv.withCipher md5C
          enctm).selectSql ⟨ascii "service", admin⟩) c.db).2 Table.empty).2 =
          (serv.withCipher md5C enctm).lookup ⟨ascii "service", admin⟩ sel c.db :=
        KmServ.wire_lookup (hr cs) rfl sel c.db
      simp only [wireRequest, request, next, hlookup, cstr_service]
      rfl
    | write i wr =>
      cases hp : c.pending i with
      | none => simp only [wireRequest, request, next, hp]
      | some p =>
        obtain ⟨htable, hplain⟩ := hc i p hp
        simp only [wireRequest, request, next, hp, KmServ.wire_write hplain htable]

theorem PlainPending.request (hc : c.PlainPending cs) (hr : r.Plain acp) :
    (c.request acp r).PlainPending cs := by
  intro j p hp
  by_cases hj : j = r.client
  · subst hj
    cases r with
    | name i server plainName remark cipherMd5 call => exact hc _ p hp
    | store sent =>
      cases sent with
      | select i admin serv md5C enctm sel =>
        simp only [Clients.request, next] at hp
        split at hp
        · simp only [Request.client, Function.update_self, Option.some.injEq] at hp
          rw [← hp]
          exact ⟨rfl, hr cs⟩
        · exact hc _ p hp
      | write i wr =>
        have hnone := next_write_pending (c := c) (ascii "service") i wr
        rw [Clients.request, Request.client, hnone] at hp
        cases hp
  · rw [pending_request_other acp hj] at hp
    exact hc j p hp

theorem wireRun_eq (hc : c.PlainPending cs) {run : List (Request ι)}
    (hrun : ∀ r ∈ run, r.Plain acp) (hread : ∀ r ∈ run, ReadIn cs r) :
    run.foldl (wireRequest cs acp) c = run.foldl (Clients.request acp) c := by
  induction run generalizing c with
  | nil => rfl
  | cons r run ih =>
    rw [List.forall_mem_cons] at hrun hread
    rw [List.foldl_cons, List.foldl_cons, wireRequest_eq hc hrun.1 hread.1]
    exact ih (hc.request hrun.1) hrun.2 hread.2

end

end Clients

section

variable {ι : Type*} {cs : Charset} {acp : CString → Bytes} (rng : Rng)

def PlainNames (cs : Charset) (acp : CString → Bytes) (d : ArchiveDlg) : Prop :=
  ∀ plainName ∈ d.plainNameAry, plain cs (cstr (acp plainName)) = true

theorem turnRequests_readIn {i : ι} {env : Nat → FileEnv} {s : Session} {findex : Nat}
    (h : (env findex).server.charset = cs) {r : Request ι}
    (hr : r ∈ turnRequests rng acp i env s findex) : Clients.ReadIn cs r := by
  rcases hseal : sealFile rng (env findex) findex s with ⟨s', o⟩
  simp only [turnRequests, hseal] at hr
  cases o with
  | none => cases hr
  | some x =>
    simp only [List.mem_cons] at hr
    rcases hr with rfl | rfl | hr
    · trivial
    · trivial
    · split at hr
      · cases hr
      · split at hr
        · cases hr
        · split at hr
          · cases hr
          · rw [List.mem_singleton] at hr
            rw [hr]
            exact h

variable [DecidableEq ι]

/-- A server that reads the texts of a batch, of files and remarks with plain
texts, has the tables that the batch leaves. -/
theorem wire_batch (i : ι) (s : Session) (hconf : s.ServiceConf) (combo1 : CString)
    (q : ArchiveDlg.OrgQuery) (env : Nat → FileEnv)
    (hserver : ∀ findex, (env findex).server.charset = cs) (hnames : PlainNames cs acp s.dlg)
    (hremark : ∀ findex, plain cs (cstr (acp (env findex).controls.edit3)) = true) :
    (batchRequests rng acp i s combo1 q env).foldl (Clients.wireRequest cs acp)
        (Clients.idle s.db) =
      Clients.idle (onEncryptFile rng acp s combo1 q env).1.db := by
  have hidle : (Clients.idle s.db : Clients ι).PlainPending cs := fun j p hp => by cases hp
  have hplain : ∀ findex, PlainTurn acp s (env findex) findex := by
    intro findex plainName hname
    rw [PlainText, hserver]
    exact ⟨hnames plainName (List.mem_of_getElem? hname), hremark findex⟩
  have hread : ∀ r ∈ batchRequests rng acp i s combo1 q env, Clients.ReadIn cs r :=
    batchRequests_forall rng acp fun _ _ findex _ => turnRequests_readIn rng (hserver findex)
  rw [Clients.wireRun_eq hidle (fun _ => batchRequests_plain rng acp hplain) hread,
    batchRequests_run rng acp i hconf combo1 q env]

end

theorem wire_batch_sample :
    (batchRequests (fun _ _ => 0) latin (0 : Nat) sampleSession "org".toList sampleOrg
        cleanEnv).foldl
        (Clients.wireRequest .gbk latin) (Clients.idle sampleSession.db) =
      Clients.idle (onEncryptFile (fun _ _ => 0) latin sampleSession "org".toList sampleOrg
        cleanEnv).1.db := by
  have hnames : PlainNames .gbk latin sampleSession.dlg := by
    intro plainName h
    rw [List.mem_singleton.mp h]
    decide
  exact wire_batch (fun _ _ => 0) (0 : Nat) sampleSession sample_serviceConf "org".toList
    sampleOrg cleanEnv (fun _ => rfl) hnames fun _ => rfl

end SecProGIS
