import SecProGIS.Lib.KeyedRows
import SecProGIS.StoreRace
import SecProGIS.SqlShape

/-! The statements of several programs on one server, in any order: when the
key table stays the map from digests to records it is meant to be, and how far
one program's rows depend on what the others send. -/

namespace SecProGIS

/-- One statement of the encryption of a file: one of `store()`, or the last
one, which sets the file name and the remark. -/
inductive Request (ι : Type*) where
  | store (sent : Sent ι)
  | name (i : ι) (server : Server) (plainName remark : CString) (cipherMd5 : Bytes) (call : Call)

/-- The strings in its text are read as they stand. -/
def Request.Plain {ι : Type*} (acp : CString → Bytes) : Request ι → Prop
  | .store (.select _ _ serv md5C enctm _) => ∀ cs, (serv.withCipher md5C enctm).PlainTexts cs
  | .store (.write ..) => True
  | .name _ server plainName remark cipherMd5 _ =>
    cipherMd5.length = 32 ∧ PlainText acp server plainName remark

namespace Clients

variable {ι : Type*} (acp : CString → Bytes)

def service (c : Clients ι) : List (Rows.Row Column Bytes) := c.db (ascii "service")

def nameValues (plainName remark : CString) : Rows.Values Column Bytes :=
  [(.fname, cstr (acp plainName)), (.rmrk, cstr (acp remark))]

/-- What the statements mean: a write sets the record of its digest, the last
statement changes it where it is. -/
def record (m : Rows.Records Column Bytes) (c : Clients ι) : Request ι → Rows.Records Column Bytes
  | .store (.select ..) => m
  | .store (.write i wr) =>
    match c.pending i with
    | none => m
    | some p =>
      if wr.code = 0 then m.upsert .md5C p.serv.md5Cipher.text (p.serv.stored p.conf) else m
  | .name _ _ plainName remark cipherMd5 call =>
    if call.code = 0 then
      m.modify (cstr (hexBuf cipherMd5).toList) (nameValues acp plainName remark)
    else m

def TimelyRequest (c : Clients ι) : Request ι → Prop
  | .store sent => c.Timely (ascii "service") sent
  | .name .. => True

theorem cstr_service : cstr (ascii "service") = ascii "service" := by decide

/-- What a client's `table` has of a digest was in the key table then, and rows
of a digest only become more. -/
theorem timely_write_iff {c : Clients ι} (h : c.Consistent (ascii "service"))
    {m : Rows.Records Column Bytes} (hm : Rows.Implements .md5C c.service m) {i : ι} {p : Pending}
    (hp : c.pending i = some p) (wr : Call) :
    (TimelyRequest c (.store (.write i wr)) ↔
      (wr.code = 0 → p.table.getSize < 1 → m p.serv.md5Cipher.text = none)) ∧
    (m p.serv.md5Cipher.text = none → p.table.getSize < 1) := by
  obtain ⟨_, hsize, hle⟩ := h i p hp
  have hzero := hm.keyCount_eq_zero p.serv.md5Cipher.text
  rw [cstr_service] at hle
  rw [← hzero]
  change _ ∧ (rowsFor p.serv.md5Cipher.text (c.db (ascii "service")) = 0 → _)
  constructor
  · simp only [TimelyRequest, Timely, hp, Option.some.injEq, forall_eq', cstr_service]
    refine forall_congr' fun _ => forall_congr' fun hins => ?_
    change _ ↔ rowsFor p.serv.md5Cipher.text (c.db (ascii "service")) = 0
    by_cases hsel : p.selected = true
    · rw [if_pos hsel] at hsize
      simp only [hsel, true_or, true_and]
      omega
    · simp only [hsel, false_or, Bool.false_eq_true]
      omega
  · intro hnone
    split at hsize <;> omega

section

variable [DecidableEq ι]

def request (c : Clients ι) : Request ι → Clients ι
  | .store sent => c.next (ascii "service") sent
  | .name _ server plainName remark cipherMd5 call =>
    { c with db := (execQueryText server call (nameSql acp plainName remark cipherMd5) c.db).2 }

def turn (c : Clients ι) (r : Request ι) : Clients ι × Option Empty := (c.request acp r, none)

theorem request_name_service (c : Clients ι) {i : ι} {server : Server}
    {plainName remark : CString} {cipherMd5 : Bytes} {call : Call}
    (hr : Request.Plain acp (.name i server plainName remark cipherMd5 call)) :
    (c.request acp (.name i server plainName remark cipherMd5 call)).service =
      if call.code = 0 then
        Rows.update (nameValues acp plainName remark)
          [(.md5C, cstr (hexBuf cipherMd5).toList)] c.service
      else c.service := by
  simp only [request, service, execQueryText_nameSql hr.2 hr.1, execQueryMysql, nameStatement,
    Statement.run]
  split
  · rw [Function.update_self]
    rfl
  · rfl

theorem consistent_request {c : Clients ι} (h : c.Consistent (ascii "service")) {r : Request ι}
    (hr : r.Plain acp) :
    (c.request acp r).Consistent (ascii "service") := by
  cases r with
  | store sent => exact consistent_next h sent
  | name i server plainName remark cipherMd5 call =>
    intro j p hj
    obtain ⟨htab, hsize, hle⟩ := h j p hj
    refine ⟨htab, hsize, ?_⟩
    have hservice := request_name_service acp c hr
    rw [cstr_service] at hle ⊢
    change _ ≤ rowsFor _
      (Clients.request acp c (.name i server plainName remark cipherMd5 call)).service
    rw [hservice]
    split
    · rw [rowsFor, rowsFor, Rows.keyCount_update rfl]
      exact hle
    · exact hle

def written (p : Pending) (t : List (Rows.Row Column Bytes)) : List (Rows.Row Column Bytes) :=
  if p.table.getSize < 1 then
    Rows.insert ((.md5C, p.serv.md5Cipher.text) :: p.serv.stored p.conf) t
  else Rows.update (p.serv.stored p.conf) p.serv.existing t

theorem next_write_service {c : Clients ι} {i : ι} {p : Pending} (hp : c.pending i = some p)
    (htab : p.conf.skTable = ascii "service") (wr : Call) :
    (c.next (ascii "service") (.write i wr)).service =
      if wr.code = 0 then written p c.service else c.service := by
  have htab' : cstr p.conf.skTable = ascii "service" := by rw [htab, cstr_service]
  simp only [next, hp, service, execQueryMysql]
  split
  · rw [← htab', run_writing_table]
    rfl
  · rfl

theorem implements_write_iff {c : Clients ι} (h : c.Consistent (ascii "service"))
    {m : Rows.Records Column Bytes} (hm : Rows.Implements .md5C c.service m) {i : ι} {p : Pending}
    (hp : c.pending i = some p) (wr : Call) :
    Rows.Implements .md5C (c.request acp (.store (.write i wr))).service
        (record acp m c (.store (.write i wr))) ↔
      TimelyRequest c (.store (.write i wr)) := by
  obtain ⟨htimely, hsize⟩ := timely_write_iff h hm hp wr
  rw [htimely, request, next_write_service hp (h i p hp).1]
  simp only [record, hp, written]
  by_cases hw : wr.code = 0
  · simp only [hw, if_true, true_implies]
    by_cases hins : p.table.getSize < 1
    · simp only [hins, if_true, true_implies]
      by_cases hnone : m p.serv.md5Cipher.text = none
      · simp only [hnone, iff_true]
        exact hm.insert _ hnone
      · simp only [hnone, iff_false]
        exact hm.not_insert _ hnone _
    · simp only [hins, if_false, false_implies, iff_true]
      exact hm.update_upsert rfl (mt hsize hins)
  · simp only [hw, if_false, false_implies, iff_true]
    exact hm

theorem implements_request_iff {c : Clients ι} (h : c.Consistent (ascii "service"))
    {m : Rows.Records Column Bytes} (hm : Rows.Implements .md5C c.service m) {r : Request ι}
    (hr : r.Plain acp) :
    Rows.Implements .md5C (c.request acp r).service (record acp m c r) ↔ TimelyRequest c r := by
  cases r with
  | name i server plainName remark cipherMd5 call =>
    rw [request_name_service acp c hr]
    simp only [record, TimelyRequest, iff_true]
    split
    · exact hm.update rfl _
    · exact hm
  | store sent =>
    cases sent with
    | select i admin serv md5C enctm sel =>
      have hdb : (c.next (ascii "service") (.select i admin serv md5C enctm sel)).db = c.db := by
        simp only [next]
        split <;> rfl
      simp only [request, record, TimelyRequest, Timely, iff_true, service, hdb]
      exact hm
    | write i wr =>
      cases hp : c.pending i with
      | none => simpa [request, next, record, TimelyRequest, Timely, hp] using hm
      | some p => exact implements_write_iff acp h hm hp wr

/-- In every run of any clients from an empty table, with strings that are read
as they stand, the table is, in all its states, the map that the statements mean,
exactly when all inserts are timely. -/
theorem implements_run_iff (run : List (Request ι)) (hplain : ∀ r ∈ run, r.Plain acp) :
    (∀ p ∈ EventLoop.visited (EventLoop.watched (turn acp) (record acp))
        ((start : Clients ι), fun _ => none) run, Rows.Implements .md5C p.1.service p.2) ↔
      EventLoop.Along (turn acp) (fun (c : Clients ι) r => TimelyRequest c r) start run := by
  have hcons : (start : Clients ι).Consistent (ascii "service") :=
    fun i p hp => by simp [start] at hp
  have hempty : Rows.Implements .md5C (start : Clients ι).service fun _ => none :=
    Rows.implements_nil
  rw [← EventLoop.along_watched (record acp) start (fun _ => none) run]
  refine EventLoop.forall_visited_iff_of_mem
    (J := fun p : Clients ι × Rows.Records Column Bytes => p.1.Consistent (ascii "service"))
    (I := fun p => Rows.Implements .md5C p.1.service p.2) (s := (start, fun _ => none))
    ?_ ?_ hcons hempty
  · exact fun r hr p hp => consistent_request acp hp (hplain r hr)
  · exact fun r hr p hp hm => implements_request_iff acp hp hm (hplain r hr)

end

/-- Two programs with one digest: the first names its row after the second has
looked for it. -/
def sampleRequests : List (Request Nat) :=
  [.store (selectBy 0 answered), .store (writeBy 0), .store (selectBy 1 answered),
    .name 0 (.reading .gbk) "a.dwg".toList [] (List.replicate 32 0xAA) answered,
    .store (writeBy 1)]

theorem sampleServ_plain {md5C : BaseWord} (h : ∀ cs, SqlText.plain cs md5C.copy.text = true)
    (cs : SqlText.Charset) : ((sampleServ 1).withCipher md5C 0).PlainTexts cs := by
  have hplain : ∀ c ∈ (sampleServ 1).md5Plaint.text,
      c ≠ SqlText.quote ∧ c ≠ SqlText.backslash := by decide
  have hkey : ∀ c ∈ (sampleServ 1).skey.text,
      c ≠ SqlText.quote ∧ c ≠ SqlText.backslash := by decide
  exact ⟨SqlText.plain_of_forall hplain, h cs, SqlText.plain_of_forall hkey⟩

theorem sampleRequests_plain : ∀ r ∈ sampleRequests, r.Plain latin := by
  have hserv : ∀ cs, ((sampleServ 1).withCipher sampleDigest 0).PlainTexts cs :=
    sampleServ_plain fun _ => SqlText.plain_of_forall (by decide)
  simp only [sampleRequests, List.forall_mem_cons]
  exact ⟨hserv, trivial, hserv, ⟨by decide, by decide, by decide⟩, trivial, by simp⟩

theorem sampleRequests_timely : EventLoop.Along (turn latin)
    (fun (c : Clients Nat) r => TimelyRequest c r) start sampleRequests := by
  refine ⟨trivial, fun _ => ⟨?_, fun _ => ⟨trivial, fun _ => ⟨trivial, fun _ =>
    ⟨?_, fun _ => trivial⟩⟩⟩⟩⟩
  · intro p hp _ _
    obtain rfl := Option.some.inj hp
    decide
  · intro p hp _ hins
    obtain rfl := Option.some.inj hp
    exact absurd hins (by decide)

theorem implements_run_sample :
    (∀ p ∈ EventLoop.visited (EventLoop.watched (turn latin) (record latin))
      ((start : Clients Nat), fun _ => none) sampleRequests,
      Rows.Implements .md5C p.1.service p.2) ∧
    ((sampleRequests.foldl (request latin) start).service.map fun r => r .fname) =
      [some (ascii "a.dwg")] := by
  constructor
  · exact (implements_run_iff latin sampleRequests sampleRequests_plain).mpr sampleRequests_timely
  · decide +kernel

end Clients

end SecProGIS
