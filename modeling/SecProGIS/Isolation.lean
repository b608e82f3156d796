import SecProGIS.Interleaving
import SecProGIS.Batch

/-! Several programs on one server whose files have different digests: the rows
of each are those it would have left alone, and its files stay recoverable. -/

namespace SecProGIS

def Request.client {ι : Type*} : Request ι → ι
  | .store (.select i ..) => i
  | .store (.write i _) => i
  | .name i .. => i

/-- The digest a statement brings along; a write goes to that of its select. -/
def Request.digest {ι : Type*} : Request ι → Option Bytes
  | .store (.select _ _ _ md5C _ _) => some md5C.copy.text
  | .store (.write ..) => none
  | .name _ _ _ _ cipherMd5 _ => some (cstr (hexBuf cipherMd5).toList)

def Pending.sent (p : Pending) : KmConf × KmServ × Table := (p.conf, p.serv, p.table)

namespace Clients

variable {ι : Type*} (acp : CString → Bytes)

def rowsOf (d : Bytes) (t : List (Rows.Row Column Bytes)) : List (Rows.Row Column Bytes) :=
  Rows.select [(.md5C, d)] t

/-- What is pending keeps the digests of a group apart from those of the others. -/
def Apart (G : ι → Prop) (D : Set Bytes) (c : Clients ι) : Prop :=
  ∀ i p, c.pending i = some p →
    p.conf.skTable = ascii "service" ∧ (p.serv.md5Cipher.text ∈ D ↔ G i)

def RequestApart (G : ι → Prop) (D : Set Bytes) (r : Request ι) : Prop :=
  ∀ d, r.digest = some d → (d ∈ D ↔ G r.client)

/-- The clients of a group see the same in both states. -/
structure Views (G : ι → Prop) (D : Set Bytes) (c c' : Clients ι) : Prop where
  apart : c.Apart G D
  apart' : c'.Apart G D
  pending_eq : ∀ i, G i → (c.pending i).map Pending.sent = (c'.pending i).map Pending.sent
  rows_eq : ∀ d ∈ D, rowsOf d c.service = rowsOf d c'.service

def idle (db : Db Column) : Clients ι := ⟨db, fun _ => none⟩

theorem views_idle (G : ι → Prop) (D : Set Bytes) (db : Db Column) :
    Views G D (idle db) (idle db) where
  apart := fun i p hp => by simp [idle] at hp
  apart' := fun i p hp => by simp [idle] at hp
  pending_eq := fun _ _ => rfl
  rows_eq := fun _ _ => rfl

theorem rowsOf_written_other {p : Pending} {d : Bytes} (h : d ≠ p.serv.md5Cipher.text)
    (t : List (Rows.Row Column Bytes)) : rowsOf d (written p t) = rowsOf d t := by
  rw [written]
  split
  · exact Rows.select_insert_other (by simp) h t
  · exact Rows.select_update_other rfl h t

theorem rowsOf_written_congr {p p' : Pending} (hp : p.sent = p'.sent) {d : Bytes}
    {t t' : List (Rows.Row Column Bytes)} (h : rowsOf d t = rowsOf d t') :
    rowsOf d (written p t) = rowsOf d (written p' t') := by
  simp only [Pending.sent, Prod.mk.injEq] at hp
  obtain ⟨hconf, hserv, htable⟩ := hp
  have hsame : written p' t' = written p t' := by rw [written, written, hconf, hserv, htable]
  rw [hsame]
  by_cases hd : d = p.serv.md5Cipher.text
  · subst hd
    rw [written, written]
    split
    · rw [rowsOf, rowsOf, Rows.select_insert_same (by simp), Rows.select_insert_same (by simp)]
      exact congrArg (· ++ _) h
    · rw [rowsOf, rowsOf, KmServ.existing, Rows.select_update_same rfl, Rows.select_update_same rfl]
      exact congrArg (List.map _) h
  · rw [rowsOf_written_other hd, rowsOf_written_other hd, h]

theorem rowsOf_name {d m : Bytes} {vs : Rows.Values Column Bytes} (hvs : vs.lookup .md5C = none)
    {t t' : List (Rows.Row Column Bytes)} (h : rowsOf d t = rowsOf d t') :
    rowsOf d (Rows.update vs [(.md5C, m)] t) = rowsOf d (Rows.update vs [(.md5C, m)] t') := by
  by_cases hd : d = m
  · subst hd
    rw [rowsOf, rowsOf, Rows.select_update_same hvs, Rows.select_update_same hvs]
    exact congrArg (List.map _) h
  · rw [rowsOf, rowsOf, Rows.select_update_other hvs hd, Rows.select_update_other hvs hd]
    exact h

section

variable [DecidableEq ι] {G : ι → Prop} {D : Set Bytes} {c c' : Clients ι} {r : Request ι}

theorem pending_request_other {j : ι} (hj : j ≠ r.client) :
    (c.request acp r).pending j = c.pending j := by
  cases r with
  | name i server plainName remark cipherMd5 call => rfl
  | store sent =>
    cases sent with
    | select i admin serv md5C enctm sel =>
      simp only [request, next]
      split
      · exact Function.update_of_ne hj ..
      · rfl
    | write i wr =>
      simp only [request, next]
      split
      · rfl
      · exact Function.update_of_ne hj ..

theorem pending_request {j : ι} {p : Pending} (hp : (c.request acp r).pending j = some p) :
    c.pending j = some p ∨
      j = r.client ∧ r.digest = some p.serv.md5Cipher.text ∧ p.conf.skTable = ascii "service" := by
  by_cases hj : j = r.client
  · subst hj
    cases r with
    | name i server plainName remark cipherMd5 call => exact .inl hp
    | store sent =>
      cases sent with
      | select i admin serv md5C enctm sel =>
        simp only [request, next] at hp
        split at hp
        · simp only [Request.client, Function.update_self, Option.some.injEq] at hp
          rw [← hp]
          exact .inr ⟨rfl, rfl, rfl⟩
        · exact .inl hp
      | write i wr =>
        simp only [request, next] at hp
        split at hp
        · exact .inl hp
        · simp [Request.client] at hp
  · rw [pending_request_other acp hj] at hp
    exact .inl hp

theorem Apart.request (h : c.Apart G D) (hr : RequestApart G D r) :
    (c.request acp r).Apart G D := by
  intro j p hp
  rcases pending_request acp hp with hold | ⟨rfl, hdigest, htab⟩
  · exact h j p hold
  · exact ⟨htab, hr _ hdigest⟩

theorem rowsOf_request_other (hc : c.Apart G D) (hr : RequestApart G D r) (hplain : r.Plain acp)
    (hout : ¬ G r.client) {d : Bytes} (hd : d ∈ D) :
    rowsOf d (c.request acp r).service = rowsOf d c.service := by
  cases r with
  | name i server plainName remark cipherMd5 call =>
    have hne : d ≠ cstr (hexBuf cipherMd5).toList :=
      fun he => hout ((hr d (congrArg some he.symm)).mp hd)
    rw [request_name_service acp c hplain]
    split
    · exact Rows.select_update_other rfl hne _
    · rfl
  | store sent =>
    cases sent with
    | select i admin serv md5C enctm sel =>
      simp only [request, next]
      split <;> rfl
    | write i wr =>
      cases hp : c.pending i with
      | none => simp only [request, next, hp]
      | some p =>
        obtain ⟨htab, hmem⟩ := hc i p hp
        rw [request, next_write_service hp htab]
        split
        · exact rowsOf_written_other (fun he => hout (hmem.mp (he ▸ hd))) _
        · rfl

theorem Views.request_other (h : Views G D c c') (hr : RequestApart G D r) (hplain : r.Plain acp)
    (hout : ¬ G r.client) : Views G D (c.request acp r) c' where
  apart := h.apart.request acp hr
  apart' := h.apart'
  pending_eq := fun i hi => by
    rw [pending_request_other acp fun he => hout (he ▸ hi)]
    exact h.pending_eq i hi
  rows_eq := fun d hd => by
    rw [rowsOf_request_other acp h.apart hr hplain hout hd, h.rows_eq d hd]

theorem Views.rowsOf_request (h : Views G D c c') (hplain : r.Plain acp) (hin : G r.client)
    {d : Bytes} (hd : d ∈ D) :
    rowsOf d (c.request acp r).service = rowsOf d (c'.request acp r).service := by
  have hrows := h.rows_eq d hd
  cases r with
  | name i server plainName remark cipherMd5 call =>
    rw [request_name_service acp c hplain, request_name_service acp c' hplain]
    split
    · exact rowsOf_name rfl hrows
    · exact hrows
  | store sent =>
    cases sent with
    | select i admin serv md5C enctm sel =>
      have hsame : ∀ x : Clients ι,
          (x.request acp (.store (.select i admin serv md5C enctm sel))).service = x.service := by
        intro x
        simp only [request, next]
        split <;> rfl
      rw [hsame, hsame, hrows]
    | write i wr =>
      have hsent := h.pending_eq i hin
      cases hp : c.pending i with
      | none =>
        rw [hp, Option.map_none, eq_comm, Option.map_eq_none_iff] at hsent
        simpa only [request, next, hp, hsent] using hrows
      | some p =>
        rw [hp, Option.map_some, eq_comm, Option.map_eq_some_iff] at hsent
        obtain ⟨p', hp', heq⟩ := hsent
        rw [request, request, next_write_service hp (h.apart i p hp).1,
          next_write_service hp' (h.apart' i p' hp').1]
        split
        · exact rowsOf_written_congr heq.symm hrows
        · exact hrows

/-- The first query of a store reads the rows of its own digest alone. -/
theorem lookup_congr {conf : KmConf} {s : KmServ} {db db' : Db Column}
    (h : rowsOf s.md5Cipher.text (db (cstr conf.skTable)) =
      rowsOf s.md5Cipher.text (db' (cstr conf.skTable))) (sel : Call) :
    s.lookup conf sel db = s.lookup conf sel db' := by
  rw [KmServ.lookup, KmServ.lookup, Db.result, Db.result]
  exact congrArg (fun rows : List (Rows.Row Column Bytes) =>
    (execQueryMysqlInto sel (rows.map serviceColumns.map) Table.empty).2) h

theorem next_write_pending (skTable : Bytes) (i : ι) (wr : Call) :
    (c.next skTable (.write i wr)).pending i = none := by
  simp only [next]
  split
  · assumption
  · exact Function.update_self ..

theorem Views.pending_request (h : Views G D c c') (hr : RequestApart G D r) (hin : G r.client)
    (i : ι) (hi : G i) :
    ((c.request acp r).pending i).map Pending.sent =
      ((c'.request acp r).pending i).map Pending.sent := by
  by_cases hir : i = r.client
  · subst hir
    have hsent := h.pending_eq _ hin
    cases r with
    | name j server plainName remark cipherMd5 call => exact hsent
    | store sent =>
      cases sent with
      | select j admin serv md5C enctm sel =>
        have hidle : c.pending j = none ↔ c'.pending j = none := by
          rw [← Option.map_eq_none_iff (f := Pending.sent),
            ← Option.map_eq_none_iff (f := Pending.sent)]
          exact iff_of_eq (congrArg (· = none) hsent)
        have hmem : (serv.withCipher md5C enctm).md5Cipher.text ∈ D := (hr _ rfl).mpr hin
        have hlookup : (serv.withCipher md5C enctm).lookup ⟨ascii "service", admin⟩ sel c.db =
            (serv.withCipher md5C enctm).lookup ⟨ascii "service", admin⟩ sel c'.db :=
          lookup_congr (h.rows_eq _ hmem) sel
        simp only [Clients.request, next, ← hidle]
        split
        · simp only [Request.client, Function.update_self, Option.map_some, Pending.sent]
          rw [hlookup]
        · exact hsent
      | write j wr =>
        change Option.map _ ((c.next _ _).pending j) = Option.map _ ((c'.next _ _).pending j)
        rw [next_write_pending, next_write_pending]
  · rw [pending_request_other acp hir, pending_request_other acp hir]
    exact h.pending_eq i hi

theorem Views.request (h : Views G D c c') (hr : RequestApart G D r) (hplain : r.Plain acp)
    (hin : G r.client) : Views G D (c.request acp r) (c'.request acp r) where
  apart := h.apart.request acp hr
  apart' := h.apart'.request acp hr
  pending_eq := h.pending_request acp hr hin
  rows_eq := fun _ hd => h.rowsOf_request acp hplain hin hd

theorem Views.run [DecidablePred G] (h : Views G D c c') {run : List (Request ι)}
    (hrun : ∀ r ∈ run, RequestApart G D r) (hplain : ∀ r ∈ run, r.Plain acp) :
    Views G D (run.foldl (Clients.request acp) c)
      ((run.filter fun r => G r.client).foldl (Clients.request acp) c') := by
  induction run generalizing c c' with
  | nil => exact h
  | cons r run ih =>
    rw [List.forall_mem_cons] at hrun hplain
    rw [List.foldl_cons]
    by_cases hin : G r.client
    · rw [List.filter_cons_of_pos (by simpa using hin), List.foldl_cons]
      exact ih (h.request acp hrun.1 hplain.1 hin) hrun.2 hplain.2
    · rw [List.filter_cons_of_neg (by simpa using hin)]
      exact ih (h.request_other acp hrun.1 hplain.1 hin) hrun.2 hplain.2

/-- Whatever the others send, in whatever order and with whatever failures, the
rows of a group's digests are those the group alone would have left, when the
server reads the strings in the texts as they stand. -/
theorem isolated_run (G : ι → Prop) [DecidablePred G] (D : Set Bytes) (db : Db Column)
    (run : List (Request ι)) (hrun : ∀ r ∈ run, RequestApart G D r)
    (hplain : ∀ r ∈ run, r.Plain acp) (d : Bytes) (hd : d ∈ D) :
    rowsOf d (run.foldl (request acp) (idle db)).service =
      rowsOf d ((run.filter fun r => G r.client).foldl (request acp) (idle db)).service :=
  ((views_idle G D db).run acp hrun hplain).rows_eq d hd

end

end Clients

section

open SqlText

theorem plain_newKey (cs : Charset) (rng : Rng) (e : FileEnv) : plain cs (e.newKey rng) = true := by
  apply plain_of_forall
  intro c hc
  obtain ⟨i, _, rfl⟩ := List.mem_map.mp hc
  obtain ⟨n, hn, hrange⟩ := keyChar_alnum (rng (BitVec.ofInt 32 e.genNow) (2 * i))
    (rng (BitVec.ofInt 32 e.genNow) (2 * i + 1))
  have hne : ∀ m, (m = 0x27 ∨ m = 0x5C) → BitVec.ofNat 8 n ≠ BitVec.ofNat 8 m := by
    intro m hm h
    have hnat := congrArg BitVec.toNat h
    simp only [BitVec.toNat_ofNat] at hnat
    omega
  rw [hn]
  exact ⟨hne _ (.inl rfl), hne _ (.inr rfl)⟩

theorem sealed_plainTexts (cs : Charset) (rng : Rng) (s : Session) (e : FileEnv) (plain : Bytes) :
    ((s.sealed rng e plain).serv.withCipher (hexWord (s.sealed rng e plain).cipherMd5)
      e.storeNow).PlainTexts cs where
  md5Plaint := by
    have htext : (s.sealed rng e plain).serv.md5Plaint.text = Hex.text _ :=
      hexWord_copy_text (sm3_length _)
    rw [KmServ.withCipher, htext]
    exact plain_hexText cs _
  md5Cipher := by
    have htext : (hexWord (s.sealed rng e plain).cipherMd5).copy.text = Hex.text _ :=
      hexWord_copy_text (writeDigest_length _)
    rw [KmServ.withCipher, htext]
    exact plain_hexText cs _
  skey := by
    have htext : (s.sealed rng e plain).serv.skey.text = e.newKey rng :=
      (sealed_skey s rng e plain).text_eq fun _ => keyText_ne_zero
    rw [KmServ.withCipher, htext]
    exact plain_newKey cs rng e

end

section

variable {ι : Type*} (rng : Rng) (acp : CString → Bytes)

/-- The statements a turn sends as client `i`; the last one only after a store
that returned 0, for a file with a name and a text that fits. -/
def turnRequests (i : ι) (env : Nat → FileEnv) (s : Session) (findex : Nat) : List (Request ι) :=
  let e := env findex
  match sealFile rng e findex s with
  | (_, none) => []
  | (s, some x) =>
    let named :=
      if (x.serv.store s.kmConf (hexWord x.cipherMd5) e.storeNow e.sel e.wr s.db).1 = -1 then []
      else
        match s.dlg.plainNameAry[findex]? with
        | none => []
        | some plainName =>
          if 300 ≤ (nameSql acp plainName e.controls.edit3 x.cipherMd5).length then []
          else [.name i e.server plainName e.controls.edit3 x.cipherMd5 e.name]
    .store (.select i s.kmConf.admin x.serv (hexWord x.cipherMd5) e.storeNow e.sel) ::
      .store (.write i e.wr) :: named

def seeRequests (i : ι) (env : Nat → FileEnv) (rs : List (Request ι)) (s : Session)
    (findex : Nat) : List (Request ι) :=
  rs ++ turnRequests rng acp i env s findex

def batchRequests (i : ι) (s : Session) (combo1 : CString) (q : ArchiveDlg.OrgQuery)
    (env : Nat → FileEnv) : List (Request ι) :=
  if (s.dlg.judgeBeforeEncrypt acp combo1 q).1 = some true then
    let s := s.judged acp combo1 q
    (EventLoop.loop (EventLoop.watched (encryptFile rng acp env) (seeRequests rng acp i env))
      (s, []) (List.range s.dlg.selFileNum)).1.2
  else []

theorem sealFile_db (e : FileEnv) (findex : Nat) (s : Session) :
    (sealFile rng e findex s).1.db = s.db := by
  simp only [sealFile]
  split
  · rfl
  · split
    · rfl
    · split <;> rfl

theorem sealFile_some {e : FileEnv} {findex : Nat} {s s' : Session} {x : Sealed}
    (h : sealFile rng e findex s = (s', some x)) : ∃ plain path,
    Sealable s e findex plain path ∧ s' = s.written rng e plain path ∧
      x = s.sealed rng e plain := by
  by_cases hs : ∃ plain path, Sealable s e findex plain path
  · obtain ⟨plain, path, hs⟩ := hs
    rw [hs.sealFile_eq rng] at h
    cases h
    exact ⟨plain, path, hs, rfl, rfl⟩
  · have hnone : (sealFile rng e findex s).2 = none :=
      sealFile_eq_none rng fun plain path hx => hs ⟨plain, path, hx⟩
    rw [h] at hnone
    cases hnone

theorem recordFile_db_eq (e : FileEnv) (findex : Nat) (s : Session) (x : Sealed) :
    (recordFile acp e findex s x).1.db =
      let r := x.serv.store s.kmConf (hexWord x.cipherMd5) e.storeNow e.sel e.wr s.db
      if r.1 = -1 then r.2.2
      else
        match s.dlg.plainNameAry[findex]? with
        | none => r.2.2
        | some plainName =>
          if 300 ≤ (nameSql acp plainName e.controls.edit3 x.cipherMd5).length then r.2.2
          else (execQueryText e.server e.name
            (nameSql acp plainName e.controls.edit3 x.cipherMd5) r.2.2).2 := by
  simp only [recordFile, Session.stamped, Session.withDb, Session.shown, ArchiveDlg.updateData]
  by_cases hstore :
      (x.serv.store s.kmConf (hexWord x.cipherMd5) e.storeNow e.sel e.wr s.db).1 = -1
  · simp only [hstore, if_true]
  · simp only [hstore, if_false]
    cases s.dlg.plainNameAry[findex]? with
    | none => rfl
    | some plainName =>
      simp only
      by_cases hfit : 300 ≤ (nameSql acp plainName e.controls.edit3 x.cipherMd5).length
      · simp only [hfit, if_true]
      · simp only [hfit, if_false]
        by_cases hcode : e.name.code = -3 <;> simp only [execQueryText, hcode, if_true, if_false]

/-- A turn sends its statements for the digest it makes. -/
theorem turnRequests_digest {i : ι} {env : Nat → FileEnv} {s : Session} {findex : Nat}
    {r : Request ι} (h : r ∈ turnRequests rng acp i env s findex) :
    r.client = i ∧ ∀ d, r.digest = some d →
      (sealFile rng (env findex) findex s).2.map (fun x => Hex.text x.cipherMd5) = some d := by
  rcases hseal : sealFile rng (env findex) findex s with ⟨s', o⟩
  simp only [turnRequests, hseal] at h
  cases o with
  | none => simp at h
  | some x =>
    have hmd5 : x.cipherMd5.length = 32 := by
      obtain ⟨_, _, _, _, rfl⟩ := sealFile_some rng hseal
      exact writeDigest_length _
    simp only [List.mem_cons] at h
    rcases h with rfl | rfl | h
    · refine ⟨rfl, fun d hd => ?_⟩
      rw [← Option.some.inj hd, hexWord_copy_text hmd5]
      rfl
    · exact ⟨rfl, fun d hd => by cases hd⟩
    · split at h
      · simp at h
      · split at h
        · simp at h
        · split at h
          · simp at h
          · rw [List.mem_singleton] at h
            subst h
            refine ⟨rfl, fun d hd => ?_⟩
            rw [← Option.some.inj hd, cstr_hexBuf hmd5]
            rfl

theorem turnRequests_own {i : ι} {env : Nat → FileEnv} {s : Session} {findex : Nat}
    {r : Request ι} (h : r ∈ turnRequests rng acp i env s findex) :
    r.client = i ∧ ∀ d, r.digest = some d → d.length = 64 := by
  obtain ⟨hclient, hdigest⟩ := turnRequests_digest rng acp h
  refine ⟨hclient, fun d hd => ?_⟩
  obtain ⟨x, hx, rfl⟩ := Option.map_eq_some_iff.mp (hdigest d hd)
  have hseal : sealFile rng (env findex) findex s =
      ((sealFile rng (env findex) findex s).1, some x) := Prod.ext rfl hx
  obtain ⟨_, _, _, _, rfl⟩ := sealFile_some rng hseal
  rw [Hex.text_length]
  exact congrArg (2 * ·) (writeDigest_length _)

theorem PlainTurn.sealed {e : FileEnv} {s s' : Session} {findex : Nat} {o : Option Sealed}
    (h : PlainTurn acp s e findex) (hs : sealFile rng e findex s = (s', o)) :
    PlainTurn acp s' e findex := by
  obtain ⟨_, _, _, _, _, hdlg⟩ := sealFile_frame rng e findex s
  rw [hs] at hdlg
  exact h.congr (by rw [hdlg])

theorem turnRequests_plain {i : ι} {env : Nat → FileEnv} {s : Session} {findex : Nat}
    (h : PlainTurn acp s (env findex) findex) {r : Request ι}
    (hr : r ∈ turnRequests rng acp i env s findex) : r.Plain acp := by
  rcases hseal : sealFile rng (env findex) findex s with ⟨s', o⟩
  have hplain := h.sealed rng acp hseal
  simp only [turnRequests, hseal] at hr
  cases o with
  | none => cases hr
  | some x =>
    obtain ⟨plain, path, _, _, rfl⟩ := sealFile_some rng hseal
    simp only [List.mem_cons] at hr
    rcases hr with rfl | rfl | hr
    · exact fun cs => sealed_plainTexts cs rng s (env findex) plain
    · trivial
    · split at hr
      · cases hr
      · split at hr
        · cases hr
        · rename_i plainName hname
          split at hr
          · cases hr
          · rw [List.mem_singleton] at hr
            subst hr
            exact ⟨writeDigest_length _, hplain plainName hname⟩

/-- What holds of the statements of every turn holds of those of a batch. -/
theorem batchRequests_forall {P : Request ι → Prop} {i : ι} {s : Session} {combo1 : CString}
    {q : ArchiveDlg.OrgQuery} {env : Nat → FileEnv}
    (h : ∀ t : Session, t.dlg.arrays = s.dlg.arrays → ∀ findex,
      ∀ r ∈ turnRequests rng acp i env t findex, P r) :
    ∀ r ∈ batchRequests rng acp i s combo1 q env, P r := by
  let I : Session × List (Request ι) → Prop := fun p =>
    p.1.dlg.arrays = s.dlg.arrays ∧ ∀ r ∈ p.2, P r
  rw [batchRequests]
  split
  · have hstep : ∀ (p : Session × List (Request ι)) (findex : Nat), I p →
        I (EventLoop.watched (encryptFile rng acp env) (seeRequests rng acp i env) p findex).1 := by
      rintro p findex ⟨harrays, hp⟩
      refine ⟨(encryptFile_arrays rng acp env p.1 findex).trans harrays, ?_⟩
      exact List.forall_mem_append.mpr ⟨hp, h p.1 harrays findex⟩
    have hloop := EventLoop.loop_invariant hstep (s := (s.judged acp combo1 q, []))
      ⟨judged_arrays acp s combo1 q, fun r hr => by cases hr⟩
      (List.range (s.judged acp combo1 q).dlg.selFileNum)
    exact hloop.2
  · exact fun r hr => by cases hr

/-- What a program sends goes by digests of 64 characters. -/
theorem batchRequests_own {i : ι} {s : Session} {combo1 : CString} {q : ArchiveDlg.OrgQuery}
    {env : Nat → FileEnv} {r : Request ι} (h : r ∈ batchRequests rng acp i s combo1 q env) :
    r.client = i ∧ ∀ d, r.digest = some d → d.length = 64 :=
  batchRequests_forall rng acp (fun _ _ _ _ => turnRequests_own rng acp) r h

theorem batchRequests_plain {i : ι} {s : Session} {combo1 : CString} {q : ArchiveDlg.OrgQuery}
    {env : Nat → FileEnv} (h : ∀ findex, PlainTurn acp s (env findex) findex) {r : Request ι}
    (hr : r ∈ batchRequests rng acp i s combo1 q env) : r.Plain acp := by
  refine batchRequests_forall rng acp (fun t harrays findex u hu => ?_) r hr
  exact turnRequests_plain rng acp ((h findex).congr (congrArg (fun a => a.2.1) harrays)) hu

variable [DecidableEq ι]

theorem request_pair (i : ι) (db : Db Column) (admin : Int) (serv : KmServ) (md5C : BaseWord)
    (enctm : Int) (sel wr : Call) :
    ((Clients.idle db).request acp (.store (.select i admin serv md5C enctm sel))).request acp
        (.store (.write i wr)) =
      Clients.idle (serv.store ⟨ascii "service", admin⟩ md5C enctm sel wr db).2.2 := by
  have hidle : (Clients.idle db : Clients ι).pending i = none := rfl
  have hdb : (((Clients.idle db : Clients ι).request acp
      (.store (.select i admin serv md5C enctm sel))).request acp (.store (.write i wr))).db =
      (serv.store ⟨ascii "service", admin⟩ md5C enctm sel wr db).2.2 :=
    Clients.next_select_write hidle admin serv md5C enctm sel wr
  have hpending : (((Clients.idle db : Clients ι).request acp
      (.store (.select i admin serv md5C enctm sel))).request acp (.store (.write i wr))).pending =
      fun _ => none := by
    funext j
    by_cases hj : j = i
    · subst hj
      exact Clients.next_write_pending (ascii "service") _ wr
    · rw [Clients.pending_request_other acp hj, Clients.pending_request_other acp hj]
      rfl
  exact congrArg₂ Clients.mk hdb hpending

theorem turnRequests_run (i : ι) (env : Nat → FileEnv) {s : Session} (findex : Nat)
    (hconf : s.ServiceConf) :
    (turnRequests rng acp i env s findex).foldl (Clients.request acp) (Clients.idle s.db) =
      Clients.idle (encryptFile rng acp env s findex).1.db := by
  rcases hseal : sealFile rng (env findex) findex s with ⟨s', o⟩
  have hdb := sealFile_db rng (env findex) findex s
  rw [hseal] at hdb
  cases o with
  | none =>
    simp only [turnRequests, encryptFile, hseal]
    exact congrArg Clients.idle hdb.symm
  | some x =>
    have hkm : s'.kmConf = ⟨ascii "service", s.dlg.adminID⟩ := by
      obtain ⟨_, _, _, rfl, _⟩ := sealFile_some rng hseal
      exact written_kmConf rng hconf
    simp only [turnRequests, encryptFile, hseal, List.foldl_cons]
    rw [request_pair, recordFile_db_eq, ← hdb, hkm]
    by_cases hstore : (x.serv.store ⟨ascii "service", s.dlg.adminID⟩ (hexWord x.cipherMd5)
        (env findex).storeNow (env findex).sel (env findex).wr s'.db).1 = -1
    · simp only [hstore, if_true, List.foldl_nil]
    · simp only [hstore, if_false]
      cases s'.dlg.plainNameAry[findex]? with
      | none => rfl
      | some plainName =>
        by_cases hfit : 300 ≤
            (nameSql acp plainName (env findex).controls.edit3 x.cipherMd5).length
        · simp only [hfit, if_true, List.foldl_nil]
        · simp only [hfit, if_false, List.foldl_cons, List.foldl_nil]
          rfl

theorem batchRequests_run (i : ι) {s : Session} (hconf : s.ServiceConf) (combo1 : CString)
    (q : ArchiveDlg.OrgQuery) (env : Nat → FileEnv) :
    (batchRequests rng acp i s combo1 q env).foldl (Clients.request acp) (Clients.idle s.db) =
      Clients.idle (onEncryptFile rng acp s combo1 q env).1.db := by
  obtain ⟨_, _, hdlg⟩ := judgeBeforeEncrypt_frame acp s.dlg combo1 q
  have hjudged : (s.judged acp combo1 q).ServiceConf :=
    hconf.of_eq rfl (by rw [Session.judged, hdlg])
  rw [onEncryptFile_fst, batchRequests]
  split
  · let I : Session × List (Request ι) → Prop := fun p =>
      p.1.ServiceConf ∧ p.2.foldl (Clients.request acp) (Clients.idle s.db) = Clients.idle p.1.db
    have hstep : ∀ (p : Session × List (Request ι)) (findex : Nat), I p →
        I (EventLoop.watched (encryptFile rng acp env) (seeRequests rng acp i env) p findex).1 := by
      intro p findex hp
      refine ⟨serviceConf_encryptFile rng acp env findex hp.1, ?_⟩
      change (seeRequests rng acp i env p.2 p.1 findex).foldl _ _ = _
      rw [seeRequests, List.foldl_append, hp.2, turnRequests_run rng acp i env findex hp.1]
      rfl
    have hloop := EventLoop.loop_invariant hstep (s := (s.judged acp combo1 q, [])) ⟨hjudged, rfl⟩
      (List.range (s.judged acp combo1 q).dlg.selFileNum)
    have hdb := hloop.2
    rw [(EventLoop.loop_watched _ _ _ _).1] at hdb
    exact hdb
  · rfl

/-- A batch among the statements of other programs, in any order and with any
failures of theirs: when their digests are others and the strings in all texts
are read as they stand, the rows of its own digests are those it leaves when it
runs alone, and its files are recovered as then. -/
theorem batch_isolated (i : ι) (s : Session) (hconf : s.ServiceConf) (combo1 : CString)
    (q : ArchiveDlg.OrgQuery) (env : Nat → FileEnv) (D : Set Bytes) (run : List (Request ι))
    (hown : (run.filter fun r => r.client = i) = batchRequests rng acp i s combo1 q env)
    (hrun : ∀ r ∈ run, Clients.RequestApart (fun j => j = i) D r)
    (hplain : ∀ r ∈ run, r.Plain acp) :
    let alone := (onEncryptFile rng acp s combo1 q env).1.archive
    let rows := (run.foldl (Clients.request acp) (Clients.idle s.db)).service
    (∀ d ∈ D, Clients.rowsOf d rows = Clients.rowsOf d alone.rows) ∧
      ∀ path file, alone.files path = some file → Hex.text ((file.drop 12).take 32) ∈ D →
        recover ⟨alone.files, rows⟩ path = recover alone path := by
  have hviews := (Clients.views_idle (fun j => j = i) D s.db).run acp hrun hplain
  rw [hown, batchRequests_run rng acp i hconf combo1 q env] at hviews
  refine ⟨hviews.rows_eq, fun path file hfile hmem => ?_⟩
  have hrows := hviews.rows_eq _ hmem
  rw [Clients.rowsOf, Clients.rowsOf] at hrows
  simp only [recover, hfile, Option.bind_eq_bind, Option.bind_some, hrows]
  rfl

end

def otherDigest : BaseWord := .readIn (some [0x78]) 1

def sharedRun : List (Request Nat) :=
  .store (.select 1 1 (sampleServ 1) otherDigest 0 answered) ::
    (batchRequests (fun _ _ => 0) latin 0 sampleSession "org".toList sampleOrg cleanEnv ++
      [.store (.write 1 answered)])

theorem sharedRun_apart :
    ∀ r ∈ sharedRun, Clients.RequestApart (fun j => j = 0) {d | d.length = 64} r := by
  intro r hr
  rw [sharedRun, List.mem_cons, List.mem_append, List.mem_singleton] at hr
  rcases hr with rfl | hown | rfl
  · intro d hd
    have hlen : otherDigest.copy.text.length = 1 := by decide
    rw [← Option.some.inj hd]
    simp [Request.client, hlen]
  · obtain ⟨hclient, hlen⟩ := batchRequests_own _ _ hown
    exact fun d hd => iff_of_true (hlen d hd) hclient
  · intro d hd
    cases hd

theorem sharedRun_plain : ∀ r ∈ sharedRun, r.Plain latin := by
  intro r hr
  rw [sharedRun, List.mem_cons, List.mem_append, List.mem_singleton] at hr
  rcases hr with rfl | hown | rfl
  · exact Clients.sampleServ_plain fun _ => SqlText.plain_of_forall (by decide)
  · exact batchRequests_plain _ _ (clean_plain rfl) hown
  · trivial

theorem isolated_run_shared :
    Clients.rowsOf (Hex.text (List.replicate 32 0))
        (sharedRun.foldl (Clients.request latin) (Clients.idle fun _ => [])).service =
      Clients.rowsOf (Hex.text (List.replicate 32 0)) ((sharedRun.filter fun r =>
        r.client = 0).foldl (Clients.request latin) (Clients.idle fun _ => [])).service :=
  Clients.isolated_run latin (fun j => j = 0) {d | d.length = 64} (fun _ => []) sharedRun
    sharedRun_apart sharedRun_plain (Hex.text (List.replicate 32 0)) (by decide)

theorem batch_isolated_shared :
    Clients.rowsOf (Hex.text (List.replicate 32 0))
        (sharedRun.foldl (Clients.request latin) (Clients.idle fun _ => [])).service =
      Clients.rowsOf (Hex.text (List.replicate 32 0)) (onEncryptFile (fun _ _ => 0) latin
        sampleSession "org".toList sampleOrg cleanEnv).1.archive.rows := by
  have hown : (sharedRun.filter fun r => r.client = 0) = batchRequests (fun _ _ => 0) latin
      0 sampleSession "org".toList sampleOrg cleanEnv := by
    rw [sharedRun, List.filter_cons_of_neg (by decide), List.filter_append,
      List.filter_eq_self.mpr fun r hr => by simpa using (batchRequests_own _ _ hr).1]
    exact List.append_nil _
  exact (batch_isolated (fun _ _ => 0) latin 0 sampleSession sample_serviceConf
    "org".toList sampleOrg cleanEnv {d | d.length = 64} sharedRun hown sharedRun_apart
    sharedRun_plain).1
    (Hex.text (List.replicate 32 0)) (by decide)

end SecProGIS
