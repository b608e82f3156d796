import SecProGIS.Faults

/-! Several programs on one server, each with a run of its own. What a program
sends depends on the codes it gets and not on the rows, so each can be run apart
and its statements interleaved; files with digests of their own survive. -/

namespace SecProGIS

namespace Running

variable {ι : Type*} (acp : CString → Bytes) (p : Running)

end Running

def SameButDb (s s' : Session) : Prop := ∃ db, s' = s.withDb db

section

variable (rng : Rng) (acp : CString → Bytes)

theorem sealFile_withDb (e : FileEnv) (findex : Nat) (s : Session) (db : Db Column) :
    sealFile rng e findex (s.withDb db) =
      ((sealFile rng e findex s).1.withDb db, (sealFile rng e findex s).2) := by
  cases hplain : s.openPlain e findex with
  | none =>
    have hplain₁ : (s.shown e).openPlain e findex = none := hplain
    have hplain₂ : ((s.withDb db).shown e).openPlain e findex = none := hplain
    simp only [sealFile, hplain₁, hplain₂]
    rfl
  | some plain =>
    have hplain₁ : (s.shown e).openPlain e findex = some plain := hplain
    have hplain₂ : ((s.withDb db).shown e).openPlain e findex = some plain := hplain
    by_cases hlen : toInt32 plain.length < 0
    · have hlen₁ : ((s.shown e).measured plain).dlg.plainLen < 0 := hlen
      have hlen₂ : (((s.withDb db).shown e).measured plain).dlg.plainLen < 0 := hlen
      simp only [sealFile, hplain₁, hplain₂, if_pos hlen₁, if_pos hlen₂]
      rfl
    · cases hpath : s.openCipher e findex with
      | none =>
        have hlen₁ : ¬ ((s.shown e).measured plain).dlg.plainLen < 0 := hlen
        have hlen₂ : ¬ (((s.withDb db).shown e).measured plain).dlg.plainLen < 0 := hlen
        have hpath₁ : (s.keyed rng e plain).openCipher e findex = none := hpath
        have hpath₂ : ((s.withDb db).keyed rng e plain).openCipher e findex = none := hpath
        rw [Session.keyed] at hpath₁ hpath₂
        simp only [sealFile, hplain₁, hplain₂, if_neg hlen₁, if_neg hlen₂, hpath₁, hpath₂]
        rfl
      | some path =>
        have hplain' : (s.withDb db).openPlain e findex = some plain := hplain
        have hpath' : (s.withDb db).openCipher e findex = some path := hpath
        rw [sealFile_eq rng hplain (not_lt.mp hlen) hpath,
          sealFile_eq rng hplain' (not_lt.mp hlen) hpath']
        rfl

theorem recordFile_withDb (e : FileEnv) (findex : Nat) (s : Session) (x : Sealed)
    (db : Db Column) : SameButDb (recordFile acp e findex s x).1
        (recordFile acp e findex (s.withDb db) x).1 ∧
      (recordFile acp e findex s x).2 = (recordFile acp e findex (s.withDb db) x).2 := by
  have hcode : (x.serv.store s.kmConf (hexWord x.cipherMd5) e.storeNow e.sel e.wr db).1 =
      (x.serv.store s.kmConf (hexWord x.cipherMd5) e.storeNow e.sel e.wr s.db).1 := by
    rw [KmServ.store_fst, KmServ.store_fst]
  by_cases hstore :
      (x.serv.store s.kmConf (hexWord x.cipherMd5) e.storeNow e.sel e.wr s.db).1 = -1
  · simp only [recordFile, Session.stamped, Session.withDb, hcode, hstore, if_true]
    exact ⟨⟨_, rfl⟩, trivial⟩
  · simp only [recordFile, Session.stamped, Session.withDb, Session.shown, ArchiveDlg.updateData,
      hcode, hstore, if_false]
    cases s.dlg.plainNameAry[findex]? with
    | none => exact ⟨⟨_, rfl⟩, rfl⟩
    | some plainName =>
      simp only
      by_cases hfit : 300 ≤ (nameSql acp plainName e.controls.edit3 x.cipherMd5).length
      · simp only [hfit, if_true]
        exact ⟨⟨_, rfl⟩, trivial⟩
      · simp only [hfit, if_false, execQueryText]
        by_cases hname : e.name.code = -3
        · simp only [hname, if_true]
          exact ⟨⟨_, rfl⟩, trivial⟩
        · simp only [hname, if_false]
          exact ⟨⟨_, rfl⟩, trivial⟩

theorem turn_withDb {ι : Type*} (i : ι) (env : Nat → FileEnv) (findex : Nat) {s s' : Session}
    (h : SameButDb s s') :
    SameButDb (encryptFile rng acp env s findex).1 (encryptFile rng acp env s' findex).1 ∧
      (encryptFile rng acp env s findex).2 = (encryptFile rng acp env s' findex).2 ∧
      turnRequests rng acp i env s findex = turnRequests rng acp i env s' findex := by
  obtain ⟨db, rfl⟩ := h
  simp only [encryptFile, turnRequests, sealFile_withDb]
  rcases sealFile rng (env findex) findex s with ⟨s', o⟩
  cases o with
  | none => exact ⟨⟨db, rfl⟩, rfl, rfl⟩
  | some x =>
    obtain ⟨hsession, hstop⟩ := recordFile_withDb acp (env findex) findex s' x db
    refine ⟨hsession, hstop, ?_⟩
    simp only [Session.withDb, KmServ.store_fst]

/-- What two runs have sent by now, and the sessions they are in. -/
def SameSent {ι : Type*} (i : ι) (p p' : Session × List Turn) : Prop :=
  SameButDb p.1 p'.1 ∧
    (p.2.flatMap fun t => turnRequests rng acp i t.env t.before t.findex) =
      p'.2.flatMap fun t => turnRequests rng acp i t.env t.before t.findex

variable {ι : Type*} (i : ι) {p p' : Session × List Turn}

theorem SameSent.turn (combo1 : CString) (q : ArchiveDlg.OrgQuery) (env : Nat → FileEnv)
    (findex : Nat) (h : SameSent rng acp i p p') :
    SameSent rng acp i
        (EventLoop.watched (encryptFile rng acp env) (seeTurns combo1 q env) p findex).1
        (EventLoop.watched (encryptFile rng acp env) (seeTurns combo1 q env) p' findex).1 ∧
      (EventLoop.watched (encryptFile rng acp env) (seeTurns combo1 q env) p findex).2 =
        (EventLoop.watched (encryptFile rng acp env) (seeTurns combo1 q env) p' findex).2 := by
  obtain ⟨hdb, hsent⟩ := h
  obtain ⟨hsession, hstop, hrequests⟩ := turn_withDb rng acp i env findex hdb
  refine ⟨⟨hsession, ?_⟩, hstop⟩
  simp only [EventLoop.watched, seeTurns, List.flatMap_append, List.flatMap_singleton, hsent,
    hrequests]

theorem onEncryptFile_of_judged {s : Session} {combo1 : CString} {q : ArchiveDlg.OrgQuery}
    (hok : (s.dlg.judgeBeforeEncrypt acp combo1 q).1 = some true) (env : Nat → FileEnv) (now : Int)
    (ts : List Turn) :
    let r := EventLoop.loop (EventLoop.watched (encryptFile rng acp env) (seeTurns combo1 q env))
      (s.judged acp combo1 q, ts) (List.range (s.judged acp combo1 q).dlg.selFileNum)
    (onEncryptFile rng acp s combo1 q env).1 = r.1.1 ∧
      turnsBy rng acp ts s (.encryptFile combo1 q env now) = r.1.2 ∧
      (onEncryptFile rng acp s combo1 q env).2 = r.2.elim .done .stopped := by
  intro r
  obtain ⟨alone, halone⟩ : ∃ alone, EventLoop.loop (encryptFile rng acp env)
    (s.judged acp combo1 q) (List.range (s.judged acp combo1 q).dlg.selFileNum) = alone := ⟨_, rfl⟩
  obtain ⟨hsession, hstop⟩ : r.1.1 = alone.1 ∧ r.2 = alone.2 := halone ▸ EventLoop.loop_watched ..
  refine ⟨?_, by rw [turnsBy, if_pos hok], ?_⟩
  · rw [onEncryptFile_fst, if_pos hok, hsession, ← halone]
  · rw [hstop]
    simp only [onEncryptFile, hok, halone]
    rcases alone with ⟨s', _ | stop⟩
    · rfl
    · rfl

theorem SameSent.onEncryptFile (h : SameSent rng acp i p p') (combo1 : CString)
    (q : ArchiveDlg.OrgQuery) (env : Nat → FileEnv) (now : Int) :
    SameSent rng acp i
        ((onEncryptFile rng acp p.1 combo1 q env).1,
          turnsBy rng acp p.2 p.1 (.encryptFile combo1 q env now))
        ((onEncryptFile rng acp p'.1 combo1 q env).1,
          turnsBy rng acp p'.2 p'.1 (.encryptFile combo1 q env now)) ∧
      (onEncryptFile rng acp p.1 combo1 q env).2 =
        (onEncryptFile rng acp p'.1 combo1 q env).2 := by
  rcases p with ⟨s, ts⟩
  rcases p' with ⟨s', ts'⟩
  obtain ⟨⟨db, rfl⟩, hsent⟩ := h
  have hjudged : SameSent rng acp i (s.judged acp combo1 q, ts)
      ((s.withDb db).judged acp combo1 q, ts') := ⟨⟨db, rfl⟩, hsent⟩
  rcases hok : (s.dlg.judgeBeforeEncrypt acp combo1 q).1 with _ | _ | _
  · have hok' : ((s.withDb db).dlg.judgeBeforeEncrypt acp combo1 q).1 = none := hok
    simp only [onEncryptFile, turnsBy, hok, hok']
    exact ⟨hjudged, trivial⟩
  · have hok' : ((s.withDb db).dlg.judgeBeforeEncrypt acp combo1 q).1 = some false := hok
    simp only [onEncryptFile, turnsBy, hok, hok']
    exact ⟨hjudged, trivial⟩
  · have hok' : ((s.withDb db).dlg.judgeBeforeEncrypt acp combo1 q).1 = some true := hok
    obtain ⟨hsame, hresult⟩ := EventLoop.loop_simulation
      (fun _ _ findex hp => SameSent.turn rng acp i combo1 q env findex hp) hjudged
      (List.range (s.judged acp combo1 q).dlg.selFileNum)
    obtain ⟨hsession, hturns, hstop⟩ := onEncryptFile_of_judged rng acp hok env now ts
    obtain ⟨hsession', hturns', hstop'⟩ := onEncryptFile_of_judged rng acp hok' env now ts'
    rw [hsession, hturns, hstop, hsession', hturns', hstop']
    exact ⟨hsame, congrArg (Option.elim · _ _) hresult⟩

theorem SameSent.handle (h : SameSent rng acp i p p') (e : Message) :
    SameSent rng acp i
        (EventLoop.watched (Session.handle rng acp) (turnsBy rng acp) p e).1
        (EventLoop.watched (Session.handle rng acp) (turnsBy rng acp) p' e).1 ∧
      (EventLoop.watched (Session.handle rng acp) (turnsBy rng acp) p e).2 =
        (EventLoop.watched (Session.handle rng acp) (turnsBy rng acp) p' e).2 := by
  cases e with
  | encryptFile combo1 q env now =>
    obtain ⟨hsame, hresult⟩ := h.onEncryptFile rng acp i combo1 q env now
    refine ⟨hsame, ?_⟩
    simp only [EventLoop.watched, Session.handle, hresult]
  | cbnSelchange entry q =>
    rcases p with ⟨s, ts⟩
    rcases p' with ⟨s', ts'⟩
    obtain ⟨⟨db, rfl⟩, hsent⟩ := h
    have horg : (s.withDb db).dlg.onCbnSelchange acp entry q = s.dlg.onCbnSelchange acp entry q :=
      rfl
    simp only [EventLoop.watched, Session.handle, horg]
    cases s.dlg.onCbnSelchange acp entry q with
    | none => exact ⟨⟨⟨db, rfl⟩, hsent⟩, rfl⟩
    | some d => exact ⟨⟨⟨db, rfl⟩, hsent⟩, rfl⟩
  | _ =>
    obtain ⟨⟨db, hdb⟩, hsent⟩ := h
    refine ⟨⟨⟨db, ?_⟩, hsent⟩, rfl⟩
    simp only [EventLoop.watched, Session.handle, hdb]
    rfl

end

namespace Running

variable {ι : Type*} (acp : CString → Bytes) (p : Running)

end Running

end SecProGIS
