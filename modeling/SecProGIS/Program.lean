import SecProGIS.Lib.Growth
import SecProGIS.InitInstance
import SecProGIS.Faults

/-! The whole program: the login, and the dialog for the account that was
accepted. No row leaves the key table, and each row that is new or changed is
that of a turn of this run and of this account. -/

namespace SecProGIS

def KmConf.initial : KmConf := ⟨List.replicate 20 0, 0⟩

/-- The dialog as `InitInstance` brings it up: constructed before the login,
with the number from it; `mem` has what memory, disk and server hold. -/
def Session.begun (mem : Session) (w : MainWindow) : Session :=
  Session.opened
    { mem with
      dlg := { mem.dlg.constructed with adminID := w.adminID }
      kmConf := KmConf.initial }

theorem begun_serves (mem : Session) (w : MainWindow) : (mem.begun w).Serves w.adminID :=
  ⟨rfl, fun h => absurd h Bool.false_ne_true⟩

/-- The row is what a turn stored for the digest it made. -/
structure Turn.RowOf (t : Turn) (rng : Rng) (acp : CString → Bytes) (admin : Int)
    (r : Rows.Row Column Bytes) : Prop where
  md5C : ∃ d, t.digest rng = some d ∧ r .md5C = some d
  md5P : ∃ plain, t.before.openPlain (t.env t.findex) t.findex = some plain ∧
    (plain.length < 2 ^ 31 → r .md5P = some (Hex.text (sm3 plain)))
  skey : r .skey = some ((t.env t.findex).newKey rng)
  org : 0 < (t.orgTable acp).getSize ∧
    r .org = some (Decimal.intText (ArchiveDlg.firstCell (t.orgTable acp)))
  expire : t.before.dlg.mDate64t ≠ 0 ∧ r .expire = some (Decimal.intText t.before.dlg.mDate64t)
  admin : r .admin = some (Decimal.intText admin)
  encTm : r .encTm = some (Decimal.intText (t.env t.findex).storeNow)

/-- The rows differ in the name of the file and the remark at most. -/
def SameButName (r r' : Rows.Row Column Bytes) : Prop :=
  ∀ c, c ≠ .fname → c ≠ .rmrk → r' c = r c

theorem SameButName.assign (plainName remark : Bytes) (r : Rows.Row Column Bytes) :
    SameButName r (Rows.assign [(.fname, plainName), (.rmrk, remark)] r) := by
  intro c hname hremark
  cases c with
  | fname => exact absurd rfl hname
  | rmrk => exact absurd rfl hremark
  | _ => rfl

theorem SameButName.trans {r s u : Rows.Row Column Bytes} (h : SameButName r s)
    (h' : SameButName s u) : SameButName r u :=
  fun c hname hremark => (h' c hname hremark).trans (h c hname hremark)

theorem Turn.RowOf.sameButName {t : Turn} {rng : Rng} {acp : CString → Bytes} {admin : Int}
    {r r' : Rows.Row Column Bytes} (h : t.RowOf rng acp admin r) (hsame : SameButName r r') :
    t.RowOf rng acp admin r' := by
  have hcol : ∀ c, c ≠ .fname → c ≠ .rmrk → r' c = r c := hsame
  refine ⟨?_, ?_, ?_, ⟨h.org.1, ?_⟩, ⟨h.expire.1, ?_⟩, ?_, ?_⟩
  · rw [hcol _ (by simp) (by simp)]
    exact h.md5C
  · rw [hcol _ (by simp) (by simp)]
    exact h.md5P
  · rw [hcol _ (by simp) (by simp), h.skey]
  · rw [hcol _ (by simp) (by simp), h.org.2]
  · rw [hcol _ (by simp) (by simp), h.expire.2]
  · rw [hcol _ (by simp) (by simp), h.admin]
  · rw [hcol _ (by simp) (by simp), h.encTm]

section

variable (rng : Rng) (acp : CString → Bytes) (admin : Int) (ts : List Turn)

/-- Some turn of the record stored the row. -/
def WrittenBy (r : Rows.Row Column Bytes) : Prop := ∃ t ∈ ts, t.RowOf rng acp admin r

/-- What a row may become: it keeps its digest, and is as before but for the
name and the remark unless some turn stored it. -/
def ChangedBy (r r' : Rows.Row Column Bytes) : Prop :=
  r' .md5C = r .md5C ∧ (SameButName r r' ∨ WrittenBy rng acp admin ts r')

/-- What the turns made of the table. -/
def Accounted (t t' : List (Rows.Row Column Bytes)) : Prop :=
  Grows (ChangedBy rng acp admin ts) (WrittenBy rng acp admin ts) t t'

theorem ChangedBy.refl (r : Rows.Row Column Bytes) : ChangedBy rng acp admin ts r r :=
  ⟨rfl, .inl fun _ _ _ => rfl⟩

theorem Accounted.refl (t : List (Rows.Row Column Bytes)) : Accounted rng acp admin ts t t :=
  Grows.refl (ChangedBy.refl rng acp admin ts) t

variable {rng acp admin ts} {ts' : List Turn} {r s u : Rows.Row Column Bytes}
  {t t' t'' : List (Rows.Row Column Bytes)}

theorem WrittenBy.changed (h : WrittenBy rng acp admin ts r)
    (hrs : ChangedBy rng acp admin ts r s) : WrittenBy rng acp admin ts s := by
  obtain ⟨t, ht, hrow⟩ := h
  rcases hrs.2 with hsame | hwritten
  · exact ⟨t, ht, hrow.sameButName hsame⟩
  · exact hwritten

theorem ChangedBy.trans (h : ChangedBy rng acp admin ts r s)
    (h' : ChangedBy rng acp admin ts s u) : ChangedBy rng acp admin ts r u := by
  refine ⟨h'.1.trans h.1, ?_⟩
  rcases h.2 with hsame | hwritten
  · exact h'.2.imp_left hsame.trans
  · exact .inr (hwritten.changed h')

theorem WrittenBy.mono (hsub : ts ⊆ ts') (h : WrittenBy rng acp admin ts r) :
    WrittenBy rng acp admin ts' r := by
  obtain ⟨t, ht, hrow⟩ := h
  exact ⟨t, hsub ht, hrow⟩

theorem ChangedBy.mono (hsub : ts ⊆ ts') (h : ChangedBy rng acp admin ts r s) :
    ChangedBy rng acp admin ts' r s :=
  ⟨h.1, h.2.imp_right (WrittenBy.mono hsub)⟩

theorem Accounted.trans (h : Accounted rng acp admin ts t t')
    (h' : Accounted rng acp admin ts t' t'') : Accounted rng acp admin ts t t'' :=
  Grows.trans (fun _ _ _ => ChangedBy.trans) (fun _ _ => WrittenBy.changed) h h'

theorem Accounted.mono (hsub : ts ⊆ ts') (h : Accounted rng acp admin ts t t') :
    Accounted rng acp admin ts' t t' :=
  Grows.mono (fun _ _ => ChangedBy.mono hsub) (fun _ => WrittenBy.mono hsub) h

end

section

variable (rng : Rng) (acp : CString → Bytes) {admin : Int}

theorem accounted_update {ts : List Turn} {vs w : Rows.Values Column Bytes}
    (h : ∀ r, Rows.holds w r = true → ChangedBy rng acp admin ts r (Rows.assign vs r))
    (t : List (Rows.Row Column Bytes)) : Accounted rng acp admin ts t (Rows.update vs w t) := by
  refine Grows.map (fun r => ?_) t
  by_cases hr : Rows.holds w r = true
  · rw [if_pos hr]
    exact h r hr
  · rw [if_neg hr]
    exact ChangedBy.refl rng acp admin ts r

theorem accounted_name (ts : List Turn) (plainName remark : CString) (md5 : Bytes)
    (db : Db Column) : Accounted rng acp admin ts (db (ascii "service"))
      ((nameStatement acp plainName remark md5).run db (ascii "service")) := by
  simp only [nameStatement, Statement.run, Function.update_self]
  exact accounted_update rng acp (fun r _ => ⟨rfl, .inl (SameButName.assign _ _ r)⟩) _

/-- A row with the digest of the turn and the values of its store. -/
theorem rowOf_of_values {t : Turn} {s' : Session} {x : Sealed}
    (hs : sealFile rng (t.env t.findex) t.findex t.before = (s', some x))
    (hcheck : t.Checked acp admin) (hdate : t.before.dlg.mDate64t ≠ 0)
    {r : Rows.Row Column Bytes}
    (hdigest : r .md5C = some (Hex.text x.cipherMd5))
    (hvalues : ∀ c v, ((x.serv.withCipher (hexWord x.cipherMd5)
      (t.env t.findex).storeNow).stored ⟨ascii "service", admin⟩).lookup c = some v →
      r c = some v) : t.RowOf rng acp admin r := by
  obtain ⟨plain, path, hseal, _, rfl⟩ := sealFile_some rng hs
  have hkey : (t.before.sealed rng (t.env t.findex) plain).serv.skey.text =
      (t.env t.findex).newKey rng :=
    (sealed_skey t.before rng (t.env t.findex) plain).text_eq fun _ => keyText_ne_zero
  refine ⟨⟨_, ?_, hdigest⟩, ⟨plain, hseal.plain_eq, fun hlen => ?_⟩, ?_, ⟨hcheck.org.1, ?_⟩,
    ⟨hdate, hvalues _ _ rfl⟩, hvalues _ _ rfl, hvalues _ _ rfl⟩
  · rw [Turn.digest, hs]
    rfl
  · refine hvalues _ _ ?_
    rw [sealed_stored rng (t.env t.findex) hlen]
    rfl
  · rw [← hkey]
    exact hvalues _ _ rfl
  · rw [← hcheck.org.2]
    exact hvalues _ _ rfl

theorem accounted_rowsAfter {t : Turn} {serv : KmServ} {d : Bytes} (hd : serv.md5Cipher.text = d)
    (hrow : ∀ r : Rows.Row Column Bytes, r .md5C = some d →
      (∀ c v, (serv.stored ⟨ascii "service", admin⟩).lookup c = some v → r c = some v) →
      t.RowOf rng acp admin r) (sel : Call) (db : Db Column) :
    Accounted rng acp admin [t] (db (ascii "service"))
      (serv.rowsAfter ⟨ascii "service", admin⟩ sel db) := by
  have hk := KmServ.stored_lookup_md5C ⟨ascii "service", admin⟩ serv
  rw [KmServ.rowsAfter]
  split
  · refine accounted_update rng acp (fun r hr => ?_) _
    rw [KmServ.existing, hd, Rows.holds_cons, Rows.holds_nil, Bool.and_true,
      decide_eq_true_eq] at hr
    have hkept : Rows.assign (serv.stored ⟨ascii "service", admin⟩) r .md5C = r .md5C :=
      Rows.assign_of_none hk r
    refine ⟨hkept, .inr ⟨t, by simp, hrow _ (hkept.trans hr) fun c v hv => ?_⟩⟩
    exact Rows.assign_of_lookup hv r
  · refine Grows.append (ChangedBy.refl rng acp admin [t]) _ ?_
    rw [List.forall_mem_singleton]
    refine ⟨t, by simp, hrow _ ?_ fun c v hv => Rows.assign_cons_of_lookup hk hv _ _⟩
    exact Rows.assign_of_lookup (hd ▸ List.lookup_cons_self ..) _

theorem Turn.after_accounted (t : Turn) (h : t.Checked acp admin) (hplain : t.Plain acp) :
    Accounted rng acp admin [t] (t.before.db (ascii "service"))
      ((t.after rng acp).db (ascii "service")) := by
  have hdb := sealFile_db rng (t.env t.findex) t.findex t.before
  rcases hs : sealFile rng (t.env t.findex) t.findex t.before with ⟨s', o⟩
  rw [hs] at hdb
  simp only [Turn.after, encryptFile, hs, ← hdb]
  cases o with
  | none => exact Accounted.refl rng acp admin [t] _
  | some x =>
    have hkm : s'.kmConf = ⟨ascii "service", admin⟩ := by
      obtain ⟨_, _, _, rfl, _⟩ := sealFile_some rng hs
      rw [← h.serves.1]
      exact written_kmConf rng h.serves.2
    have hstore : Accounted rng acp admin [t] (s'.db (ascii "service")) ((x.serv.store s'.kmConf
        (hexWord x.cipherMd5) (t.env t.findex).storeNow (t.env t.findex).sel
        (t.env t.findex).wr s'.db).2.2 (ascii "service")) := by
      rw [KmServ.store_db, hkm]
      split
      · rename_i haccepts
        have hdate : t.before.dlg.mDate64t ≠ 0 := by
          obtain ⟨plain, path, _, _, rfl⟩ := sealFile_some rng hs
          exact (sealed_accepts_iff rng _ rfl _).mp haccepts.1
        have htext : (x.serv.withCipher (hexWord x.cipherMd5)
            (t.env t.findex).storeNow).md5Cipher.text = Hex.text x.cipherMd5 :=
          hexWord_copy_text (sealed_length rng hs)
        exact accounted_rowsAfter rng acp htext
          (fun r hdigest hvalues => rowOf_of_values rng acp hs h hdate hdigest hvalues) _ _
      · exact Accounted.refl rng acp admin [t] _
    rcases recordFile_db_or acp (hplain.sealed rng acp hs) (sealed_length rng hs) with
      hafter | ⟨plainName, hafter⟩
    · rw [hafter]
      exact hstore
    · rw [hafter]
      exact hstore.trans (accounted_name rng acp [t] plainName _ _ _)

end

theorem Accounted.keptByTurns (rng : Rng) (acp : CString → Bytes) (admin : Int)
    (t : List (Rows.Row Column Bytes)) : KeptByTurns rng acp admin fun s ts =>
      (∀ u ∈ ts, u.Plain acp) → Accounted rng acp admin ts t (s.db (ascii "service")) := by
  refine KeptByTurns.of_plain (fun s s' ts _ hdb h => hdb ▸ h) ?_
  intro u ts hs hplain h
  have hold := h.mono (List.subset_append_left ts [u])
  have hnew := (u.after_accounted rng acp hs hplain).mono (List.subset_append_right ts [u])
  exact hold.trans hnew

/-- A run of the program: the login, and when the dialog comes up its messages,
with a record of the turns. -/
def runProgram (rng : Rng) (acp : CString → Bytes) (md5 : Md5) (now : Int) (c : Creation)
    (admid : Int) (login : List LoginMessage) (mem : Session) (run : List Message) :
    Option (Session × List Turn) :=
  (initInstance acp md5 now c admid login).map fun w =>
    (EventLoop.loop (EventLoop.watched (Session.handle rng acp) (turnsBy rng acp))
      (mem.begun w, []) run).1

theorem loggedIn_of_initInstance {acp : CString → Bytes} {md5 : Md5} {now : Int} {admid : Int}
    {login : List LoginMessage} {w : MainWindow}
    (hok : EventLoop.Along (LoginDlg.handle acp md5) (fun _ m => m.NotOk) (LoginDlg.start admid)
      login)
    (h : initInstance acp md5 now .created admid login = some w) :
    LoggedIn acp md5 (lastCheck acp md5 .created admid login) w.adminID := by
  have hday : ¬ iDay now ≤ 0 := fun hd => by simp [initInstance, hd] at h
  obtain ⟨result, hend, hcancel, rfl⟩ := (initInstance_created acp md5 hday admid login w).mp h
  exact loggedIn_of_ended hok hend hcancel

/-- When the login dialog comes up and no `IDOK` comes to it, a run of the
program that gets to its window was let in with the number of an account. When
the server reads the names and remarks of its turns as they stand, it keeps
every row of the key table in its place under its digest, and has for each row
that is new or changed, but for name and remark, a turn that stored it with
that number. -/
theorem program_rows (rng : Rng) (acp : CString → Bytes) (md5 : Md5) (now : Int) (admid : Int)
    (login : List LoginMessage)
    (hok : EventLoop.Along (LoginDlg.handle acp md5) (fun _ m => m.NotOk) (LoginDlg.start admid)
      login)
    (mem : Session) (run : List Message) (s : Session) (ts : List Turn)
    (h : runProgram rng acp md5 now .created admid login mem run = some (s, ts))
    (hplain : ∀ t ∈ ts, t.Plain acp) :
    ∃ admin, LoggedIn acp md5 (lastCheck acp md5 .created admid login) admin ∧
      Grows (ChangedBy rng acp admin ts) (WrittenBy rng acp admin ts) (mem.db (ascii "service"))
        (s.db (ascii "service")) := by
  obtain ⟨w, hw, hrun⟩ := Option.map_eq_some_iff.mp h
  refine ⟨w.adminID, loggedIn_of_initInstance hok hw, ?_⟩
  have hkept := Accounted.keptByTurns rng acp w.adminID (mem.db (ascii "service"))
  have hstart : Accounted rng acp w.adminID [] (mem.db (ascii "service"))
      ((mem.begun w).db (ascii "service")) := Accounted.refl rng acp w.adminID [] _
  have hend := hkept.run rng acp (begun_serves mem w) (fun _ => hstart) run
  rw [hrun] at hend
  exact hend hplain

def sampleRow : AdminRow :=
  ⟨some (ascii "5"), some (ascii "a"), some (Hex.text (List.replicate 16 0)), []⟩

def sampleLogin : List LoginMessage :=
  [.enChange ⟨"a".toList, "p".toList⟩,
    .buttonLogin ⟨answered, fun _ => [sampleRow], ⟨"a".toList, "p".toList⟩⟩]

/-- The row of an older file. -/
def sampleOld : Rows.Row Column Bytes :=
  Rows.assign [(.md5C, Hex.text (List.replicate 32 0))] fun _ => none

def sampleMem : Session := { sampleSession with db := fun _ => [sampleOld] }

def sampleSteps : List Message :=
  [.readFile "org".toList (some ["C:\\a.dwg".toList]), .savePath (some "C:\\b.dwg".toList),
    .datetimechange 1700000000 1699990000]

/-- The dialog of the account 5, ready for a click. -/
def sampleReady : Session :=
  (EventLoop.loop (Session.handle (fun _ _ => 0) latin) (sampleMem.begun ⟨5, "a".toList⟩)
    sampleSteps).1

def sampleReadyTurn : Turn :=
  ⟨"org".toList, sampleOrg, cleanEnv, 0, sampleReady.judged latin "org".toList sampleOrg⟩

theorem sampleReady_turns :
    turnsBy (fun _ _ => 0) latin [] sampleReady cleanClick = [sampleReadyTurn] :=
  clean_turns (by decide) rfl

theorem sampleReadyTurn_digest : sampleReadyTurn.digest (fun _ _ => 0) ≠ none := by
  have hs : Sealable sampleReadyTurn.before (cleanEnv 0) 0 samplePlain "C:\\b.dwg".toList :=
    ⟨rfl, rfl, by decide, by decide⟩
  have hseal : sealFile (fun _ _ => 0) (sampleReadyTurn.env sampleReadyTurn.findex)
      sampleReadyTurn.findex sampleReadyTurn.before = _ := hs.sealFile_eq fun _ _ => 0
  rw [Turn.digest, hseal]
  exact Option.some_ne_none _

theorem loop_sampleSteps (s : Session) (e : Message) :
    EventLoop.loop (EventLoop.watched (Session.handle (fun _ _ => 0) latin)
        (turnsBy (fun _ _ => 0) latin)) (s, []) (sampleSteps ++ [e]) =
      EventLoop.loop (EventLoop.watched (Session.handle (fun _ _ => 0) latin)
        (turnsBy (fun _ _ => 0) latin))
        ((EventLoop.loop (Session.handle (fun _ _ => 0) latin) s sampleSteps).1, []) [e] := rfl

theorem sampleProgram_turns : ∃ s, runProgram (fun _ _ => 0) latin
    (fun _ => Vector.replicate 16 0) 1700000000 .created 7 sampleLogin sampleMem
    (sampleSteps ++ [cleanClick]) =
      some (s, turnsBy (fun _ _ => 0) latin [] sampleReady cleanClick) := by
  have hw : initInstance latin (fun _ => Vector.replicate 16 0) 1700000000 .created 7
      sampleLogin = some ⟨5, "a".toList⟩ := by decide
  rw [runProgram, hw, Option.map_some, loop_sampleSteps]
  exact ⟨_, congrArg some (Prod.ext rfl (EventLoop.loop_watched_singleton ..))⟩

theorem program_rows_sample : ∃ s t admin,
    runProgram (fun _ _ => 0) latin (fun _ => Vector.replicate 16 0) 1700000000 .created 7
      sampleLogin sampleMem (sampleSteps ++ [cleanClick]) = some (s, [t]) ∧
    t.digest (fun _ _ => 0) ≠ none ∧
    Grows (ChangedBy (fun _ _ => 0) latin admin [t]) (WrittenBy (fun _ _ => 0) latin admin [t])
      [sampleOld] (s.db (ascii "service")) := by
  obtain ⟨s, hrun⟩ := sampleProgram_turns
  have hplain : ∀ t ∈ turnsBy (fun _ _ => 0) latin [] sampleReady cleanClick, t.Plain latin :=
    turnsBy_plain _ (by simp) (fun findex => clean_plain rfl findex) _ _ _
  rw [sampleReady_turns] at hrun hplain
  obtain ⟨admin, _, hrows⟩ := program_rows (fun _ _ => 0) latin
    (fun _ => Vector.replicate 16 0) 1700000000 7 sampleLogin
    ⟨trivial, fun _ => ⟨trivial, fun _ => trivial⟩⟩ sampleMem _ s _ hrun hplain
  exact ⟨s, _, admin, hrun, sampleReadyTurn_digest, hrows⟩

end SecProGIS
