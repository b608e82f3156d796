import SecProGIS.EncryptFile

/-! The messages to the main dialog, and the deadline in its check: the check
compares it with the last look at the clock, not with the clock. -/

namespace SecProGIS

/-- One message to the main dialog, with what its handler meets; `now` is the
clock at a click on the button of the encryption. -/
inductive Message where
  | readFile (combo1 : CString) (selection : Option (List CString))
  | savePath (choice : Option CString)
  | datetimechange (date now : Int)
  | cbnSelchange (entry : CString) (q : ArchiveDlg.OrgQuery)
  | enChangeEdit3 (c : Controls)
  | encryptFile (combo1 : CString) (q : ArchiveDlg.OrgQuery) (env : Nat → FileEnv) (now : Int)

namespace Session

def opened (s : Session) : Session := { s with dlg := s.dlg.onInitDialog }

/-- The handlers of the message map; a result means that the program ends. -/
def handle (rng : Rng) (acp : CString → Bytes) (s : Session) : Message → Session × Option Unit
  | .readFile combo1 selection => ({ s with dlg := s.dlg.onReadFile combo1 selection }, none)
  | .savePath choice => ({ s with dlg := s.dlg.onSavePath choice }, none)
  | .datetimechange date now => ({ s with dlg := s.dlg.onDatetimechange date now }, none)
  | .cbnSelchange entry q =>
    match s.dlg.onCbnSelchange acp entry q with
    | none => (s, some ())
    | some d => ({ s with dlg := d }, none)
  | .enChangeEdit3 c => ({ s with dlg := s.dlg.updateData c }, none)
  | .encryptFile combo1 q env _ =>
    let r := onEncryptFile rng acp s combo1 q env
    (r.1, if r.2 = .stopped .terminated then some () else none)

end Session

/-- The date picked last, and the clock when a handler last looked at it. -/
structure Watch where
  picked : Int
  looked : Int

def seeTurn (rng : Rng) (env : Nat → FileEnv) (looked : Int) (s : Session) (findex : Nat) : Int :=
  if (sealFile rng (env findex) findex s).2.isSome then (env findex).storeNow else looked

def see (rng : Rng) (acp : CString → Bytes) (w : Watch) (s : Session) : Message → Watch
  | .datetimechange date now => ⟨date, now⟩
  | .encryptFile combo1 q env _ =>
    if (s.dlg.judgeBeforeEncrypt acp combo1 q).1 = some true then
      let s := s.judged acp combo1 q
      ⟨w.picked, (EventLoop.loop (EventLoop.watched (encryptFile rng acp env) (seeTurn rng env))
        (s, w.looked) (List.range s.dlg.selFileNum)).1.2⟩
    else w
  | _ => w

def Recorded (s : Session) (w : Watch) : Prop :=
  s.dlg.mDate64t = w.picked ∧ s.dlg.currentDate64t = w.looked

def SameDates (d d' : ArchiveDlg) : Prop :=
  d'.mDate64t = d.mDate64t ∧ d'.currentDate64t = d.currentDate64t

theorem Recorded.of_sameDates {s s' : Session} {w : Watch} (h : Recorded s w)
    (hsame : SameDates s.dlg s'.dlg) : Recorded s' w :=
  ⟨hsame.1.trans h.1, hsame.2.trans h.2⟩

section

variable (rng : Rng) (acp : CString → Bytes)

theorem addPaths_dates (d : ArchiveDlg) (x : CString × CString) (paths : List CString) :
    SameDates d (d.addPaths x paths) := by
  induction paths generalizing d x with
  | nil => exact ⟨rfl, rfl⟩
  | cons path paths ih => exact ih _ _

theorem onSavePath_dates (d : ArchiveDlg) (choice : Option CString) :
    SameDates d (d.onSavePath choice) := by
  simp only [ArchiveDlg.onSavePath]
  split_ifs <;> exact ⟨rfl, rfl⟩

theorem onCbnSelchange_dates {d d' : ArchiveDlg} {entry : CString} {q : ArchiveDlg.OrgQuery}
    (h : d.onCbnSelchange acp entry q = some d') : SameDates d d' := by
  simp only [ArchiveDlg.onCbnSelchange] at h
  split_ifs at h <;> cases h <;> exact ⟨rfl, rfl⟩

theorem recorded_encryptFile (env : Nat → FileEnv) {s : Session} {d t : Int} (findex : Nat)
    (h : Recorded s ⟨d, t⟩) :
    Recorded (encryptFile rng acp env s findex).1 ⟨d, seeTurn rng env t s findex⟩ := by
  obtain ⟨_, _, _, _, _, hdlg⟩ := sealFile_frame rng (env findex) findex s
  rcases hseal : sealFile rng (env findex) findex s with ⟨s', o⟩
  rw [hseal] at hdlg
  have hsame : SameDates s.dlg s'.dlg := by
    rw [hdlg]
    exact ⟨rfl, rfl⟩
  simp only [encryptFile, seeTurn, hseal]
  cases o with
  | none => exact h.of_sameDates hsame
  | some x =>
    obtain ⟨_, _, _, _, hrecord⟩ := recordFile_frame acp (env findex) findex s' x
    rw [Recorded, hrecord]
    exact ⟨(h.of_sameDates hsame).1, rfl⟩

theorem recorded_turns (env : Nat → FileEnv) {s : Session} {d t : Int} (h : Recorded s ⟨d, t⟩)
    (files : List Nat) : Recorded (EventLoop.loop (encryptFile rng acp env) s files).1
      ⟨d, (EventLoop.loop (EventLoop.watched (encryptFile rng acp env) (seeTurn rng env))
        (s, t) files).1.2⟩ := by
  have hstep : ∀ (p : Session × Int) (findex : Nat), Recorded p.1 ⟨d, p.2⟩ →
      Recorded (EventLoop.watched (encryptFile rng acp env) (seeTurn rng env) p findex).1.1
        ⟨d, (EventLoop.watched (encryptFile rng acp env) (seeTurn rng env) p findex).1.2⟩ :=
    fun _ findex hp => recorded_encryptFile rng acp env findex hp
  have hloop := EventLoop.loop_invariant (I := fun p : Session × Int => Recorded p.1 ⟨d, p.2⟩)
    hstep (s := (s, t)) h files
  rw [(EventLoop.loop_watched _ _ _ _).1] at hloop
  exact hloop

theorem recorded_onEncryptFile (env : Nat → FileEnv) {s : Session} {w : Watch} (h : Recorded s w)
    (combo1 : CString) (q : ArchiveDlg.OrgQuery) (now : Int) :
    Recorded (onEncryptFile rng acp s combo1 q env).1
      (see rng acp w s (.encryptFile combo1 q env now)) := by
  have hjudged : Recorded (s.judged acp combo1 q) w := by
    obtain ⟨_, _, hdlg⟩ := judgeBeforeEncrypt_frame acp s.dlg combo1 q
    rw [Recorded, Session.judged, hdlg]
    exact h
  rw [onEncryptFile_fst, see]
  split
  · exact recorded_turns rng acp env hjudged _
  · exact hjudged

theorem recorded_handle {s : Session} {w : Watch} (h : Recorded s w) (e : Message) :
    Recorded (s.handle rng acp e).1 (see rng acp w s e) := by
  cases e with
  | readFile combo1 selection =>
    let cleared : ArchiveDlg :=
      { s.dlg with plainPathAry := [], plainNameAry := [], plainExtAry := [], cipherPathAry := [] }
    have hsame := addPaths_dates (cleared.updateData ⟨combo1, "无".toList⟩) ([], [])
      (selection.getD [])
    exact ⟨hsame.1.trans h.1, hsame.2.trans h.2⟩
  | savePath choice => exact h.of_sameDates (onSavePath_dates s.dlg choice)
  | datetimechange date now => exact ⟨rfl, rfl⟩
  | cbnSelchange entry q =>
    simp only [Session.handle, see]
    cases horg : s.dlg.onCbnSelchange acp entry q with
    | none => exact h
    | some d => exact h.of_sameDates (onCbnSelchange_dates acp horg)
  | enChangeEdit3 c => exact h
  | encryptFile combo1 q env now => exact recorded_onEncryptFile rng acp env h combo1 q now

end

/-- The check but for the comparison of the deadline: files, an organisation
that is found, a date that was picked, and paths to save to. -/
def Ready (acp : CString → Bytes) (d : ArchiveDlg) (combo1 : CString) (q : ArchiveDlg.OrgQuery) :
    Prop :=
  d.plainPathAry ≠ [] ∧ combo1 ≠ [] ∧ (ArchiveDlg.orgSql (cstr (acp combo1))).length < 100 ∧
    q.call.code = 0 ∧ q.rows (cstr (acp combo1)) ≠ [] ∧ d.mDate64t ≠ -1 ∧ d.cipherPathAry ≠ []

theorem judgeBeforeEncrypt_eq_true (acp : CString → Bytes) (d : ArchiveDlg) (combo1 : CString)
    (q : ArchiveDlg.OrgQuery) : (d.judgeBeforeEncrypt acp combo1 q).1 = some true ↔
      Ready acp d combo1 q ∧ d.currentDate64t < d.mDate64t := by
  have hsize := execQueryMysqlInto_getSize q.call (q.rows (cstr (acp combo1)))
  have hcode : (execQueryMysqlInto q.call (q.rows (cstr (acp combo1))) Table.empty).1 =
      q.call.code := rfl
  simp only [ArchiveDlg.judgeBeforeEncrypt, Ready, List.isEmpty_iff, hcode, hsize]
  by_cases hplain : d.plainPathAry = []
  · simp [hplain]
  by_cases hname : combo1 = []
  · simp [hplain, hname]
  by_cases hfit : (ArchiveDlg.orgSql (cstr (acp combo1))).length < 100
  · by_cases hcall : q.call.code = 0
    · by_cases hrows : q.rows (cstr (acp combo1)) = []
      · simp [hplain, hname, not_le.mpr hfit, hcall, hrows]
      · have hpos := List.length_pos_of_ne_nil hrows
        simp only [hplain, hname, not_le.mpr hfit, hcall, if_false, if_true, hpos]
        by_cases hpicked : d.mDate64t = -1
        · simp [hpicked]
        · by_cases hlate : d.mDate64t ≤ d.currentDate64t
          · simp [hpicked, hlate, not_lt.mpr hlate]
          · by_cases hpath : d.cipherPathAry = [] <;>
              simp [hplain, hname, hfit, hpicked, hlate, hpath, not_le.mp hlate, hrows]
    · by_cases hoff : q.call.code = -3 <;> simp [hplain, hname, not_le.mpr hfit, hcall, hoff]
  · simp [hplain, hname, not_lt.mp hfit, hfit]

def AtClick {σ : Type} (C : σ → CString → ArchiveDlg.OrgQuery → Int → Prop) (s : σ) :
    Message → Prop
  | .encryptFile combo1 q _ now => C s combo1 q now
  | _ => True

/-- In every run of the dialog the check lets only later deadlines through
exactly when at no click it is ready for, the date picked has come since the
last look at the clock. -/
theorem judge_deadline_iff (rng : Rng) (acp : CString → Bytes) (s : Session) (run : List Message) :
    EventLoop.Along (Session.handle rng acp) (AtClick fun s combo1 q now =>
      (s.dlg.judgeBeforeEncrypt acp combo1 q).1 = some true → now < s.dlg.mDate64t) s run ↔
    EventLoop.Along (EventLoop.watched (Session.handle rng acp) (see rng acp))
      (AtClick fun p combo1 q now => Ready acp p.1.dlg combo1 q →
        ¬ (p.2.looked < p.2.picked ∧ p.2.picked ≤ now))
      (s, ⟨s.dlg.mDate64t, s.dlg.currentDate64t⟩) run := by
  have hstep : ∀ (p : Session × Watch) (e : Message), Recorded p.1 p.2 →
      Recorded (EventLoop.watched (Session.handle rng acp) (see rng acp) p e).1.1
        (EventLoop.watched (Session.handle rng acp) (see rng acp) p e).1.2 :=
    fun _ e hp => recorded_handle rng acp hp e
  have hstart : Recorded s ⟨s.dlg.mDate64t, s.dlg.currentDate64t⟩ := ⟨rfl, rfl⟩
  rw [← EventLoop.along_watched (see rng acp) s ⟨s.dlg.mDate64t, s.dlg.currentDate64t⟩ run]
  refine EventLoop.along_congr_of_invariant (I := fun p : Session × Watch => Recorded p.1 p.2)
    hstep ?_ hstart run
  intro p e hp
  cases e with
  | encryptFile combo1 q env now =>
    have hjudge := judgeBeforeEncrypt_eq_true acp p.1.dlg combo1 q
    rw [hp.1, hp.2] at hjudge
    simp only [AtClick, hjudge, hp.1]
    rw [and_imp]
    refine forall_congr' fun _ => ?_
    rw [not_and, not_le]
  | _ => exact Iff.rfl

def sampleVisit : List Message :=
  [.readFile "org".toList (some ["C:\\a.dwg".toList]), .savePath (some "C:\\b.dwg".toList),
    .datetimechange 1700000000 1699990000,
    .encryptFile "org".toList sampleOrg
      (fun findex => { sampleEnv 1700000001 answered findex with genNow := 1700000001 }) 1700000001]

theorem judge_past_deadline :
    ¬ EventLoop.Along (Session.handle (fun _ _ => 0) latin) (AtClick fun s combo1 q now =>
      (s.dlg.judgeBeforeEncrypt latin combo1 q).1 = some true → now < s.dlg.mDate64t)
      sampleSession.opened sampleVisit := by
  intro h
  have hclick := (((h.2 rfl).2 rfl).2 rfl).1
  exact absurd (hclick (by decide)) (by decide)

end SecProGIS
