import SecProGIS.LoginDlg

/-! `InitInstance` of `Archive.cpp`: the main window opens unless the version
has expired or the login dialog returns `IDCANCEL`. -/

namespace SecProGIS

structure MainWindow where
  adminID : Int
  adminName : CString
deriving DecidableEq

def iDay (now : Int) : Int := (BitVec.ofInt 32 ((2543507200 - now).tdiv 86400)).toInt

/-- The login dialog starts with empty texts; `mem` is what memory holds in
`admid`. -/
def LoginDlg.start (mem : Int) : LoginDlg := ⟨[], [], mem⟩

def initInstance (acp : CString → Bytes) (md5 : Md5) (now : Int) (c : Creation) (mem : Int)
    (run : List LoginMessage) : Option MainWindow :=
  if iDay now ≤ 0 then none
  else
    match LoginDlg.doModal acp md5 c (LoginDlg.start mem) run with
    | (_, none) => none
    | (d, some mResponse) => if mResponse = idCancel then none else some ⟨d.admid, d.managerName⟩

abbrev LastCheck := Option (LoginDlg × Attempt)

def seeCheck (w : LastCheck) (d : LoginDlg) : LoginMessage → LastCheck
  | .buttonLogin a => some (d, a)
  | _ => w

/-- The last call of `CheckAdmin` while the login dialog was open. -/
def lastCheck (acp : CString → Bytes) (md5 : Md5) (c : Creation) (mem : Int)
    (run : List LoginMessage) : LastCheck :=
  match c with
  | .created => (EventLoop.loop (EventLoop.watched (LoginDlg.handle acp md5) seeCheck)
      (LoginDlg.start mem, none) run).1.2
  | _ => none

/-- The last check accepted, and the main window has the number of the row. -/
def LoggedIn (acp : CString → Bytes) (md5 : Md5) (last : LastCheck) (adminID : Int) : Prop :=
  ∃ d a, last = some (d, a) ∧ Accepted acp md5 d a adminID

def LoginMessage.NotOk : LoginMessage → Prop
  | .idOk _ => False
  | _ => True

section

variable {acp : CString → Bytes} {md5 : Md5}

theorem handle_ended {d : LoginDlg} {m : LoginMessage} {result : Int}
    (h : (d.handle acp md5 m).2 = some (.ended result)) (hok : m.NotOk) (hne : result ≠ idCancel) :
    ∃ a, m = .buttonLogin a ∧ Accepted acp md5 d a (d.handle acp md5 m).1.admid := by
  cases m with
  | buttonLogin a => exact ⟨a, rfl, (accepted_of_ended h).2⟩
  | enChange b => cases h
  | idOk b => exact hok.elim
  | idCancel =>
    cases h
    exact absurd rfl hne

theorem loggedIn_of_ended {run : List LoginMessage} {d : LoginDlg} {w : LastCheck} {result : Int}
    (hok : EventLoop.Along (LoginDlg.handle acp md5) (fun _ m => m.NotOk) d run)
    (h : (EventLoop.loop (LoginDlg.handle acp md5) d run).2 = some (.ended result))
    (hne : result ≠ idCancel) :
    LoggedIn acp md5
      (EventLoop.loop (EventLoop.watched (LoginDlg.handle acp md5) seeCheck) (d, w) run).1.2
      (EventLoop.loop (LoginDlg.handle acp md5) d run).1.admid := by
  induction run generalizing d w with
  | nil => cases h
  | cons m run ih =>
    cases hm : (d.handle acp md5 m).2 with
    | none =>
      have hw : (EventLoop.watched (LoginDlg.handle acp md5) seeCheck (d, w) m).2 = none := hm
      rw [EventLoop.loop_cons_next hm] at h ⊢
      rw [EventLoop.loop_cons_next hw]
      exact ih (hok.2 hm) h
    | some r =>
      have hw : (EventLoop.watched (LoginDlg.handle acp md5) seeCheck (d, w) m).2 = some r := hm
      rw [EventLoop.loop_cons_exit hm] at h ⊢
      rw [EventLoop.loop_cons_exit hw]
      obtain ⟨a, rfl, haccept⟩ := handle_ended h hok.1 hne
      exact ⟨d, a, rfl, haccept⟩

def Rejected (acp : CString → Bytes) (md5 : Md5) (w : LastCheck) : Prop :=
  ∀ adminID, ¬ LoggedIn acp md5 w adminID

theorem rejected_seeCheck {d : LoginDlg} {w : LastCheck} {m : LoginMessage}
    (hw : Rejected acp md5 w) (h : (d.handle acp md5 m).2 = none) :
    Rejected acp md5 (seeCheck w d m) := by
  cases m with
  | buttonLogin a =>
    rintro id ⟨d', a', heq, haccept⟩
    cases heq
    exact haccept.handle_ne_none h
  | _ => exact hw

theorem ended_of_idOk {run : List LoginMessage} {d : LoginDlg} {w : LastCheck}
    (hw : Rejected acp md5 w)
    (hok : ¬ EventLoop.Along (LoginDlg.handle acp md5) (fun _ m => m.NotOk) d run) :
    (EventLoop.loop (LoginDlg.handle acp md5) d run).2 = some (.ended idOk) ∧
      Rejected acp md5
        (EventLoop.loop (EventLoop.watched (LoginDlg.handle acp md5) seeCheck) (d, w) run).1.2 := by
  induction run generalizing d w with
  | nil => exact absurd trivial hok
  | cons m run ih =>
    by_cases hm : m.NotOk
    · obtain ⟨hnext, hrest⟩ : (d.handle acp md5 m).2 = none ∧
          ¬ EventLoop.Along (LoginDlg.handle acp md5) (fun _ m => m.NotOk)
            (d.handle acp md5 m).1 run := by
        by_contra hcon
        exact hok ⟨hm, fun hn => by_contra fun h => hcon ⟨hn, h⟩⟩
      have hwatch : (EventLoop.watched (LoginDlg.handle acp md5) seeCheck (d, w) m).2 = none :=
        hnext
      rw [EventLoop.loop_cons_next hnext, EventLoop.loop_cons_next hwatch]
      exact ih (rejected_seeCheck hw hnext) hrest
    · cases m with
      | idOk b => exact ⟨rfl, hw⟩
      | _ => exact absurd trivial hm

end

theorem rejected_none (acp : CString → Bytes) (md5 : Md5) : Rejected acp md5 none := by
  rintro id ⟨d, a, heq, _⟩
  cases heq

theorem initInstance_not_created (acp : CString → Bytes) (md5 : Md5) {now : Int}
    (hday : ¬ iDay now ≤ 0) {c : Creation} (hc : c ≠ .created) (mem : Int)
    (run : List LoginMessage) : initInstance acp md5 now c mem run = some ⟨mem, []⟩ ∧
      lastCheck acp md5 c mem run = none := by
  rw [initInstance, if_neg hday]
  cases c with
  | created => exact absurd rfl hc
  | failed => exact ⟨rfl, rfl⟩
  | aborted => exact ⟨rfl, rfl⟩

theorem initInstance_created (acp : CString → Bytes) (md5 : Md5) {now : Int} (hday : ¬ iDay now ≤ 0)
    (mem : Int) (run : List LoginMessage) (w : MainWindow) :
    initInstance acp md5 now .created mem run = some w ↔
      ∃ result, (EventLoop.loop (LoginDlg.handle acp md5) (LoginDlg.start mem) run).2 =
          some (.ended result) ∧ result ≠ idCancel ∧
        w = ⟨(EventLoop.loop (LoginDlg.handle acp md5) (LoginDlg.start mem) run).1.admid,
          (EventLoop.loop (LoginDlg.handle acp md5) (LoginDlg.start mem) run).1.managerName⟩ := by
  rw [initInstance, if_neg hday]
  simp only [LoginDlg.doModal]
  rcases EventLoop.loop (LoginDlg.handle acp md5) (LoginDlg.start mem) run with ⟨d, o⟩
  match o with
  | none => simp
  | some .terminated => simp
  | some (.ended result) =>
    by_cases hcancel : result = idCancel <;> simp [hcancel, eq_comm]

/-- The main window opens only after an accepted login exactly when the version
has expired, or the login dialog comes up and no `IDOK` comes while it is open. -/
theorem main_window_iff (acp : CString → Bytes) (md5 : Md5) (now : Int) (c : Creation) (mem : Int)
    (run : List LoginMessage) :
    (∀ w, initInstance acp md5 now c mem run = some w →
      LoggedIn acp md5 (lastCheck acp md5 c mem run) w.adminID) ↔
    iDay now ≤ 0 ∨ c = .created ∧
      EventLoop.Along (LoginDlg.handle acp md5) (fun _ m => m.NotOk) (LoginDlg.start mem) run := by
  by_cases hday : iDay now ≤ 0
  · simp [initInstance, hday]
  have hnone := rejected_none acp md5
  by_cases hc : c = .created
  · subst hc
    simp only [initInstance_created acp md5 hday, hday, false_or, true_and]
    constructor
    · intro h
      by_contra hok
      obtain ⟨hend, hrejected⟩ := ended_of_idOk hnone hok
      exact hrejected _ (h _ ⟨idOk, hend, by decide, rfl⟩)
    · rintro hok w ⟨result, hend, hcancel, rfl⟩
      exact loggedIn_of_ended hok hend hcancel
  · obtain ⟨hopen, hlast⟩ := initInstance_not_created acp md5 hday hc mem run
    simp only [hopen, hlast, hday, hc, false_or, false_and, iff_false]
    exact fun h => hnone mem (h _ rfl)

/-- `IDOK` at once, and a dialog that cannot be created, open the main window
without a login. -/
theorem main_window_without_login :
    (∃ w, initInstance latin (fun _ => Vector.replicate 16 0) 1700000000 .created 7
        [.idOk ⟨[], []⟩] = some w ∧
      ¬ LoggedIn latin (fun _ => Vector.replicate 16 0)
        (lastCheck latin (fun _ => Vector.replicate 16 0) .created 7 [.idOk ⟨[], []⟩])
        w.adminID) ∧
    ∃ w, initInstance latin (fun _ => Vector.replicate 16 0) 1700000000 .failed 7 [] =
        some w ∧
      ¬ LoggedIn latin (fun _ => Vector.replicate 16 0)
        (lastCheck latin (fun _ => Vector.replicate 16 0) .failed 7 []) w.adminID :=
  ⟨⟨⟨7, []⟩, by decide, rejected_none _ _ _⟩, ⟨⟨7, []⟩, by decide, rejected_none _ _ _⟩⟩

end SecProGIS
