import Mathlib

/-! The life of one resource in a trace of events: it is acquired at most once,
used only while it is held, and released when it was acquired. -/

namespace Typestate

inductive Role where
  | acquire | use | release | other
deriving DecidableEq

inductive Phase where
  | absent | held | released
deriving DecidableEq

def next : Phase → Role → Option Phase
  | p, .other => some p
  | .absent, .acquire => some .held
  | .held, .use => some .held
  | .held, .release => some .released
  | _, _ => none

section

variable {ε : Type*} (role : ε → Role)

def run : Phase → List ε → Option Phase
  | p, [] => some p
  | p, e :: t => (next p (role e)).bind fun q => run q t

def Linear (t : List ε) : Prop :=
  run role .absent t = some .absent ∨ run role .absent t = some .released

instance (t : List ε) : Decidable (Linear role t) := inferInstanceAs (Decidable (_ ∨ _))

variable {role}

theorem run_countP {f : Phase → Nat} {r : Role}
    (hf : ∀ p r' q, next p r' = some q → f q = f p + if r' = r then 1 else 0) {p q : Phase}
    {t : List ε} (h : run role p t = some q) : f q = f p + t.countP fun e => role e = r := by
  induction t generalizing p with
  | nil =>
    cases h
    rfl
  | cons e t ih =>
    rw [run, Option.bind_eq_some_iff] at h
    obtain ⟨p', hnext, hrun⟩ := h
    rw [ih hrun, hf p (role e) p' hnext, List.countP_cons, Nat.add_assoc, Nat.add_comm (ite _ _ _)]
    simp only [decide_eq_true_eq]

def Phase.acquires : Phase → Nat
  | .absent => 0
  | .held => 1
  | .released => 1

def Phase.releases : Phase → Nat
  | .absent => 0
  | .held => 0
  | .released => 1

theorem next_acquires (p : Phase) (r : Role) (q : Phase) (h : next p r = some q) :
    q.acquires = p.acquires + if r = .acquire then 1 else 0 := by
  cases p <;> cases r <;> cases h <;> rfl

theorem next_releases (p : Phase) (r : Role) (q : Phase) (h : next p r = some q) :
    q.releases = p.releases + if r = .release then 1 else 0 := by
  cases p <;> cases r <;> cases h <;> rfl

theorem Linear.release_once {t : List ε} (h : Linear role t) {e : ε} (he : e ∈ t)
    (hrole : role e = .acquire) : t.countP (fun e => role e = .release) = 1 := by
  have hpos : 0 < t.countP fun e => role e = .acquire :=
    List.countP_pos_iff.mpr ⟨e, he, decide_eq_true hrole⟩
  rcases h with h | h
  · have hnone : 0 = 0 + _ := run_countP next_acquires h
    omega
  · have hone : 1 = 0 + _ := run_countP next_releases h
    rw [hone, Nat.zero_add]

end

end Typestate
