import Mathlib

/-! Loops over a list of events that a step may leave early with a result,
conditions that hold along the part of the list the loop runs through, and
loops that keep a record of what they passed. -/

namespace EventLoop

variable {σ ε ρ : Type*}

/-- Run the events in turn until one of them ends the loop. -/
def loop (step : σ → ε → σ × Option ρ) : σ → List ε → σ × Option ρ
  | s, [] => (s, none)
  | s, e :: es =>
    match step s e with
    | (s', some r) => (s', some r)
    | (s', none) => loop step s' es

/-- `C` holds of every event the loop gets to, with the state it finds. -/
def Along (step : σ → ε → σ × Option ρ) (C : σ → ε → Prop) : σ → List ε → Prop
  | _, [] => True
  | s, e :: es => C s e ∧ ((step s e).2 = none → Along step C (step s e).1 es)

def visited (step : σ → ε → σ × Option ρ) : σ → List ε → List σ
  | s, [] => [s]
  | s, e :: es =>
    s :: match step s e with
      | (s', some _) => [s']
      | (s', none) => visited step s' es

section

variable {step : σ → ε → σ × Option ρ}

@[simp] theorem loop_nil (s : σ) : loop step s [] = (s, none) := rfl

theorem loop_cons_exit {s : σ} {e : ε} {r : ρ} (h : (step s e).2 = some r) (es : List ε) :
    loop step s (e :: es) = step s e := by
  rcases hs : step s e with ⟨s', o⟩
  rw [hs] at h
  simp only at h
  simp [loop, hs, h]

theorem loop_cons_next {s : σ} {e : ε} (h : (step s e).2 = none) (es : List ε) :
    loop step s (e :: es) = loop step (step s e).1 es := by
  rcases hs : step s e with ⟨s', o⟩
  rw [hs] at h
  simp only at h
  simp [loop, hs, h]

theorem Along.imp {C D : σ → ε → Prop} (himp : ∀ s e, C s e → D s e) {s : σ} {es : List ε}
    (h : Along step C s es) : Along step D s es := by
  induction es generalizing s with
  | nil => trivial
  | cons e es ih => exact ⟨himp s e h.1, fun hn => ih (h.2 hn)⟩

theorem along_congr {C D : σ → ε → Prop} (hiff : ∀ s e, C s e ↔ D s e) (s : σ) (es : List ε) :
    Along step C s es ↔ Along step D s es :=
  ⟨Along.imp fun s e => (hiff s e).mp, Along.imp fun s e => (hiff s e).mpr⟩

theorem Along.and {C D : σ → ε → Prop} {s : σ} {es : List ε} (hc : Along step C s es)
    (hd : Along step D s es) : Along step (fun s e => C s e ∧ D s e) s es := by
  induction es generalizing s with
  | nil => trivial
  | cons e es ih => exact ⟨⟨hc.1, hd.1⟩, fun hn => ih (hc.2 hn) (hd.2 hn)⟩

theorem along_invariant {I : σ → Prop} (hstep : ∀ s e, I s → I (step s e).1) {s : σ} (h : I s)
    (es : List ε) : Along step (fun s _ => I s) s es := by
  induction es generalizing s with
  | nil => trivial
  | cons e es ih => exact ⟨h, fun _ => ih (hstep s e h)⟩

theorem along_of_forall_mem {C : ε → Prop} {es : List ε} (h : ∀ e ∈ es, C e) (s : σ) :
    Along step (fun _ e => C e) s es := by
  induction es generalizing s with
  | nil => trivial
  | cons e es ih =>
    rw [List.forall_mem_cons] at h
    exact ⟨h.1, fun _ => ih h.2 _⟩

theorem along_congr_of_invariant {I : σ → Prop} {C D : σ → ε → Prop}
    (hstep : ∀ s e, I s → I (step s e).1) (hiff : ∀ s e, I s → (C s e ↔ D s e)) {s : σ}
    (h : I s) (es : List ε) : Along step C s es ↔ Along step D s es := by
  have hi := along_invariant hstep h es
  constructor
  · exact fun hc => (hi.and hc).imp fun s e hh => (hiff s e hh.1).mp hh.2
  · exact fun hd => (hi.and hd).imp fun s e hh => (hiff s e hh.1).mpr hh.2

theorem loop_invariant {I : σ → Prop} (hstep : ∀ s e, I s → I (step s e).1) {s : σ} (h : I s)
    (es : List ε) : I (loop step s es).1 := by
  induction es generalizing s with
  | nil => exact h
  | cons e es ih =>
    cases hr : (step s e).2 with
    | none => rw [loop_cons_next hr]; exact ih (hstep s e h)
    | some r => rw [loop_cons_exit hr]; exact hstep s e h

theorem Along.loop_invariant {C : σ → ε → Prop} {I : σ → Prop}
    (hstep : ∀ s e, C s e → I s → I (step s e).1) {s : σ} {es : List ε} (hc : Along step C s es)
    (h : I s) : I (loop step s es).1 := by
  induction es generalizing s with
  | nil => exact h
  | cons e es ih =>
    cases hr : (step s e).2 with
    | none =>
      rw [loop_cons_next hr]
      exact ih (hc.2 hr) (hstep s e hc.1 h)
    | some r =>
      rw [loop_cons_exit hr]
      exact hstep s e hc.1 h

theorem Along.with_invariant {C : σ → ε → Prop} {I : σ → Prop}
    (hstep : ∀ s e, C s e → I s → I (step s e).1) {s : σ} {es : List ε} (hc : Along step C s es)
    (h : I s) : Along step (fun s e => C s e ∧ I s) s es := by
  induction es generalizing s with
  | nil => trivial
  | cons e es ih => exact ⟨⟨hc.1, h⟩, fun hn => ih (hc.2 hn) (hstep s e hc.1 h)⟩

/-- Loops whose steps keep a relation and give the same result keep it and do. -/
theorem loop_simulation {σ' : Type*} {step' : σ' → ε → σ' × Option ρ} {R : σ → σ' → Prop}
    (hstep : ∀ s s' e, R s s' → R (step s e).1 (step' s' e).1 ∧ (step s e).2 = (step' s' e).2)
    {s : σ} {s' : σ'} (h : R s s') (es : List ε) :
    R (loop step s es).1 (loop step' s' es).1 ∧ (loop step s es).2 = (loop step' s' es).2 := by
  induction es generalizing s s' with
  | nil => exact ⟨h, rfl⟩
  | cons e es ih =>
    obtain ⟨hnext, hresult⟩ := hstep s s' e h
    cases hr : (step s e).2 with
    | none =>
      rw [loop_cons_next hr, loop_cons_next (hresult.symm.trans hr)]
      exact ih hnext
    | some r =>
      rw [loop_cons_exit hr, loop_cons_exit (hresult.symm.trans hr)]
      exact ⟨hnext, hresult⟩

theorem loop_snd_eq_none {s : σ} {es : List ε} :
    (loop step s es).2 = none ↔ Along step (fun s e => (step s e).2 = none) s es := by
  induction es generalizing s with
  | nil => simp [Along]
  | cons e es ih =>
    cases hr : (step s e).2 with
    | none => rw [loop_cons_next hr, ih]; simp [Along, hr]
    | some r => rw [loop_cons_exit hr]; simp [Along, hr]

theorem along_const_iff {C : ε → Prop} {s : σ} {es : List ε}
    (h : Along step (fun s e => (step s e).2 = none) s es) :
    Along step (fun _ e => C e) s es ↔ ∀ e ∈ es, C e := by
  induction es generalizing s with
  | nil => simp [Along]
  | cons e es ih => simp [Along, h.1, ih (h.2 h.1)]

theorem forall_visited_cons {I : σ → Prop} {s : σ} {e : ε} {es : List ε} :
    (∀ t ∈ visited step s (e :: es), I t) ↔
      I s ∧ I (step s e).1 ∧
        ((step s e).2 = none → ∀ t ∈ visited step (step s e).1 es, I t) := by
  rcases hs : step s e with ⟨s', o⟩
  cases o with
  | some r => simp [visited, hs]
  | none =>
    have hmem : s' ∈ visited step s' es := by cases es <;> simp [visited]
    simp only [visited, hs, List.forall_mem_cons, true_implies]
    exact and_congr_right fun _ => ⟨fun h => ⟨h s' hmem, h⟩, fun h => h.2⟩

theorem visited_invariant {I : σ → Prop} (hstep : ∀ s e, I s → I (step s e).1) {s : σ} (h : I s)
    (es : List ε) : ∀ t ∈ visited step s es, I t := by
  induction es generalizing s with
  | nil => simpa [visited] using h
  | cons e es ih =>
    rw [forall_visited_cons]
    exact ⟨h, hstep s e h, fun _ => ih (hstep s e h)⟩

theorem loop_mem_visited (s : σ) (es : List ε) : (loop step s es).1 ∈ visited step s es := by
  induction es generalizing s with
  | nil => exact List.mem_singleton_self s
  | cons e es ih =>
    rcases hs : step s e with ⟨s', o⟩
    cases o with
    | some r => simp [loop, visited, hs]
    | none =>
      rw [loop_cons_next (by rw [hs])]
      simp only [visited, hs]
      exact List.mem_cons_of_mem s (ih s')

theorem forall_visited_iff_of_mem {I J : σ → Prop} {C : σ → ε → Prop} {es : List ε}
    (hstep : ∀ e ∈ es, ∀ s, J s → J (step s e).1)
    (hiff : ∀ e ∈ es, ∀ s, J s → I s → (I (step s e).1 ↔ C s e)) {s : σ} (hJ : J s) (hI : I s) :
    (∀ t ∈ visited step s es, I t) ↔ Along step C s es := by
  induction es generalizing s with
  | nil => simpa [visited, Along] using hI
  | cons e es ih =>
    rw [List.forall_mem_cons] at hstep hiff
    have hJ' := hstep.1 s hJ
    have ih := fun hI' => ih hstep.2 hiff.2 hJ' hI'
    rw [forall_visited_cons]
    constructor
    · rintro ⟨_, hI', hrest⟩
      exact ⟨(hiff.1 s hJ hI).mp hI', fun hn => (ih hI').mp (hrest hn)⟩
    · rintro ⟨hC, hrest⟩
      have hI' := (hiff.1 s hJ hI).mpr hC
      exact ⟨hI, hI', fun hn => (ih hI').mpr (hrest hn)⟩

theorem forall_visited_iff {I J : σ → Prop} {C : σ → ε → Prop}
    (hstep : ∀ s e, J s → J (step s e).1) (hiff : ∀ s e, J s → I s → (I (step s e).1 ↔ C s e))
    {s : σ} (hJ : J s) (hI : I s) (es : List ε) :
    (∀ t ∈ visited step s es, I t) ↔ Along step C s es :=
  forall_visited_iff_of_mem (fun e _ s => hstep s e) (fun e _ s => hiff s e) hJ hI

/-- The step with a record of the events beside the state. -/
def watched {ω : Type*} (step : σ → ε → σ × Option ρ) (see : ω → σ → ε → ω) (p : σ × ω) (e : ε) :
    (σ × ω) × Option ρ :=
  (((step p.1 e).1, see p.2 p.1 e), (step p.1 e).2)

variable {ω : Type*} (see : ω → σ → ε → ω)

theorem along_watched {C : σ → ε → Prop} (s : σ) (w : ω) (es : List ε) :
    Along (watched step see) (fun p e => C p.1 e) (s, w) es ↔ Along step C s es := by
  induction es generalizing s w with
  | nil => exact Iff.rfl
  | cons e es ih => exact and_congr_right fun _ => forall_congr' fun _ => ih _ _

theorem loop_watched (s : σ) (w : ω) (es : List ε) :
    (loop (watched step see) (s, w) es).1.1 = (loop step s es).1 ∧
      (loop (watched step see) (s, w) es).2 = (loop step s es).2 := by
  induction es generalizing s w with
  | nil => exact ⟨rfl, rfl⟩
  | cons e es ih =>
    cases hr : (step s e).2 with
    | none =>
      have hw : (watched step see (s, w) e).2 = none := hr
      rw [loop_cons_next hr, loop_cons_next hw]
      exact ih _ _
    | some r =>
      have hw : (watched step see (s, w) e).2 = some r := hr
      rw [loop_cons_exit hr, loop_cons_exit hw]
      exact ⟨rfl, rfl⟩

theorem loop_watched_singleton (p : σ × ω) (e : ε) :
    (loop (watched step see) p [e]).1.2 = see p.2 p.1 e := by
  cases hr : (watched step see p e).2 with
  | none => rw [loop_cons_next hr]; rfl
  | some r => rw [loop_cons_exit hr]; rfl

end

end EventLoop
