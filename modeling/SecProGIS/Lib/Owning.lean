import SecProGIS.Lib.OwnedHeap

/-! Values that own blocks of a heap, also through other blocks: arrays and
chains of them, how what they take up grows and is given back, and stores whose
objects together own the whole heap. -/

namespace Owning

open OwnedHeap (Heap Store)

/-- When a handle stands for a value in a heap, and the blocks it then owns. -/
structure Rep (α ω ν : Type*) where
  holds : Heap α → ω → ν → List Nat → Prop
  frame : ∀ {h h' w v fp}, holds h w v fp → (∀ p ∈ fp, h'.block p = h.block p) → holds h' w v fp
  alive : ∀ {h w v fp}, holds h w v fp → ∀ p ∈ fp, h.block p ≠ none

variable {α ω ν : Type*} {h h' h'' : Heap α} {fp fp' : List Nat}

structure Grown (h h' : Heap α) (fp : List Nat) : Prop where
  nodup : fp.Nodup
  fresh : ∀ p ∈ fp, h.block p = none
  block_eq : ∀ p, p ∉ fp → h'.block p = h.block p

structure Freed (h h' : Heap α) (fp : List Nat) : Prop where
  gone : ∀ p ∈ fp, h'.block p = none
  block_eq : ∀ p, p ∉ fp → h'.block p = h.block p

theorem Grown.refl (h : Heap α) : Grown h h [] :=
  ⟨List.nodup_nil, fun _ hp => absurd hp List.not_mem_nil, fun _ _ => rfl⟩

theorem Grown.set_fresh {p : Nat} (hp : h.block p = none) (b : List α) :
    Grown h (h.set p b) [p] := by
  refine ⟨List.nodup_singleton p, fun q hq => ?_, fun q hq => ?_⟩
  · rw [List.mem_singleton.mp hq, hp]
  · exact h.set_block_of_ne (fun he => hq (List.mem_singleton.mpr he)) b

theorem Grown.set_mem (g : Grown h h' fp) {p : Nat} (hp : p ∈ fp) (b : List α) :
    Grown h (h'.set p b) fp := by
  refine ⟨g.nodup, g.fresh, fun q hq => ?_⟩
  have hne : q ≠ p := fun he => hq (he ▸ hp)
  rw [h'.set_block_of_ne hne b]
  exact g.block_eq q hq

theorem Grown.trans (g : Grown h h' fp) (halive : ∀ p ∈ fp, h'.block p ≠ none)
    (g' : Grown h' h'' fp') : Grown h h'' (fp ++ fp') := by
  have hnew : ∀ p ∈ fp', p ∉ fp := fun p hp' hp => halive p hp (g'.fresh p hp')
  refine ⟨?_, fun p hp => ?_, fun p hp => ?_⟩
  · refine List.nodup_append.mpr ⟨g.nodup, g'.nodup, fun p hp q hq he => ?_⟩
    exact hnew q hq (he ▸ hp)
  · rcases List.mem_append.mp hp with hp | hp
    · exact g.fresh p hp
    · rw [← g.block_eq p (hnew p hp)]
      exact g'.fresh p hp
  · rw [List.mem_append, not_or] at hp
    rw [g'.block_eq p hp.2, g.block_eq p hp.1]

theorem Grown.perm (g : Grown h h' fp) (hp : fp.Perm fp') : Grown h h' fp' :=
  ⟨hp.nodup g.nodup, fun p hm => g.fresh p (hp.mem_iff.mpr hm), fun p hm =>
    g.block_eq p fun h' => hm (hp.mem_iff.mp h')⟩

theorem Freed.refl (h : Heap α) : Freed h h [] :=
  ⟨fun _ hp => absurd hp List.not_mem_nil, fun _ _ => rfl⟩

theorem Freed.delete (h : Heap α) (p : Nat) : Freed h (h.delete p) [p] := by
  refine ⟨fun q hq => ?_, fun q hq => ?_⟩
  · rw [List.mem_singleton.mp hq]
    exact Function.update_self ..
  · exact h.delete_block_of_ne fun he => hq (List.mem_singleton.mpr he)

theorem Freed.trans (f : Freed h h' fp) (f' : Freed h' h'' fp') : Freed h h'' (fp ++ fp') := by
  refine ⟨fun p hp => ?_, fun p hp => ?_⟩
  · by_cases hp' : p ∈ fp'
    · exact f'.gone p hp'
    · rw [f'.block_eq p hp']
      exact f.gone p ((List.mem_append.mp hp).resolve_right hp')
  · rw [List.mem_append, not_or] at hp
    rw [f'.block_eq p hp.2, f.block_eq p hp.1]

theorem Freed.perm (f : Freed h h' fp) (hp : fp.Perm fp') : Freed h h' fp' :=
  ⟨fun p hm => f.gone p (hp.mem_iff.mpr hm), fun p hm =>
    f.block_eq p fun h' => hm (hp.mem_iff.mp h')⟩

theorem length_le_bound (hnodup : fp.Nodup) (halive : ∀ p ∈ fp, h.block p ≠ none) :
    fp.length ≤ h.bound := by
  have hsub : fp ⊆ List.range h.bound := fun p hp =>
    List.mem_range.mpr (Nat.lt_of_not_le fun hle => halive p hp (h.block_eq_none p hle))
  have hlen := (hnodup.subperm hsub).length_le
  rwa [List.length_range] at hlen

/-- `free` gives back what a value owns, whatever else there is. -/
def Frees (R : Rep α ω ν) (free : ω → Heap α → Option (Heap α)) : Prop :=
  ∀ ⦃h w v fp⦄, R.holds h w v fp → fp.Nodup → ∃ h', free w h = some h' ∧ Freed h h' fp

variable (R : Rep α ω ν)

inductive Many (h : Heap α) : List ω → List ν → List Nat → Prop
  | nil : Many h [] [] []
  | cons {w v fp ws vs fps} (head : R.holds h w v fp) (tail : Many h ws vs fps) :
      Many h (w :: ws) (v :: vs) (fp ++ fps)

def Rep.many : Rep α (List ω) (List ν) where
  holds := Many R
  frame hm heq := by
    induction hm with
    | nil => exact .nil
    | cons head tail ih =>
      refine .cons (R.frame head fun p hp => heq p ?_) (ih fun p hp => heq p ?_)
      · exact List.mem_append_left _ hp
      · exact List.mem_append_right _ hp
  alive hm := by
    induction hm with
    | nil => exact fun _ hp => absurd hp List.not_mem_nil
    | cons head tail ih =>
      intro p hp
      rcases List.mem_append.mp hp with hp | hp
      · exact R.alive head p hp
      · exact ih p hp

def Rep.option : Rep α (Option ω) (Option ν) where
  holds
    | _, none, none, fp => fp = []
    | h, some w, some v, fp => R.holds h w v fp
    | _, _, _, _ => False
  frame {_ _ w v _} hm heq := by
    cases w <;> cases v
    · exact hm
    · exact hm
    · exact hm
    · exact R.frame hm heq
  alive {_ w v fp} hm := by
    cases w <;> cases v
    · intro p hp
      rw [hm] at hp
      exact absurd hp List.not_mem_nil
    · exact hm.elim
    · exact hm.elim
    · exact R.alive hm

variable {R}

theorem Many.append {ws ws' : List ω} {vs vs' : List ν} (hm : Many R h ws vs fp)
    (hm' : Many R h ws' vs' fp') : Many R h (ws ++ ws') (vs ++ vs') (fp ++ fp') := by
  induction hm with
  | nil => exact hm'
  | cons head tail ih =>
    rw [List.append_assoc]
    exact .cons head ih

theorem Many.singleton {w : ω} {v : ν} (hr : R.holds h w v fp) : Many R h [w] [v] fp := by
  have hm := Many.cons hr (Many.nil (R := R))
  rwa [List.append_nil] at hm

theorem Many.length_eq {ws : List ω} {vs : List ν} (hm : Many R h ws vs fp) :
    ws.length = vs.length := by
  induction hm with
  | nil => rfl
  | cons _ _ ih => rw [List.length_cons, List.length_cons, ih]

theorem Many.getElem? {ws : List ω} {vs : List ν} (hm : Many R h ws vs fp) {i : Nat} {v : ν}
    (hv : vs[i]? = some v) : ∃ w fp, ws[i]? = some w ∧ R.holds h w v fp := by
  induction hm generalizing i with
  | nil => cases hv
  | @cons w _ fp _ _ _ head _ ih =>
    cases i with
    | zero =>
      cases hv
      exact ⟨w, fp, rfl, head⟩
    | succ i => exact ih hv

theorem Frees.many {free : ω → Heap α → Option (Heap α)} (hfree : Frees R free) :
    Frees R.many fun ws h => ws.foldrM free h := by
  intro h ws vs fp hm hnodup
  induction hm with
  | nil => exact ⟨h, rfl, .refl h⟩
  | @cons w v fp ws vs fps head tail ih =>
    obtain ⟨hfp, hfps, hapart⟩ := List.nodup_append.mp hnodup
    obtain ⟨h1, hrun, hfreed⟩ := ih hfps
    have hkept : ∀ p ∈ fp, h1.block p = h.block p := fun p hp =>
      hfreed.block_eq p fun hp' => hapart p hp p hp' rfl
    obtain ⟨h2, hlast, hfreed'⟩ := hfree (R.frame head hkept) hfp
    refine ⟨h2, ?_, (hfreed.trans hfreed').perm List.perm_append_comm⟩
    have hrun' : ws.foldrM free h = some h1 := hrun
    have hcons : (w :: ws).foldrM free h = ws.foldrM free h >>= free w := List.foldrM_cons
    refine hcons.trans ?_
    rw [hrun']
    exact hlast

variable (R)

/-- The nodes from an address on; `node` is the block of one. -/
inductive Chain (node : ω → Option Nat → List α) (h : Heap α) :
    Option Nat → List ν → List Nat → Prop
  | nil : Chain node h none [] []
  | cons {p w next v fp vs fps} (block : h.block p = some (node w next))
      (head : R.holds h w v fp) (tail : Chain node h next vs fps) :
      Chain node h (some p) (v :: vs) (p :: (fp ++ fps))

def Rep.chain (node : ω → Option Nat → List α) : Rep α (Option Nat) (List ν) where
  holds := Chain R node
  frame hc heq := by
    induction hc with
    | nil => exact .nil
    | cons block head tail ih =>
      refine .cons ((heq _ List.mem_cons_self).trans block) (R.frame head fun p hp => heq p ?_)
        (ih fun p hp => heq p ?_)
      · exact List.mem_cons_of_mem _ (List.mem_append_left _ hp)
      · exact List.mem_cons_of_mem _ (List.mem_append_right _ hp)
  alive hc := by
    induction hc with
    | nil => exact fun _ hp => absurd hp List.not_mem_nil
    | cons block head tail ih =>
      intro p hp
      rcases List.mem_cons.mp hp with rfl | hp
      · rw [block]
        exact Option.some_ne_none _
      · rcases List.mem_append.mp hp with hp | hp
        · exact R.alive head p hp
        · exact ih p hp

variable {R}

theorem Chain.length_le {node : ω → Option Nat → List α} {o : Option Nat} {vs : List ν}
    (hc : Chain R node h o vs fp) : vs.length ≤ fp.length := by
  induction hc with
  | nil => exact Nat.le_refl 0
  | cons _ _ _ ih =>
    simp only [List.length_cons, List.length_append]
    omega

variable {ι : Type*}

/-- Each object stands for its value, and every block has exactly one owner. -/
structure Tidy (R : Rep α ω ν) (s : Store ι ω α) (v : ι → Option ν) (fp : ι → List Nat) : Prop where
  holds : ∀ i, R.option.holds s.heap (s.obj i) (v i) (fp i)
  nodup : ∀ i, (fp i).Nodup
  apart : ∀ i j p, p ∈ fp i → p ∈ fp j → i = j
  owned : ∀ p, s.heap.block p ≠ none → ∃ i, p ∈ fp i

namespace Tidy

variable {s : Store ι ω α} {v : ι → Option ν} {owns : ι → List Nat}

theorem empty : Tidy R ⟨fun _ : ι => none, .empty⟩ (fun _ => none) fun _ => [] :=
  ⟨fun _ => rfl, fun _ => List.nodup_nil, fun _ _ _ hp => absurd hp List.not_mem_nil,
    fun _ hp => absurd rfl hp⟩

theorem obj_some (hs : Tidy R s v owns) {a : ι} {x : ν} (ha : v a = some x) :
    ∃ w, s.obj a = some w ∧ R.holds s.heap w x (owns a) := by
  have hholds := hs.holds a
  rw [ha] at hholds
  cases hw : s.obj a with
  | none =>
    rw [hw] at hholds
    exact hholds.elim
  | some w =>
    rw [hw] at hholds
    exact ⟨w, rfl, hholds⟩

theorem obj_none (hs : Tidy R s v owns) {a : ι} (ha : v a = none) :
    s.obj a = none ∧ owns a = [] := by
  have hholds := hs.holds a
  rw [ha] at hholds
  cases hw : s.obj a with
  | none =>
    rw [hw] at hholds
    exact ⟨rfl, hholds⟩
  | some w =>
    rw [hw] at hholds
    exact hholds.elim

variable [DecidableEq ι]

/-- One object changes, with blocks of its own or new ones, and gives back those
it no longer has. -/
theorem change (hs : Tidy R s v owns) {a : ι} {w : Option ω} {x : Option ν} {heap : Heap α}
    (hholds : R.option.holds heap w x fp) (hnodup : fp.Nodup)
    (hnew : ∀ p ∈ fp, p ∈ owns a ∨ s.heap.block p = none)
    (hgone : ∀ p ∈ owns a, p ∉ fp → heap.block p = none)
    (hrest : ∀ p, p ∉ owns a → p ∉ fp → heap.block p = s.heap.block p) :
    Tidy R ⟨Function.update s.obj a w, heap⟩ (Function.update v a x)
      (Function.update owns a fp) := by
  have hother : ∀ i, i ≠ a → ∀ p ∈ owns i, p ∉ owns a ∧ p ∉ fp := by
    intro i hi p hp
    refine ⟨fun hp' => hi (hs.apart i a p hp hp'), fun hp' => ?_⟩
    rcases hnew p hp' with hown | hfree
    · exact hi (hs.apart i a p hp hown)
    · exact R.option.alive (hs.holds i) p hp hfree
  refine ⟨fun i => ?_, fun i => ?_, fun i j p hp hq => ?_, fun p hp => ?_⟩
  · by_cases hi : i = a
    · rw [hi]
      simp only [Function.update_self]
      exact hholds
    · simp only [Function.update_of_ne hi]
      refine R.option.frame (hs.holds i) fun p hp => ?_
      exact hrest p (hother i hi p hp).1 (hother i hi p hp).2
  · by_cases hi : i = a
    · rwa [hi, Function.update_self]
    · rw [Function.update_of_ne hi]
      exact hs.nodup i
  · by_cases hi : i = a
    · by_cases hj : j = a
      · rw [hi, hj]
      · rw [hi, Function.update_self] at hp
        rw [Function.update_of_ne hj] at hq
        exact absurd hp (hother j hj p hq).2
    · rw [Function.update_of_ne hi] at hp
      by_cases hj : j = a
      · rw [hj, Function.update_self] at hq
        exact absurd hq (hother i hi p hp).2
      · rw [Function.update_of_ne hj] at hq
        exact hs.apart i j p hp hq
  · by_cases hfp : p ∈ fp
    · exact ⟨a, by rwa [Function.update_self]⟩
    · have hown : p ∉ owns a := fun h => hp (hgone p h hfp)
      obtain ⟨i, hi⟩ := hs.owned p (by rwa [← hrest p hown hfp])
      have hne : i ≠ a := fun he => hown (he ▸ hi)
      exact ⟨i, by rwa [Function.update_of_ne hne]⟩

theorem free (hs : Tidy R s v owns) {a : ι} {w : Option ω} {x : Option ν} {heap : Heap α}
    (hfreed : Freed s.heap heap (owns a)) (hholds : R.option.holds heap w x []) :
    Tidy R ⟨Function.update s.obj a w, heap⟩ (Function.update v a x) (Function.update owns a []) :=
  hs.change hholds List.nodup_nil (fun _ hp => absurd hp List.not_mem_nil)
    (fun p hp _ => hfreed.gone p hp) fun p hp _ => hfreed.block_eq p hp

theorem grow (hs : Tidy R s v owns) {a : ι} {w : Option ω} {x : Option ν} {heap : Heap α}
    (hgrown : Grown s.heap heap fp) (hholds : R.option.holds heap w x (fp ++ owns a)) :
    Tidy R ⟨Function.update s.obj a w, heap⟩ (Function.update v a x)
      (Function.update owns a (fp ++ owns a)) := by
  refine hs.change hholds ?_ (fun p hp => ?_) (fun p hp hp' => ?_) fun p _ hp' => ?_
  · refine List.nodup_append.mpr ⟨hgrown.nodup, hs.nodup a, fun p hp q hq he => ?_⟩
    rw [he] at hp
    exact R.option.alive (hs.holds a) q hq (hgrown.fresh q hp)
  · rcases List.mem_append.mp hp with hp | hp
    · exact .inr (hgrown.fresh p hp)
    · exact .inl hp
  · exact absurd (List.mem_append_right _ hp) hp'
  · exact hgrown.block_eq p fun hp => hp' (List.mem_append_left _ hp)

end Tidy

end Owning
