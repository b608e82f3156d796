import Mathlib

/-! A heap of blocks, and a store of objects that each own at most one of them:
what a change of one object leaves of the others. -/

namespace OwnedHeap

/-- The blocks by address; there are none from `bound` on. -/
structure Heap (α : Type*) where
  block : Nat → Option (List α)
  bound : Nat
  block_eq_none : ∀ p, bound ≤ p → block p = none

namespace Heap

variable {α : Type*} (h : Heap α)

def empty : Heap α := ⟨fun _ => none, 0, fun _ _ => rfl⟩

def set (p : Nat) (b : List α) : Heap α where
  block := Function.update h.block p (some b)
  bound := max h.bound (p + 1)
  block_eq_none q hq := by
    rw [Function.update_of_ne (by omega)]
    exact h.block_eq_none q (by omega)

def delete (p : Nat) : Heap α where
  block := Function.update h.block p none
  bound := h.bound
  block_eq_none q hq := by
    by_cases hp : q = p
    · rw [hp, Function.update_self]
    · rw [Function.update_of_ne hp]
      exact h.block_eq_none q hq

@[simp] theorem set_block_self (p : Nat) (b : List α) : (h.set p b).block p = some b :=
  Function.update_self ..

theorem set_block_of_ne {p q : Nat} (hq : q ≠ p) (b : List α) : (h.set p b).block q = h.block q :=
  Function.update_of_ne hq ..

theorem delete_block_of_ne {p q : Nat} (hq : q ≠ p) : (h.delete p).block q = h.block q :=
  Function.update_of_ne hq ..

end Heap

structure Allocator (α : Type*) where
  pick : Heap α → Nat
  pick_free : ∀ h : Heap α, h.block (pick h) = none

structure Store (ι ω α : Type*) where
  obj : ι → Option ω
  heap : Heap α

section

variable {ι ω α : Type*} (ptr : ω → Option Nat)

def Store.block (s : Store ι ω α) (w : ω) : Option (List α) := (ptr w).bind s.heap.block

/-- Every object is as `ok` says of it and its block, owned blocks are there, and
none has two owners. -/
structure Valid (ok : ω → Option (List α) → Prop) (s : Store ι ω α) : Prop where
  ok : ∀ i w, s.obj i = some w → ok w (s.block ptr w)
  alive : ∀ i w p, s.obj i = some w → ptr w = some p → s.heap.block p ≠ none
  owner : ∀ i j v w p, s.obj i = some v → s.obj j = some w → ptr v = some p → ptr w = some p →
    i = j

/-- All objects but `a` are as they were, with their blocks. -/
structure SameBut (a : ι) (s t : Store ι ω α) : Prop where
  obj_eq : ∀ c, c ≠ a → t.obj c = s.obj c
  block_eq : ∀ c, c ≠ a → ∀ w p, s.obj c = some w → ptr w = some p →
    t.heap.block p = s.heap.block p

def Own (s : Store ι ω α) (a : ι) (p : Nat) : Prop :=
  ∀ c, c ≠ a → ∀ w, s.obj c = some w → ptr w ≠ some p

variable {ptr} {ok : ω → Option (List α) → Prop} {s t u : Store ι ω α} {a : ι}

theorem SameBut.trans (h : SameBut ptr a s t) (h' : SameBut ptr a t u) : SameBut ptr a s u where
  obj_eq c hc := (h'.obj_eq c hc).trans (h.obj_eq c hc)
  block_eq c hc w p hw hp :=
    (h'.block_eq c hc w p ((h.obj_eq c hc).trans hw) hp).trans (h.block_eq c hc w p hw hp)

theorem SameBut.of_own {p : Nat} (hown : Own ptr s a p) (hobj : ∀ c, c ≠ a → t.obj c = s.obj c)
    (hblock : ∀ q, q ≠ p → t.heap.block q = s.heap.block q) : SameBut ptr a s t where
  obj_eq := hobj
  block_eq c hc w q hw hq := hblock q fun he => hown c hc w hw (he ▸ hq)

theorem SameBut.store_block (h : SameBut ptr a s t) {c : ι} (hc : c ≠ a) {w : ω}
    (hw : s.obj c = some w) : t.block ptr w = s.block ptr w := by
  rw [Store.block, Store.block]
  cases hp : ptr w with
  | none => rfl
  | some p => exact h.block_eq c hc w p hw hp

theorem Valid.own (hs : Valid ptr ok s) {w : ω} {p : Nat} (hw : s.obj a = some w)
    (hp : ptr w = some p) : Own ptr s a p :=
  fun c hc v hv hq => hc (hs.owner c a v w p hv hw hq hp)

theorem Valid.own_of_free (hs : Valid ptr ok s) {p : Nat} (hp : s.heap.block p = none) :
    Own ptr s a p :=
  fun c _ v hv hq => hs.alive c v p hv hq hp

/-- A store stays valid when one object changes, to a good one with no pointer
or with a block of its own. -/
theorem Valid.of_sameBut (hs : Valid ptr ok s) (h : SameBut ptr a s t) {w : ω}
    (hw : t.obj a = some w) (hok : ok w (t.block ptr w))
    (hptr : ∀ p, ptr w = some p → t.heap.block p ≠ none ∧ Own ptr s a p) : Valid ptr ok t where
  ok c v hv := by
    by_cases hc : c = a
    · subst hc
      rw [hw] at hv
      cases hv
      exact hok
    · rw [h.obj_eq c hc] at hv
      rw [h.store_block hc hv]
      exact hs.ok c v hv
  alive c v p hv hp := by
    by_cases hc : c = a
    · subst hc
      rw [hw] at hv
      cases hv
      exact (hptr p hp).1
    · rw [h.obj_eq c hc] at hv
      rw [h.block_eq c hc v p hv hp]
      exact hs.alive c v p hv hp
  owner i j v v' p hv hv' hp hp' := by
    by_cases hi : i = a
    · by_cases hj : j = a
      · rw [hi, hj]
      · rw [hi, hw] at hv
        cases hv
        rw [h.obj_eq j hj] at hv'
        exact absurd hp' ((hptr p hp).2 j hj v' hv')
    · rw [h.obj_eq i hi] at hv
      by_cases hj : j = a
      · rw [hj, hw] at hv'
        cases hv'
        exact absurd hp ((hptr p hp').2 i hi v hv)
      · rw [h.obj_eq j hj] at hv'
        exact hs.owner i j v v' p hv hv' hp hp'

theorem Valid.of_removed (hs : Valid ptr ok s) (h : SameBut ptr a s t) (ha : t.obj a = none) :
    Valid ptr ok t := by
  have hne : ∀ c w, t.obj c = some w → c ≠ a := by
    rintro c w hw rfl
    rw [ha] at hw
    cases hw
  have hold : ∀ c w, t.obj c = some w → s.obj c = some w := fun c w hw =>
    (h.obj_eq c (hne c w hw)).symm.trans hw
  refine ⟨fun c w hw => ?_, fun c w p hw hp => ?_, fun i j v w p hv hw hp hq => ?_⟩
  · rw [h.store_block (hne c w hw) (hold c w hw)]
    exact hs.ok c w (hold c w hw)
  · rw [h.block_eq c (hne c w hw) w p (hold c w hw) hp]
    exact hs.alive c w p (hold c w hw) hp
  · exact hs.owner i j v w p (hold i v hv) (hold j w hw) hp hq

end

end OwnedHeap
