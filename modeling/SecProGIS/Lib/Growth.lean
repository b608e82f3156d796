import Mathlib.Data.List.Basic

/-! Lists that only grow: each element stays at its place and changes by `K`,
and what comes behind them satisfies `A`. -/

inductive Grows {α : Type*} (K : α → α → Prop) (A : α → Prop) : List α → List α → Prop
  | nil {u : List α} : (∀ x ∈ u, A x) → Grows K A [] u
  | cons {x y : α} {t u : List α} : K x y → Grows K A t u → Grows K A (x :: t) (y :: u)

namespace Grows

variable {α : Type*} {K K' : α → α → Prop} {A A' : α → Prop} {t u v : List α}

theorem append (hK : ∀ x, K x x) (t : List α) {u : List α} (hu : ∀ x ∈ u, A x) :
    Grows K A t (t ++ u) := by
  induction t with
  | nil => exact nil hu
  | cons x t ih => exact cons (hK x) ih

theorem refl (hK : ∀ x, K x x) (t : List α) : Grows K A t t := by
  have h := append (A := A) hK t (u := []) (by simp)
  rwa [List.append_nil] at h

theorem map {f : α → α} (hf : ∀ x, K x (f x)) (t : List α) : Grows K A t (t.map f) := by
  induction t with
  | nil => exact nil (by simp)
  | cons x t ih => exact cons (hf x) ih

theorem mono (hK : ∀ x y, K x y → K' x y) (hA : ∀ x, A x → A' x) (h : Grows K A t u) :
    Grows K' A' t u := by
  induction h with
  | nil hu => exact nil fun x hx => hA x (hu x hx)
  | cons hxy _ ih => exact cons (hK _ _ hxy) ih

theorem forall_mem (hA : ∀ x y, A x → K x y → A y) (h : Grows K A t u) (ht : ∀ x ∈ t, A x) :
    ∀ y ∈ u, A y := by
  induction h with
  | nil hu => exact hu
  | cons hxy _ ih =>
    rw [List.forall_mem_cons] at ht ⊢
    exact ⟨hA _ _ ht.1 hxy, ih ht.2⟩

theorem trans (hK : ∀ x y z, K x y → K y z → K x z) (hA : ∀ x y, A x → K x y → A y)
    (h : Grows K A t u) (h' : Grows K A u v) : Grows K A t v := by
  induction h generalizing v with
  | nil hu => exact nil (h'.forall_mem hA hu)
  | cons hxy _ ih =>
    cases h' with
    | cons hyz hrest => exact cons (hK _ _ _ hxy hyz) (ih hrest)

end Grows
