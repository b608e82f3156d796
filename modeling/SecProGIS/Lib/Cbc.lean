import Mathlib

/-! Block modes that chain a value from block to block, and cipher block
chaining among them: decryption undoes encryption and chains the same value. -/

namespace Cbc

variable {σ V W : Type*}

def chain (step : σ → V → σ × W) : σ → List V → σ × List W
  | s, [] => (s, [])
  | s, x :: xs =>
    let t := step s x
    let r := chain step t.1 xs
    (r.1, t.2 :: r.2)

theorem chain_length (step : σ → V → σ × W) (s : σ) (xs : List V) :
    (chain step s xs).2.length = xs.length := by
  induction xs generalizing s with
  | nil => rfl
  | cons x xs ih => exact congrArg (· + 1) (ih _)

theorem chain_all {step : σ → V → σ × W} {S : Set σ} {A : Set V} {B : Set W}
    (h : ∀ s ∈ S, ∀ x ∈ A, (step s x).1 ∈ S ∧ (step s x).2 ∈ B) {s : σ} (hs : s ∈ S)
    {xs : List V} (hxs : ∀ x ∈ xs, x ∈ A) : ∀ y ∈ (chain step s xs).2, y ∈ B := by
  induction xs generalizing s with
  | nil => simp [chain]
  | cons x xs ih =>
    rw [List.forall_mem_cons] at hxs
    have hx := h s hs x hxs.1
    exact List.forall_mem_cons.mpr ⟨hx.2, ih hx.1 hxs.2⟩

theorem chain_inverse {f : σ → V → σ × W} {g : σ → W → σ × V} {S : Set σ} {A : Set V}
    (h : ∀ s ∈ S, ∀ x ∈ A, (f s x).1 ∈ S ∧ g s (f s x).2 = ((f s x).1, x)) {s : σ} (hs : s ∈ S)
    {xs : List V} (hxs : ∀ x ∈ xs, x ∈ A) :
    chain g s (chain f s xs).2 = ((chain f s xs).1, xs) := by
  induction xs generalizing s with
  | nil => rfl
  | cons x xs ih =>
    rw [List.forall_mem_cons] at hxs
    have hx := h s hs x hxs.1
    simp only [chain, hx.2, ih hx.1 hxs.2]

variable (mix : V → V → V)

def enc (E : V → V) (iv x : V) : V × V := (E (mix x iv), E (mix x iv))

def dec (D : V → V) (iv y : V) : V × V := (y, mix (D y) iv)

variable {mix}

theorem dec_enc {E D : V → V} {iv x : V} (hD : D (E (mix x iv)) = mix x iv)
    (hmix : mix (mix x iv) iv = x) : dec mix D iv (enc mix E iv x).2 = ((enc mix E iv x).1, x) := by
  rw [enc, dec, hD, hmix]

/-- The value that CBC chains is the last block of the ciphertext. -/
theorem chain_enc_fst (E : V → V) (iv : V) (xs : List V) :
    (chain (enc mix E) iv xs).1 = (chain (enc mix E) iv xs).2.getLastD iv := by
  induction xs generalizing iv with
  | nil => rfl
  | cons x xs ih =>
    simp only [chain, List.getLastD_cons]
    exact ih (enc mix E iv x).1

end Cbc
