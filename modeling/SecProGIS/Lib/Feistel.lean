import Mathlib

/-! Generalised Feistel networks on four words: running the round keys
backwards over the reversed words undoes the network, for any round function
that does not see the order of its three words. -/

namespace Feistel

variable {W K : Type*}

/-- One round drops the first word and appends its mix with the round function. -/
def round (mix : W → W → W) (F : W → W → W → K → W) (s : W × W × W × W) (k : K) :
    W × W × W × W :=
  (s.2.1, s.2.2.1, s.2.2.2, mix s.1 (F s.2.1 s.2.2.1 s.2.2.2 k))

def swapEnds (s : W × W × W × W) : W × W × W × W := (s.2.2.2, s.2.2.1, s.2.1, s.1)

def crypt (mix : W → W → W) (F : W → W → W → K → W) (ks : List K) (s : W × W × W × W) :
    W × W × W × W :=
  swapEnds (ks.foldl (round mix F) s)

variable {mix : W → W → W} {F : W → W → W → K → W}

theorem foldl_take_succ {ks : List K} {i : Nat} (h : i < ks.length) (s : W × W × W × W) :
    (ks.take (i + 1)).foldl (round mix F) s =
      round mix F ((ks.take i).foldl (round mix F) s) ks[i] := by
  rw [← List.take_append_getElem h, List.foldl_append]
  rfl

theorem round_swapEnds_round (hmix : ∀ a b, mix (mix a b) b = a)
    (hF : ∀ a b c k, F c b a k = F a b c k) (s : W × W × W × W) (k : K) :
    round mix F (swapEnds (round mix F s k)) k = swapEnds s := by
  obtain ⟨x0, x1, x2, x3⟩ := s
  simp only [round, swapEnds, hF x1 x2 x3 k, hmix]

theorem foldl_reverse_swapEnds (hmix : ∀ a b, mix (mix a b) b = a)
    (hF : ∀ a b c k, F c b a k = F a b c k) (ks : List K) (s : W × W × W × W) :
    ks.reverse.foldl (round mix F) (swapEnds (ks.foldl (round mix F) s)) = swapEnds s := by
  induction ks generalizing s with
  | nil => rfl
  | cons k ks ih =>
    simp only [List.reverse_cons, List.foldl_append, List.foldl_cons, List.foldl_nil, ih,
      round_swapEnds_round hmix hF]

theorem crypt_reverse_crypt (hmix : ∀ a b, mix (mix a b) b = a)
    (hF : ∀ a b c k, F c b a k = F a b c k) (ks : List K) (s : W × W × W × W) :
    crypt mix F ks.reverse (crypt mix F ks s) = s := by
  rw [crypt, crypt, foldl_reverse_swapEnds hmix hF]
  rfl

end Feistel
