import Mathlib

/-! The HMAC construction over an arbitrary hash: the key is fitted to one
block, and the hash of the outer pad and the inner hash is the tag. -/

namespace Hmac

variable {β : Type*}

/-- What a key enters the pads as: longer keys than a block are hashed first. -/
def shortKey (H : List β → List β) (B : Nat) (key : List β) : List β :=
  if B < key.length then H key else key

def blockKey (H : List β → List β) (B : Nat) (z : β) (key : List β) : List β :=
  shortKey H B key ++ List.replicate (B - (shortKey H B key).length) z

def pad (mix : β → β → β) (c : β) (block : List β) : List β := block.map fun k => mix k c

def mac (H : List β → List β) (B : Nat) (mix : β → β → β) (z ipad opad : β) (key m : List β) :
    List β :=
  let K0 := blockKey H B z key
  H (pad mix opad K0 ++ H (pad mix ipad K0 ++ m))

variable {H : List β → List β} {B : Nat} {mix : β → β → β} {z : β}

theorem shortKey_congr {H' : List β → List β} {key : List β} (h : H' key = H key) :
    shortKey H' B key = shortKey H B key := by
  rw [shortKey, shortKey, h]

theorem shortKey_length (hH : ∀ m, (H m).length ≤ B) (key : List β) :
    (shortKey H B key).length ≤ B := by
  rw [shortKey]
  split
  · exact hH key
  · omega

theorem blockKey_length (hH : ∀ m, (H m).length ≤ B) (key : List β) :
    (blockKey H B z key).length = B := by
  have := shortKey_length hH key
  rw [blockKey, List.length_append, List.length_replicate]
  omega

@[simp] theorem pad_length (c : β) (block : List β) : (pad mix c block).length = block.length :=
  List.length_map _

theorem pad_blockKey_getElem? (c : β) {key : List β} {j : Nat} (hj : j < B) :
    (pad mix c (blockKey H B z key))[j]? = some (mix ((shortKey H B key).getD j z) c) := by
  rw [pad, List.getElem?_map, blockKey, List.getD_eq_getElem?_getD]
  by_cases h : j < (shortKey H B key).length
  · rw [List.getElem?_append_left h, List.getElem?_eq_getElem h]
    rfl
  · rw [List.getElem?_append_right (by omega), List.getElem?_replicate, if_pos (by omega),
      List.getElem?_eq_none (by omega)]
    rfl

end Hmac
