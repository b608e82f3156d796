import SecProGIS.Sm3Stream
import SecProGIS.Lib.Hmac

/-! HMAC over the streaming SM3 of `sm3.cpp`: the pads live in the context
that both hashes run on. -/

namespace SecProGIS

/-- `key` and `keylen` after the first branch of `sm3_hmac_starts`. -/
def sm3HmacKey (key : Bytes) : {k : Bytes // k.length ≤ 64} :=
  if h : 64 < key.length then ⟨sm3 key, by rw [sm3_length]; decide⟩ else ⟨key, by omega⟩

/-- The loop of `sm3_hmac_starts`. -/
def sm3HmacPads (key : {k : Bytes // k.length ≤ 64}) (ctx : Sm3Context) : Sm3Context :=
  Nat.fold key.val.length (fun i h ctx =>
    have hi : i < 64 := lt_of_lt_of_le h key.property
    { ctx with
      ipad := ctx.ipad.set i (ctx.ipad[i] ^^^ key.val[i])
      opad := ctx.opad.set i (ctx.opad[i] ^^^ key.val[i]) }) ctx

def sm3HmacStarts (ctx : Sm3Context) (key : Bytes) : Sm3Context :=
  let key := sm3HmacKey key
  let ctx := { ctx with ipad := Vector.replicate 64 0x36, opad := Vector.replicate 64 0x5C }
  let ctx := sm3HmacPads key ctx
  let ctx := sm3Starts ctx
  sm3Update ctx ctx.ipad.toList

def sm3HmacUpdate (ctx : Sm3Context) (input : Bytes) : Sm3Context := sm3Update ctx input

def sm3HmacFinish (ctx : Sm3Context) : Sm3Context × Bytes :=
  let (ctx, tmpbuf) := sm3Finish ctx
  let ctx := sm3Starts ctx
  let ctx := sm3Update ctx ctx.opad.toList
  let ctx := sm3Update ctx tmpbuf
  sm3Finish ctx

def sm3Hmac (key input : Bytes) : Bytes :=
  (sm3HmacFinish (sm3HmacUpdate (sm3HmacStarts default key) input)).2

def Sm3Context.pads (ctx : Sm3Context) : Vector u8 64 × Vector u8 64 := (ctx.ipad, ctx.opad)

@[simp] theorem sm3Starts_pads (ctx : Sm3Context) : (sm3Starts ctx).pads = ctx.pads := rfl

theorem sm3Blocks_pads (ctx : Sm3Context) (left : Nat) (input : Bytes) :
    (sm3Blocks ctx left input).pads = ctx.pads := by
  induction input using Blocks.induction (b := 64) (by decide) generalizing ctx with
  | short xs hlt =>
    rw [sm3Blocks, dif_neg (by omega)]
    split <;> simp only [Sm3Context.pads]
  | long xs hle ih =>
    rw [sm3Blocks, dif_pos hle, ih]
    simp only [Sm3Context.pads]

@[simp] theorem sm3Update_pads (ctx : Sm3Context) (input : Bytes) :
    (sm3Update ctx input).pads = ctx.pads := by
  rw [sm3Update]
  split
  · rfl
  · dsimp only
    split <;> rw [sm3Blocks_pads] <;> simp only [Sm3Context.pads]

theorem foldl_sm3Update_pads (ctx : Sm3Context) (chunks : List Bytes) :
    (chunks.foldl sm3Update ctx).pads = ctx.pads := by
  induction chunks generalizing ctx with
  | nil => rfl
  | cons c chunks ih => rw [List.foldl_cons, ih, sm3Update_pads]

@[simp] theorem sm3Finish_pads (ctx : Sm3Context) : (sm3Finish ctx).1.pads = ctx.pads :=
  (sm3Update_pads _ _).trans (sm3Update_pads _ _)

theorem sm3HmacKey_val (key : Bytes) : (sm3HmacKey key).val = Hmac.shortKey sm3 64 key := by
  rw [sm3HmacKey, Hmac.shortKey]
  split <;> rfl

def Padded (key : Bytes) (c : u8) (i : Nat) (p : Vector u8 64) : Prop :=
  ∀ j (hj : j < 64), p[j] = (if j < i then key.getD j 0 else 0) ^^^ c

theorem padded_replicate (key : Bytes) (c : u8) : Padded key c 0 (Vector.replicate 64 c) := by
  intro j hj
  rw [if_neg (by omega), Vector.getElem_replicate]
  exact BitVec.zero_xor.symm

theorem Padded.set {key : Bytes} {c : u8} {i : Nat} {p : Vector u8 64} (h : Padded key c i p)
    (hi : i < 64) (hkey : i < key.length) : Padded key c (i + 1) (p.set i (p[i] ^^^ key[i])) := by
  have hbyte : key.getD i 0 = key[i] := by
    rw [List.getD_eq_getElem?_getD, List.getElem?_eq_getElem hkey]
    rfl
  have hpad : p[i] = c := (h i hi).trans (by rw [if_neg (by omega)]; exact BitVec.zero_xor)
  intro j hj
  rw [Vector.getElem_set]
  by_cases hij : i = j
  · subst hij
    rw [if_pos rfl, if_pos (by omega), hpad, hbyte, BitVec.xor_comm]
  · rw [if_neg hij, h j hj]
    simp only [show j < i + 1 ↔ j < i by omega]

theorem sm3HmacPads_padded (key : {k : Bytes // k.length ≤ 64}) {ctx : Sm3Context}
    (hi : ctx.ipad = Vector.replicate 64 0x36) (ho : ctx.opad = Vector.replicate 64 0x5C) :
    Padded key.val 0x36 key.val.length (sm3HmacPads key ctx).ipad ∧
      Padded key.val 0x5C key.val.length (sm3HmacPads key ctx).opad := by
  let I := fun (i : Nat) (ctx : Sm3Context) =>
    Padded key.val 0x36 i ctx.ipad ∧ Padded key.val 0x5C i ctx.opad
  have hstart : I 0 ctx := by
    refine ⟨?_, ?_⟩
    · rw [hi]
      exact padded_replicate _ _
    · rw [ho]
      exact padded_replicate _ _
  refine fold_invariant I hstart fun i h ctx hctx => ?_
  have hlt : i < 64 := lt_of_lt_of_le h key.property
  exact ⟨hctx.1.set hlt h, hctx.2.set hlt h⟩

theorem Padded.toList {key : Bytes} {c : u8} {p : Vector u8 64}
    (h : Padded (Hmac.shortKey sm3 64 key) c (Hmac.shortKey sm3 64 key).length p) :
    p.toList = Hmac.pad (· ^^^ ·) c (Hmac.blockKey sm3 64 0 key) := by
  have hlen : (Hmac.blockKey sm3 64 0 key).length = 64 :=
    Hmac.blockKey_length (fun m => by rw [sm3_length]; decide) key
  apply List.ext_getElem?
  intro j
  by_cases hj : j < 64
  · rw [Hmac.pad_blockKey_getElem? c hj, List.getElem?_eq_getElem (by simpa using hj),
      Vector.getElem_toList, h j hj]
    split
    · rfl
    · rw [List.getD_eq_getElem?_getD, List.getElem?_eq_none (by omega)]
      rfl
  · rw [List.getElem?_eq_none (by simpa using hj), List.getElem?_eq_none]
    rw [Hmac.pad_length, hlen]
    omega

theorem sm3HmacStarts_holds (ctx : Sm3Context) (key : Bytes) :
    let K0 := Hmac.blockKey sm3 64 0 key
    Sm3Holds (sm3HmacStarts ctx key) (Hmac.pad (· ^^^ ·) 0x36 K0) ∧
      (sm3HmacStarts ctx key).opad.toList = Hmac.pad (· ^^^ ·) 0x5C K0 := by
  have hipad : Sm3Context.ipad { ctx with
      ipad := Vector.replicate 64 0x36
      opad := Vector.replicate 64 0x5C } = Vector.replicate 64 0x36 := rfl
  have hpads := sm3HmacPads_padded (sm3HmacKey key) hipad rfl
  rw [sm3HmacKey_val] at hpads
  have hi := hpads.1.toList
  have ho := hpads.2.toList
  refine ⟨?_, ?_⟩
  · have h := (sm3Holds_starts (sm3HmacPads (sm3HmacKey key)
      { ctx with ipad := Vector.replicate 64 0x36, opad := Vector.replicate 64 0x5C })).update
      (x := Hmac.pad (· ^^^ ·) 0x36 (Hmac.blockKey sm3 64 0 key)) (by rw [← hi]; simp)
    rw [← hi] at h ⊢
    exact h
  · rw [← ho]
    exact congrArg (fun p => p.2.toList) (sm3Update_pads _ _)

theorem sm3HmacFinish_snd (ctx : Sm3Context) :
    let outer := sm3Starts (sm3Finish ctx).1
    (sm3HmacFinish ctx).2 =
      (sm3Finish (sm3Update (sm3Update outer outer.opad.toList) (sm3Finish ctx).2)).2 := rfl

theorem sm3HmacFinish_eq {ctx : Sm3Context} {m : Bytes} (h : Sm3Holds ctx m) :
    (sm3HmacFinish ctx).2 = sm3Hash (ctx.opad.toList ++ sm3Hash m) := by
  let outer := sm3Starts (sm3Finish ctx).1
  have hkept : outer.opad = ctx.opad :=
    congrArg Prod.snd ((sm3Starts_pads _).trans (sm3Finish_pads ctx))
  have hlen : (sm3Finish ctx).2.length = 32 := sm3Output_length _
  have hopad := (sm3Holds_starts (sm3Finish ctx).1).update (x := outer.opad.toList) (by simp)
  have houter := hopad.update (x := (sm3Finish ctx).2) (by rw [hlen]; decide)
  rw [sm3HmacFinish_snd, sm3Finish_eq houter, List.nil_append, hkept, sm3Finish_eq h]

theorem sm3HmacTag_eq (ctx : Sm3Context) (key : Bytes) {chunks : List Bytes}
    (hlen : ∀ c ∈ chunks, c.length < 2 ^ 31) :
    let K0 := Hmac.blockKey sm3 64 0 key
    (sm3HmacFinish (chunks.foldl sm3HmacUpdate (sm3HmacStarts ctx key))).2 =
      sm3Hash (Hmac.pad (· ^^^ ·) 0x5C K0 ++
        sm3Hash (Hmac.pad (· ^^^ ·) 0x36 K0 ++ chunks.flatten)) := by
  intro K0
  have hstarts := sm3HmacStarts_holds ctx key
  have hkept : (chunks.foldl sm3HmacUpdate (sm3HmacStarts ctx key)).opad =
      (sm3HmacStarts ctx key).opad := congrArg Prod.snd (foldl_sm3Update_pads _ chunks)
  have hfin := sm3HmacFinish_eq (hstarts.1.foldl chunks hlen)
  rw [← hstarts.2, ← hkept]
  exact hfin

/-- HMAC-SM3 of a message in any chunks under a key of any length is the HMAC
construction over the digest that `sm3` computes. -/
theorem sm3_hmac_digest (ctx : Sm3Context) (key : Bytes) (hkey : key.length < 2 ^ 31)
    (chunks : List Bytes) (hlen : ∀ c ∈ chunks, c.length < 2 ^ 31) :
    let tag := (sm3HmacFinish (chunks.foldl sm3HmacUpdate (sm3HmacStarts ctx key))).2
    let short := if 64 < key.length then sm3 key else key
    let K0 := short ++ List.replicate (64 - short.length) 0
    tag = sm3Hash (K0.map (· ^^^ 0x5C) ++ sm3Hash (K0.map (· ^^^ 0x36) ++ chunks.flatten)) ∧
    tag = Hmac.mac sm3Hash 64 (· ^^^ ·) 0 0x36 0x5C key chunks.flatten ∧
    (∀ m : Bytes, m.length < 2 ^ 31 → sm3 m = sm3Hash m) ∧
    (chunks.flatten.length < 2 ^ 31 → sm3Hmac key chunks.flatten = tag) := by
  have htag := sm3HmacTag_eq ctx key hlen
  refine ⟨htag, ?_, fun m h => sm3_eq h, fun h => ?_⟩
  · rw [Hmac.mac, Hmac.blockKey, Hmac.shortKey_congr (sm3_eq hkey).symm]
    exact htag
  · have hsingle : ∀ c ∈ [chunks.flatten], c.length < 2 ^ 31 := by simpa using h
    have hone := sm3HmacTag_eq default key hsingle
    rw [List.flatten_singleton] at hone
    exact hone.trans htag.symm

theorem sm3_hmac_digest_long_key :
    sm3Hmac (List.replicate 65 0x0B) [0x61, 0x62, 0x63] =
      (sm3HmacFinish ([[0x61], [], [0x62, 0x63]].foldl sm3HmacUpdate
        (sm3HmacStarts default (List.replicate 65 0x0B)))).2 :=
  (sm3_hmac_digest default (List.replicate 65 0x0B) (by decide) [[0x61], [], [0x62, 0x63]]
    (by decide)).2.2.2 (by decide)

end SecProGIS
