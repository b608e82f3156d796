import SecProGIS.Sm3
import SecProGIS.Lib.Blocks

/-! SM3 over a stream: however a message is cut into updates, the context
holds the fold of the compression over its whole blocks and, in the buffer,
the bytes behind them. -/

namespace SecProGIS

theorem sm3Output_length (state : Vector u32 8) : (sm3Output state).length = 32 := by
  simp [sm3Output, List.length_flatMap]

theorem sm3_length (input : Bytes) : (sm3 input).length = 32 := sm3Output_length _

/-- A context that has taken in the message `m` since `sm3_starts`. -/
structure Sm3Holds (ctx : Sm3Context) (m : Bytes) : Prop where
  state_eq : ctx.state = (Blocks.whole 64 m).foldl sm3Process sm3IV
  buffer_eq : ctx.buffer.toList.take (m.length % 64) = Blocks.rest 64 m
  count_eq : sm3Count ctx.total = m.length % 2 ^ 64

theorem sm3Holds_starts (ctx : Sm3Context) : Sm3Holds (sm3Starts ctx) [] :=
  ⟨rfl, by simp, by simp [sm3Starts, sm3Count]⟩

theorem left_eq (t0 t1 : u32) {n : Nat} (h : t0.toNat + 2 ^ 32 * t1.toNat = n % 2 ^ 64) :
    (t0 &&& 0x3F).toNat = n % 64 := by
  have hmask : (t0 &&& 0x3F).toNat = t0.toNat % 64 := by
    rw [BitVec.toNat_and]
    exact Nat.and_two_pow_sub_one_eq_mod _ 6
  omega

theorem total_add (t0 t1 ilen : u32) {n k : Nat} (hn : t0.toNat + 2 ^ 32 * t1.toNat = n % 2 ^ 64)
    (hk : ilen.toNat = k) :
    let s := (t0 + ilen) &&& 0xFFFFFFFF
    s.toNat + 2 ^ 32 * (if s < ilen then t1 + 1 else t1).toNat = (n + k) % 2 ^ 64 := by
  have hmask : (t0 + ilen) &&& 0xFFFFFFFF = t0 + ilen := by
    have h1 : (0xFFFFFFFF : u32) = BitVec.allOnes 32 := by decide
    rw [h1, BitVec.and_allOnes]
  rw [hmask]
  have h0 := t0.isLt
  have h1 := t1.isLt
  have hi := ilen.isLt
  simp only [BitVec.lt_def, BitVec.toNat_add]
  split
  · have hone : (1 : u32).toNat = 1 := rfl
    rw [BitVec.toNat_add, hone]
    omega
  · omega

theorem sm3Blocks_absorb (ctx : Sm3Context) (left : Nat) (input : Bytes)
    (h : left = 0 ∨ left + input.length < 64) :
    let out := sm3Blocks ctx left input
    let s := Blocks.absorb 64 sm3Process (ctx.state, ctx.buffer.toList.take left) input
    out.state = s.1 ∧ out.buffer.toList.take s.2.length = s.2 ∧ out.total = ctx.total := by
  induction input using Blocks.induction (b := 64) (by decide) generalizing ctx with
  | short xs hlt =>
    have hleft : left + xs.length < 64 := by omega
    have hpre : (ctx.buffer.toList.take left).length = left := by simp; omega
    rw [sm3Blocks, dif_neg (by omega), Blocks.absorb_short (by simpa [hpre] using hleft)]
    by_cases hx : 0 < xs.length
    · rw [if_pos hx]
      refine ⟨rfl, ?_, rfl⟩
      rw [blit_toList (by omega)]
      exact List.take_left' rfl
    · have hnil : xs = [] := List.eq_nil_of_length_eq_zero (by omega)
      simp [hnil, hpre]
  | long xs hle ih =>
    have hleft : left = 0 := by omega
    subst left
    have hs := ih { ctx with state := sm3Process ctx.state (xs.take 64) } (Or.inl rfl)
    rw [sm3Blocks, dif_pos hle, Blocks.absorb_fill (by decide) (by simp) (by simpa using hle)]
    simpa using hs

theorem Sm3Holds.absorbed {ctx : Sm3Context} {m : Bytes} (h : Sm3Holds ctx m) :
    (ctx.state, ctx.buffer.toList.take (m.length % 64)) =
      Blocks.absorb 64 sm3Process (sm3IV, []) m := by
  rw [h.state_eq, h.buffer_eq]
  rfl

theorem sm3Holds_of_absorbed {ctx : Sm3Context} {m : Bytes} {t : Vector u32 2}
    {s : Vector u32 8 × Bytes} (hs : s = Blocks.absorb 64 sm3Process (sm3IV, []) m)
    (h : ctx.state = s.1 ∧ ctx.buffer.toList.take s.2.length = s.2 ∧ ctx.total = t)
    (ht : sm3Count t = m.length % 2 ^ 64) : Sm3Holds ctx m := by
  have h2 : s.2 = Blocks.rest 64 m := by rw [hs]; rfl
  refine ⟨by rw [h.1, hs]; rfl, ?_, by rw [h.2.2, ht]⟩
  rw [← Blocks.rest_length, ← h2]
  exact h.2.1

theorem Sm3Holds.update {ctx : Sm3Context} {m x : Bytes} (h : Sm3Holds ctx m)
    (hx : x.length < 2 ^ 31) : Sm3Holds (sm3Update ctx x) (m ++ x) := by
  by_cases hnil : x.length ≤ 0
  · have hx0 : x = [] := List.eq_nil_of_length_eq_zero (by omega)
    subst hx0
    simpa [sm3Update] using h
  have hilen : (BitVec.ofNat 32 x.length).toNat = x.length := by
    rw [BitVec.toNat_ofNat]
    exact Nat.mod_eq_of_lt (by omega)
  have htotal := total_add ctx.total[0] ctx.total[1] _ h.count_eq hilen
  rw [← List.length_append] at htotal
  have hstream : Blocks.absorb 64 sm3Process
      (ctx.state, ctx.buffer.toList.take (m.length % 64)) x =
      Blocks.absorb 64 sm3Process (sm3IV, []) (m ++ x) := by
    rw [h.absorbed, Blocks.absorb_absorb (by decide)]
  have hlt : m.length % 64 < 64 := Nat.mod_lt _ (by decide)
  have hpre : (ctx.buffer.toList.take (m.length % 64)).length = m.length % 64 := by simp; omega
  have hleft := left_eq ctx.total[0] ctx.total[1] h.count_eq
  simp only [sm3Update, if_neg hnil, hleft]
  split
  · -- the buffer is filled up and compressed, the loop goes on behind it
    rename_i hfill
    have hblit : (blit ctx.buffer (m.length % 64) (x.take (64 - m.length % 64))).toList =
        ctx.buffer.toList.take (m.length % 64) ++ x.take (64 - m.length % 64) := by
      rw [blit_toList (by rw [List.length_take]; omega), List.drop_of_length_le, List.append_nil]
      rw [Vector.length_toList, List.length_take]
      omega
    have hstep : Blocks.absorb 64 sm3Process
        (ctx.state, ctx.buffer.toList.take (m.length % 64)) x = _ :=
      Blocks.absorb_fill (by decide) (by rw [hpre]; omega) (by rw [hpre]; omega)
    refine sm3Holds_of_absorbed ?_ (sm3Blocks_absorb _ 0 _ (Or.inl rfl)) htotal
    rw [← hstream, hstep]
    simp only [hblit, hpre, List.take_zero]
  · rename_i hfill
    refine sm3Holds_of_absorbed ?_ (sm3Blocks_absorb _ (m.length % 64) _ (by omega)) htotal
    exact hstream

theorem Sm3Holds.foldl {ctx : Sm3Context} {m : Bytes} (h : Sm3Holds ctx m)
    (chunks : List Bytes) (hlen : ∀ c ∈ chunks, c.length < 2 ^ 31) :
    Sm3Holds (chunks.foldl sm3Update ctx) (m ++ chunks.flatten) := by
  induction chunks generalizing ctx m with
  | nil => simpa using h
  | cons c chunks ih =>
    have hc := ih (h.update (hlen c (by simp))) fun d hd => hlen d (by simp [hd])
    simpa [List.append_assoc] using hc

def be64 (n : Nat) : Bytes := (leBytes 8 (BitVec.ofNat 64 n)).reverse

/-- The least number of zeros that completes the last block of an `n`-byte
message, the mark `0x80` and the bit count. -/
def padZeros (n : Nat) : Nat := (119 - n % 64) % 64

def sm3Pad (m : Bytes) : Bytes :=
  m ++ 0x80 :: List.replicate (padZeros m.length) 0 ++ be64 (8 * m.length)

def sm3Hash (m : Bytes) : Bytes :=
  sm3Output ((Blocks.whole 64 (sm3Pad m)).foldl sm3Process sm3IV)

theorem padZeros_isLeast (n : Nat) : IsLeast {z | 64 ∣ n + 1 + z + 8} (padZeros n) := by
  constructor
  · simp only [padZeros, Set.mem_ofPred_eq]
    omega
  · intro z hz
    simp only [padZeros, Set.mem_ofPred_eq] at *
    omega

@[simp] theorem be64_length (n : Nat) : (be64 n).length = 8 := by simp [be64]

theorem half_byte (y : BitVec 64) (a k : Nat) (hk : k + 8 ≤ 32) :
    (((y >>> a).setWidth 32 : u32) >>> k).setWidth 8 = ((y >>> (a + k)).setWidth 8 : u8) := by
  apply BitVec.eq_of_getLsbD_eq
  intro i hi
  simp [hi, show k + i < 32 by omega, Nat.add_assoc]

theorem putUlongBE_halves (y : BitVec 64) :
    putUlongBE ((y >>> 32).setWidth 32) ++ putUlongBE (y.setWidth 32) = (leBytes 8 y).reverse := by
  have low : y.setWidth 32 = ((y >>> 0).setWidth 32 : u32) := by simp
  have whole : ∀ a : Nat, ((y >>> a).setWidth 32 : u32).setWidth 8 =
      ((y >>> a).setWidth 8 : u8) := by
    intro a
    simp
  rw [low]
  simp only [putUlongBE, half_byte y _ _ (by decide : 24 + 8 ≤ 32),
    half_byte y _ _ (by decide : 16 + 8 ≤ 32), half_byte y _ _ (by decide : 8 + 8 ≤ 32), whole]
  rfl

theorem msglen_eq (t0 t1 : u32) {n : Nat} (h : t0.toNat + 2 ^ 32 * t1.toNat = n % 2 ^ 64) :
    putUlongBE ((t0 >>> 29) ||| (t1 <<< 3)) ++ putUlongBE (t0 <<< 3) = be64 (8 * n) := by
  let y : BitVec 64 := (t1 ++ t0) <<< 3
  have hhigh : (t0 >>> 29) ||| (t1 <<< 3) = (y >>> 32).setWidth 32 := by
    apply BitVec.eq_of_getLsbD_eq
    intro i hi
    simp only [y, BitVec.getLsbD_or, BitVec.getLsbD_ushiftRight, BitVec.getLsbD_shiftLeft,
      BitVec.getLsbD_setWidth, BitVec.getLsbD_append, hi, decide_true, Bool.true_and,
      show 32 + i < 32 + 32 by omega, show ¬ 32 + i < 3 by omega, decide_false, Bool.not_false]
    by_cases h3 : i < 3
    · simp [h3, show 32 + i - 3 < 32 by omega, show 29 + i = 32 + i - 3 by omega]
    · simp [h3, show ¬ 32 + i - 3 < 32 by omega, show i - 3 = 32 + i - 3 - 32 by omega,
        BitVec.getLsbD_of_ge t0 (29 + i) (by omega)]
  have hlow : t0 <<< 3 = y.setWidth 32 := by
    apply BitVec.eq_of_getLsbD_eq
    intro i hi
    simp only [y, BitVec.getLsbD_shiftLeft, BitVec.getLsbD_setWidth, BitVec.getLsbD_append, hi,
      decide_true, Bool.true_and, show i < 32 + 32 by omega, show i - 3 < 32 by omega, if_true]
  have hy : y = BitVec.ofNat 64 (8 * n) := by
    apply BitVec.eq_of_toNat_eq
    have happ : (t1 ++ t0).toNat = n % 2 ^ 64 := by
      rw [BitVec.toNat_append, ← Nat.shiftLeft_add_eq_or_of_lt t0.isLt, Nat.shiftLeft_eq]
      omega
    simp only [y, BitVec.toNat_shiftLeft, happ, BitVec.toNat_ofNat, Nat.shiftLeft_eq]
    omega
  rw [hhigh, hlow, putUlongBE_halves, hy]
  rfl

theorem sm3Padding_take {k : Nat} (h0 : 0 < k) (h : k ≤ 64) :
    sm3Padding.take k = 0x80 :: List.replicate (k - 1) 0 := by
  obtain ⟨j, rfl⟩ : ∃ j, k = j + 1 := ⟨k - 1, by omega⟩
  simp only [sm3Padding, List.take_succ_cons, List.take_replicate, Nat.add_sub_cancel]
  rw [Nat.min_eq_left (by omega)]

theorem sm3Finish_eq {ctx : Sm3Context} {m : Bytes} (h : Sm3Holds ctx m) :
    (sm3Finish ctx).2 = sm3Hash m := by
  have hlast := left_eq ctx.total[0] ctx.total[1] h.count_eq
  have hlt : m.length % 64 < 64 := Nat.mod_lt _ (by decide)
  let padn := if m.length % 64 < 56 then 56 - m.length % 64 else 120 - m.length % 64
  have hpadn : padn - 1 = padZeros m.length ∧ 0 < padn ∧ padn ≤ 64 := by
    simp only [padn, padZeros]
    split <;> omega
  have hpad : sm3Padding.take padn = 0x80 :: List.replicate (padZeros m.length) 0 := by
    rw [sm3Padding_take hpadn.2.1 hpadn.2.2, hpadn.1]
  have hlen := msglen_eq _ _ h.count_eq
  have h1 := h.update (x := sm3Padding.take padn) (by
    have := List.length_take_le padn sm3Padding
    omega)
  have h2 := h1.update (x := be64 (8 * m.length)) (by simp)
  have hm : m ++ sm3Padding.take padn ++ be64 (8 * m.length) = sm3Pad m := by
    rw [hpad, sm3Pad]
  rw [hm] at h2
  simp only [sm3Finish, hlast, hlen]
  rw [sm3Hash, ← h2.state_eq]

theorem sm3_eq {m : Bytes} (h : m.length < 2 ^ 31) : sm3 m = sm3Hash m := by
  have hh := (sm3Holds_starts default).update h
  rw [List.nil_append] at hh
  exact sm3Finish_eq hh

theorem sm3FileLoop_holds {ctx : Sm3Context} {m : Bytes} (f : SeekFile u8) (h : Sm3Holds ctx m) :
    Sm3Holds (sm3FileLoop ctx f) (m ++ f.ahead) := by
  induction ctx, f using sm3FileLoop.induct generalizing m with
  | case1 ctx f hread ih =>
    rw [sm3FileLoop, dif_pos hread]
    have hu := ih (h.update (x := (f.read 1024).1) (by
      rw [SeekFile.read_fst]
      have := List.length_take_le 1024 f.ahead
      omega))
    rwa [SeekFile.read_ahead, SeekFile.read_fst, List.append_assoc, List.take_append_drop] at hu
  | case2 ctx f hread =>
    rw [sm3FileLoop, dif_neg hread]
    have hnil : f.ahead = [] := by simpa using hread
    simpa [hnil] using h

theorem sm3File_eq (content : Bytes) (ferror : Bool) :
    sm3File (some (content, ferror)) = (if ferror then 2 else 0, some (sm3Hash content)) := by
  have h := sm3FileLoop_holds (SeekFile.opened content) (sm3Holds_starts default)
  rw [SeekFile.opened_ahead, List.nil_append] at h
  simp only [sm3File, sm3Finish_eq h]

/-- SM3 over any cut of a message is the digest of the padded message, and
the buffer and the file routine agree on it. -/
theorem sm3_streaming (ctx : Sm3Context) (chunks : List Bytes)
    (hlen : ∀ c ∈ chunks, c.length < 2 ^ 31) :
    let m := chunks.flatten
    (sm3Finish (chunks.foldl sm3Update (sm3Starts ctx))).2 = sm3Output
      ((Blocks.whole 64 (m ++ 0x80 :: List.replicate (padZeros m.length) 0 ++
        be64 (8 * m.length))).foldl sm3Process (sm3Starts ctx).state) ∧
    IsLeast {z | 64 ∣ m.length + 1 + z + 8} (padZeros m.length) ∧
    sm3File (some (m, false)) =
      (0, some (sm3Finish (chunks.foldl sm3Update (sm3Starts ctx))).2) ∧
    (m.length < 2 ^ 31 → sm3 m = (sm3Finish (chunks.foldl sm3Update (sm3Starts ctx))).2) := by
  have hholds := (sm3Holds_starts ctx).foldl chunks hlen
  rw [List.nil_append] at hholds
  have hfin := sm3Finish_eq hholds
  refine ⟨hfin, padZeros_isLeast _, ?_, fun h => ?_⟩
  · rw [sm3File_eq, hfin]
    rfl
  · rw [sm3_eq h, hfin]

theorem sm3_streaming_abc :
    sm3 [0x61, 0x62, 0x63] =
      (sm3Finish ([[0x61], [], [0x62, 0x63]].foldl sm3Update (sm3Starts default))).2 :=
  (sm3_streaming default [[0x61], [], [0x62, 0x63]] (by decide)).2.2.2 (by decide)

end SecProGIS
