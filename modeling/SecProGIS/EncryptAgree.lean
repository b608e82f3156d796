import SecProGIS.Encrypt

/-! `encrypt.cpp` against `sm4.cpp`: the key schedules agree on 28 of the 32
round keys, and the routines for a buffer agree. -/

namespace SecProGIS

def sm4KeyT (x1 x2 x3 ck : u32) : u32 := sm4CalciRK (x1 ^^^ x2 ^^^ x3 ^^^ ck)

def sm4KeyStart (key : Vector u8 16) : u32 × u32 × u32 × u32 :=
  (getUlongBE key.toList 0 ^^^ FK.get 0, getUlongBE key.toList 4 ^^^ FK.get 1,
    getUlongBE key.toList 8 ^^^ FK.get 2, getUlongBE key.toList 12 ^^^ FK.get 3)

def sm4KeyState (key : Vector u8 16) (i : Nat) : u32 × u32 × u32 × u32 :=
  (CK.toList.take i).foldl (Feistel.round (· ^^^ ·) sm4KeyT) (sm4KeyStart key)

/-- Round key `i` of SM4: the word that turn `i` of the network appends. -/
def sm4RoundKey (key : Vector u8 16) (i : Nat) : u32 := (sm4KeyState key (i + 1)).2.2.2

theorem sm4KeyState_succ (key : Vector u8 16) {i : Nat} (h : i < 32) :
    sm4KeyState key (i + 1) = Feistel.round (· ^^^ ·) sm4KeyT (sm4KeyState key i) CK[i] := by
  have hlen : i < CK.toList.length := by simpa using h
  rw [sm4KeyState, Feistel.foldl_take_succ hlen, Vector.getElem_toList]
  rfl

section

variable {m : Nat} (key : Vector u8 16)

/-- The four words from `k[0]` on, which both schedules set before the loop. -/
def sm4KeyWords (hm : 4 ≤ m) : Vector u32 m :=
  let word := fun i => getUlongBE key.toList i
  let k : Vector u32 m := Vector.replicate m 0
  (((k.set 0 (word 0 ^^^ FK[0])).set 1 (word 4 ^^^ FK[1])).set 2
    (word 8 ^^^ FK[2])).set 3 (word 12 ^^^ FK[3])

def sm4SetkeyTurn {n : Nat} (hm : n + 4 ≤ m) (hn : n ≤ 32) (i : Nat) (_ : i < n)
    (s : Vector u32 m × Vector u32 32) : Vector u32 m × Vector u32 32 :=
  let v := s.1[i] ^^^ sm4CalciRK (s.1[i + 1] ^^^ s.1[i + 2] ^^^ s.1[i + 3] ^^^ CK[i])
  (s.1.set (i + 4) v, s.2.set i v)

theorem sm4KeyWords_state (h : 4 ≤ m) :
    ((sm4KeyWords key h)[0], (sm4KeyWords key h)[1], (sm4KeyWords key h)[2],
      (sm4KeyWords key h)[3]) = sm4KeyState key 0 := by
  simp [sm4KeyWords, sm4KeyState, sm4KeyStart, Vector.get_eq_getElem]

section

variable {key} {n i : Nat} (hm : n + 4 ≤ m) (hn : n ≤ 32) (h : i < n)
  {s : Vector u32 m × Vector u32 32}

theorem sm4SetkeyTurn_state
    (hs : (s.1[i], s.1[i + 1], s.1[i + 2], s.1[i + 3]) = sm4KeyState key i) :
    ((sm4SetkeyTurn hm hn i h s).1[i + 1], (sm4SetkeyTurn hm hn i h s).1[i + 2],
      (sm4SetkeyTurn hm hn i h s).1[i + 3], (sm4SetkeyTurn hm hn i h s).1[i + 4]) =
      sm4KeyState key (i + 1) := by
  rw [sm4KeyState_succ key (by omega), ← hs]
  simp [sm4SetkeyTurn, Feistel.round, sm4KeyT]

theorem sm4SetkeyTurn_key
    (hs : (s.1[i], s.1[i + 1], s.1[i + 2], s.1[i + 3]) = sm4KeyState key i) {j : Nat} (hj : j < 32) :
    (sm4SetkeyTurn hm hn i h s).2[j] = if i = j then sm4RoundKey key i else s.2[j] := by
  have hword : sm4RoundKey key i = s.1[i] ^^^
      sm4CalciRK (s.1[i + 1] ^^^ s.1[i + 2] ^^^ s.1[i + 3] ^^^ CK[i]) := by
    rw [sm4RoundKey, sm4KeyState_succ key (by omega), ← hs]
    rfl
  simp only [sm4SetkeyTurn, Vector.getElem_set, hword]

end

theorem sm4SetkeyTurns_eq {n : Nat} (hm : n + 4 ≤ m) (hn : n ≤ 32) (SK : Vector u32 32) (j : Nat)
    (hj : j < 32) :
    (Nat.fold n (sm4SetkeyTurn hm hn) (sm4KeyWords key (by omega), SK)).2[j] =
      if j < n then sm4RoundKey key j else SK[j] := by
  have h4 : 4 ≤ m := by omega
  let I := fun (i : Nat) (s : Vector u32 m × Vector u32 32) => ∀ _ : i ≤ n,
    (s.1[i], s.1[i + 1], s.1[i + 2], s.1[i + 3]) = sm4KeyState key i ∧
    ∀ j (hj : j < 32), s.2[j] = if j < i then sm4RoundKey key j else SK[j]
  have hstart : I 0 (sm4KeyWords key h4, SK) := fun _ => ⟨sm4KeyWords_state key h4, fun _ _ => rfl⟩
  have hturn : ∀ i (h : i < n) s, I i s → I (i + 1) (sm4SetkeyTurn hm hn i h s) := by
    intro i h s hs _
    obtain ⟨hstate, hkeys⟩ := hs h.le
    refine ⟨sm4SetkeyTurn_state hm hn h hstate, fun j hj => ?_⟩
    rw [sm4SetkeyTurn_key hm hn h hstate hj, hkeys j hj]
    by_cases hij : i = j
    · rw [if_pos hij, if_pos (by omega), hij]
    · have hiff : j < i ↔ j < i + 1 := by omega
      simp only [if_neg hij, hiff]
  exact (fold_invariant I hstart hturn le_rfl).2 j hj

end

/-- `sm4_setkey` of `sm4.cpp` on the words that `SK` holds before. -/
def sm4SetkeyInto (SK : Vector u32 32) (key : Vector u8 16) : Vector u32 32 :=
  (Nat.fold 32 (sm4SetkeyTurn (m := 36) le_rfl le_rfl) (sm4KeyWords key (by decide), SK)).2

def sm4SetkeyEncInto (ctx : Sm4Context) (key : Vector u8 16) : Sm4Context :=
  ⟨1, sm4SetkeyInto ctx.sk key⟩

def sm4SetkeyDecInto (ctx : Sm4Context) (key : Vector u8 16) : Sm4Context :=
  ⟨1, Nat.fold 16 sm4SwapTurn (sm4SetkeyInto ctx.sk key)⟩

section

variable (key : Vector u8 16) (SK : Vector u32 32)

theorem sm4SetkeyInto_getElem {j : Nat} (hj : j < 32) :
    (sm4SetkeyInto SK key)[j] = sm4RoundKey key j := by
  rw [sm4SetkeyInto, sm4SetkeyTurns_eq key le_rfl le_rfl SK j hj, if_pos hj]

/-- All 32 words are written, so that nothing depends on those before. -/
theorem sm4SetkeyInto_eq : sm4SetkeyInto SK key = sm4Setkey key := by
  have hzero : sm4Setkey key = sm4SetkeyInto (Vector.replicate 32 0) key := rfl
  apply Vector.ext
  intro j hj
  rw [hzero, sm4SetkeyInto_getElem key SK hj, sm4SetkeyInto_getElem key _ hj]

theorem encrypt_sm4Setkey_getElem {j : Nat} (hj : j < 32) :
    (Encrypt.sm4Setkey SK key)[j] = if j < 28 then sm4RoundKey key j else SK[j] := by
  have hturns : Encrypt.sm4Setkey SK key = (Nat.fold 28 (sm4SetkeyTurn (m := 32) le_rfl
      (by decide : 28 ≤ 32)) (sm4KeyWords key (by decide), SK)).2 := by
    have hturn : Encrypt.sm4SetkeyTurn =
        sm4SetkeyTurn (m := 32) le_rfl (by decide : 28 ≤ 32) := by
      funext i hi s
      rw [Encrypt.sm4SetkeyTurn, encrypt_sm4CalciRK, encrypt_CK (by omega)]
      rfl
    rw [Encrypt.sm4Setkey, hturn]
    rfl
  rw [hturns]
  exact sm4SetkeyTurns_eq key le_rfl (by decide) SK j hj

def HoldsLastKeys : Prop := SK.toList.drop 28 = [28, 29, 30, 31].map (sm4RoundKey key)

instance : Decidable (HoldsLastKeys key SK) := inferInstanceAs (Decidable (_ = _))

theorem holdsLastKeys_iff : HoldsLastKeys key SK ↔
    ∀ j (hj : j < 32), 28 ≤ j → SK[j] = sm4RoundKey key j := by
  have hdrop : SK.toList.drop 28 = [SK[28], SK[29], SK[30], SK[31]] := by
    apply List.ext_getElem
    · simp
    · intro i hi _
      have hi4 : i < 4 := by simpa using hi
      rw [List.getElem_drop, Vector.getElem_toList]
      interval_cases i <;> rfl
  rw [HoldsLastKeys, hdrop]
  simp only [List.map_cons, List.map_nil, List.cons.injEq, and_true]
  constructor
  · rintro ⟨h28, h29, h30, h31⟩ j hj hle
    rcases (by omega : j = 28 ∨ j = 29 ∨ j = 30 ∨ j = 31) with rfl | rfl | rfl | rfl
    · exact h28
    · exact h29
    · exact h30
    · exact h31
  · intro h
    exact ⟨h 28 (by decide) le_rfl, h 29 (by decide) (by decide), h 30 (by decide) (by decide),
      h 31 (by decide) (by decide)⟩

theorem encrypt_sm4Setkey_eq_iff :
    Encrypt.sm4Setkey SK key = sm4SetkeyInto SK key ↔ HoldsLastKeys key SK := by
  rw [holdsLastKeys_iff]
  constructor
  · intro h j hj hle
    have hj' := encrypt_sm4Setkey_getElem key SK hj
    rw [if_neg (by omega)] at hj'
    rw [← hj', ← sm4SetkeyInto_getElem key SK hj]
    exact congrArg (fun v : Vector u32 32 => v[j]) h
  · intro h
    apply Vector.ext
    intro j hj
    rw [encrypt_sm4Setkey_getElem key SK hj, sm4SetkeyInto_getElem key SK hj]
    split
    · rfl
    · exact h j hj (by omega)

end

/-- The contexts of the two files agree, and so do their blocks, exactly when
the words that `encrypt.cpp` does not write hold the last round keys before. -/
theorem key_schedules_agree_iff (key : Vector u8 16) (ctx : Sm4Context) :
    ((Encrypt.sm4SetkeyEnc ctx key).sk = (sm4SetkeyEncInto ctx key).sk ∧
      (Encrypt.sm4SetkeyDec ctx key).sk = (sm4SetkeyDecInto ctx key).sk ∧
      ∀ block : Vector u8 16,
        Encrypt.sm4OneRound (Encrypt.sm4SetkeyEnc ctx key).sk block.toList =
          sm4OneRound (sm4SetkeyEncInto ctx key).sk block.toList) ↔
    HoldsLastKeys key ctx.sk := by
  rw [← encrypt_sm4Setkey_eq_iff]
  constructor
  · exact fun h => h.1
  · intro h
    have hdec : (Encrypt.sm4SetkeyDec ctx key).sk = (sm4SetkeyDecInto ctx key).sk :=
      congrArg (fun sk => Nat.fold 16 sm4SwapTurn sk) h
    have henc : (Encrypt.sm4SetkeyEnc ctx key).sk = (sm4SetkeyEncInto ctx key).sk := h
    refine ⟨henc, hdec, fun block => ?_⟩
    rw [henc, encrypt_sm4OneRound]

def testKey : Vector u8 16 := #v[0x01, 0x23, 0x45, 0x67, 0x89, 0xab, 0xcd, 0xef,
  0xfe, 0xdc, 0xba, 0x98, 0x76, 0x54, 0x32, 0x10]

/-- In a context of zeros `encrypt.cpp` leaves four zero round keys. -/
theorem key_schedules_differ :
    let ctx : Sm4Context := ⟨0, Vector.replicate 32 0⟩
    (Encrypt.sm4SetkeyEnc ctx testKey).sk ≠ (sm4SetkeyEncInto ctx testKey).sk ∧
    Encrypt.sm4OneRound (Encrypt.sm4SetkeyEnc ctx testKey).sk testKey.toList ≠
      sm4OneRound (sm4SetkeyEncInto ctx testKey).sk testKey.toList := by
  constructor
  · exact (encrypt_sm4Setkey_eq_iff testKey _).not.mpr (by decide +kernel)
  · decide +kernel

section

variable (ctx : Sm4Context) {input output : Bytes}

theorem encrypt_sm4CryptTurn_block {i : Nat} (hin : i + 16 ≤ input.length)
    (hout : i + 16 ≤ output.length) :
    Encrypt.sm4CryptTurn ctx input.length input i output =
      some (Checked.splice output i (smCryptEcb16 ctx ((input.drop i).take 16))) := by
  rw [Encrypt.sm4CryptTurn, if_pos (by omega), encrypt_sm4OneRound]
  exact sm4OneRoundAt_eq ctx hin hout

theorem encrypt_sm4CryptTurn_rest {i : Nat} (hi : i ≤ input.length) (hin : input.length < i + 16)
    (hout : output.length = input.length) :
    Encrypt.sm4CryptTurn ctx input.length input i output =
      some (Checked.splice output i (smCryptEcb16 ctx (input.drop i))) := by
  have hcount : ((input.length : Int) - i).toNat = input.length - i := by omega
  have hshort : (input.drop i).length < 16 := by
    rw [List.length_drop]
    omega
  have hall : (input.drop i).take (input.length - i) = input.drop i :=
    List.take_of_length_le (by rw [List.length_drop])
  rw [Encrypt.sm4CryptTurn, if_neg (by omega), hcount, Checked.copyN_eq (by omega) (by omega),
    hall, smCryptEcb16_of_lt ctx hshort]

theorem encrypt_sm4CryptFrom_eq {i : Nat} (hout : output.length = input.length) :
    Encrypt.sm4CryptFrom ctx input.length input i output =
      some (Checked.splice output i (smCryptEcb16 ctx (input.drop i))) := by
  induction hn : input.length - i using Nat.strong_induction_on generalizing i output with
  | _ n ih =>
    by_cases hi : i < input.length
    · rw [Encrypt.sm4CryptFrom, dif_pos (by omega)]
      by_cases hblock : i + 16 ≤ input.length
      · have hlen : ((input.drop i).take 16).length = 16 := by
          rw [List.length_take, List.length_drop]
          omega
        have henc := smCryptEcb16_length ctx ((input.drop i).take 16)
        have hone : i + (smCryptEcb16 ctx ((input.drop i).take 16)).length ≤ output.length := by
          omega
        have hsplit := smCryptEcb16_append ctx (by rw [hlen]) ((input.drop i).drop 16)
        rw [List.take_append_drop, List.drop_drop] at hsplit
        rw [encrypt_sm4CryptTurn_block ctx hblock (by omega), Option.bind_eq_bind, Option.bind_some,
          ih _ (by omega) (by rw [Checked.splice_length hone, hout]) rfl, hsplit,
          ← Checked.splice_splice hone, henc, hlen]
      · rw [encrypt_sm4CryptTurn_rest ctx hi.le (by omega) hout, Option.bind_eq_bind,
          Option.bind_some, Encrypt.sm4CryptFrom, dif_neg (by omega)]
    · have hnil : input.drop i = [] := List.drop_of_length_le (by omega)
      have hempty : smCryptEcb16 ctx [] = [] :=
        List.eq_nil_of_length_eq_zero (smCryptEcb16_length _ _)
      rw [Encrypt.sm4CryptFrom, dif_neg (by omega), hnil, hempty, Checked.splice_nil]

end

/-- Both routines fill a buffer of the length of the input with the same bytes. -/
theorem ecb_routines_agree (ctx : Sm4Context) (x : Bytes) : ∃ y : Bytes, y.length = x.length ∧
    ∀ output : Vector u8 x.length,
      Encrypt.sm4CryptEcb ctx x.length x output.toList = some y ∧
      smCryptEcb16At ctx x.length x output.toList = some y := by
  refine ⟨smCryptEcb16 ctx x, smCryptEcb16_length ctx x, fun output => ?_⟩
  have hout : output.toList.length = x.length := by simp
  have hfrom := encrypt_sm4CryptFrom_eq ctx (i := 0) hout
  rw [List.drop_zero, Checked.splice_all (by rw [smCryptEcb16_length, hout])] at hfrom
  exact ⟨hfrom, smCryptEcb16At_eq ctx hout⟩

end SecProGIS
