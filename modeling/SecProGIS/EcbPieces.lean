import SecProGIS.Container

/-! A buffer encrypted in pieces: the tail that `sm_crypt_ecb_16` leaves alone
comes at the end of a piece, so all pieces but the last have to be aligned. -/

namespace SecProGIS

theorem smCryptEcb16_flatten (ctx : Sm4Context) {pieces : List Bytes}
    (h : ∀ p ∈ pieces.dropLast, 16 ∣ p.length) :
    (pieces.map (smCryptEcb16 ctx)).flatten = smCryptEcb16 ctx pieces.flatten := by
  induction pieces with
  | nil => exact (List.eq_nil_of_length_eq_zero (smCryptEcb16_length ctx [])).symm
  | cons p pieces ih =>
    cases pieces with
    | nil => simp
    | cons q pieces =>
      rw [List.dropLast_cons_cons] at h
      have hp : 16 ∣ p.length := h p List.mem_cons_self
      have hrest := ih fun r hr => h r (List.mem_cons_of_mem p hr)
      rw [List.map_cons, List.flatten_cons, hrest, ← smCryptEcb16_append ctx hp]
      rfl

def blocksRead (plain : SeekFile u8) : List Bytes :=
  if _h : 0 < (plain.read encBlockSize).1.length then
    (plain.read encBlockSize).1 :: blocksRead (plain.read encBlockSize).2
  else []
termination_by plain.ahead.length
decreasing_by
  rw [SeekFile.read_ahead, List.length_drop]
  simp only [SeekFile.read_fst, List.length_take] at _h
  unfold encBlockSize at *
  omega

theorem encryptBlocks_eq_foldl (key : Vector u8 16) (plain cipher : SeekFile u8) :
    encryptBlocks key plain cipher = (blocksRead plain).foldl
      (fun f p => f.write 0 (smCryptEcb16 (sm4SetkeyEnc key) p)) cipher := by
  induction plain, cipher using encryptBlocks.induct key with
  | case1 plain cipher hread ih =>
    rw [encryptBlocks, dif_pos hread, blocksRead, dif_pos hread]
    exact ih
  | case2 plain cipher hread =>
    rw [encryptBlocks, dif_neg hread, blocksRead, dif_neg hread]
    rfl

theorem read_block_pos {plain : SeekFile u8} :
    0 < (plain.read encBlockSize).1.length ↔ plain.ahead ≠ [] := by
  rw [SeekFile.read_fst, List.length_take, ← List.length_pos_iff]
  unfold encBlockSize
  omega

theorem blocksRead_flatten (plain : SeekFile u8) : (blocksRead plain).flatten = plain.ahead := by
  induction plain using blocksRead.induct with
  | case1 plain hread ih =>
    rw [blocksRead, dif_pos hread, List.flatten_cons, ih, SeekFile.read_fst, SeekFile.read_ahead,
      List.take_append_drop]
  | case2 plain hread =>
    have hnil : plain.ahead = [] := not_not.mp (read_block_pos.not.mp hread)
    rw [blocksRead, dif_neg hread, hnil]
    rfl

theorem blocksRead_dropLast (plain : SeekFile u8) :
    ∀ p ∈ (blocksRead plain).dropLast, p.length = encBlockSize := by
  induction plain using blocksRead.induct with
  | case1 plain hread ih =>
    rw [blocksRead, dif_pos hread]
    by_cases hnext : 0 < ((plain.read encBlockSize).2.read encBlockSize).1.length
    · have hahead := read_block_pos.mp hnext
      rw [SeekFile.read_ahead, Ne, List.drop_eq_nil_iff, not_le] at hahead
      have hfull : (plain.read encBlockSize).1.length = encBlockSize := by
        rw [SeekFile.read_fst, List.length_take, Nat.min_eq_left (by omega)]
      rw [blocksRead, dif_pos hnext] at ih ⊢
      rw [List.dropLast_cons_cons, List.forall_mem_cons]
      exact ⟨hfull, ih⟩
    · rw [blocksRead, dif_neg hnext]
      simp
  | case2 plain hread =>
    rw [blocksRead, dif_neg hread]
    simp

/-- Aligned pieces encrypt to the pieces of the whole, and so do the blocks that
`OnEncryptFile` reads of a file of any length. -/
theorem pieces_encrypt (ctx : Sm4Context) (pieces : List Bytes)
    (h : ∀ p ∈ pieces.dropLast, 16 ∣ p.length) :
    (pieces.map (smCryptEcb16 ctx)).flatten = smCryptEcb16 ctx pieces.flatten ∧
    ∀ x : Bytes, (blocksRead (.opened x)).flatten = x ∧
      ((blocksRead (.opened x)).map (smCryptEcb16 ctx)).flatten = smCryptEcb16 ctx x := by
  refine ⟨smCryptEcb16_flatten ctx h, fun x => ?_⟩
  have hflat := blocksRead_flatten (.opened x)
  rw [SeekFile.opened_ahead] at hflat
  have haligned : ∀ p ∈ (blocksRead (.opened x)).dropLast, 16 ∣ p.length := by
    intro p hp
    rw [blocksRead_dropLast _ p hp]
    exact ⟨6400, rfl⟩
  have hpieces := smCryptEcb16_flatten ctx haligned
  rw [hflat] at hpieces
  exact ⟨hflat, hpieces⟩

theorem pieces_encrypt_two :
    let ctx := sm4SetkeyEnc (Vector.replicate 16 0)
    ([List.replicate 16 0x41, [0x42]].map (smCryptEcb16 ctx)).flatten =
      smCryptEcb16 ctx (List.replicate 16 0x41 ++ [0x42]) :=
  (pieces_encrypt (sm4SetkeyEnc (Vector.replicate 16 0)) [List.replicate 16 0x41, [0x42]]
    (by decide)).1

end SecProGIS
