import SecProGIS.EcbBuffer

/-! One block through the 32 rounds, with any function in the place of
`sm4Lt`: the reversed round keys undo it, wherever the two buffers lie. -/

namespace SecProGIS

/-- `sm4_one_round( sk, input, output )` on two pointers into one memory: all of
the input is read before the first byte of the output is written. -/
def sm4OneRoundMem (lt : u32 → u32) (sk : Vector u32 32) (input output : Nat) (mem : Bytes) :
    Option Bytes := do
  let block ← Checked.readN mem input 16
  Checked.writeN mem output (sm4OneRoundBy (sm4FBy lt) sk block)

theorem sm4OneRoundAt_eq_mem (sk : Vector u32 32) (p : Nat) (mem : Bytes) :
    sm4OneRoundAt sk mem p mem = sm4OneRoundMem sm4Lt sk p p mem := rfl

theorem sm4OneRoundMem_eq (lt : u32 → u32) (sk : Vector u32 32) {input output : Nat} {mem : Bytes}
    (hin : input + 16 ≤ mem.length) (hout : output + 16 ≤ mem.length) :
    sm4OneRoundMem lt sk input output mem = some (Checked.splice mem output
      (sm4OneRoundBy (sm4FBy lt) sk (Checked.window mem input 16))) := by
  rw [sm4OneRoundMem, Checked.readN_eq hin, Option.bind_eq_bind, Option.bind_some,
    Checked.writeN_eq (by rw [sm4OneRoundBy_length]; exact hout)]
  rfl

/-- A block, put through the rounds from any place to any place, the same among them,
and on through the swapped round keys to any place, is the block again. -/
theorem one_round_inverts (lt : u32 → u32) (sk : Vector u32 32) (mem : Bytes) (a b c : Nat)
    (ha : a + 16 ≤ mem.length) (hb : b + 16 ≤ mem.length) (hc : c + 16 ≤ mem.length) :
    Nat.fold 16 sm4SwapTurn sk = sk.reverse ∧ ∃ y : Bytes, y.length = 16 ∧
      sm4OneRoundMem lt sk a b mem = some (Checked.splice mem b y) ∧
      sm4OneRoundMem lt (Nat.fold 16 sm4SwapTurn sk) b c (Checked.splice mem b y) =
        some (Checked.splice (Checked.splice mem b y) c (Checked.window mem a 16)) := by
  let x := Checked.window mem a 16
  let y := sm4OneRoundBy (sm4FBy lt) sk x
  have hx : x.length = 16 := Checked.window_length ha
  have hy : y.length = 16 := sm4OneRoundBy_length lt sk x
  have hroom : b + y.length ≤ mem.length := by omega
  have hkept := Checked.splice_length hroom
  have hread : Checked.window (Checked.splice mem b y) b 16 = y :=
    Checked.window_splice_same hy hb
  have hrev : (Nat.fold 16 sm4SwapTurn sk).toList = sk.toList.reverse := by
    rw [sm4SwapTurns_eq, Vector.toList_reverse]
  refine ⟨sm4SwapTurns_eq sk, y, hy, sm4OneRoundMem_eq lt sk ha hb, ?_⟩
  rw [sm4OneRoundMem_eq lt _ (by omega) (by omega), hread, sm4OneRoundBy_reverse lt hrev hx]

theorem one_round_inverts_in_place : ∃ y : Bytes, y.length = 16 ∧
    sm4OneRoundMem sm4Lt (Vector.replicate 32 7) 0 0 (List.replicate 16 0x41) =
      some (Checked.splice (List.replicate 16 0x41) 0 y) ∧
    sm4OneRoundMem sm4Lt (Nat.fold 16 sm4SwapTurn (Vector.replicate 32 7)) 0 0
        (Checked.splice (List.replicate 16 0x41) 0 y) =
      some (Checked.splice (Checked.splice (List.replicate 16 0x41) 0 y) 0
        (Checked.window (List.replicate 16 0x41) 0 16)) :=
  (one_round_inverts sm4Lt (Vector.replicate 32 7) (List.replicate 16 0x41) 0 0 0 (by decide)
    (by decide) (by decide)).2

end SecProGIS
