import SecProGIS.Sm4
import SecProGIS.Lib.Checked

/-! `sm_crypt_ecb_16` on buffers whose accesses are checked: it stays inside
both, and decryption undoes it. -/

namespace SecProGIS

/-- `sm4_one_round( ctx->sk, input, output )` on the block at `p` of two buffers. -/
def sm4OneRoundAt (sk : Vector u32 32) (input : Bytes) (p : Nat) (output : Bytes) :
    Option Bytes := do
  let block ← Checked.readN input p 16
  Checked.writeN output p (sm4OneRound sk block)

def sm4CryptEcbAt (ctx : Sm4Context) (input : Bytes) (length : Int) (p : Nat) (output : Bytes) :
    Option Bytes :=
  if _h : 0 < length then do
    let output ← sm4OneRoundAt ctx.sk input p output
    sm4CryptEcbAt ctx input (length - 16) (p + 16) output
  else some output
termination_by length.toNat

def smCryptEcb16At (ctx : Sm4Context) (length : Int) (input output : Bytes) : Option Bytes := do
  let ilen := (length >>> (4 : Nat)) <<< (4 : Nat)
  let output ← sm4CryptEcbAt ctx input ilen 0 output
  Checked.copyN input ilen.toNat (length - ilen).toNat output

section

variable (ctx : Sm4Context) {input output : Bytes}

theorem sm4OneRoundAt_eq {p : Nat} (hin : p + 16 ≤ input.length) (hout : p + 16 ≤ output.length) :
    sm4OneRoundAt ctx.sk input p output =
      some (Checked.splice output p (smCryptEcb16 ctx ((input.drop p).take 16))) := by
  have hlen : ((input.drop p).take 16).length = 16 := by
    rw [List.length_take, List.length_drop]
    omega
  have hbound : p + (smCryptEcb16 ctx ((input.drop p).take 16)).length ≤ output.length := by
    rw [smCryptEcb16_length, hlen]
    exact hout
  rw [smCryptEcb16_block ctx hlen] at hbound ⊢
  rw [sm4OneRoundAt, Checked.readN_eq hin, Option.bind_eq_bind, Option.bind_some,
    Checked.writeN_eq hbound]

theorem sm4CryptEcbAt_eq {p k : Nat} (hin : p + 16 * k ≤ input.length)
    (hout : p + 16 * k ≤ output.length) :
    sm4CryptEcbAt ctx input ↑(16 * k) p output =
      some (Checked.splice output p (smCryptEcb16 ctx ((input.drop p).take (16 * k)))) := by
  induction k generalizing p output with
  | zero =>
    have hnil : smCryptEcb16 ctx [] = [] := List.eq_nil_of_length_eq_zero (smCryptEcb16_length _ _)
    rw [sm4CryptEcbAt, dif_neg (by omega), Nat.mul_zero, List.take_zero, hnil, Checked.splice_nil]
  | succ k ih =>
    have hlen : ((input.drop p).take 16).length = 16 := by
      rw [List.length_take, List.length_drop]
      omega
    have henc := smCryptEcb16_length ctx ((input.drop p).take 16)
    have hone : p + (smCryptEcb16 ctx ((input.drop p).take 16)).length ≤ output.length := by omega
    have hcut : (input.drop p).take (16 * (k + 1)) =
        (input.drop p).take 16 ++ (input.drop (p + 16)).take (16 * k) := by
      rw [← List.drop_drop, ← List.take_add]
      congr 1
      omega
    have hlength : (↑(16 * (k + 1)) : Int) - 16 = ↑(16 * k) := by omega
    rw [sm4CryptEcbAt, dif_pos (by omega), sm4OneRoundAt_eq ctx (by omega) (by omega), hlength]
    simp only [Option.bind_eq_bind, Option.bind_some]
    rw [ih (by omega) (by rw [Checked.splice_length hone]; omega), hcut,
      smCryptEcb16_append ctx (by rw [hlen]), ← Checked.splice_splice hone, henc, hlen]

theorem smCryptEcb16At_eq (h : output.length = input.length) :
    smCryptEcb16At ctx input.length input output = some (smCryptEcb16 ctx input) := by
  let k := input.length / 16
  have hshift : ((input.length : Int) >>> (4 : Nat)) <<< (4 : Nat) = ↑(16 * k) := by
    rw [Int.shiftRight_eq_div_pow, Int.shiftLeft_eq]
    omega
  have hk : 16 * k ≤ input.length := by omega
  have hwhole : (input.take (16 * k)).length = 16 * k := by rw [List.length_take, Nat.min_eq_left hk]
  have henc := smCryptEcb16_length ctx (input.take (16 * k))
  have hrest : (input.drop (16 * k)).length < 16 := by
    rw [List.length_drop]
    omega
  have hbound : 0 + (smCryptEcb16 ctx (input.take (16 * k))).length ≤ output.length := by omega
  have hcopied : (input.drop (16 * k)).take (input.length - 16 * k) = input.drop (16 * k) :=
    List.take_of_length_le (by rw [List.length_drop])
  have hcount : ((input.length : Int) - ↑(16 * k)).toNat = input.length - 16 * k := by omega
  have hin : 0 + 16 * k ≤ input.length := by omega
  have hout : 0 + 16 * k ≤ output.length := by omega
  have hblocks := sm4CryptEcbAt_eq ctx hin hout
  rw [List.drop_zero] at hblocks
  simp only [smCryptEcb16At, hshift, hblocks, Option.bind_eq_bind, Option.bind_some, hcount,
    Int.toNat_natCast]
  rw [Checked.copyN_eq (by omega) (by rw [Checked.splice_length hbound]; omega), hcopied]
  have hjoin := Checked.splice_splice (e := input.drop (16 * k)) hbound
  rw [henc, hwhole, Nat.zero_add] at hjoin
  have hsplit := smCryptEcb16_append ctx (by rw [hwhole]; exact Nat.dvd_mul_right 16 k)
    (input.drop (16 * k))
  rw [List.take_append_drop, smCryptEcb16_of_lt ctx hrest] at hsplit
  rw [hjoin, ← hsplit, Checked.splice_all (by rw [smCryptEcb16_length, h])]

end

/-- Encryption of a buffer of any length into one of that length, whatever that
held before, and its decryption. -/
theorem ecb_decrypts (key : Vector u8 16) (x : Bytes) : ∃ y : Bytes,
    (∀ output : Vector u8 x.length,
      smCryptEcb16At (sm4SetkeyEnc key) x.length x output.toList = some y) ∧
    y.length = x.length ∧
    (∀ i < x.length / 16, (y.drop (16 * i)).take 16 =
      sm4OneRound (sm4SetkeyEnc key).sk ((x.drop (16 * i)).take 16)) ∧
    y.drop (16 * (x.length / 16)) = x.drop (16 * (x.length / 16)) ∧
    ∀ output : Vector u8 x.length,
      smCryptEcb16At (sm4SetkeyDec key) x.length y output.toList = some x := by
  let ctx := sm4SetkeyEnc key
  have hround : ∀ b : Bytes, b.length = 16 → (sm4OneRound ctx.sk b).length = 16 :=
    fun b _ => sm4OneRound_length ctx.sk b
  have hlen := smCryptEcb16_length ctx x
  refine ⟨smCryptEcb16 ctx x, ?_, hlen, ?_, ?_, ?_⟩
  · intro output
    exact smCryptEcb16At_eq ctx (by simp)
  · intro i hi
    rw [smCryptEcb16_eq]
    exact Blocks.mapWhole_block (by decide) hround hi
  · rw [smCryptEcb16_eq]
    exact Blocks.mapWhole_rest (by decide) hround x
  · intro output
    have hroom : output.toList.length = (smCryptEcb16 ctx x).length := by
      rw [hlen, Vector.length_toList]
    have hdec := smCryptEcb16At_eq (sm4SetkeyDec key) hroom
    rw [hlen] at hdec
    rw [hdec, smCryptEcb16_dec_enc]

end SecProGIS
