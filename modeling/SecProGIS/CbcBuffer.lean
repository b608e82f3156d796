import SecProGIS.OneRound
import SecProGIS.Lib.Cbc

/-! `sm4_crypt_cbc` on pointers into a checked memory: it chains through the
initialization vector it is given, and decryption undoes encryption. -/

namespace SecProGIS

/-- `output[i] = src[i] ^ iv[i]` for the next `n` values of `i`. -/
def xorIvFrom (src output : Nat) (iv : Bytes) : Nat → Nat → Bytes → Option Bytes
  | _, 0, mem => some mem
  | i, n + 1, mem => do
    let x ← Checked.read mem (src + i)
    let k ← Checked.read iv i
    let mem ← Checked.write mem (output + i) (x ^^^ k)
    xorIvFrom src output iv (i + 1) n mem

def sm4CbcEncTurn (sk : Vector u32 32) (input output : Nat) (iv mem : Bytes) :
    Option (Bytes × Bytes) := do
  let mem ← xorIvFrom input output iv 0 16 mem
  let mem ← sm4OneRoundMem sm4Lt sk output output mem
  let block ← Checked.readN mem output 16
  let iv ← Checked.writeN iv 0 block
  return (iv, mem)

def sm4CbcDecTurn (sk : Vector u32 32) (input output : Nat) (iv mem : Bytes) :
    Option (Bytes × Bytes) := do
  let temp ← Checked.readN mem input 16
  let mem ← sm4OneRoundMem sm4Lt sk input output mem
  let mem ← xorIvFrom output output iv 0 16 mem
  let iv ← Checked.writeN iv 0 temp
  return (iv, mem)

/-- Either loop of `sm4_crypt_cbc`. -/
def sm4CbcLoop (turn : Nat → Nat → Bytes → Bytes → Option (Bytes × Bytes)) (length : Int)
    (input output : Nat) (iv mem : Bytes) : Option (Bytes × Bytes) :=
  if _h : 0 < length then do
    let (iv, mem) ← turn input output iv mem
    sm4CbcLoop turn (length - 16) (input + 16) (output + 16) iv mem
  else some (iv, mem)
termination_by length.toNat

/-- What the call leaves in `iv` and in the memory that `input` and `output` point into. -/
def sm4CryptCbc (ctx : Sm4Context) (mode length : Int) (iv : Bytes) (input output : Nat)
    (mem : Bytes) : Option (Bytes × Bytes) :=
  if mode = 1 then sm4CbcLoop (sm4CbcEncTurn ctx.sk) length input output iv mem
  else sm4CbcLoop (sm4CbcDecTurn ctx.sk) length input output iv mem

/-- Calls for the pieces of `ks` blocks in order, each with the `iv` that the one before left. -/
def sm4CryptCbcPieces (ctx : Sm4Context) (mode : Int) (ks : List Nat) (iv : Bytes)
    (input output : Nat) (mem : Bytes) : Option (Bytes × Bytes) :=
  match ks with
  | [] => some (iv, mem)
  | k :: ks => do
    let (iv, mem) ← sm4CryptCbc ctx mode ↑(16 * k) iv input output mem
    sm4CryptCbcPieces ctx mode ks iv (input + 16 * k) (output + 16 * k) mem

section

variable (turn : Nat → Nat → Bytes → Bytes → Option (Bytes × Bytes)) (input output : Nat)
  (iv mem : Bytes)

theorem sm4CbcLoop_zero : sm4CbcLoop turn ↑(16 * 0 : Nat) input output iv mem = some (iv, mem) := by
  rw [sm4CbcLoop, dif_neg (by decide)]

theorem sm4CbcLoop_succ (n : Nat) :
    sm4CbcLoop turn ↑(16 * (n + 1)) input output iv mem =
      (turn input output iv mem).bind fun s =>
        sm4CbcLoop turn ↑(16 * n) (input + 16) (output + 16) s.1 s.2 := by
  have hleft : (↑(16 * (n + 1)) : Int) - 16 = ↑(16 * n) := by omega
  rw [sm4CbcLoop, dif_pos (by omega), hleft]
  rfl

theorem sm4CbcLoop_add (j k : Nat) :
    sm4CbcLoop turn ↑(16 * (j + k)) input output iv mem =
      (sm4CbcLoop turn ↑(16 * j) input output iv mem).bind fun s =>
        sm4CbcLoop turn ↑(16 * k) (input + 16 * j) (output + 16 * j) s.1 s.2 := by
  induction j generalizing input output iv mem with
  | zero => rw [sm4CbcLoop_zero, Nat.zero_add, Option.bind_some, Nat.mul_zero, Nat.add_zero,
      Nat.add_zero]
  | succ j ih =>
    rw [Nat.add_right_comm, sm4CbcLoop_succ, sm4CbcLoop_succ, Option.bind_assoc]
    congr 1
    funext s
    rw [ih]
    simp only [Nat.add_assoc, Nat.mul_add, Nat.mul_one, Nat.add_comm 16]

end

theorem sm4CryptCbc_add (ctx : Sm4Context) (mode : Int) (j k : Nat) (iv : Bytes)
    (input output : Nat) (mem : Bytes) :
    sm4CryptCbc ctx mode ↑(16 * (j + k)) iv input output mem =
      (sm4CryptCbc ctx mode ↑(16 * j) iv input output mem).bind fun s =>
        sm4CryptCbc ctx mode ↑(16 * k) s.1 (input + 16 * j) (output + 16 * j) s.2 := by
  by_cases h : mode = 1
  · simp only [sm4CryptCbc, if_pos h, sm4CbcLoop_add]
  · simp only [sm4CryptCbc, if_neg h, sm4CbcLoop_add]

theorem sm4CryptCbcPieces_eq (ctx : Sm4Context) (mode : Int) (ks : List Nat) (iv : Bytes)
    (input output : Nat) (mem : Bytes) :
    sm4CryptCbcPieces ctx mode ks iv input output mem =
      sm4CryptCbc ctx mode ↑(16 * ks.sum) iv input output mem := by
  induction ks generalizing iv input output mem with
  | nil =>
    rw [sm4CryptCbc, List.sum_nil, sm4CbcLoop_zero, sm4CbcLoop_zero, ite_self]
    rfl
  | cons k ks ih =>
    rw [List.sum_cons, sm4CryptCbc_add, sm4CryptCbcPieces]
    simp only [ih]
    rfl

def xorBytes (x k : Bytes) : Bytes := List.zipWith (· ^^^ ·) x k

theorem xorBytes_length {x k : Bytes} (h : k.length = x.length) :
    (xorBytes x k).length = x.length := by
  rw [xorBytes, List.length_zipWith, h, Nat.min_self]

theorem xorBytes_xorBytes {x k : Bytes} (h : k.length = x.length) :
    xorBytes (xorBytes x k) k = x := by
  induction x generalizing k with
  | nil => rfl
  | cons a x ih =>
    obtain ⟨b, k, rfl⟩ := List.exists_cons_of_length_eq_add_one h
    have hab : a ^^^ b ^^^ b = a := by rw [BitVec.xor_assoc, BitVec.xor_self, BitVec.xor_zero]
    change (a ^^^ b ^^^ b) :: xorBytes (xorBytes x k) k = a :: x
    rw [hab, ih (by simpa using h)]

/-- Nothing that is written from `output` on is read afterwards from `input` on: the two
are the same place, or apart, or the output lies in front. -/
def Clear (input output len : Nat) : Prop := output ≤ input ∨ input + len ≤ output

theorem xorIvFrom_eq {src output i n : Nat} {iv mem : Bytes} (hsrc : src + i + n ≤ mem.length)
    (hout : output + i + n ≤ mem.length) (hiv : i + n ≤ iv.length)
    (hclear : Clear src output n) :
    xorIvFrom src output iv i n mem = some (Checked.splice mem (output + i)
      (xorBytes (Checked.window mem (src + i) n) (Checked.window iv i n))) := by
  induction n generalizing i mem with
  | zero => simp [xorIvFrom, Checked.window, xorBytes]
  | succ n ih =>
    have hx : src + i < mem.length := by omega
    have hk : i < iv.length := by omega
    have hroom : output + i + [mem[src + i] ^^^ iv[i]].length ≤ mem.length := by
      rw [List.length_singleton]
      omega
    have hkept := Checked.splice_length hroom
    have hnext : Checked.window (Checked.splice mem (output + i) [mem[src + i] ^^^ iv[i]])
        (src + (i + 1)) n = Checked.window mem (src + (i + 1)) n := by
      refine Checked.window_splice_apart hroom ?_
      rw [List.length_singleton]
      unfold Clear at hclear
      omega
    have hsrc' : src + (i + 1) + n ≤
        (Checked.splice mem (output + i) [mem[src + i] ^^^ iv[i]]).length := by omega
    have hrest := ih hsrc' (by omega) (by omega) (hclear.imp id (by omega))
    have hwrite : Checked.write mem (output + i) (mem[src + i] ^^^ iv[i]) = _ :=
      Checked.write_eq (by omega)
    rw [hnext] at hrest
    rw [xorIvFrom, Checked.read, Checked.read, List.getElem?_eq_getElem hx,
      List.getElem?_eq_getElem hk]
    simp only [Option.bind_eq_bind, Option.bind_some, hwrite]
    rw [hrest, Checked.window_cons hx, Checked.window_cons hk]
    exact congrArg some (Checked.splice_splice hroom)

theorem sm4CbcEncTurn_eq (sk : Vector u32 32) {input output : Nat} {iv mem : Bytes}
    (hin : input + 16 ≤ mem.length) (hout : output + 16 ≤ mem.length) (hiv : iv.length = 16)
    (hclear : Clear input output 16) :
    let r := Cbc.enc xorBytes (sm4OneRound sk) iv (Checked.window mem input 16)
    sm4CbcEncTurn sk input output iv mem = some (r.1, Checked.splice mem output r.2) := by
  intro r
  let x := xorBytes (Checked.window mem input 16) iv
  have hwin : (Checked.window mem input 16).length = 16 := Checked.window_length hin
  have hx : x.length = 16 := by rw [xorBytes_length (by rw [hiv, hwin]), hwin]
  have hy : r.2.length = 16 := sm4OneRound_length sk x
  have hivAll : Checked.window iv 0 16 = iv := by rw [← hiv, Checked.window_all]
  have hroom : output + x.length ≤ mem.length := by omega
  have hroom' : output + r.2.length ≤ mem.length := by omega
  have hback : Checked.window (Checked.splice mem output x) output 16 = x :=
    Checked.window_splice_same hx hout
  have hout' : Checked.window (Checked.splice mem output r.2) output 16 = r.2 :=
    Checked.window_splice_same hy hout
  have hmix : xorIvFrom input output iv 0 16 mem = some (Checked.splice mem output x) := by
    rw [xorIvFrom_eq hin hout (by omega) hclear, hivAll]
    rfl
  have hlen := Checked.splice_length hroom
  have hround : sm4OneRoundMem sm4Lt sk output output (Checked.splice mem output x) =
      some (Checked.splice mem output r.2) := by
    rw [sm4OneRoundMem_eq sm4Lt sk (by omega) (by omega), hback]
    exact congrArg some (Checked.splice_overwrite (by rw [hx]; exact hy.ge) hroom')
  have hread : Checked.readN (Checked.splice mem output r.2) output 16 = some r.2 := by
    rw [Checked.readN_eq (by rw [Checked.splice_length hroom']; exact hout)]
    exact congrArg some hout'
  have hsave : Checked.writeN iv 0 r.2 = some r.1 := by
    rw [Checked.writeN_eq (by omega), Checked.splice_all (by omega)]
    rfl
  simp only [sm4CbcEncTurn, hmix, hround, hread, hsave, Option.bind_eq_bind, Option.bind_some,
    Option.pure_def]

theorem sm4CbcDecTurn_eq (sk : Vector u32 32) {input output : Nat} {iv mem : Bytes}
    (hin : input + 16 ≤ mem.length) (hout : output + 16 ≤ mem.length) (hiv : iv.length = 16) :
    let r := Cbc.dec xorBytes (sm4OneRound sk) iv (Checked.window mem input 16)
    sm4CbcDecTurn sk input output iv mem = some (r.1, Checked.splice mem output r.2) := by
  intro r
  let temp := Checked.window mem input 16
  let d := sm4OneRound sk temp
  have htemp : temp.length = 16 := Checked.window_length hin
  have hd : d.length = 16 := sm4OneRound_length sk temp
  have hx : r.2.length = 16 := by
    have h := xorBytes_length (x := d) (k := iv) (by rw [hiv, hd])
    rwa [hd] at h
  have hivAll : Checked.window iv 0 16 = iv := by rw [← hiv, Checked.window_all]
  have hroom : output + d.length ≤ mem.length := by omega
  have hroom' : output + r.2.length ≤ mem.length := by omega
  have hback : Checked.window (Checked.splice mem output d) output 16 = d :=
    Checked.window_splice_same hd hout
  have hlen := Checked.splice_length hroom
  have hread : Checked.readN mem input 16 = some temp := Checked.readN_eq hin
  have hround : sm4OneRoundMem sm4Lt sk input output mem = some (Checked.splice mem output d) :=
    sm4OneRoundMem_eq sm4Lt sk hin hout
  have hmix : xorIvFrom output output iv 0 16 (Checked.splice mem output d) =
      some (Checked.splice mem output r.2) := by
    rw [xorIvFrom_eq (by omega) (by omega) (by omega) (Or.inl le_rfl), hivAll, Nat.add_zero, hback]
    exact congrArg some (Checked.splice_overwrite (by rw [hd]; exact hx.ge) hroom')
  have hsave : Checked.writeN iv 0 temp = some r.1 := by
    rw [Checked.writeN_eq (by omega), Checked.splice_all (by omega)]
    rfl
  simp only [sm4CbcDecTurn, hread, hround, hmix, hsave, Option.bind_eq_bind, Option.bind_some,
    Option.pure_def]

def blocksAt (mem : Bytes) (input n : Nat) : List Bytes :=
  Blocks.whole 16 (Checked.window mem input (16 * n))

theorem blocksAt_succ {mem : Bytes} {input n : Nat} (h : input + 16 * (n + 1) ≤ mem.length) :
    blocksAt mem input (n + 1) =
      Checked.window mem input 16 :: blocksAt mem (input + 16) n := by
  have hcut : Checked.window mem input (16 * (n + 1)) =
      Checked.window mem input 16 ++ Checked.window mem (input + 16) (16 * n) := by
    rw [← Checked.window_append]
    congr 1
    omega
  have hlen : (Checked.window mem input 16).length = 16 := Checked.window_length (by omega)
  rw [blocksAt, hcut, Blocks.whole_step (by decide) (by rw [List.length_append]; omega),
    List.take_left' hlen, List.drop_left' hlen]
  rfl

/-- A loop whose turns map a block and pass on an `iv` chains over the blocks. -/
theorem sm4CbcLoop_eq {turn : Nat → Nat → Bytes → Bytes → Option (Bytes × Bytes)}
    {step : Bytes → Bytes → Bytes × Bytes} {input output n : Nat} {iv mem : Bytes}
    (hlen : ∀ iv x, iv.length = 16 → x.length = 16 →
      (step iv x).1.length = 16 ∧ (step iv x).2.length = 16)
    (hturn : ∀ input output iv mem, input + 16 ≤ mem.length → output + 16 ≤ mem.length →
      iv.length = 16 → Clear input output 16 →
      turn input output iv mem = some ((step iv (Checked.window mem input 16)).1,
        Checked.splice mem output (step iv (Checked.window mem input 16)).2))
    (hin : input + 16 * n ≤ mem.length) (hout : output + 16 * n ≤ mem.length)
    (hiv : iv.length = 16) (hclear : Clear input output (16 * n)) :
    let r := Cbc.chain step iv (blocksAt mem input n)
    sm4CbcLoop turn ↑(16 * n) input output iv mem =
      some (r.1, Checked.splice mem output r.2.flatten) := by
  induction n generalizing input output iv mem with
  | zero =>
    rw [sm4CbcLoop_zero]
    simp [blocksAt, Checked.window, Cbc.chain]
  | succ n ih =>
    let r := step iv (Checked.window mem input 16)
    have hr := hlen iv (Checked.window mem input 16) hiv (Checked.window_length (by omega))
    have hroom : output + r.2.length ≤ mem.length := by
      have h : r.2.length = 16 := hr.2
      omega
    have hkept := Checked.splice_length hroom
    have hnext : blocksAt (Checked.splice mem output r.2) (input + 16) n =
        blocksAt mem (input + 16) n := by
      rw [blocksAt, Checked.window_splice_apart hroom, blocksAt]
      have h : r.2.length = 16 := hr.2
      unfold Clear at hclear
      omega
    have hin' : input + 16 + 16 * n ≤ (Checked.splice mem output r.2).length := by omega
    have hout' : output + 16 + 16 * n ≤ (Checked.splice mem output r.2).length := by omega
    have hrest := ih hin' hout' hr.1 (hclear.imp (by omega) (by omega))
    have hjoin := Checked.splice_splice (e := (Cbc.chain step r.1
      (blocksAt mem (input + 16) n)).2.flatten) hroom
    have hy : r.2.length = 16 := hr.2
    rw [hy] at hjoin
    rw [hnext] at hrest
    rw [sm4CbcLoop_succ, hturn input output iv mem (by omega) (by omega) hiv
      (hclear.imp id (by omega)), Option.bind_some, blocksAt_succ hin]
    exact hrest.trans (by rw [hjoin]; rfl)

theorem sm4CryptCbc_enc (ctx : Sm4Context) {input output n : Nat} {iv mem : Bytes}
    (hin : input + 16 * n ≤ mem.length) (hout : output + 16 * n ≤ mem.length)
    (hiv : iv.length = 16) (hclear : Clear input output (16 * n)) :
    let r := Cbc.chain (Cbc.enc xorBytes (sm4OneRound ctx.sk)) iv (blocksAt mem input n)
    sm4CryptCbc ctx 1 ↑(16 * n) iv input output mem =
      some (r.1, Checked.splice mem output r.2.flatten) := by
  refine sm4CbcLoop_eq ?_ ?_ hin hout hiv hclear
  · exact fun iv x _ _ => ⟨sm4OneRound_length _ _, sm4OneRound_length _ _⟩
  · exact fun input output iv mem hin hout hiv hclear =>
      sm4CbcEncTurn_eq ctx.sk hin hout hiv hclear

theorem sm4CryptCbc_dec (ctx : Sm4Context) {input output n : Nat} {iv mem : Bytes}
    (hin : input + 16 * n ≤ mem.length) (hout : output + 16 * n ≤ mem.length)
    (hiv : iv.length = 16) (hclear : Clear input output (16 * n)) :
    let r := Cbc.chain (Cbc.dec xorBytes (sm4OneRound ctx.sk)) iv (blocksAt mem input n)
    sm4CryptCbc ctx 0 ↑(16 * n) iv input output mem =
      some (r.1, Checked.splice mem output r.2.flatten) := by
  refine sm4CbcLoop_eq ?_ ?_ hin hout hiv hclear
  · intro iv x hiv hx
    refine ⟨hx, ?_⟩
    rw [Cbc.dec, xorBytes_length (by rw [hiv, sm4OneRound_length]), sm4OneRound_length]
  · exact fun input output iv mem hin hout hiv _ => sm4CbcDecTurn_eq ctx.sk hin hout hiv

theorem dec_enc_step {sk sk' : Vector u32 32} (h : sk'.toList = sk.toList.reverse) {iv x : Bytes}
    (hiv : iv.length = 16) (hx : x.length = 16) :
    let y := Cbc.enc xorBytes (sm4OneRound sk) iv x
    Cbc.dec xorBytes (sm4OneRound sk') iv y.2 = (y.1, x) := by
  have hmix : (xorBytes x iv).length = 16 := by rw [xorBytes_length (by rw [hiv, hx]), hx]
  exact Cbc.dec_enc (sm4OneRound_reverse h hmix) (xorBytes_xorBytes (by rw [hiv, hx]))

theorem length_of_mem_blocksAt {mem : Bytes} {input n : Nat} :
    ∀ x ∈ blocksAt mem input n, x.length = 16 :=
  fun _ hx => Blocks.length_of_mem_whole (by decide) hx

theorem flatten_blocksAt {mem : Bytes} {input n : Nat} (h : input + 16 * n ≤ mem.length) :
    (blocksAt mem input n).flatten = Checked.window mem input (16 * n) := by
  have hlen := Checked.window_length h
  have hwhole := Blocks.flatten_whole (b := 16) (by decide) (Checked.window mem input (16 * n))
  rwa [Blocks.rest_eq_nil (by rw [hlen]; exact Nat.dvd_mul_right 16 n), List.append_nil] at hwhole

theorem blocksAt_length {mem : Bytes} {input n : Nat} (h : input + 16 * n ≤ mem.length) :
    (blocksAt mem input n).length = n := by
  have hblocks : ∀ x ∈ blocksAt mem input n, x.length = 16 := length_of_mem_blocksAt
  have hflat := Blocks.flatten_length hblocks
  rw [flatten_blocksAt h, Checked.window_length h] at hflat
  omega

theorem blocksAt_splice {mem : Bytes} {output n : Nat} {ys : List Bytes}
    (hys : ∀ y ∈ ys, y.length = 16) (hlen : ys.length = n) (h : output + 16 * n ≤ mem.length) :
    blocksAt (Checked.splice mem output ys.flatten) output n = ys := by
  have hflat : ys.flatten.length = 16 * n := by rw [Blocks.flatten_length hys, hlen]
  rw [blocksAt, Checked.window_splice_same hflat h, Blocks.whole_flatten (by decide) hys]

theorem length_of_mem_enc (sk : Vector u32 32) {iv : Bytes} (hiv : iv.length = 16)
    {xs : List Bytes} (hxs : ∀ x ∈ xs, x.length = 16) :
    ∀ y ∈ (Cbc.chain (Cbc.enc xorBytes (sm4OneRound sk)) iv xs).2, y.length = 16 := by
  let S : Set Bytes := {v | v.length = 16}
  refine Cbc.chain_all (S := S) (A := S) (B := S) ?_ hiv hxs
  exact fun iv _ x _ => ⟨sm4OneRound_length _ _, sm4OneRound_length _ _⟩

theorem dec_enc_chain {sk sk' : Vector u32 32} (h : sk'.toList = sk.toList.reverse) {iv : Bytes}
    (hiv : iv.length = 16) {xs : List Bytes} (hxs : ∀ x ∈ xs, x.length = 16) :
    let r := Cbc.chain (Cbc.enc xorBytes (sm4OneRound sk)) iv xs
    Cbc.chain (Cbc.dec xorBytes (sm4OneRound sk')) iv r.2 = (r.1, xs) := by
  let S : Set Bytes := {v | v.length = 16}
  refine Cbc.chain_inverse (S := S) (A := S) ?_ hiv hxs
  exact fun iv hiv x hx => ⟨sm4OneRound_length _ _, dec_enc_step h hiv hx⟩

/-- CBC encryption of `n` blocks and its decryption, from any place in memory to any
place that does not run over input still to be read, and calls for the pieces of a buffer. -/
theorem cbc_decrypts (key : Vector u8 16) (iv : Vector u8 16) (n : Nat) (mem : Bytes)
    (a b c : Nat) (ha : a + 16 * n ≤ mem.length) (hb : b + 16 * n ≤ mem.length)
    (hc : c + 16 * n ≤ mem.length) (hab : Clear a b (16 * n)) (hbc : Clear b c (16 * n)) :
    let enc := sm4SetkeyEnc key
    let x := Checked.window mem a (16 * n)
    ∃ y iv' : Bytes, y.length = 16 * n ∧
      y = (Cbc.chain (Cbc.enc xorBytes (sm4OneRound enc.sk)) iv.toList
        (Blocks.whole 16 x)).2.flatten ∧
      iv' = (Blocks.whole 16 y).getLastD iv.toList ∧
      sm4CryptCbc enc 1 ↑(16 * n) iv.toList a b mem = some (iv', Checked.splice mem b y) ∧
      sm4CryptCbc (sm4SetkeyDec key) 0 ↑(16 * n) iv.toList b c (Checked.splice mem b y) =
        some (iv', Checked.splice (Checked.splice mem b y) c x) ∧
      ∀ ctx mode ks iv input output mem,
        sm4CryptCbcPieces ctx mode ks iv input output mem =
          sm4CryptCbc ctx mode ↑(16 * ks.sum) iv input output mem := by
  intro enc x
  let xs := blocksAt mem a n
  let r := Cbc.chain (Cbc.enc xorBytes (sm4OneRound enc.sk)) iv.toList xs
  have hiv : iv.toList.length = 16 := Vector.length_toList
  have hys : ∀ y ∈ r.2, y.length = 16 := length_of_mem_enc enc.sk hiv length_of_mem_blocksAt
  have hcount : r.2.length = n := by rw [Cbc.chain_length, blocksAt_length ha]
  have hy : r.2.flatten.length = 16 * n := by rw [Blocks.flatten_length hys, hcount]
  have hroom : b + r.2.flatten.length ≤ mem.length := by omega
  have hkept := Checked.splice_length hroom
  have hinv : Cbc.chain (Cbc.dec xorBytes (sm4OneRound (sm4SetkeyDec key).sk)) iv.toList r.2 =
      (r.1, xs) := dec_enc_chain (sm4SetkeyDec_sk key) hiv length_of_mem_blocksAt
  have hb' : b + 16 * n ≤ (Checked.splice mem b r.2.flatten).length := by rw [hkept]; exact hb
  have hc' : c + 16 * n ≤ (Checked.splice mem b r.2.flatten).length := by rw [hkept]; exact hc
  have hdec := sm4CryptCbc_dec (sm4SetkeyDec key) hb' hc' hiv hbc
  rw [blocksAt_splice hys hcount hb, hinv] at hdec
  refine ⟨r.2.flatten, r.1, hy, rfl, ?_, sm4CryptCbc_enc enc ha hb hiv hab, ?_,
    sm4CryptCbcPieces_eq⟩
  · rw [Blocks.whole_flatten (by decide) hys]
    exact Cbc.chain_enc_fst _ _ _
  · have hflat : xs.flatten = x := flatten_blocksAt ha
    rw [← hflat]
    exact hdec

theorem cbc_decrypts_in_place :
    let key : Vector u8 16 := Vector.replicate 16 0x31
    let iv : Vector u8 16 := Vector.replicate 16 0x32
    let mem : Bytes := List.replicate 32 0x41
    ∃ y iv' : Bytes, y.length = 32 ∧
      sm4CryptCbc (sm4SetkeyEnc key) 1 ↑(16 * 2) iv.toList 0 0 mem =
        some (iv', Checked.splice mem 0 y) ∧
      sm4CryptCbc (sm4SetkeyDec key) 0 ↑(16 * 2) iv.toList 0 0 (Checked.splice mem 0 y) =
        some (iv', Checked.splice (Checked.splice mem 0 y) 0 (Checked.window mem 0 (16 * 2))) := by
  obtain ⟨y, iv', hy, -, -, henc, hdec, -⟩ := cbc_decrypts (Vector.replicate 16 0x31)
    (Vector.replicate 16 0x32) 2 (List.replicate 32 0x41) 0 0 0 (by decide) (by decide) (by decide)
    (Or.inl le_rfl) (Or.inl le_rfl)
  exact ⟨y, iv', hy, henc, hdec⟩

end SecProGIS
