import Mathlib

/-! Machine words, byte buffers and the macros that move between them, as on
the 32-bit Windows target. -/

namespace SecProGIS

abbrev u8 := BitVec 8

/-- `unsigned long` of the Win32 target. -/
abbrev u32 := BitVec 32

abbrev Bytes := List u8

def ascii (s : String) : Bytes := s.toList.map fun c => BitVec.ofNat 8 c.toNat

/-- What `%s` and `strcmp` see of a buffer: the bytes before the first NUL. -/
def cstr (b : Bytes) : Bytes := b.takeWhile (· ≠ 0)

theorem cstr_eq {b : Bytes} (h : ∀ c ∈ b, c ≠ 0) : cstr b = b :=
  List.takeWhile_eq_self_iff.mpr (by simpa using h)

theorem cstr_append_zero {b : Bytes} (h : ∀ c ∈ b, c ≠ 0) (d : Bytes) : cstr (b ++ 0 :: d) = b := by
  rw [cstr, List.takeWhile_append_of_pos (by simpa using h)]
  simp

def toInt32 (n : Nat) : Int := (BitVec.ofNat 32 n).toInt

theorem toInt32_of_lt {n : Nat} (h : n < 2 ^ 31) : toInt32 n = n := by
  have hn : (BitVec.ofNat 32 n).toNat = n := by
    rw [BitVec.toNat_ofNat]
    exact Nat.mod_eq_of_lt (by omega)
  rw [toInt32, BitVec.toInt_eq_toNat_of_lt (by omega), hn]

def atoi (b : Bytes) : Int :=
  let b := b.dropWhile fun c => c = 32 ∨ (9 ≤ c ∧ c ≤ 13)
  let neg := b.head? = some 45
  let b := if b.head? = some 45 ∨ b.head? = some 43 then b.tail else b
  let n : Nat := (b.takeWhile fun c => 48 ≤ c ∧ c ≤ 57).foldl (fun n c => n * 10 + (c.toNat - 48)) 0
  let v : Int := if neg then -n else n
  max (-2 ^ 31) (min (2 ^ 31 - 1) v)

/-- `ROTL` of the SM3 and SM4 sources. The processor takes shift counts modulo
32, also the count `32 - n` of the right shift. -/
def rotl (x : u32) (n : Nat) : u32 :=
  ((x &&& 0xFFFFFFFF) <<< (n % 32)) ||| (x >>> ((32 - n % 32) % 32))

def wordBE (a b c d : u8) : u32 :=
  (a.setWidth 32 <<< 24) ||| (b.setWidth 32 <<< 16) ||| (c.setWidth 32 <<< 8) ||| d.setWidth 32

def getUlongBE (b : Bytes) (i : Nat) : u32 :=
  wordBE (b.getD i 0) (b.getD (i + 1) 0) (b.getD (i + 2) 0) (b.getD (i + 3) 0)

def putUlongBE (n : u32) : Bytes :=
  [(n >>> 24).setWidth 8, (n >>> 16).setWidth 8, (n >>> 8).setWidth 8, n.setWidth 8]

def leBytes {w : Nat} (count : Nat) (x : BitVec w) : Bytes :=
  (List.range count).map fun i => (x >>> (8 * i)).setWidth 8

@[simp] theorem putUlongBE_length (n : u32) : (putUlongBE n).length = 4 := rfl

@[simp] theorem leBytes_length {w : Nat} (count : Nat) (x : BitVec w) :
    (leBytes count x).length = count := by simp [leBytes]

theorem wordBE_putUlongBE (n : u32) :
    wordBE ((n >>> 24).setWidth 8) ((n >>> 16).setWidth 8) ((n >>> 8).setWidth 8)
      (n.setWidth 8) = n := by
  apply BitVec.eq_of_getLsbD_eq
  intro i hi
  simp only [wordBE, BitVec.getLsbD_or, BitVec.getLsbD_shiftLeft, BitVec.getLsbD_setWidth,
    BitVec.getLsbD_ushiftRight]
  rcases (by omega : i < 8 ∨ (8 ≤ i ∧ i < 16) ∨ (16 ≤ i ∧ i < 24) ∨ (24 ≤ i ∧ i < 32)) with
    h | h | h | h
  · simp [show i < 24 by omega, show i < 16 by omega, h, hi]
  · simp [show i < 24 by omega, show i < 16 by omega, show ¬ i < 8 by omega,
      show i - 8 < 32 by omega, show i - 8 < 8 by omega, show 8 + (i - 8) = i by omega, hi]
  · simp [show i < 24 by omega, show ¬ i < 16 by omega, show ¬ i < 8 by omega,
      show i - 16 < 32 by omega, show i - 16 < 8 by omega, show ¬ i - 8 < 8 by omega,
      show 16 + (i - 16) = i by omega, hi]
  · simp [show ¬ i < 24 by omega, show ¬ i < 16 by omega, show ¬ i < 8 by omega,
      show i - 24 < 32 by omega, show i - 24 < 8 by omega, show ¬ i - 16 < 8 by omega,
      show ¬ i - 8 < 8 by omega, show 24 + (i - 24) = i by omega, hi]

theorem putUlongBE_wordBE (a b c d : u8) : putUlongBE (wordBE a b c d) = [a, b, c, d] := by
  have byte : ∀ k < 4, ((wordBE a b c d >>> (8 * k)).setWidth 8 : u8) =
      [d, c, b, a].getD k 0 := by
    intro k hk
    apply BitVec.eq_of_getLsbD_eq
    intro i hi
    simp only [wordBE, BitVec.getLsbD_or, BitVec.getLsbD_shiftLeft, BitVec.getLsbD_setWidth,
      BitVec.getLsbD_ushiftRight]
    have low : ∀ (x : u8) (j : Nat), 8 ≤ j → x.getLsbD j = false :=
      fun x j hj => BitVec.getLsbD_of_ge x j hj
    rcases (by omega : k = 0 ∨ k = 1 ∨ k = 2 ∨ k = 3) with rfl | rfl | rfl | rfl
    · simp [hi, show i < 24 by omega, show i < 16 by omega, show i < 32 by omega]
    · simp [hi, show 8 + i < 24 by omega, show 8 + i < 16 by omega, show 8 + i < 32 by omega,
        show i < 32 by omega]
    · simp [hi, show 16 + i < 24 by omega, show 16 + i < 32 by omega, show i < 32 by omega,
        show 16 + i - 8 < 32 by omega, low d (16 + i) (by omega), low c (16 + i - 8) (by omega)]
    · simp [hi, show 24 + i < 32 by omega, show i < 32 by omega, show 24 + i - 8 < 32 by omega,
        show 24 + i - 16 < 32 by omega, low d (24 + i) (by omega),
        low c (24 + i - 8) (by omega), low b (24 + i - 16) (by omega)]
  have h0 := byte 0 (by omega)
  have h1 := byte 1 (by omega)
  have h2 := byte 2 (by omega)
  have h3 := byte 3 (by omega)
  simp at h0 h1 h2 h3
  simp [putUlongBE, h0, h1, h2, h3]

/-- `memcpy(dst + off, src, |src|)`; the callers keep inside `dst`. -/
def blit {n : Nat} (dst : Vector u8 n) (off : Nat) (src : Bytes) : Vector u8 n :=
  Vector.ofFn fun i =>
    if h : off ≤ i.val ∧ i.val - off < src.length then src[i.val - off] else dst[i]

theorem blit_toList {n : Nat} {dst : Vector u8 n} {off : Nat} {src : Bytes}
    (h : off + src.length ≤ n) :
    (blit dst off src).toList =
      dst.toList.take off ++ src ++ dst.toList.drop (off + src.length) := by
  apply List.ext_getElem?
  intro i
  by_cases hi : i < n
  · rw [List.getElem?_eq_getElem (by simpa using hi), Vector.getElem_toList, blit,
      Vector.getElem_ofFn]
    dsimp only
    by_cases h1 : i < off
    · rw [dif_neg (by omega), List.append_assoc, List.getElem?_append_left (by simp; omega)]
      simp [h1, hi]
    · by_cases h2 : i - off < src.length
      · rw [dif_pos ⟨by omega, h2⟩, List.append_assoc, List.getElem?_append_right (by simp; omega),
          List.getElem?_append_left (by simp; omega)]
        simp [show min off n = off by omega, h2]
      · rw [dif_neg (by omega), List.getElem?_append_right (by simp; omega), List.getElem?_drop]
        have hidx : off + src.length + (i - (dst.toList.take off ++ src).length) = i := by
          simp
          omega
        rw [hidx, List.getElem?_eq_getElem (by simpa using hi), Vector.getElem_toList]
        rfl
  · rw [List.getElem?_eq_none (by simp; omega), List.getElem?_eq_none (by simp; omega)]

theorem fold_invariant {σ : Type*} {n : Nat} {f : (i : Nat) → i < n → σ → σ} {s : σ}
    (I : Nat → σ → Prop) (h0 : I 0 s) (hstep : ∀ i (h : i < n) a, I i a → I (i + 1) (f i h a)) :
    I n (Nat.fold n f s) := by
  induction n with
  | zero => exact h0
  | succ n ih =>
    rw [Nat.fold_succ]
    exact hstep n (Nat.lt_succ_self n) _
      (ih fun i h a => hstep i (Nat.lt_succ_of_lt h) a)

end SecProGIS
