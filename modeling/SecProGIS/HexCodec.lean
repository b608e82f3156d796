import SecProGIS.KM
import SecProGIS.Lib.Checked

/-! `sprint_hex` on a buffer whose accesses are checked, and the loop of
`KM_SERV::restore` that reads its digits back. -/

namespace SecProGIS

/-- `%02x` of an `int`. -/
def fmt02x (temp : u32) : Bytes :=
  let digits := (Nat.digits 16 temp.toNat).reverse.map Hex.digit
  List.replicate (2 - digits.length) 48 ++ digits

/-- `sprintf_s` of `text` into the `size` bytes from `p` on; a text that does not fit
there with its terminator has no result. -/
def sprintfS (dest : Bytes) (p size : Nat) (text : Bytes) : Option Bytes :=
  if text.length < size then Checked.writeN dest p (text ++ [0]) else none

/-- The characters of `src` are signed; `temp` is `(int)(unsigned char)src[i]`. -/
def sprintHexTurn (src : Bytes) (i : Nat) (dest : Bytes) : Option Bytes := do
  let c ← Checked.read src i
  let temp : u32 := (BitVec.ofInt 8 c.toInt).setWidth 32
  sprintfS dest (2 * i) 3 (fmt02x temp)

/-- The first `maxlen` turns of the loop of `sprint_hex`. -/
def sprintHexAt (src : Bytes) : Nat → Bytes → Option Bytes
  | 0, dest => some dest
  | i + 1, dest => do
    let dest ← sprintHexAt src i dest
    sprintHexTurn src i dest

theorem fmt02x_of_lt {temp : u32} (h : temp.toNat < 256) :
    fmt02x temp = [Hex.digit (temp.toNat / 16), Hex.digit (temp.toNat % 16)] := by
  by_cases h0 : temp.toNat = 0
  · simp [fmt02x, h0, Hex.digit]
  by_cases h1 : temp.toNat < 16
  · simp [fmt02x, Nat.digits_of_lt 16 _ h0 h1, Nat.div_eq_of_lt h1, Nat.mod_eq_of_lt h1, Hex.digit]
  · have hdiv : temp.toNat / 16 ≠ 0 := by omega
    have hlt : temp.toNat / 16 < 16 := by omega
    rw [fmt02x, Nat.digits_def' (by decide) (by omega), Nat.digits_of_lt 16 _ hdiv hlt]
    rfl

/-- The casts lose the sign that a byte from `0x80` on has as a `char`. -/
theorem fmt02x_cast (c : u8) : fmt02x ((BitVec.ofInt 8 c.toInt).setWidth 32) = Hex.pair c := by
  have hc := c.isLt
  have htemp : ((BitVec.ofInt 8 c.toInt).setWidth 32 : u32).toNat = c.toNat := by
    rw [BitVec.ofInt_toInt, BitVec.toNat_setWidth]
    exact Nat.mod_eq_of_lt (by omega)
  rw [fmt02x_of_lt (by omega), htemp, Hex.pair]

theorem sprintHexTurn_eq {src dest : Bytes} {i : Nat} (h : i < src.length)
    (hroom : 2 * i + 3 ≤ dest.length) :
    sprintHexTurn src i dest = some (Checked.splice dest (2 * i) (Hex.pair src[i] ++ [0])) := by
  have hpair : (Hex.pair src[i]).length < 3 := Nat.lt_add_one 2
  have hlen : (Hex.pair src[i] ++ [0]).length = 3 := rfl
  rw [sprintHexTurn, Checked.read, List.getElem?_eq_getElem h, Option.bind_eq_bind,
    Option.bind_some]
  simp only [fmt02x_cast]
  rw [sprintfS, if_pos hpair, Checked.writeN_eq (by omega)]

/-- The digits of the archive and of the login are written by the same loop. -/
theorem sprintHexAt_toList {n maxlen : Nat} {src : Bytes} (dest : Vector u8 n)
    (h : maxlen ≤ src.length) (hn : 2 * maxlen < n) :
    sprintHexAt src maxlen dest.toList = some (sprintHex src maxlen dest).toList := by
  induction maxlen with
  | zero => rfl
  | succ i ih =>
    have hi : i < src.length := by omega
    have hbyte : src.getD i 0 = src[i] := by
      rw [List.getD_eq_getElem?_getD, List.getElem?_eq_getElem hi]
      rfl
    have hpair : (Hex.pair (src.getD i 0) ++ [0]).length = 3 := rfl
    have hturn : sprintHex src (i + 1) dest =
        blit (sprintHex src i dest) (2 * i) (Hex.pair (src.getD i 0) ++ [0]) := Nat.fold_succ ..
    rw [sprintHexAt, ih (by omega) (by omega), Option.bind_eq_bind, Option.bind_some,
      sprintHexTurn_eq hi (by rw [Vector.length_toList]; omega), hturn, blit_toList (by omega),
      hbyte]
    rfl

theorem sprintHexAt_eq {src dest : Bytes} {n : Nat} (h : n < src.length)
    (hroom : 2 * n + 3 ≤ dest.length) :
    sprintHexAt src (n + 1) dest =
      some (Checked.splice dest 0 (Hex.text (src.take (n + 1)) ++ [0])) := by
  induction n with
  | zero =>
    rw [sprintHexAt, sprintHexAt, Option.bind_eq_bind, Option.bind_some, sprintHexTurn_eq h hroom,
      List.take_add_one, List.getElem?_eq_getElem h]
    rfl
  | succ n ih =>
    have hdigits : (Hex.text (src.take (n + 1))).length = 2 * (n + 1) := by
      rw [Hex.text_length, List.length_take, Nat.min_eq_left (by omega)]
    have hfront : 0 + (Hex.text (src.take (n + 1))).length ≤ dest.length := by omega
    have hkept := Checked.splice_length hfront
    have hbound : 0 + (Hex.text (src.take (n + 1)) ++ [0]).length ≤ dest.length := by
      rw [List.length_append, hdigits, List.length_singleton]
      omega
    have hpair : (Hex.pair src[n + 1] ++ [0]).length = 3 := rfl
    have hmore : Hex.text (src.take (n + 1 + 1)) =
        Hex.text (src.take (n + 1)) ++ Hex.pair src[n + 1] := by
      rw [List.take_add_one, List.getElem?_eq_getElem h, Hex.text_append]
      simp
    rw [sprintHexAt, ih (by omega) (by omega), Option.bind_eq_bind, Option.bind_some,
      sprintHexTurn_eq h (by rw [Checked.splice_length hbound]; exact hroom), hmore,
      List.append_assoc, ← Checked.splice_splice hfront, ← Checked.splice_splice hfront, Nat.zero_add,
      hdigits, Checked.splice_overwrite (by rw [hpair]; decide) (by omega)]

theorem sprintHexAt_text {b dest : Bytes} (hb : b ≠ []) (hroom : 2 * b.length < dest.length) :
    sprintHexAt b b.length dest = some (Hex.text b ++ 0 :: dest.drop (2 * b.length + 1)) := by
  obtain ⟨n, hn⟩ : ∃ n, b.length = n + 1 :=
    ⟨b.length - 1, by have := List.length_pos_of_ne_nil hb; omega⟩
  have hlen : (Hex.text b ++ [0]).length = 2 * b.length + 1 := by
    rw [List.length_append, Hex.text_length, List.length_singleton]
  have hin : n < b.length := by omega
  have hout : 2 * n + 3 ≤ dest.length := by omega
  have hall := sprintHexAt_eq hin hout
  rw [← hn, List.take_length, Checked.splice, hlen] at hall
  simpa using hall

theorem hexValue_digit {d : Nat} (h : d < 16) : KmServ.hexValue (Hex.digit d) = d := by
  have hall : ∀ d < 16, KmServ.hexValue (Hex.digit d) = (d : Int) := by decide
  exact hall d h

theorem hexDecode_cons (c d : u8) (rest : Bytes) (n : Nat) :
    KmServ.hexDecode (c :: d :: rest) (n + 1) =
      BitVec.ofInt 8 (KmServ.hexValue c * 16 + KmServ.hexValue d) :: KmServ.hexDecode rest n := by
  rw [KmServ.hexDecode, List.range_succ_eq_map, List.map_cons, List.map_map]
  rfl

theorem hexDecode_text (b : Bytes) : KmServ.hexDecode (Hex.text b) b.length = b := by
  induction b with
  | nil => rfl
  | cons c b ih =>
    have hc := c.isLt
    have hbyte : BitVec.ofInt 8 (((c.toNat / 16 : Nat) : Int) * 16 + ((c.toNat % 16 : Nat) : Int)) =
        c := by
      have hjoin : ((c.toNat / 16 : Nat) : Int) * 16 + ((c.toNat % 16 : Nat) : Int) = c.toNat := by
        omega
      rw [hjoin, BitVec.ofInt_natCast, BitVec.ofNat_toNat, BitVec.setWidth_eq]
    rw [Hex.text_cons, Hex.pair, List.cons_append, List.cons_append, List.nil_append,
      List.length_cons, hexDecode_cons, hexValue_digit (by omega), hexValue_digit (by omega), ih,
      hbyte]

theorem hexText_injective : Function.Injective Hex.text := by
  intro b b' h
  have hlen := congrArg List.length h
  rw [Hex.text_length, Hex.text_length] at hlen
  have hsame : b.length = b'.length := by omega
  rw [← hexDecode_text b, h, hsame, hexDecode_text]

/-- `sprint_hex` writes two digits for each byte and one terminator, whatever bytes
they are, and the loop of `restore` reads the bytes back. -/
theorem hex_codec (b : Bytes) (hb : b ≠ []) (dest : Bytes) (hroom : 2 * b.length < dest.length) :
    sprintHexAt b b.length dest = some (Hex.text b ++ 0 :: dest.drop (2 * b.length + 1)) ∧
    (Hex.text b).length = 2 * b.length ∧
    (∀ c ∈ Hex.text b, (48 ≤ c.toNat ∧ c.toNat ≤ 57) ∨ (97 ≤ c.toNat ∧ c.toNat ≤ 102)) ∧
    Function.Injective Hex.text ∧
    KmServ.hexDecode (Hex.text b) ((Hex.text b).length / 2) = b := by
  have hlen : (Hex.text b).length = 2 * b.length := Hex.text_length b
  refine ⟨sprintHexAt_text hb hroom, hlen, ?_, hexText_injective, ?_⟩
  · intro c hc
    obtain ⟨d, hd, rfl⟩ := Hex.exists_digit_of_mem hc
    rw [Hex.digit_toNat hd]
    split <;> omega
  · rw [hlen, Nat.mul_div_cancel_left _ (by decide)]
    exact hexDecode_text b

theorem hex_codec_high_bytes :
    sprintHexAt [0x80, 0xFF] 2 (List.replicate 6 0x2E) =
        some (Hex.text [0x80, 0xFF] ++ 0 :: [0x2E]) ∧
      KmServ.hexDecode (Hex.text [0x80, 0xFF]) ((Hex.text [0x80, 0xFF]).length / 2) =
        [0x80, 0xFF] := by
  have h := hex_codec [0x80, 0xFF] (by decide) (List.replicate 6 0x2E) (by decide)
  exact ⟨h.1, h.2.2.2.2⟩

end SecProGIS
