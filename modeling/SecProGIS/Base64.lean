import SecProGIS.Bytes
import SecProGIS.Lib.Checked
import SecProGIS.Lib.Sextets

/-! `base64.cpp`: what the encoder writes the decoder reads back, and what the
decoder makes of any other text. -/

namespace SecProGIS

open Sextets (sextets octets)

def base64Chars : Bytes :=
  ascii "ABCDEFGHIJKLMNOPQRSTUVWXYZabcdefghijklmnopqrstuvwxyz0123456789+/"

def base64Pad : u8 := 61

/-- `is_base64`, with `isalnum` of the C locale. -/
def isBase64 (c : u8) : Bool :=
  (48 ≤ c && c ≤ 57) || (65 ≤ c && c ≤ 90) || (97 ≤ c && c ≤ 122) || c = 43 || c = 47

def base64Char (i : u8) : u8 := base64Chars.getD i.toNat 0

/-- `base64_chars.find(c)` as a byte; `npos` becomes 255. -/
def base64Find (c : u8) : u8 :=
  if base64Chars.idxOf c < base64Chars.length then BitVec.ofNat 8 (base64Chars.idxOf c) else 255

/-- `char_array_4` of `char_array_3`. -/
def toFour (a : List u8) : List u8 :=
  [(a.getD 0 0 &&& 0xFC) >>> 2,
    ((a.getD 0 0 &&& 0x03) <<< 4) + ((a.getD 1 0 &&& 0xF0) >>> 4),
    ((a.getD 1 0 &&& 0x0F) <<< 2) + ((a.getD 2 0 &&& 0xC0) >>> 6),
    a.getD 2 0 &&& 0x3F]

/-- `char_array_3` of `char_array_4`. -/
def toThree (a : List u8) : List u8 :=
  [(a.getD 0 0 <<< 2) + ((a.getD 1 0 &&& 0x30) >>> 4),
    ((a.getD 1 0 &&& 0x0F) <<< 4) + ((a.getD 2 0 &&& 0x3C) >>> 2),
    ((a.getD 2 0 &&& 0x03) <<< 6) + a.getD 3 0]

/-- One turn of the loop; beside the text, the first `i` of `char_array_3`. -/
def encodeTurn (s : Bytes × List u8) (b : u8) : Bytes × List u8 :=
  let a := s.2 ++ [b]
  if a.length = 3 then (s.1 ++ (toFour a).map base64Char, []) else (s.1, a)

def encodeRest (s : Bytes × List u8) : Bytes :=
  let i := s.2.length
  if i = 0 then s.1
  else s.1 ++ ((toFour (s.2.takeD 3 0)).take (i + 1)).map base64Char ++
    List.replicate (3 - i) base64Pad

def base64Encode (b : Bytes) : Bytes := encodeRest (b.foldl encodeTurn ([], []))

/-- The loop, with the first `i` of `char_array_4`, `iTrueLen` and the buffer; no
result is a write outside it. -/
def decodeLoop : Bytes → List u8 → Nat → Bytes → Option (List u8 × Nat × Bytes)
  | [], a, n, out => some (a, n, out)
  | c :: rest, a, n, out =>
    if c = base64Pad ∨ isBase64 c = false then some (a, n, out)
    else
      let a := a ++ [c]
      if a.length = 4 then do
        let out ← Checked.writeN out n (toThree (a.map base64Find))
        decodeLoop rest [] (n + 3) out
      else decodeLoop rest a n out

def decodeRest (s : List u8 × Nat × Bytes) : Option (Nat × Bytes) :=
  let i := s.1.length
  if i = 0 then some s.2
  else do
    let d := (toThree ((s.1.takeD 4 0).map base64Find)).take (i - 1)
    let out ← Checked.writeN s.2.2 s.2.1 d
    return (s.2.1 + d.length, out)

/-- `base64_decode`, which returns `iTrueLen`. -/
def base64Decode (s : Bytes) (out : Bytes) : Option (Nat × Bytes) :=
  (decodeLoop s [] 0 out).bind decodeRest

def base64Value (c : u8) : Nat := (base64Find c).toNat

theorem base64Value_lt {c : u8} (hc : isBase64 c = true) : base64Value c < 64 := by
  revert c
  decide +kernel

theorem isBase64_char {i : u8} (hi : i.toNat < 64) : isBase64 (base64Char i) = true := by
  revert i
  decide +kernel

theorem base64Value_char {i : u8} (hi : i.toNat < 64) : base64Value (base64Char i) = i.toNat := by
  revert i
  decide +kernel

theorem base64Char_value {c : u8} (hc : isBase64 c = true) : base64Char (base64Find c) = c := by
  revert c
  decide +kernel

/-- The characters of sextets. -/
def base64Text (ds : List Nat) : Bytes := ds.map fun d => base64Char (BitVec.ofNat 8 d)

theorem toFour_high (a : u8) :
    (a &&& 0xFC) >>> 2 = BitVec.ofNat 8 (a.toNat / 4) ∧
      ((a &&& 0x03) <<< 4).toNat = a.toNat % 4 * 16 ∧
      ((a &&& 0xF0) >>> 4).toNat = a.toNat / 16 ∧
      ((a &&& 0x0F) <<< 2).toNat = a.toNat % 16 * 4 ∧
      ((a &&& 0xC0) >>> 6).toNat = a.toNat / 64 ∧
      a &&& 0x3F = BitVec.ofNat 8 (a.toNat % 64) := by
  revert a
  decide +kernel

theorem toThree_parts (d : u8) :
    (d <<< 2).toNat = d.toNat * 4 % 256 ∧
      ((d &&& 0x30) >>> 4).toNat = d.toNat / 16 % 4 ∧
      ((d &&& 0x0F) <<< 4).toNat = d.toNat % 16 * 16 ∧
      ((d &&& 0x3C) >>> 2).toNat = d.toNat / 4 % 16 ∧
      ((d &&& 0x03) <<< 6).toNat = d.toNat % 4 * 64 := by
  revert d
  decide +kernel

theorem toFour_eq (a b c : u8) :
    toFour [a, b, c] = [a.toNat / 4, a.toNat % 4 * 16 + b.toNat / 16,
      b.toNat % 16 * 4 + c.toNat / 64, c.toNat % 64].map (BitVec.ofNat 8) := by
  obtain ⟨ha1, ha2, -⟩ := toFour_high a
  obtain ⟨-, -, hb1, hb2, -⟩ := toFour_high b
  obtain ⟨-, -, -, -, hc1, hc2⟩ := toFour_high c
  have hab : ((a &&& 0x03) <<< 4) + ((b &&& 0xF0) >>> 4) =
      BitVec.ofNat 8 (a.toNat % 4 * 16 + b.toNat / 16) := by
    rw [BitVec.toNat_eq, BitVec.toNat_add, ha2, hb1, BitVec.toNat_ofNat]
  have hbc : ((b &&& 0x0F) <<< 2) + ((c &&& 0xC0) >>> 6) =
      BitVec.ofNat 8 (b.toNat % 16 * 4 + c.toNat / 64) := by
    rw [BitVec.toNat_eq, BitVec.toNat_add, hb2, hc1, BitVec.toNat_ofNat]
  simp only [toFour, List.getD_cons_zero, List.getD_cons_succ, List.map_cons, List.map_nil, ha1,
    hab, hbc, hc2]

theorem toThree_eq {p q r s : u8} (hq : q.toNat < 64) :
    toThree [p, q, r, s] = [BitVec.ofNat 8 (p.toNat * 4 + q.toNat / 16),
      BitVec.ofNat 8 (q.toNat % 16 * 16 + r.toNat / 4 % 16),
      BitVec.ofNat 8 (r.toNat % 4 * 64 + s.toNat)] := by
  obtain ⟨hp1, -⟩ := toThree_parts p
  obtain ⟨-, hq1, hq2, -⟩ := toThree_parts q
  obtain ⟨-, -, -, hr1, hr2⟩ := toThree_parts r
  have hpq : (p <<< 2) + ((q &&& 0x30) >>> 4) = BitVec.ofNat 8 (p.toNat * 4 + q.toNat / 16) := by
    rw [BitVec.toNat_eq, BitVec.toNat_add, hp1, hq1, BitVec.toNat_ofNat]
    omega
  have hqr : ((q &&& 0x0F) <<< 4) + ((r &&& 0x3C) >>> 2) =
      BitVec.ofNat 8 (q.toNat % 16 * 16 + r.toNat / 4 % 16) := by
    rw [BitVec.toNat_eq, BitVec.toNat_add, hq2, hr1, BitVec.toNat_ofNat]
  have hrs : ((r &&& 0x03) <<< 6) + s = BitVec.ofNat 8 (r.toNat % 4 * 64 + s.toNat) := by
    rw [BitVec.toNat_eq, BitVec.toNat_add, hr2, BitVec.toNat_ofNat]
  simp only [toThree, List.getD_cons_zero, List.getD_cons_succ, hpq, hqr, hrs]

theorem encodeTurn_three (r : Bytes) (a b c : u8) (l : Bytes) :
    (a :: b :: c :: l).foldl encodeTurn (r, []) =
      l.foldl encodeTurn (r ++ (toFour [a, b, c]).map base64Char, []) := rfl

theorem encodeRest_foldl (r : Bytes) : ∀ b : Bytes,
    encodeRest (b.foldl encodeTurn (r, [])) = r ++ base64Text (sextets (b.map BitVec.toNat)) ++
      List.replicate ((3 - b.length % 3) % 3) base64Pad
  | a :: b :: c :: l => by
    have hlen : (a :: b :: c :: l).length % 3 = l.length % 3 := by
      simp only [List.length_cons]
      omega
    rw [encodeTurn_three, encodeRest_foldl, hlen, toFour_eq]
    simp only [base64Text, sextets, List.map_cons, List.map_nil, List.append_assoc,
      List.cons_append, List.nil_append]
  | [a, b] => by
    have hfour := toFour_eq a b 0
    have hrest : [a, b].foldl encodeTurn (r, []) = (r, [a, b]) := rfl
    have htake : [a, b].takeD 3 0 = [a, b, 0] := rfl
    rw [hrest, encodeRest, htake, hfour]
    simp [base64Text, sextets]
  | [a] => by
    have hfour := toFour_eq a 0 0
    have hrest : [a].foldl encodeTurn (r, []) = (r, [a]) := rfl
    have htake : [a].takeD 3 0 = [a, 0, 0] := rfl
    rw [hrest, encodeRest, htake, hfour]
    simp [base64Text, sextets]
  | [] => by simp [encodeRest, base64Text, sextets]

theorem base64Encode_eq (b : Bytes) : base64Encode b = base64Text (sextets (b.map BitVec.toNat)) ++
    List.replicate ((3 - b.length % 3) % 3) base64Pad :=
  encodeRest_foldl [] b

/-- The octets of a text in the alphabet. -/
def base64Octets (t : Bytes) : Bytes := (octets (t.map base64Value)).map (BitVec.ofNat 8)

theorem base64Octets_length (t : Bytes) : (base64Octets t).length = 3 * t.length / 4 := by
  rw [base64Octets, List.length_map, Sextets.octets_length, List.length_map]

theorem decodeLoop_stop {c : u8} (hc : isBase64 c = false) (rest : Bytes) (a : List u8) (n : Nat)
    (out : Bytes) : decodeLoop (c :: rest) a n out = some (a, n, out) := if_pos (.inr hc)

theorem decodeLoop_add {c : u8} (hc : isBase64 c = true) {rest : Bytes} {a : List u8}
    (ha : a.length < 3) (n : Nat) (out : Bytes) :
    decodeLoop (c :: rest) a n out = decodeLoop rest (a ++ [c]) n out := by
  have hpad : c ≠ base64Pad := by
    rintro rfl
    cases hc
  have hlen : (a ++ [c]).length ≠ 4 := by
    rw [List.length_append, List.length_singleton]
    omega
  rw [decodeLoop, if_neg (by simp [hpad, hc])]
  simp only [hlen, if_false]

theorem decodeLoop_four {p q r s : u8} (h : ∀ c ∈ [p, q, r, s], isBase64 c = true) {rest : Bytes}
    {n : Nat} {out : Bytes} (hn : n + 3 ≤ out.length) :
    decodeLoop (p :: q :: r :: s :: rest) [] n out =
      decodeLoop rest [] (n + 3) (Checked.splice out n (base64Octets [p, q, r, s])) := by
  simp only [List.forall_mem_cons] at h
  obtain ⟨hp, hq, hr, hs, -⟩ := h
  have hpad : s ≠ base64Pad := by
    rintro rfl
    cases hs
  have hthree : toThree ([p, q, r, s].map base64Find) = base64Octets [p, q, r, s] := by
    have hr' := base64Value_lt hr
    have heq := toThree_eq (p := base64Find p) (r := base64Find r) (s := base64Find s)
      (base64Value_lt hq)
    have hmod : base64Value r / 4 % 16 = base64Value r / 4 := by omega
    simp only [List.map_cons, List.map_nil, heq, base64Octets, octets]
    rw [← base64Value, ← base64Value, ← base64Value, ← base64Value, hmod]
  have hwrite : Checked.writeN out n (base64Octets [p, q, r, s]) =
      some (Checked.splice out n (base64Octets [p, q, r, s])) := by
    apply Checked.writeN_eq
    have hthree : (base64Octets [p, q, r, s]).length = 3 := rfl
    rw [hthree]
    exact hn
  rw [decodeLoop_add hp (by simp), decodeLoop_add hq (by simp), decodeLoop_add hr (by simp),
    decodeLoop, if_neg (by simp [hpad, hs])]
  simp only [List.nil_append, List.cons_append, List.length_cons, List.length_nil, if_true, hthree,
    hwrite, Option.bind_eq_bind, Option.bind_some]

theorem decodeLoop_rest {tail : Bytes} (htail : ∀ c ∈ tail.head?, isBase64 c = false) {t : Bytes}
    (ht : ∀ c ∈ t, isBase64 c = true) {a : List u8} (ha : a.length + t.length ≤ 3) (n : Nat)
    (out : Bytes) : decodeLoop (t ++ tail) a n out = some (a ++ t, n, out) := by
  induction t generalizing a with
  | nil =>
    rw [List.nil_append, List.append_nil]
    cases tail with
    | nil => rfl
    | cons c tail => exact decodeLoop_stop (htail c rfl) tail a n out
  | cons c t ih =>
    rw [List.forall_mem_cons] at ht
    rw [List.length_cons] at ha
    rw [List.cons_append, decodeLoop_add ht.1 (by omega), ih ht.2 (by simp; omega),
      List.append_assoc]
    rfl

theorem decodeRest_eq {t : Bytes} (ht : ∀ c ∈ t, isBase64 c = true) (hlen : t.length ≤ 3)
    {n : Nat} {out : Bytes} (hn : n + (base64Octets t).length ≤ out.length) :
    decodeRest (t, n, out) =
      some (n + (base64Octets t).length, Checked.splice out n (base64Octets t)) := by
  have hd : (toThree ((t.takeD 4 0).map base64Find)).take (t.length - 1) = base64Octets t := by
    match t, hlen with
    | [], _ => rfl
    | [p], _ => simp [base64Octets, octets]
    | [p, q], _ =>
      have hq := base64Value_lt (ht q (by simp))
      have htake : [p, q].takeD 4 0 = [p, q, 0, 0] := rfl
      have heq := toThree_eq (p := base64Find p) (r := base64Find 0) (s := base64Find 0) hq
      rw [htake]
      simp only [List.map_cons, List.map_nil, heq]
      rfl
    | [p, q, r], _ =>
      have hq := base64Value_lt (ht q (by simp))
      have hr := base64Value_lt (ht r (by simp))
      have hmod : base64Value r / 4 % 16 = base64Value r / 4 := by omega
      have htake : [p, q, r].takeD 4 0 = [p, q, r, 0] := rfl
      have heq := toThree_eq (p := base64Find p) (r := base64Find r) (s := base64Find 0) hq
      rw [htake]
      simp only [List.map_cons, List.map_nil, heq]
      rw [← base64Value, ← base64Value, ← base64Value, hmod]
      rfl
  rw [decodeRest]
  split
  · rename_i hzero
    obtain rfl := List.length_eq_zero_iff.mp hzero
    simp [base64Octets, octets]
  · simp only [hd, Checked.writeN_eq hn, Option.bind_eq_bind, Option.bind_some, Option.pure_def]

theorem decode_prefix {tail : Bytes} (htail : ∀ c ∈ tail.head?, isBase64 c = false) :
    ∀ {t : Bytes}, (∀ c ∈ t, isBase64 c = true) → ∀ {n : Nat} {out : Bytes},
      n + (base64Octets t).length ≤ out.length →
      (decodeLoop (t ++ tail) [] n out).bind decodeRest =
        some (n + (base64Octets t).length, Checked.splice out n (base64Octets t))
  | p :: q :: r :: s :: t, ht, n, out, hn => by
    have hgroup : ∀ c ∈ [p, q, r, s], isBase64 c = true := fun c hc =>
      ht c (by simp only [List.mem_cons, List.not_mem_nil, or_false] at hc ⊢; tauto)
    have hrest : ∀ c ∈ t, isBase64 c = true := fun c hc => ht c (by simp [hc])
    have hfour : (base64Octets [p, q, r, s]).length = 3 := rfl
    have hcat : base64Octets (p :: q :: r :: s :: t) =
        base64Octets [p, q, r, s] ++ base64Octets t := rfl
    rw [hcat, List.length_append, hfour] at hn ⊢
    have hsplice : n + (base64Octets [p, q, r, s]).length ≤ out.length := by omega
    have hlen : (Checked.splice out n (base64Octets [p, q, r, s])).length = out.length :=
      Checked.splice_length hsplice
    have hjoin := Checked.splice_splice (e := base64Octets t) hsplice
    rw [hfour] at hjoin
    rw [List.cons_append, List.cons_append, List.cons_append, List.cons_append,
      decodeLoop_four hgroup (by omega), decode_prefix htail hrest (by omega), hjoin, Nat.add_assoc]
  | [p, q, r], ht, n, out, hn => by
    rw [decodeLoop_rest htail ht (by simp)]
    exact decodeRest_eq ht (by simp) hn
  | [p, q], ht, n, out, hn => by
    rw [decodeLoop_rest htail ht (by simp)]
    exact decodeRest_eq ht (by simp) hn
  | [p], ht, n, out, hn => by
    rw [decodeLoop_rest htail ht (by simp)]
    exact decodeRest_eq ht (by simp) hn
  | [], ht, n, out, hn => by
    rw [decodeLoop_rest htail ht (by simp)]
    exact decodeRest_eq ht (by simp) hn

theorem map_value_text {ds : List Nat} (hds : ∀ d ∈ ds, d < 64) :
    (base64Text ds).map base64Value = ds := by
  rw [base64Text, List.map_map]
  refine (List.map_congr_left fun d hd => ?_).trans (List.map_id ds)
  have hmod : (BitVec.ofNat 8 d).toNat = d := by
    have := hds d hd
    rw [BitVec.toNat_ofNat]
    omega
  rw [Function.comp_apply, base64Value_char (by rw [hmod]; exact hds d hd), hmod, id]

theorem isBase64_text {ds : List Nat} (hds : ∀ d ∈ ds, d < 64) :
    ∀ c ∈ base64Text ds, isBase64 c = true := by
  intro c hc
  obtain ⟨d, hd, rfl⟩ := List.mem_map.mp hc
  refine isBase64_char ?_
  have := hds d hd
  rw [BitVec.toNat_ofNat]
  omega

theorem base64Text_value {t : Bytes} (ht : ∀ c ∈ t, isBase64 c = true) :
    base64Text (t.map base64Value) = t := by
  rw [base64Text, List.map_map]
  refine (List.map_congr_left fun c hc => ?_).trans (List.map_id t)
  rw [Function.comp_apply, base64Value, BitVec.ofNat_toNat, BitVec.setWidth_eq,
    base64Char_value (ht c hc), id]

theorem toNat_lt_of_mem_map {b : Bytes} : ∀ a ∈ b.map BitVec.toNat, a < 256 := by
  intro a ha
  obtain ⟨c, -, rfl⟩ := List.mem_map.mp ha
  exact c.isLt

theorem map_value_lt {t : Bytes} (ht : ∀ c ∈ t, isBase64 c = true) :
    ∀ d ∈ t.map base64Value, d < 64 := by
  intro d hd
  obtain ⟨c, hc, rfl⟩ := List.mem_map.mp hd
  exact base64Value_lt (ht c hc)

theorem map_toNat_octets {t : Bytes} (ht : ∀ c ∈ t, isBase64 c = true) :
    (base64Octets t).map BitVec.toNat = octets (t.map base64Value) := by
  rw [base64Octets, List.map_map]
  refine (List.map_congr_left fun a ha => ?_).trans (List.map_id _)
  have hlt := Sextets.octets_lt (map_value_lt ht) a ha
  rw [Function.comp_apply, BitVec.toNat_ofNat, Nat.mod_eq_of_lt hlt, id]

theorem takeWhile_encode (b : Bytes) :
    (base64Encode b).takeWhile isBase64 = base64Text (sextets (b.map BitVec.toNat)) := by
  have hpad : (List.replicate ((3 - b.length % 3) % 3) base64Pad).takeWhile isBase64 = [] := by
    cases (3 - b.length % 3) % 3 with
    | zero => rfl
    | succ n => exact List.takeWhile_cons_of_neg (by decide)
  have hlt := Sextets.sextets_lt (toNat_lt_of_mem_map (b := b))
  rw [base64Encode_eq, List.takeWhile_append_of_pos (isBase64_text hlt), hpad, List.append_nil]

theorem base64Octets_encode (b : Bytes) :
    base64Octets (base64Text (sextets (b.map BitVec.toNat))) = b := by
  have hlt := Sextets.sextets_lt (toNat_lt_of_mem_map (b := b))
  rw [base64Octets, map_value_text hlt, Sextets.octets_sextets toNat_lt_of_mem_map, List.map_map]
  refine (List.map_congr_left fun c _ => ?_).trans (List.map_id b)
  rw [Function.comp_apply, BitVec.ofNat_toNat, BitVec.setWidth_eq, id]

theorem encode_octets_take {t : Bytes} (ht : ∀ c ∈ t, isBase64 c = true) :
    (base64Encode (base64Octets t)).take (t.length - 1) = t.take (t.length - 1) := by
  have htext := congrArg base64Text (Sextets.sextets_octets_take (map_value_lt ht))
  simp only [base64Text, List.map_take, List.length_map] at htext
  rw [← base64Text, ← base64Text, base64Text_value ht] at htext
  have hshort : t.length - 1 ≤ (base64Text (sextets (octets (t.map base64Value)))).length := by
    rw [base64Text, List.length_map, Sextets.sextets_length, Sextets.octets_length,
      List.length_map]
    omega
  rw [base64Encode_eq, map_toNat_octets ht, List.take_append_of_le_length hshort, htext]

theorem base64Decode_eq (s : Bytes) {out : Bytes}
    (hout : (base64Octets (s.takeWhile isBase64)).length ≤ out.length) :
    base64Decode s out = some ((base64Octets (s.takeWhile isBase64)).length,
      Checked.splice out 0 (base64Octets (s.takeWhile isBase64))) := by
  have htail : ∀ c ∈ (s.dropWhile isBase64).head?, isBase64 c = false := by
    intro c hc
    have hne : s.dropWhile isBase64 ≠ [] := by
      intro hnil
      rw [hnil] at hc
      cases hc
    have hhead := List.head_dropWhile_not isBase64 hne
    rw [List.head?_eq_some_head hne, Option.mem_some_iff] at hc
    rwa [hc] at hhead
  have ht : ∀ c ∈ s.takeWhile isBase64, isBase64 c = true := fun c hc => List.mem_takeWhile_imp hc
  have hout' : 0 + (base64Octets (s.takeWhile isBase64)).length ≤ out.length := by
    rwa [Nat.zero_add]
  have hrun := decode_prefix htail ht hout'
  rw [List.takeWhile_append_dropWhile, Nat.zero_add] at hrun
  exact hrun

/-- The decoder gives back what was encoded. Of any text it reads the longest part
in the alphabet, and writes the octets of its characters and no more: their
encoding is that part up to the last character. -/
theorem base64_codec :
    (∀ b out : Bytes, b.length ≤ out.length →
      base64Decode (base64Encode b) out = some (b.length, Checked.splice out 0 b)) ∧
    ∀ s out : Bytes, let t := s.takeWhile isBase64
      3 * t.length / 4 ≤ out.length →
        base64Decode s out = some (3 * t.length / 4, Checked.splice out 0 (base64Octets t)) ∧
        (base64Octets t).length = 3 * t.length / 4 ∧
        (base64Encode (base64Octets t)).take (t.length - 1) = t.take (t.length - 1) := by
  constructor
  · intro b out hout
    have hwhole : base64Octets ((base64Encode b).takeWhile isBase64) = b := by
      rw [takeWhile_encode, base64Octets_encode]
    have hrun := base64Decode_eq (base64Encode b) (hwhole.symm ▸ hout)
    rwa [hwhole] at hrun
  · intro s out t hout
    have ht : ∀ c ∈ t, isBase64 c = true := fun c hc => List.mem_takeWhile_imp hc
    have hlen : (base64Octets t).length = 3 * t.length / 4 := base64Octets_length t
    have hrun := base64Decode_eq s (hlen.trans_le hout)
    rw [hlen] at hrun
    exact ⟨hrun, hlen, encode_octets_take ht⟩

end SecProGIS
