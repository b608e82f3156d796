import SecProGIS.LinkDataBase
import SecProGIS.Lib.Checked
import SecProGIS.Lib.Decimal
import SecProGIS.Lib.LongestMatch

/-! `ListCtrlSortHelper::Compare` of `ListCtrlSort.h`: the regular expression
runs over the bytes of a text taken as 16-bit units, and the positions it finds
are used as positions in the text. -/

namespace SecProGIS

/-- A code page that converts the empty text to nothing. -/
structure TextPage extends CodePage where
  toBytes_nil : toBytes [] = []

/-- `chText`: the size is asked of the ANSI page, the bytes are written by the OEM page
when they fit in it, and a NUL goes behind them. -/
def chText (acp oem : TextPage) (text : List WChar) : Option Bytes := do
  let nBytes := (acp.toBytes text).length
  let bytes := oem.toBytes text
  if bytes.length ≤ nBytes then
    let buf ← Checked.writeN (List.replicate 260 0) 0 bytes
    Checked.write buf nBytes 0
  else none

/-- Two bytes read as an `unsigned short`. -/
def unitOf (lo hi : u8) : WChar := hi ++ lo

/-- The units of a buffer up to the first zero; no result when it holds none. -/
def units : Bytes → Option (List WChar)
  | lo :: hi :: rest =>
    if unitOf lo hi = 0 then some [] else (units rest).map (unitOf lo hi :: ·)
  | _ => none

def isDigit (c : WChar) : Bool := 48 ≤ c ∧ c ≤ 57

def isNumber (w : List WChar) : Bool :=
  let w := if w.head? = some 43 ∨ w.head? = some 45 then w.tail else w
  let rest := w.dropWhile isDigit
  !(w.takeWhile isDigit).isEmpty &&
    (rest.isEmpty || (rest.head? = some 46 && !rest.tail.isEmpty && rest.tail.all isDigit))

/-- `group1` is `GetGroupStart(1)`. -/
structure MatchResult where
  start : Nat
  stop : Nat
  group1 : Int

/-- `reg.Match`: the leftmost longest match from `nEnd` on. -/
def regMatch (us : List WChar) (nEnd : Nat) : Option MatchResult :=
  (LongestMatch.find isNumber us nEnd).map fun (start, stop) =>
    let dot := ((us.drop start).take (stop - start)).findIdx? (· = 46)
    ⟨start, stop, (dot.map fun k => ((start + k : Nat) : Int)).getD (-1)⟩

def mid (text : List WChar) (first count : Nat) : List WChar := (text.drop first).take count

/-- What `wcscmp` sees of a text. -/
def codes (s : List WChar) : List Nat := (s.takeWhile (· ≠ 0)).map BitVec.toNat

def wcscmp (s t : List WChar) : Int :=
  if codes s < codes t then -1 else if codes t < codes s then 1 else 0

/-- `_ttoi64`. -/
def ttoi64 (s : List WChar) : Int :=
  let s := s.dropWhile fun c => c = 32 ∨ (9 ≤ c ∧ c ≤ 13)
  let neg := s.head? = some 45
  let s := if s.head? = some 45 ∨ s.head? = some 43 then s.tail else s
  let n : Nat := (s.takeWhile isDigit).foldl (fun n c => n * 10 + (c.toNat - 48)) 0
  let v : Int := if neg then -n else n
  max (-2 ^ 63) (min (2 ^ 63 - 1) v)

section

variable {δ : Type} [LinearOrder δ] (tcstod : List WChar → δ) (csText1 csText2 : List WChar)

def order {α : Type} [LinearOrder α] (x y : α) : Int := if y < x then 1 else if x < y then -1 else 0

/-- The numbers at two matches; 0 when they are the same. -/
def compareNumbers (ret1 ret2 : MatchResult) : Int :=
  let number1 := mid csText1 ret1.start (ret1.stop - ret1.start)
  let number2 := mid csText2 ret2.start (ret2.stop - ret2.start)
  if 0 ≤ ret1.group1 ∨ 0 ≤ ret2.group1 then order (tcstod number1) (tcstod number2)
  else order (ttoi64 number1) (ttoi64 number2)

def subText (csText : List WChar) (nEnd : Nat) (ret : Option MatchResult) : List WChar :=
  ret.elim csText fun r => mid csText nEnd (r.start - nEnd)

theorem regMatch_bounds {us : List WChar} {nEnd : Nat} {r : MatchResult}
    (h : regMatch us nEnd = some r) : nEnd ≤ r.start ∧ r.start < r.stop ∧ r.stop ≤ us.length := by
  obtain ⟨⟨a, b⟩, hfind, rfl⟩ := Option.map_eq_some_iff.mp h
  exact LongestMatch.find_bounds hfind

/-- The `while` loop; each turn makes the units `us1` and `us2` anew from the texts. -/
def compareFrom (us1 us2 : List WChar) (nEnd1 nEnd2 : Nat) : Int :=
  let sub := wcscmp (subText csText1 nEnd1 (regMatch us1 nEnd1))
    (subText csText2 nEnd2 (regMatch us2 nEnd2))
  if sub ≠ 0 then sub
  else
    match _h1 : regMatch us1 nEnd1, regMatch us2 nEnd2 with
    | none, none => 0
    | some ret1, some ret2 =>
      let number := compareNumbers tcstod csText1 csText2 ret1 ret2
      if number ≠ 0 then number else compareFrom us1 us2 ret1.stop ret2.stop
    | some _, none => 1
    | none, some _ => -1
termination_by us1.length - nEnd1
decreasing_by
  have := regMatch_bounds _h1
  omega

/-- `Compare`; a read behind a buffer has no result. -/
def compareTexts (acp oem : TextPage) : Option Int := do
  let us1 ← units (← chText acp oem csText1)
  let us2 ← units (← chText acp oem csText2)
  return compareFrom tcstod csText1 csText2 us1 us2 0 0

end

theorem regMatch_some {us : List WChar} {nEnd : Nat} {r : MatchResult}
    (h : regMatch us nEnd = some r) :
    LongestMatch.Word isNumber us r.start r.stop ∧
      (∀ j, LongestMatch.Word isNumber us r.start j → j ≤ r.stop) ∧
      ∀ k, nEnd ≤ k → k < r.start → ∀ j, ¬ LongestMatch.Word isNumber us k j := by
  obtain ⟨⟨a, b⟩, hfind, rfl⟩ := Option.map_eq_some_iff.mp h
  exact LongestMatch.find_some hfind

theorem regMatch_none {us : List WChar} {nEnd : Nat} (h : regMatch us nEnd = none) {k : Nat}
    (hk : nEnd ≤ k) (j : Nat) : ¬ LongestMatch.Word isNumber us k j :=
  LongestMatch.find_none (Option.map_eq_none_iff.mp h) hk j

theorem TextPage.toBytes_eq (page : TextPage) {s : List WChar} (h : IsAscii s) :
    page.toBytes s = narrow s := by
  have happ := page.toBytes_append h []
  rwa [page.toBytes_nil, List.append_nil, List.append_nil] at happ

theorem narrow_length (s : List WChar) : (narrow s).length = s.length := List.length_map _

theorem chText_eq (acp oem : TextPage) {text : List WChar} (h : IsAscii text)
    (hlen : text.length < 260) :
    chText acp oem text = some (narrow text ++ 0 :: List.replicate (259 - text.length) 0) := by
  have hn := narrow_length text
  have hroom : 0 + (narrow text).length ≤ (List.replicate 260 (0 : u8)).length := by
    rw [List.length_replicate]
    omega
  have hrest : List.replicate (260 - text.length) (0 : u8) =
      0 :: List.replicate (259 - text.length) 0 := by
    rw [← List.replicate_succ]
    congr 1
    omega
  have hbuf : Checked.splice (List.replicate 260 0) 0 (narrow text) =
      narrow text ++ 0 :: List.replicate (259 - text.length) 0 := by
    rw [Checked.splice, List.take_zero, List.nil_append, Nat.zero_add, List.drop_replicate, hn,
      hrest]
  have hlast : Checked.write (narrow text ++ 0 :: List.replicate (259 - text.length) 0)
      text.length 0 = some (narrow text ++ 0 :: List.replicate (259 - text.length) 0) := by
    rw [Checked.write, if_pos (by rw [List.length_append, List.length_cons]; omega), ← hn,
      List.set_append_right _ _ le_rfl, Nat.sub_self, List.set_cons_zero]
  simp only [chText, acp.toBytes_eq h, oem.toBytes_eq h, le_refl, if_true,
    Checked.writeN_eq hroom, hbuf, hn, Option.bind_eq_bind, Option.bind_some, hlast]

/-- A text in pairs of bytes; the last byte of an odd one stands alone. -/
def pairUnits : Bytes → List WChar
  | lo :: hi :: rest => unitOf lo hi :: pairUnits rest
  | [c] => [unitOf c 0]
  | [] => []

theorem unitOf_toNat (lo hi : u8) : (unitOf lo hi).toNat = hi.toNat * 256 + lo.toNat := by
  have hlo := lo.isLt
  rw [unitOf]
  change (hi ++ lo).toNat = _
  rw [BitVec.toNat_append, ← Nat.shiftLeft_add_eq_or_of_lt hlo, Nat.shiftLeft_eq]

theorem unitOf_ne_zero {lo hi : u8} (h : lo ≠ 0) : unitOf lo hi ≠ 0 := by
  intro hz
  have hn := congrArg BitVec.toNat hz
  rw [unitOf_toNat] at hn
  apply h
  apply BitVec.eq_of_toNat_eq
  simp at hn ⊢
  omega

theorem units_eq {b : Bytes} (hb : ∀ c ∈ b, c ≠ 0) {k : Nat}
    (hk : 2 ≤ k ∨ 1 ≤ k ∧ b.length % 2 = 0) :
    units (b ++ 0 :: List.replicate k 0) = some (pairUnits b) := by
  induction b using pairUnits.induct with
  | case1 lo hi rest ih =>
    have hparity : (lo :: hi :: rest).length % 2 = rest.length % 2 := Nat.add_mod_right _ 2
    rw [hparity] at hk
    have hrest := ih (fun c hc => hb c (by simp [hc])) hk
    rw [List.cons_append, List.cons_append, units, if_neg (unitOf_ne_zero (hb lo (by simp))),
      hrest, pairUnits]
    rfl
  | case2 c =>
    obtain ⟨j, rfl⟩ : ∃ j, k = j + 2 := ⟨k - 2, by simp at hk; omega⟩
    have hc : unitOf c 0 ≠ 0 := unitOf_ne_zero (hb c (by simp))
    have hzero : unitOf 0 0 = 0 := rfl
    rw [List.cons_append, List.nil_append, units, if_neg hc, List.replicate_succ,
      List.replicate_succ, units, if_pos hzero]
    rfl
  | case3 =>
    obtain ⟨j, rfl⟩ : ∃ j, k = j + 1 := ⟨k - 1, by omega⟩
    have hzero : unitOf 0 0 = 0 := rfl
    rw [List.nil_append, List.replicate_succ, units, if_pos hzero]
    rfl

theorem units_eq_none {b : Bytes} (hb : ∀ c ∈ b, c ≠ 0) (hodd : b.length % 2 = 1) :
    units (b ++ [0]) = none := by
  induction b using pairUnits.induct with
  | case1 lo hi rest ih =>
    have hparity : (lo :: hi :: rest).length % 2 = rest.length % 2 := Nat.add_mod_right _ 2
    rw [hparity] at hodd
    rw [List.cons_append, List.cons_append, units, if_neg (unitOf_ne_zero (hb lo (by simp))),
      ih (fun c hc => hb c (by simp [hc])) hodd]
    rfl
  | case2 c =>
    rw [List.cons_append, List.nil_append, units, if_neg (unitOf_ne_zero (hb c (by simp)))]
    rfl
  | case3 => simp at hodd

theorem isNumber_cons_of_large {c : WChar} (h : 256 ≤ c.toNat) (w : List WChar) :
    isNumber (c :: w) = false := by
  have hsign : ¬ ((c :: w).head? = some 43 ∨ (c :: w).head? = some 45) := by
    rintro (h' | h') <;> cases h' <;> exact absurd h (by decide)
  have hdigit : isDigit c = false := by
    rw [isDigit, decide_eq_false_iff_not]
    rintro ⟨-, hle⟩
    rw [BitVec.le_def] at hle
    have h57 : (57 : WChar).toNat = 57 := rfl
    omega
  simp only [isNumber, if_neg hsign]
  rw [List.takeWhile_cons_of_neg (by simp [hdigit])]
  rfl

theorem isNumber_singleton (c : WChar) : isNumber [c] = isDigit c := by
  by_cases hsign : c = 43 ∨ c = 45
  · rcases hsign with rfl | rfl <;> rfl
  · have hhead : ¬ ([c].head? = some 43 ∨ [c].head? = some 45) := by simpa using hsign
    simp only [isNumber, if_neg hhead]
    cases hd : isDigit c <;> simp [hd]

def loneUnit (b : Bytes) : List WChar :=
  if b.length % 2 = 1 then b.getLast?.toList.map (unitOf · 0) else []

theorem pairUnits_split {b : Bytes} (hb : ∀ c ∈ b, c ≠ 0) : ∃ front, front.length = b.length / 2 ∧
    (∀ c ∈ front, 256 ≤ c.toNat) ∧ pairUnits b = front ++ loneUnit b := by
  induction b using pairUnits.induct with
  | case1 lo hi rest ih =>
    obtain ⟨front, hlen, hlarge, heq⟩ := ih fun c hc => hb c (by simp [hc])
    have hhi : hi ≠ 0 := hb hi (by simp)
    have hpos : 0 < hi.toNat := Nat.pos_of_ne_zero fun h => hhi (BitVec.eq_of_toNat_eq h)
    have hlone : loneUnit (lo :: hi :: rest) = loneUnit rest := by
      have hparity : (lo :: hi :: rest).length % 2 = rest.length % 2 := Nat.add_mod_right _ 2
      rw [loneUnit, loneUnit, hparity]
      cases rest <;> rfl
    refine ⟨unitOf lo hi :: front, ?_, ?_, ?_⟩
    · simp only [List.length_cons, hlen]
      omega
    · rw [List.forall_mem_cons, unitOf_toNat]
      exact ⟨by omega, hlarge⟩
    · rw [pairUnits, heq, hlone, List.cons_append]
  | case2 c => exact ⟨[], by simp, by simp, rfl⟩
  | case3 => exact ⟨[], rfl, by simp, rfl⟩

theorem unitOf_narrow {c : WChar} (h : c < 128) : unitOf (c.setWidth 8) 0 = c := by
  have hc : c.toNat < 128 := h
  apply BitVec.eq_of_toNat_eq
  rw [unitOf_toNat, BitVec.toNat_setWidth]
  simp
  omega

/-- The text is of odd length and ends in a digit. -/
def cut (s : List WChar) : Bool := s.length % 2 = 1 ∧ s.getLast?.any isDigit

theorem loneUnit_narrow {s : List WChar} (h : IsAscii s) :
    loneUnit (narrow s) = if s.length % 2 = 1 then s.getLast?.toList else [] := by
  rw [loneUnit, narrow_length]
  split
  · rw [narrow, List.getLast?_map]
    cases hl : s.getLast? with
    | none => rfl
    | some c => exact congrArg (fun c => [c]) (unitOf_narrow (h c (List.mem_of_getLast? hl)).2)
  · rfl

section

variable {front : List WChar} (hfront : ∀ c ∈ front, 256 ≤ c.toNat) (nEnd : Nat)

include hfront

theorem regMatch_pairs : regMatch front nEnd = none := by
  have hnone : ∀ c ∈ front, ∀ w, isNumber (c :: w) = false :=
    fun c hc => isNumber_cons_of_large (hfront c hc)
  rw [regMatch, ← List.append_nil front]
  by_cases hle : nEnd ≤ front.length
  · rw [LongestMatch.find_append hnone _ hle]
    rfl
  · rw [List.append_nil, LongestMatch.find_of_length_le (by omega)]
    rfl

theorem regMatch_pairs_append (c : WChar) : regMatch (front ++ [c]) nEnd =
    if isDigit c ∧ nEnd ≤ front.length then
      some ⟨front.length, front.length + 1, -1⟩
    else none := by
  have hnone : ∀ c ∈ front, ∀ w, isNumber (c :: w) = false :=
    fun c hc => isNumber_cons_of_large (hfront c hc)
  rw [regMatch]
  by_cases hle : nEnd ≤ front.length
  · rw [LongestMatch.find_append hnone _ hle, LongestMatch.search_singleton, isNumber_singleton]
    cases hd : isDigit c with
    | false => simp
    | true =>
      have hdot : [c].findIdx? (· = 46) = none := by
        rw [List.findIdx?_eq_none_iff]
        intro x hx
        rw [List.mem_singleton.mp hx, decide_eq_false_iff_not]
        rintro rfl
        cases hd
      have hword : ((front ++ [c]).drop front.length).take
          (front.length + 1 - front.length) = [c] := by
        rw [List.drop_left, Nat.add_sub_cancel_left]
        rfl
      rw [if_pos rfl, if_pos ⟨rfl, hle⟩, Option.map_some]
      simp only [hword, hdot]
      rfl
  · have hlong : (front ++ [c]).length ≤ nEnd := by
      rw [List.length_append, List.length_singleton]
      omega
    rw [LongestMatch.find_of_length_le hlong, if_neg (by omega)]
    rfl

end

theorem regMatch_eq {s : List WChar} (h : IsAscii s) (nEnd : Nat) :
    regMatch (pairUnits (narrow s)) nEnd =
      if cut s ∧ nEnd ≤ s.length / 2 then some ⟨s.length / 2, s.length / 2 + 1, -1⟩ else none := by
  obtain ⟨front, hlen, hlarge, heq⟩ := pairUnits_split (narrow_ne_zero h)
  rw [narrow_length] at hlen
  rw [heq, loneUnit_narrow h, ← hlen]
  by_cases hodd : s.length % 2 = 1
  · obtain ⟨c, hc⟩ : ∃ c, s.getLast? = some c := by
      cases hl : s.getLast? with
      | none =>
        rw [List.getLast?_eq_none_iff.mp hl] at hodd
        cases hodd
      | some c => exact ⟨c, rfl⟩
    have hcut : cut s = isDigit c := by simp [cut, hodd, hc]
    rw [if_pos hodd, hc, hcut, Option.toList_some]
    exact regMatch_pairs_append hlarge nEnd c
  · have hcut : cut s = false := by simp [cut, hodd]
    rw [if_neg hodd, hcut, if_neg (by simp), List.append_nil]
    exact regMatch_pairs hlarge nEnd

/-- Of a text with a match only the first half stands before the match. -/
def visible (s : List WChar) : List WChar := if cut s then s.take (s.length / 2) else s

/-- The character that the position of the match falls on, as a number. -/
def middle (s : List WChar) : Int := ttoi64 (mid s (s.length / 2) 1)

def verdict (s t : List WChar) : Int :=
  if wcscmp (visible s) (visible t) ≠ 0 then wcscmp (visible s) (visible t)
  else if cut s ∧ cut t then
    if order (middle s) (middle t) ≠ 0 then order (middle s) (middle t) else wcscmp s t
  else if cut s then 1
  else if cut t then -1
  else 0

theorem cut_of_regMatch_none {s : List WChar} (h : IsAscii s)
    (hm : regMatch (pairUnits (narrow s)) 0 = none) : cut s = false := by
  rw [regMatch_eq h] at hm
  split at hm
  · cases hm
  · simpa using ‹¬ (cut s ∧ 0 ≤ s.length / 2)›

theorem cut_of_regMatch_some {s : List WChar} {r : MatchResult} (h : IsAscii s)
    (hm : regMatch (pairUnits (narrow s)) 0 = some r) :
    cut s = true ∧ r = ⟨s.length / 2, s.length / 2 + 1, -1⟩ := by
  rw [regMatch_eq h] at hm
  split at hm
  · rename_i hcut
    exact ⟨hcut.1, (Option.some.inj hm).symm⟩
  · cases hm

theorem subText_zero {s : List WChar} (h : IsAscii s) :
    subText s 0 (regMatch (pairUnits (narrow s)) 0) = visible s := by
  rw [regMatch_eq h, visible]
  cases cut s <;> simp [subText, mid]

section

variable {δ : Type} [LinearOrder δ] (tcstod : List WChar → δ) {s t : List WChar}

theorem compareFrom_behind (hs : IsAscii s) (ht : IsAscii t) :
    compareFrom tcstod s t (pairUnits (narrow s)) (pairUnits (narrow t)) (s.length / 2 + 1)
      (t.length / 2 + 1) = wcscmp s t := by
  have hnone : ∀ u : List WChar, IsAscii u →
      regMatch (pairUnits (narrow u)) (u.length / 2 + 1) = none := by
    intro u hu
    rw [regMatch_eq hu, if_neg (by omega)]
  rw [compareFrom]
  split
  next => rw [hnone s hs, hnone t ht, subText, subText, Option.elim_none, Option.elim_none]
  next hsub =>
    rw [hnone s hs, hnone t ht, subText, subText, Option.elim_none, Option.elim_none,
      not_not] at hsub
    split
    next => exact hsub.symm
    next h1 _ => rw [hnone s hs] at h1; cases h1
    next h1 _ => rw [hnone s hs] at h1; cases h1
    next h2 => rw [hnone t ht] at h2; cases h2

theorem compareFrom_eq (hs : IsAscii s) (ht : IsAscii t) :
    compareFrom tcstod s t (pairUnits (narrow s)) (pairUnits (narrow t)) 0 0 = verdict s t := by
  rw [compareFrom, subText_zero hs, subText_zero ht, verdict]
  split
  next => rfl
  next =>
    split
    next h1 h2 =>
      rw [cut_of_regMatch_none hs h1, cut_of_regMatch_none ht h2]
      rfl
    next ret1 ret2 h1 h2 =>
      obtain ⟨hcs, rfl⟩ := cut_of_regMatch_some hs h1
      obtain ⟨hct, rfl⟩ := cut_of_regMatch_some ht h2
      have hnumber : compareNumbers tcstod s t ⟨s.length / 2, s.length / 2 + 1, -1⟩
          ⟨t.length / 2, t.length / 2 + 1, -1⟩ = order (middle s) (middle t) := by
        simp only [compareNumbers, middle, Nat.add_sub_cancel_left]
        exact if_neg (by decide)
      have hboth : cut s = true ∧ cut t = true := ⟨hcs, hct⟩
      rw [hnumber, compareFrom_behind tcstod hs ht, if_pos hboth]
    next h1 h2 =>
      rw [(cut_of_regMatch_some hs h1).1, cut_of_regMatch_none ht h2]
      rfl
    next h1 h2 =>
      rw [cut_of_regMatch_none hs h1, (cut_of_regMatch_some ht h2).1]
      rfl

theorem units_chText (acp oem : TextPage) (hs : IsAscii s) (hlen : s.length < 260) :
    (chText acp oem s).bind units =
      if s.length ≤ 258 then some (pairUnits (narrow s)) else none := by
  have hn := narrow_length s
  rw [chText_eq acp oem hs hlen, Option.bind_some]
  split
  · exact units_eq (narrow_ne_zero hs) (by omega)
  · have hfull : 259 - s.length = 0 := by omega
    rw [hfull]
    exact units_eq_none (narrow_ne_zero hs) (by omega)

theorem compareTexts_eq (acp oem : TextPage) (hs : IsAscii s) (ht : IsAscii t)
    (hslen : s.length < 260) (htlen : t.length < 260) :
    compareTexts tcstod s t acp oem =
      if s.length ≤ 258 ∧ t.length ≤ 258 then some (verdict s t) else none := by
  have h1 := units_chText acp oem hs hslen
  have h2 := units_chText acp oem ht htlen
  have hbind : compareTexts tcstod s t acp oem =
      ((chText acp oem s).bind units).bind fun us1 =>
        ((chText acp oem t).bind units).bind fun us2 =>
          some (compareFrom tcstod s t us1 us2 0 0) := by
    simp only [compareTexts, Option.bind_assoc]
    rfl
  rw [hbind, h1, h2]
  by_cases hsfit : s.length ≤ 258
  · by_cases htfit : t.length ≤ 258
    · rw [if_pos hsfit, if_pos htfit, if_pos ⟨hsfit, htfit⟩, Option.bind_some, Option.bind_some,
        compareFrom_eq tcstod hs ht]
    · have hboth : ¬ (s.length ≤ 258 ∧ t.length ≤ 258) := fun h => htfit h.2
      rw [if_pos hsfit, if_neg htfit, if_neg hboth]
      rfl
  · have hboth : ¬ (s.length ≤ 258 ∧ t.length ≤ 258) := fun h => hsfit h.1
    rw [if_neg hsfit, if_neg hboth]
    rfl

end

def Precedes (s t : List WChar) : Prop :=
  codes (visible s) < codes (visible t) ∨
    codes (visible s) = codes (visible t) ∧
      (cut s = false ∧ cut t ∨
        cut s ∧ cut t ∧
          (middle s < middle t ∨ middle s = middle t ∧ codes s < codes t))

theorem order_eq_zero_iff {α : Type} [LinearOrder α] {x y : α} : order x y = 0 ↔ x = y := by
  rcases lt_trichotomy x y with h | rfl | h
  · simp [order, h, h.asymm, h.ne]
  · simp [order]
  · simp [order, h, h.ne']

theorem order_eq_neg_one_iff {α : Type} [LinearOrder α] {x y : α} : order x y = -1 ↔ x < y := by
  rcases lt_trichotomy x y with h | rfl | h
  · simp [order, h, h.asymm]
  · simp [order]
  · simp [order, h, h.asymm]

theorem order_swap {α : Type} [LinearOrder α] (x y : α) : order y x = -order x y := by
  rcases lt_trichotomy x y with h | rfl | h
  · simp [order, h, h.asymm]
  · simp [order]
  · simp [order, h, h.asymm]

theorem wcscmp_eq_order (s t : List WChar) : wcscmp s t = order (codes s) (codes t) := by
  rcases lt_trichotomy (codes s) (codes t) with h | h | h
  · simp [wcscmp, order, h, h.asymm]
  · simp [wcscmp, order, h]
  · simp [wcscmp, order, h, h.asymm]

theorem wcscmp_swap (s t : List WChar) : wcscmp t s = -wcscmp s t := by
  rw [wcscmp_eq_order, wcscmp_eq_order, order_swap]

theorem verdict_swap (s t : List WChar) : verdict t s = -verdict s t := by
  rw [verdict, verdict, wcscmp_swap (visible s), wcscmp_swap s, order_swap (middle s)]
  simp only [ne_eq, neg_eq_zero]
  split
  · rfl
  · cases cut s <;> cases cut t
    · rfl
    · rfl
    · rfl
    · simp only [and_self, if_true]
      split <;> rfl

theorem verdict_eq_neg_one_iff {s t : List WChar} : verdict s t = -1 ↔ Precedes s t := by
  have hsub : wcscmp (visible s) (visible t) = 0 ↔ codes (visible s) = codes (visible t) := by
    rw [wcscmp_eq_order, order_eq_zero_iff]
  rw [verdict, Precedes]
  by_cases hcodes : codes (visible s) = codes (visible t)
  · have hlt : ¬ codes (visible s) < codes (visible t) := hcodes.not_lt
    rw [if_neg (not_not.mpr (hsub.mpr hcodes))]
    simp only [hcodes, lt_self_iff_false, false_or, true_and]
    cases cut s <;> cases cut t
    · simp
    · simp
    · simp
    · simp only [and_self, if_true]
      by_cases hmiddle : middle s = middle t
      · rw [if_neg (not_not.mpr (order_eq_zero_iff.mpr hmiddle)), wcscmp_eq_order,
          order_eq_neg_one_iff]
        simp [hmiddle]
      · rw [if_pos (order_eq_zero_iff.not.mpr hmiddle), order_eq_neg_one_iff]
        simp [hmiddle]
  · rw [if_pos (hsub.not.mpr hcodes), wcscmp_eq_order, order_eq_neg_one_iff]
    simp [hcodes]

def isLetter (c : WChar) : Bool := (65 ≤ c ∧ c ≤ 90) ∨ (97 ≤ c ∧ c ≤ 122)

def decimal (n : Nat) : List WChar := (Decimal.natText n).map fun c => c.setWidth 16

/-- Two record texts with numbers `m` and `n` in the same place. -/
structure Numbered where
  p : List WChar
  m : Nat
  n : Nat
  s : List WChar
  t : List WChar
  p_last : ∀ c ∈ p.getLast?, isLetter c
  p_digits : ∀ c ∈ p, ¬ isDigit c
  lt : m < n
  bound : n < 10 ^ 18
  s_head : ∀ c ∈ s.head?, isLetter c
  t_head : ∀ c ∈ t.head?, isLetter c
  alnum : ∀ c ∈ p ++ s ++ t, isLetter c ∨ isDigit c
  m_length : (p ++ decimal m ++ s).length < 260
  n_length : (p ++ decimal n ++ t).length < 260

namespace Numbered

def lower (r : Numbered) : List WChar := r.p ++ decimal r.m ++ r.s

def higher (r : Numbered) : List WChar := r.p ++ decimal r.n ++ r.t

end Numbered

theorem isAscii_of_alnum {c : WChar} (h : isLetter c ∨ isDigit c) : c ≠ 0 ∧ c < 128 := by
  simp only [isLetter, isDigit, decide_eq_true_eq] at h
  constructor <;> bv_omega

theorem isAscii_decimal (n : Nat) : IsAscii (decimal n) := by
  intro c hc
  obtain ⟨b, hb, rfl⟩ := List.mem_map.mp hc
  obtain ⟨d, hd, rfl⟩ := Decimal.exists_digit_of_mem hb
  have hval := Decimal.digit_toNat hd
  constructor <;> bv_omega

theorem isAscii_numbered {p s : List WChar} (n : Nat)
    (hp : ∀ c ∈ p, isLetter c ∨ isDigit c) (hs : ∀ c ∈ s, isLetter c ∨ isDigit c) :
    IsAscii (p ++ decimal n ++ s) := by
  intro c hc
  rw [List.mem_append, List.mem_append] at hc
  rcases hc with (hc | hc) | hc
  · exact isAscii_of_alnum (hp c hc)
  · exact isAscii_decimal n c hc
  · exact isAscii_of_alnum (hs c hc)

theorem Numbered.isAscii_lower (r : Numbered) : IsAscii r.lower :=
  isAscii_numbered r.m (fun c hc => r.alnum c (by simp [hc])) fun c hc => r.alnum c (by simp [hc])

theorem Numbered.isAscii_higher (r : Numbered) : IsAscii r.higher :=
  isAscii_numbered r.n (fun c hc => r.alnum c (by simp [hc])) fun c hc => r.alnum c (by simp [hc])

/-- The lower number stands first if and only if its text does. -/
theorem compare_numbers {δ : Type} [LinearOrder δ] (tcstod : List WChar → δ)
    (acp oem : TextPage) (r : Numbered) :
    (compareTexts tcstod r.lower r.higher acp oem = some (-1) ∧
        compareTexts tcstod r.higher r.lower acp oem = some 1) ↔
      r.lower.length ≤ 258 ∧ r.higher.length ≤ 258 ∧ Precedes r.lower r.higher := by
  have hlow := r.isAscii_lower
  have hhigh := r.isAscii_higher
  have hverdict : verdict r.lower r.higher = -1 ↔ verdict r.higher r.lower = 1 := by
    rw [verdict_swap r.lower r.higher]
    omega
  rw [compareTexts_eq tcstod acp oem hlow hhigh r.m_length r.n_length,
    compareTexts_eq tcstod acp oem hhigh hlow r.n_length r.m_length, ← verdict_eq_neg_one_iff]
  by_cases hfit : r.lower.length ≤ 258 ∧ r.higher.length ≤ 258
  · rw [if_pos hfit, if_pos hfit.symm, Option.some_inj, Option.some_inj, ← hverdict, and_self]
    exact ⟨fun h => ⟨hfit.1, hfit.2, h⟩, fun h => h.2.2⟩
  · rw [if_neg hfit]
    constructor
    · rintro ⟨h, -⟩
      cases h
    · rintro ⟨hm, hn, -⟩
      exact absurd ⟨hm, hn⟩ hfit

theorem narrow_nil : narrow [] = [] := rfl

theorem narrow_cons (c : WChar) (_ : c < 128) (s : List WChar) :
    narrow (c :: s) = c.setWidth 8 :: narrow s := rfl

def asciiPage : TextPage := ⟨⟨narrow, narrow_cons⟩, narrow_nil⟩

theorem decimal_ninety_nine : decimal 99 = wide "99" := by
  simp [decimal, Decimal.natText]
  decide

theorem decimal_hundred : decimal 100 = wide "100" := by
  simp [decimal, Decimal.natText]
  decide

def ninetyNine : Numbered where
  p := []
  m := 99
  n := 100
  s := []
  t := []
  p_last := by simp
  p_digits := by simp
  lt := by decide
  bound := by decide
  s_head := by simp
  t_head := by simp
  alnum := by simp
  m_length := by rw [decimal_ninety_nine]; decide
  n_length := by rw [decimal_hundred]; decide

theorem compare_ninety_nine :
    ninetyNine.lower = wide "99" ∧ ninetyNine.higher = wide "100" ∧
      compareTexts ttoi64 ninetyNine.lower ninetyNine.higher asciiPage asciiPage = some 1 ∧
      ¬ ∀ r : Numbered, compareTexts ttoi64 r.lower r.higher asciiPage asciiPage = some (-1) ∧
        compareTexts ttoi64 r.higher r.lower asciiPage asciiPage = some 1 := by
  have hlower : ninetyNine.lower = wide "99" := decimal_ninety_nine ▸ rfl
  have hhigher : ninetyNine.higher = wide "100" := decimal_hundred ▸ rfl
  have hcompare : compareTexts ttoi64 ninetyNine.lower ninetyNine.higher asciiPage asciiPage =
      some 1 := by
    rw [compareTexts_eq ttoi64 _ _ ninetyNine.isAscii_lower ninetyNine.isAscii_higher
      ninetyNine.m_length ninetyNine.n_length, hlower, hhigher]
    decide
  refine ⟨hlower, hhigher, hcompare, fun hall => ?_⟩
  have hclaim := (hall ninetyNine).1
  rw [hcompare] at hclaim
  cases hclaim

end SecProGIS
