import Mathlib

/-! The text of a statement as the server of a MySQL database reads it: words,
symbols and string literals. A literal ends at the first quote that is neither
doubled nor escaped, so a statement that a program fills with strings keeps its
tokens only when no string has anything in it that this reading would change. -/

namespace SqlText

abbrev Byte := BitVec 8

def quote : Byte := 0x27

def backslash : Byte := 0x5C

/-- Which bytes begin and end a character of two bytes. -/
structure Charset where
  lead : Byte → Bool
  trail : Byte → Bool
  le_lead : ∀ b, lead b → 0x80 ≤ b
  quote_trail : trail quote = false

namespace Charset

def gbk : Charset where
  lead b := 0x81 ≤ b ∧ b ≤ 0xFE
  trail b := (0x40 ≤ b ∧ b ≤ 0x7E) ∨ (0x80 ≤ b ∧ b ≤ 0xFE)
  le_lead b h := by
    rw [decide_eq_true_eq] at h
    exact BitVec.le_trans (by decide) h.1
  quote_trail := by decide

end Charset

inductive Token where
  | word (w : List Byte)
  | symbol (c : Byte)
  | literal (v : List Byte)
deriving DecidableEq

/-- The bytes an escaped byte stands for; the wildcards keep their backslash. -/
def unescape (c : Byte) : List Byte :=
  if c = 0x6E then [0x0A]
  else if c = 0x74 then [0x09]
  else if c = 0x72 then [0x0D]
  else if c = 0x62 then [0x08]
  else if c = 0x30 then [0x00]
  else if c = 0x5A then [0x1A]
  else if c = 0x25 ∨ c = 0x5F then [backslash, c]
  else [c]

section

variable (cs : Charset)

/-- The value of a literal behind its first quote, and what follows it. -/
def readLiteral : List Byte → Option (List Byte × List Byte)
  | [] => none
  | [c] => if c = quote then some ([], []) else none
  | c :: d :: s =>
    if cs.lead c && cs.trail d then
      (readLiteral s).map fun r => (c :: d :: r.1, r.2)
    else if c = backslash then
      (readLiteral s).map fun r => (unescape d ++ r.1, r.2)
    else if c = quote then
      if d = quote then (readLiteral s).map fun r => (quote :: r.1, r.2)
      else some ([], d :: s)
    else (readLiteral (d :: s)).map fun r => (c :: r.1, r.2)

/-- A string that a literal holds as it stands: no quote, and no backslash but
before a wildcard. -/
def plain : List Byte → Bool
  | [] => true
  | [c] => decide (c ≠ quote) && decide (c ≠ backslash)
  | c :: d :: s =>
    if cs.lead c && cs.trail d then plain s
    else if c = backslash then decide (d = 0x25 ∨ d = 0x5F) && plain s
    else decide (c ≠ quote) && plain (d :: s)

variable {cs}

theorem lead_ne {c : Byte} (h : ¬ 0x80 ≤ c) : cs.lead c = false :=
  Bool.eq_false_iff.mpr fun hl => h (cs.le_lead c hl)

/-- The text `u` between two quotes has the value `v`. -/
inductive Literal (cs : Charset) : List Byte → List Byte → Prop
  | nil : Literal cs [] []
  | pair {c d : Byte} {u v : List Byte} : cs.lead c = true → cs.trail d = true → Literal cs u v →
      Literal cs (c :: d :: u) (c :: d :: v)
  | escape {d : Byte} {u v : List Byte} : Literal cs u v →
      Literal cs (backslash :: d :: u) (unescape d ++ v)
  | doubled {u v : List Byte} : Literal cs u v → Literal cs (quote :: quote :: u) (quote :: v)
  | byte {c : Byte} {u v : List Byte} : c ≠ quote → c ≠ backslash →
      (∀ d ∈ u.head?, (cs.lead c && cs.trail d) = false) → Literal cs u v →
      Literal cs (c :: u) (c :: v)

theorem exists_of_map_value {o : Option (List Byte × List Byte)} {f : List Byte → List Byte}
    {v r : List Byte} (h : (o.map fun x => (f x.1, x.2)) = some (v, r)) :
    ∃ w, o = some (w, r) ∧ f w = v := by
  obtain ⟨⟨w, r'⟩, ho, he⟩ := Option.map_eq_some_iff.mp h
  obtain ⟨hv, rfl⟩ := Prod.mk.inj he
  exact ⟨w, ho, hv⟩

theorem literal_of_readLiteral {s v r : List Byte} (h : readLiteral cs s = some (v, r)) :
    ∃ u, s = u ++ quote :: r ∧ Literal cs u v := by
  induction s using readLiteral.induct cs generalizing v with
  | case1 => simp [readLiteral] at h
  | case2 =>
    simp only [readLiteral, if_true, Option.some.injEq, Prod.mk.injEq] at h
    obtain ⟨rfl, rfl⟩ := h
    exact ⟨[], rfl, .nil⟩
  | case3 c hc => simp [readLiteral, hc] at h
  | case4 c d s hpair ih =>
    rw [readLiteral, if_pos hpair] at h
    obtain ⟨w, hw, rfl⟩ := exists_of_map_value (f := fun w => c :: d :: w) h
    obtain ⟨u, rfl, hu⟩ := ih hw
    rw [Bool.and_eq_true] at hpair
    exact ⟨c :: d :: u, rfl, .pair hpair.1 hpair.2 hu⟩
  | case5 d s hpair ih =>
    rw [readLiteral, if_neg hpair, if_pos rfl] at h
    obtain ⟨w, hw, rfl⟩ := exists_of_map_value h
    obtain ⟨u, rfl, hu⟩ := ih hw
    exact ⟨backslash :: d :: u, rfl, .escape hu⟩
  | case6 s hpair hback ih =>
    rw [readLiteral, if_neg hpair, if_neg hback, if_pos rfl, if_pos rfl] at h
    obtain ⟨w, hw, rfl⟩ := exists_of_map_value h
    obtain ⟨u, rfl, hu⟩ := ih hw
    exact ⟨quote :: quote :: u, rfl, .doubled hu⟩
  | case7 d s hpair hback hd =>
    rw [readLiteral, if_neg hpair, if_neg hback, if_pos rfl, if_neg hd] at h
    obtain ⟨rfl, rfl⟩ := Prod.mk.inj (Option.some.inj h)
    exact ⟨[], rfl, .nil⟩
  | case8 c d s hpair hback hquote ih =>
    rw [readLiteral, if_neg hpair, if_neg hback, if_neg hquote] at h
    obtain ⟨w, hw, rfl⟩ := exists_of_map_value h
    obtain ⟨u, hu, hlit⟩ := ih hw
    refine ⟨c :: u, by rw [hu]; rfl, .byte hquote hback (fun e he => ?_) hlit⟩
    cases u with
    | nil => simp at he
    | cons e' u =>
      obtain rfl : e' = e := by simpa using he
      obtain rfl : d = e' := (List.cons.inj hu).1
      exact Bool.eq_false_iff.mpr hpair

theorem unescape_length (d : Byte) : (unescape d).length = if d = 0x25 ∨ d = 0x5F then 2 else 1 := by
  unfold unescape
  split_ifs <;> simp_all

theorem Literal.length_le {u v : List Byte} (h : Literal cs u v) : v.length ≤ u.length := by
  induction h with
  | nil => exact le_rfl
  | pair _ _ _ ih => exact Nat.succ_le_succ (Nat.succ_le_succ ih)
  | @escape d u v _ ih =>
    have hlen : (unescape d).length ≤ 2 := by
      rw [unescape_length]
      split <;> decide
    rw [List.length_append, List.length_cons, List.length_cons]
    omega
  | doubled _ ih => exact Nat.succ_le_succ (Nat.le_succ_of_le ih)
  | byte _ _ _ _ ih => exact Nat.succ_le_succ ih

/-- Only a plain value is as long as its text. -/
theorem Literal.eq_of_length {u v : List Byte} (h : Literal cs u v) (hlen : u.length ≤ v.length) :
    u = v ∧ plain cs v = true := by
  induction h with
  | nil => exact ⟨rfl, rfl⟩
  | pair hc hd _ ih =>
    obtain ⟨rfl, hv⟩ := ih (Nat.le_of_succ_le_succ (Nat.le_of_succ_le_succ hlen))
    exact ⟨rfl, by rwa [plain, if_pos (by rw [hc, hd]; rfl)]⟩
  | @escape d u v hlit ih =>
    have hle := hlit.length_le
    rw [List.length_append, List.length_cons, List.length_cons, unescape_length] at hlen
    by_cases hd : d = 0x25 ∨ d = 0x5F
    · rw [if_pos hd] at hlen
      obtain ⟨rfl, hv⟩ := ih (by omega)
      have hun : unescape d = [backslash, d] := by
        rcases hd with rfl | rfl <;> rfl
      rw [hun, List.cons_append, List.cons_append, List.nil_append, plain,
        if_neg (by rw [lead_ne (by decide)]; simp), if_pos rfl, decide_eq_true hd, hv]
      exact ⟨rfl, rfl⟩
    · rw [if_neg hd] at hlen
      omega
  | doubled hlit _ =>
    have hle := hlit.length_le
    rw [List.length_cons, List.length_cons, List.length_cons] at hlen
    omega
  | @byte c u v hquote hback hpair _ ih =>
    obtain ⟨rfl, hv⟩ := ih (Nat.le_of_succ_le_succ hlen)
    refine ⟨rfl, ?_⟩
    cases u with
    | nil => simp [plain, hquote, hback]
    | cons d u =>
      have hno := hpair d rfl
      rw [plain, if_neg (by simp [hno]), if_neg hback, decide_eq_true hquote, hv]
      rfl

theorem readLiteral_plain {v r : List Byte} (hv : plain cs v = true)
    (hr : r.head? ≠ some quote) : readLiteral cs (v ++ quote :: r) = some (v, r) := by
  have hend : readLiteral cs (quote :: r) = some ([], r) := by
    cases r with
    | nil => rfl
    | cons d r =>
      have hd : ¬ d = quote := fun he => hr (by rw [he]; rfl)
      rw [readLiteral, if_neg (by rw [lead_ne (by decide)]; simp), if_neg (by decide), if_pos rfl,
        if_neg hd]
  induction v using plain.induct cs with
  | case1 => exact hend
  | case2 c =>
    have hc : c ≠ quote ∧ c ≠ backslash := by simpa [plain] using hv
    rw [List.singleton_append, readLiteral, if_neg (by rw [cs.quote_trail]; simp), if_neg hc.2,
      if_neg hc.1, hend]
    rfl
  | case3 c d v hpair ih =>
    rw [plain, if_pos hpair] at hv
    rw [List.cons_append, List.cons_append, readLiteral, if_pos hpair, ih hv]
    rfl
  | case4 d v hpair ih =>
    rw [plain, if_neg hpair, if_pos rfl, Bool.and_eq_true, decide_eq_true_eq] at hv
    have hun : unescape d = [backslash, d] := by
      rcases hv.1 with rfl | rfl <;> rfl
    rw [List.cons_append, List.cons_append, readLiteral, if_neg hpair, if_pos rfl, ih hv.2,
      Option.map_some, hun]
    rfl
  | case5 c d v hpair hback ih =>
    rw [plain, if_neg hpair, if_neg hback, Bool.and_eq_true, decide_eq_true_eq] at hv
    have hrest := ih hv.2
    rw [List.cons_append] at hrest
    rw [List.cons_append, List.cons_append, readLiteral, if_neg hpair, if_neg hback, if_neg hv.1,
      hrest]
    rfl

theorem plain_of_forall {v : List Byte} (h : ∀ c ∈ v, c ≠ quote ∧ c ≠ backslash) :
    plain cs v = true := by
  induction v using plain.induct cs with
  | case1 => rfl
  | case2 c => simpa [plain] using h c List.mem_cons_self
  | case3 c d v hpair ih =>
    rw [plain, if_pos hpair]
    exact ih fun e he => h e (List.mem_cons_of_mem c (List.mem_cons_of_mem d he))
  | case4 d v hpair => exact absurd rfl (h backslash List.mem_cons_self).2
  | case5 c d v hpair hback ih =>
    rw [plain, if_neg hpair, if_neg hback, ih fun e he => h e (List.mem_cons_of_mem c he),
      decide_eq_true (h c List.mem_cons_self).1]
    rfl

end

def isSpace (c : Byte) : Bool := c = 0x20 ∨ (0x09 ≤ c ∧ c ≤ 0x0D)

def isWord (c : Byte) : Bool :=
  (0x30 ≤ c ∧ c ≤ 0x39) ∨ (0x41 ≤ c ∧ c ≤ 0x5A) ∨ (0x61 ≤ c ∧ c ≤ 0x7A) ∨ c = 0x5F ∨ c = 0x24 ∨
    0x80 ≤ c

def outside : List Byte → List Token
  | [] => []
  | c :: s =>
    if isSpace c then outside s
    else if isWord c then
      if s.head?.any isWord then
        match outside s with
        | .word w :: ts => .word (c :: w) :: ts
        | ts => .word [c] :: ts
      else .word [c] :: outside s
    else .symbol c :: outside s

def Token.size : Token → Nat
  | .word w => w.length
  | .symbol _ => 1
  | .literal v => v.length + 2

def size (ts : List Token) : Nat := (ts.map Token.size).sum

theorem size_append (ts us : List Token) : size (ts ++ us) = size ts + size us := by
  simp [size]

theorem size_cons (t : Token) (ts : List Token) : size (t :: ts) = t.size + size ts := rfl

theorem size_outside_le (s : List Byte) : size (outside s) ≤ s.length := by
  induction s with
  | nil => exact le_rfl
  | cons c s ih =>
    rw [outside, List.length_cons]
    split
    · exact Nat.le_succ_of_le ih
    · split
      · split
        · split
          · rename_i w ts hout
            rw [hout, size_cons, Token.size] at ih
            rw [size_cons, Token.size, List.length_cons]
            omega
          · rw [size_cons, Token.size, List.length_singleton]
            omega
        · rw [size_cons, Token.size, List.length_singleton]
          omega
      · rw [size_cons, Token.size]
        omega

section

variable (cs : Charset)

/-- The tokens of a text, unless it ends within a literal. Comments are not
read: they take bytes and give no token. -/
def lex (s : List Byte) : Option (List Token) :=
  match _hs : s.dropWhile (· ≠ quote) with
  | [] => some (outside s)
  | _ :: t =>
    match _ht : readLiteral cs t with
    | none => none
    | some (v, r) => (lex r).map fun ts => outside (s.takeWhile (· ≠ quote)) ++ .literal v :: ts
termination_by s.length
decreasing_by
  have hdrop := List.length_dropWhile_le (· ≠ quote) s
  obtain ⟨u, hu, -⟩ := literal_of_readLiteral _ht
  have ht := congrArg List.length hu
  simp only [_hs, List.length_append, List.length_cons] at hdrop ht
  omega

variable {cs}

theorem lex_of_dropWhile_nil {s : List Byte} (h : s.dropWhile (· ≠ quote) = []) :
    lex cs s = some (outside s) := by
  rw [lex]
  split
  · rfl
  · rename_i hs
    rw [h] at hs
    exact absurd hs (by simp)

theorem lex_of_dropWhile_cons {s t : List Byte} {q : Byte}
    (h : s.dropWhile (· ≠ quote) = q :: t) : lex cs s = (readLiteral cs t).bind fun x =>
      (lex cs x.2).map fun ts => outside (s.takeWhile (· ≠ quote)) ++ .literal x.1 :: ts := by
  rw [lex]
  split
  · rename_i hs
    rw [h] at hs
    exact absurd hs (by simp)
  · rename_i t' hs
    rw [h] at hs
    obtain ⟨-, rfl⟩ := List.cons.inj hs
    split
    · rename_i hnone
      rw [hnone]
      rfl
    · rename_i v r hsome
      rw [hsome]
      rfl

theorem all_ne_quote {p : List Byte} (hp : quote ∉ p) : ∀ c ∈ p, decide (c ≠ quote) = true :=
  fun _ hc => decide_eq_true fun he => hp (he ▸ hc)

theorem lex_of_not_mem {p : List Byte} (hp : quote ∉ p) : lex cs p = some (outside p) :=
  lex_of_dropWhile_nil (List.dropWhile_eq_nil_iff.mpr (all_ne_quote hp))

theorem lex_append_quote {p t : List Byte} (hp : quote ∉ p) : lex cs (p ++ quote :: t) =
    (readLiteral cs t).bind fun x => (lex cs x.2).map fun ts => outside p ++ .literal x.1 :: ts := by
  have hdrop : (p ++ quote :: t).dropWhile (· ≠ quote) = quote :: t := by
    rw [List.dropWhile_append_of_pos (all_ne_quote hp), List.dropWhile_cons_of_neg (by simp)]
  have htake : (p ++ quote :: t).takeWhile (· ≠ quote) = p := by
    rw [List.takeWhile_append_of_pos (all_ne_quote hp), List.takeWhile_cons_of_neg (by simp),
      List.append_nil]
  rw [lex_of_dropWhile_cons hdrop, htake]

theorem size_le_of_lex {s : List Byte} {ts : List Token} (h : lex cs s = some ts) :
    size ts ≤ s.length := by
  induction hn : s.length using Nat.strong_induction_on generalizing s ts with
  | _ n ih =>
    by_cases hq : quote ∈ s
    · obtain ⟨p, t, rfl, hp⟩ := List.eq_append_cons_of_mem hq
      rw [lex_append_quote hp] at h
      obtain ⟨⟨v, r⟩, hread, hmap⟩ := Option.bind_eq_some_iff.mp h
      obtain ⟨us, hlex, rfl⟩ := Option.map_eq_some_iff.mp hmap
      obtain ⟨u, rfl, hlit⟩ := literal_of_readLiteral hread
      have hle := hlit.length_le
      have hout := size_outside_le p
      simp only [List.length_append, List.length_cons] at hn
      have hrest := ih r.length (by omega) hlex rfl
      rw [size_append, size_cons, Token.size]
      dsimp only
      omega
    · rw [lex_of_not_mem hq] at h
      obtain rfl := Option.some.inj h
      exact hn ▸ size_outside_le s

end

def fill : List (List Byte × List Byte) → List Byte
  | [] => []
  | (v, p) :: parts => quote :: (v ++ quote :: (p ++ fill parts))

def fillTokens : List (List Byte × List Byte) → List Token
  | [] => []
  | (v, p) :: parts => .literal v :: (outside p ++ fillTokens parts)

def slack (pieces : List (List Byte)) : Nat :=
  (pieces.map fun p => p.length - size (outside p)).sum

/-- Pieces between literals, none of which could be lost in a literal and made
up for by what the later ones can do without. -/
def Tight : List (List Byte) → Prop
  | [] => True
  | p :: pieces => quote ∉ p ∧ p ≠ [] ∧ slack pieces ≤ size (outside p) ∧ Tight pieces

instance decidableTight : (pieces : List (List Byte)) → Decidable (Tight pieces)
  | [] => .isTrue trivial
  | p :: pieces =>
    have := decidableTight pieces
    inferInstanceAs (Decidable (quote ∉ p ∧ p ≠ [] ∧ slack pieces ≤ size (outside p) ∧ Tight pieces))

theorem fill_length (parts : List (List Byte × List Byte)) :
    (fill parts).length = size (fillTokens parts) + slack (parts.map Prod.snd) := by
  induction parts with
  | nil => rfl
  | cons x parts ih =>
    obtain ⟨v, p⟩ := x
    have hout := size_outside_le p
    have hslack : slack (((v, p) :: parts).map Prod.snd) =
        p.length - size (outside p) + slack (parts.map Prod.snd) := rfl
    rw [hslack, fillTokens, size_cons, size_append, Token.size, fill]
    simp only [List.length_cons, List.length_append, ih]
    omega

section

variable {cs : Charset}

theorem literal_exact {v p r : List Byte} {parts : List (List Byte × List Byte)}
    (hread : readLiteral cs (v ++ quote :: (p ++ fill parts)) = some (v, r))
    (hlex : lex cs r = some (outside p ++ fillTokens parts)) (hp : quote ∉ p)
    (hslack : slack (parts.map Prod.snd) ≤ size (outside p)) :
    r = p ++ fill parts ∧ plain cs v = true := by
  obtain ⟨u, hu, hlit⟩ := literal_of_readLiteral hread
  by_cases hlen : u.length ≤ v.length
  · obtain ⟨rfl, hv⟩ := hlit.eq_of_length hlen
    exact ⟨(List.cons.inj (List.append_cancel_left hu)).2.symm, hv⟩
  · exfalso
    -- the literal ends at a later quote, which stands behind the piece `p`
    have hlong : r.length + 1 ≤ (fill parts).length := by
      have htail : (p ++ fill parts).drop (u.length - v.length - 1) = quote :: r := by
        have hdrop := congrArg (List.drop u.length) hu
        rw [List.drop_left, List.drop_append, List.drop_of_length_le (by omega), List.nil_append,
          List.drop_cons (by omega)] at hdrop
        exact hdrop
      by_cases hin : u.length - v.length - 1 < p.length
      · rw [List.drop_append_of_le_length hin.le, List.drop_eq_getElem_cons hin] at htail
        exact absurd (List.getElem_mem hin) ((List.cons.inj htail).1 ▸ hp)
      · rw [List.drop_append, List.drop_of_length_le (by omega), List.nil_append] at htail
        have hlen := congrArg List.length htail
        rw [List.length_drop, List.length_cons] at hlen
        omega
    have hsize := size_le_of_lex hlex
    rw [size_append] at hsize
    rw [fill_length] at hlong
    omega

theorem lex_fill_plain {p : List Byte} (hp : quote ∉ p) {parts : List (List Byte × List Byte)}
    (h : ∀ x ∈ parts, plain cs x.1 = true) (hpieces : ∀ q ∈ parts.map Prod.snd, quote ∉ q ∧ q ≠ []) :
    lex cs (p ++ fill parts) = some (outside p ++ fillTokens parts) := by
  induction parts generalizing p with
  | nil => rw [fill, fillTokens, List.append_nil, List.append_nil, lex_of_not_mem hp]
  | cons x parts ih =>
    obtain ⟨v, q⟩ := x
    rw [List.forall_mem_cons] at h
    rw [List.map_cons, List.forall_mem_cons] at hpieces
    obtain ⟨⟨hq, hne⟩, hpieces⟩ := hpieces
    have hhead : (q ++ fill parts).head? ≠ some quote := by
      obtain ⟨c, q, rfl⟩ := List.exists_cons_of_ne_nil hne
      intro he
      exact hq (Option.some.inj he ▸ List.mem_cons_self)
    rw [fill, fillTokens, lex_append_quote hp, readLiteral_plain h.1 hhead, Option.bind_some,
      ih hq h.2 hpieces]
    rfl

theorem Tight.forall {pieces : List (List Byte)} (h : Tight pieces) :
    ∀ q ∈ pieces, quote ∉ q ∧ q ≠ [] := by
  induction pieces with
  | nil => simp
  | cons p pieces ih => exact List.forall_mem_cons.mpr ⟨⟨h.1, h.2.1⟩, ih h.2.2.2⟩

theorem lex_fill_iff {p : List Byte} (hp : quote ∉ p) {parts : List (List Byte × List Byte)}
    (h : Tight (parts.map Prod.snd)) :
    lex cs (p ++ fill parts) = some (outside p ++ fillTokens parts) ↔
      ∀ x ∈ parts, plain cs x.1 = true := by
  refine ⟨fun hlex => ?_, fun hplain => lex_fill_plain hp hplain h.forall⟩
  induction parts generalizing p with
  | nil => simp
  | cons x parts ih =>
    obtain ⟨v, q⟩ := x
    obtain ⟨hq, -, hslack, htight⟩ := h
    rw [fill, fillTokens, lex_append_quote hp] at hlex
    obtain ⟨⟨w, r⟩, hread, hmap⟩ := Option.bind_eq_some_iff.mp hlex
    obtain ⟨ts, hts, he⟩ := Option.map_eq_some_iff.mp hmap
    obtain ⟨hw, rfl⟩ := List.cons.inj (List.append_cancel_left he)
    obtain rfl : w = v := Token.literal.inj hw
    obtain ⟨rfl, hv⟩ := literal_exact hread hts hq hslack
    exact List.forall_mem_cons.mpr ⟨hv, ih hq htight hts⟩

end

end SqlText
