import Mathlib

/-! Lists cut into blocks of a fixed size: the whole blocks at the front, the
rest behind them, block-by-block maps that leave the rest alone, and streams
that fold a function over the whole blocks and carry the rest. -/

namespace Blocks

variable {α σ : Type*}

def whole (b : Nat) (xs : List α) : List (List α) :=
  (List.range (xs.length / b)).map fun i => (xs.drop (i * b)).take b

def rest (b : Nat) (xs : List α) : List α := xs.drop (xs.length / b * b)

theorem induction {P : List α → Prop} {b : Nat} (hb : 0 < b)
    (short : ∀ xs, xs.length < b → P xs)
    (long : ∀ xs, b ≤ xs.length → P (xs.drop b) → P xs) (xs : List α) : P xs := by
  induction hn : xs.length using Nat.strong_induction_on generalizing xs with
  | _ n ih =>
    by_cases h : xs.length < b
    · exact short xs h
    · exact long xs (by omega) (ih _ (by simp only [List.length_drop]; omega) _ rfl)

theorem whole_of_lt {b : Nat} {xs : List α} (h : xs.length < b) : whole b xs = [] := by
  simp [whole, Nat.div_eq_of_lt h]

theorem rest_of_lt {b : Nat} {xs : List α} (h : xs.length < b) : rest b xs = xs := by
  simp [rest, Nat.div_eq_of_lt h]

theorem length_drop_div {b : Nat} {xs : List α} (hb : 0 < b) (h : b ≤ xs.length) :
    xs.length / b = (xs.drop b).length / b + 1 := by
  rw [List.length_drop, Nat.div_eq_sub_div hb h]

theorem whole_step {b : Nat} {xs : List α} (hb : 0 < b) (h : b ≤ xs.length) :
    whole b xs = xs.take b :: whole b (xs.drop b) := by
  rw [whole, length_drop_div hb h, List.range_succ_eq_map]
  simp [whole, List.drop_drop, Nat.succ_mul, Nat.add_comm]

theorem rest_step {b : Nat} {xs : List α} (hb : 0 < b) (h : b ≤ xs.length) :
    rest b xs = rest b (xs.drop b) := by
  rw [rest, length_drop_div hb h]
  simp [rest, List.drop_drop, Nat.succ_mul, Nat.add_comm]

@[simp] theorem whole_nil (b : Nat) : whole b ([] : List α) = [] := by simp [whole]

@[simp] theorem rest_nil (b : Nat) : rest b ([] : List α) = [] := by simp [rest]

theorem rest_length (b : Nat) (xs : List α) : (rest b xs).length = xs.length % b := by
  rw [rest, List.length_drop]
  have h := Nat.div_add_mod' xs.length b
  omega

theorem rest_eq_nil {b : Nat} {xs : List α} (h : b ∣ xs.length) : rest b xs = [] :=
  List.eq_nil_of_length_eq_zero (by rw [rest_length, Nat.mod_eq_zero_of_dvd h])

theorem whole_append {b : Nat} (hb : 0 < b) (xs ys : List α) :
    whole b (xs ++ ys) = whole b xs ++ whole b (rest b xs ++ ys) := by
  induction xs using induction hb with
  | short xs h => simp [whole_of_lt h, rest_of_lt h]
  | long xs h ih =>
    have hxy : b ≤ (xs ++ ys).length := by simp only [List.length_append]; omega
    rw [whole_step hb hxy, List.take_append_of_le_length h, List.drop_append_of_le_length h, ih,
      whole_step hb h, rest_step hb h, List.cons_append]

theorem rest_append {b : Nat} (hb : 0 < b) (xs ys : List α) :
    rest b (xs ++ ys) = rest b (rest b xs ++ ys) := by
  induction xs using induction hb with
  | short xs h => simp [rest_of_lt h]
  | long xs h ih =>
    have hxy : b ≤ (xs ++ ys).length := by simp only [List.length_append]; omega
    rw [rest_step hb hxy, List.drop_append_of_le_length h, ih, rest_step hb h]

theorem length_of_mem_whole {b : Nat} (hb : 0 < b) {xs x : List α} (hx : x ∈ whole b xs) :
    x.length = b := by
  induction xs using induction hb with
  | short xs h =>
    rw [whole_of_lt h] at hx
    cases hx
  | long xs h ih =>
    rw [whole_step hb h, List.mem_cons] at hx
    rcases hx with rfl | hx
    · rw [List.length_take, Nat.min_eq_left h]
    · exact ih hx

theorem flatten_whole {b : Nat} (hb : 0 < b) (xs : List α) :
    (whole b xs).flatten ++ rest b xs = xs := by
  induction xs using induction hb with
  | short xs h => rw [whole_of_lt h, rest_of_lt h, List.flatten_nil, List.nil_append]
  | long xs h ih =>
    rw [whole_step hb h, rest_step hb h, List.flatten_cons, List.append_assoc, ih,
      List.take_append_drop]

theorem whole_flatten {b : Nat} (hb : 0 < b) {bs : List (List α)} (h : ∀ x ∈ bs, x.length = b) :
    whole b bs.flatten = bs := by
  induction bs with
  | nil => exact whole_nil b
  | cons x bs ih =>
    rw [List.forall_mem_cons] at h
    rw [List.flatten_cons, whole_step hb (by rw [List.length_append]; omega),
      List.take_left' h.1, List.drop_left' h.1, ih h.2]

theorem flatten_length {b : Nat} {bs : List (List α)} (h : ∀ x ∈ bs, x.length = b) :
    bs.flatten.length = b * bs.length := by
  induction bs with
  | nil => rfl
  | cons x bs ih =>
    rw [List.forall_mem_cons] at h
    rw [List.flatten_cons, List.length_append, h.1, ih h.2, List.length_cons, Nat.mul_succ,
      Nat.add_comm]

def mapWhole (b : Nat) (f : List α → List α) (xs : List α) : List α :=
  ((whole b xs).map f).flatten ++ rest b xs

theorem mapWhole_of_lt {b : Nat} {f : List α → List α} {xs : List α} (h : xs.length < b) :
    mapWhole b f xs = xs := by
  simp [mapWhole, whole_of_lt h, rest_of_lt h]

theorem mapWhole_step {b : Nat} {f : List α → List α} {xs : List α} (hb : 0 < b)
    (h : b ≤ xs.length) : mapWhole b f xs = f (xs.take b) ++ mapWhole b f (xs.drop b) := by
  simp only [mapWhole, whole_step hb h, rest_step hb h, List.map_cons, List.flatten_cons,
    List.append_assoc]

theorem mapWhole_append {b : Nat} {f : List α → List α} {xs : List α} (hb : 0 < b)
    (h : b ∣ xs.length) (ys : List α) :
    mapWhole b f (xs ++ ys) = mapWhole b f xs ++ mapWhole b f ys := by
  simp only [mapWhole, whole_append hb, rest_append hb xs, rest_eq_nil h, List.nil_append,
    List.map_append, List.flatten_append, List.append_nil, List.append_assoc]

theorem mapWhole_length {b : Nat} {f : List α → List α} (hb : 0 < b)
    (hf : ∀ x, x.length = b → (f x).length = b) (xs : List α) :
    (mapWhole b f xs).length = xs.length := by
  induction xs using induction hb with
  | short xs h => rw [mapWhole_of_lt h]
  | long xs h ih =>
    have ht : (f (xs.take b)).length = b := hf _ (by simp [h])
    rw [mapWhole_step hb h, List.length_append, ht, ih, List.length_drop]
    omega

theorem mapWhole_inverse {b : Nat} {f g : List α → List α} (hb : 0 < b)
    (hf : ∀ x, x.length = b → (f x).length = b) (hg : ∀ x, x.length = b → g (f x) = x)
    (xs : List α) : mapWhole b g (mapWhole b f xs) = xs := by
  induction xs using induction hb with
  | short xs h => rw [mapWhole_of_lt h, mapWhole_of_lt h]
  | long xs h ih =>
    have hx : (xs.take b).length = b := by simp [h]
    have ht := hf _ hx
    have hm : mapWhole b g (f (xs.take b)) = xs.take b := by
      rw [mapWhole_step hb ht.ge, List.take_of_length_le ht.le, List.drop_of_length_le ht.le,
        hg _ hx, mapWhole_of_lt (by simpa using hb), List.append_nil]
    rw [mapWhole_step hb h, mapWhole_append hb (dvd_of_eq ht.symm), hm, ih, List.take_append_drop]

theorem mapWhole_drop {b : Nat} {f : List α → List α} (hb : 0 < b)
    (hf : ∀ x, x.length = b → (f x).length = b) {xs : List α} {k : Nat} (h : b * k ≤ xs.length) :
    (mapWhole b f xs).drop (b * k) = mapWhole b f (xs.drop (b * k)) := by
  have hlen : (xs.take (b * k)).length = b * k := by rw [List.length_take, Nat.min_eq_left h]
  have happ := mapWhole_append (f := f) hb (hlen ▸ Nat.dvd_mul_right b k) (xs.drop (b * k))
  rw [List.take_append_drop] at happ
  rw [happ, List.drop_left' (by rw [mapWhole_length hb hf, hlen])]

theorem mapWhole_block {b : Nat} {f : List α → List α} (hb : 0 < b)
    (hf : ∀ x, x.length = b → (f x).length = b) {xs : List α} {k : Nat} (h : k < xs.length / b) :
    ((mapWhole b f xs).drop (b * k)).take b = f ((xs.drop (b * k)).take b) := by
  have hk : b * k + b ≤ xs.length := by
    have hle := Nat.mul_le_of_le_div b (k + 1) xs.length h
    rw [Nat.succ_mul, Nat.mul_comm k b] at hle
    exact hle
  have hlen : b ≤ (xs.drop (b * k)).length := by
    rw [List.length_drop]
    omega
  have hone : (f ((xs.drop (b * k)).take b)).length = b := hf _ (by rw [List.length_take]; omega)
  rw [mapWhole_drop hb hf (by omega), mapWhole_step hb hlen, List.take_left' hone]

theorem mapWhole_rest {b : Nat} {f : List α → List α} (hb : 0 < b)
    (hf : ∀ x, x.length = b → (f x).length = b) (xs : List α) :
    (mapWhole b f xs).drop (b * (xs.length / b)) = xs.drop (b * (xs.length / b)) := by
  have hshort : (xs.drop (b * (xs.length / b))).length < b := by
    have hdiv := Nat.div_add_mod xs.length b
    have hmod := Nat.mod_lt xs.length hb
    rw [List.length_drop]
    omega
  rw [mapWhole_drop hb hf (Nat.mul_div_le _ _), mapWhole_of_lt hshort]

/-- Take in `xs` behind the rest already held. -/
def absorb (b : Nat) (f : σ → List α → σ) (s : σ × List α) (xs : List α) : σ × List α :=
  ((whole b (s.2 ++ xs)).foldl f s.1, rest b (s.2 ++ xs))

theorem absorb_absorb {b : Nat} {f : σ → List α → σ} (hb : 0 < b) (s : σ × List α)
    (xs ys : List α) : absorb b f (absorb b f s xs) ys = absorb b f s (xs ++ ys) := by
  simp only [absorb]
  rw [← List.append_assoc, whole_append hb (s.2 ++ xs), rest_append hb (s.2 ++ xs),
    List.foldl_append]

theorem absorb_short {b : Nat} {f : σ → List α → σ} {s : σ × List α} {xs : List α}
    (h : s.2.length + xs.length < b) : absorb b f s xs = (s.1, s.2 ++ xs) := by
  have h' : (s.2 ++ xs).length < b := by simpa using h
  simp [absorb, whole_of_lt h', rest_of_lt h']

theorem absorb_fill {b : Nat} {f : σ → List α → σ} {s : σ × List α} {xs : List α} (hb : 0 < b)
    (hs : s.2.length ≤ b) (h : b ≤ s.2.length + xs.length) :
    absorb b f s xs =
      absorb b f (f s.1 (s.2 ++ xs.take (b - s.2.length)), []) (xs.drop (b - s.2.length)) := by
  have h' : b ≤ (s.2 ++ xs).length := by simpa using h
  simp only [absorb, whole_step hb h', rest_step hb h', List.foldl_cons, List.nil_append,
    List.take_append, List.drop_append, List.take_of_length_le hs, List.drop_of_length_le hs]

end Blocks
