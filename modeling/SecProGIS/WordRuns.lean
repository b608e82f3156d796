import SecProGIS.WordHeap
import SecProGIS.KM
import SecProGIS.TableRuns

/-! The other operations of `BASE_WORD` and `KM_SK::generate` on the heap, and
what every sequence of them makes of an object. -/

namespace SecProGIS

open OwnedHeap (Heap Allocator SameBut Own)

/-- The loop of `KM_SK::generate`; each turn draws twice. -/
def fillKey (rand : Nat → Int) : Nat → Bytes → Option Bytes
  | 0, content => some content
  | i + 1, content => do
    let content ← fillKey rand i content
    Checked.write content i (keyChar (rand (2 * i)) (rand (2 * i + 1)))

namespace WordStore

variable {ι : Type} [DecidableEq ι] (s : WordStore ι)

/-- `src` is the memory behind the pointer, or NULL. The pointer of the object is
overwritten without a delete where nothing is read. -/
def readIn (new : Allocator u8) (i : ι) (src : Option (Nat → u8)) (l : Int) :
    Option (WordStore ι) := do
  let _ ← s.obj i
  if l ≤ 0 then return s.put i .empty s.heap
  match src with
  | none => return s.put i .empty s.heap
  | some mem =>
    let s := s.clear i
    let p := new.pick s.heap
    let content ← Checked.writeN (List.replicate (l.toNat + 3) 0) 0 ((List.range l.toNat).map mem)
    return s.put i ⟨some p, l⟩ (s.heap.set p content)

/-- `rand` is what `rand()` returns after the `srand`. -/
def generate (new : Allocator u8) (i : ι) (rand : Nat → Int) (len : Int) :
    Option (WordStore ι) := do
  let w ← s.obj i
  let s := if w.len ≠ 0 ∨ w.content ≠ none then s.clear i else s
  let p := new.pick s.heap
  let content ← fillKey rand len.toNat (List.replicate (len + 3).toNat 0)
  return s.put i ⟨some p, len⟩ (s.heap.set p content)

def destroy (i : ι) : WordStore ι :=
  match s.obj i with
  | none => s
  | some w => ⟨Function.update s.obj i none, w.content.elim s.heap s.heap.delete⟩

/-- The index of `operator[]` in the arithmetic of `int`; an overflow has no result. -/
def charIndex (i len : Int) : Option Int :=
  let sum := i.tmod len + len
  if -2 ^ 31 ≤ sum ∧ sum < 2 ^ 31 then some (sum.tmod len) else none

/-- `operator[]`. -/
def charAt (a : ι) (i : Int) : Option u8 := do
  let w ← s.obj a
  if w.isempty ≠ 1 then return 0
  let j ← charIndex i w.len
  let content ← s.block WordObj.content w
  if 0 ≤ j then Checked.read content j.toNat else none

end WordStore

/-- The constructors, the destructor and the operations that change an object. -/
inductive WordOp (ι : Type) where
  | default (i : ι)
  | ofString (i : ι) (src : Option Bytes)
  | ofData (i : ι) (src : Option (Nat → u8)) (l : Int)
  | copy (i j : ι)
  | readIn (i : ι) (src : Option (Nat → u8)) (l : Int)
  | clear (i : ι)
  | assign (i j : ι)
  | generate (i : ι) (rand : Nat → Int) (len : Int) (pos : 0 < len)
  | destroy (i : ι)

namespace WordStore

variable {ι : Type} [DecidableEq ι]

/-- A constructor takes storage that holds no object yet. -/
def fresh (s : WordStore ι) (i : ι) : Option (WordStore ι) :=
  if s.obj i = none then some (s.put i .empty s.heap) else none

/-- No result: an operation on nothing, or `strlen` of NULL. -/
def apply (new : Allocator u8) (s : WordStore ι) : WordOp ι → Option (WordStore ι)
  | .default i => s.fresh i
  | .ofString i src => do
    let s ← s.fresh i
    let text ← src
    s.readIn new i (some fun k => text.getD k 0) (toInt32 (cstr text).length)
  | .ofData i src l => do
    let s ← s.fresh i
    s.readIn new i src l
  | .copy i j => do
    let s ← s.fresh i
    s.copyContent new i j
  | .readIn i src l => s.readIn new i src l
  | .clear i => if s.obj i = none then none else some (s.clear i)
  | .assign i j => if s.obj i = none then none else s.assign new i j
  | .generate i rand len _ => s.generate new i rand len
  | .destroy i => if s.obj i = none then none else some (s.destroy i)

def step (new : Allocator u8) (s : WordStore ι) (op : WordOp ι) : WordStore ι × Option Unit :=
  match s.apply new op with
  | some s' => (s', none)
  | none => (s, some ())

def noWords : WordStore ι := ⟨fun _ => none, .empty⟩

end WordStore

/-- Empty, or a text with its three terminators and its length. -/
def BaseWord.Formed (w : BaseWord) : Prop := w = .empty ∨ ∃ b, w.Holds b

structure WordStore.Formed {ι : Type} (s : WordStore ι) : Prop where
  valid : s.Valid
  formed : ∀ i w, s.view i = some w → w.Formed

namespace WordStore

theorem view_of_obj_empty {ι : Type} {s : WordStore ι} {a : ι} (h : s.obj a = some .empty) :
    s.view a = some .empty := by
  rw [view, h]
  rfl

theorem Formed.object {ι : Type} {s : WordStore ι} {a : ι} (hs : s.Formed) {w : WordObj}
    (hw : s.obj a = some w) :
    (w.len = 0 ∧ w.content = none) ∨ (0 < w.len ∧ ∃ p d, w.content = some p ∧
      s.heap.block p = some (d ++ [0, 0, 0]) ∧ (d.length : Int) = w.len) := by
  have hview : s.view a = some ⟨s.block WordObj.content w, w.len⟩ := by
    rw [view, hw]
    rfl
  rcases hs.valid.ok a w hw with rfl | ⟨hpos, hcontent, _⟩
  · exact .inl ⟨rfl, rfl⟩
  · obtain ⟨p, hp⟩ := Option.ne_none_iff_exists'.mp hcontent
    have hblock : s.block WordObj.content w = s.heap.block p := by
      rw [OwnedHeap.Store.block, hp, Option.bind_some]
    rcases hs.formed a _ hview with hempty | ⟨d, hd, _⟩
    · have hlen : w.len = 0 := congrArg BaseWord.len hempty
      omega
    · have hlen : w.len = d.length := congrArg BaseWord.len hd
      exact .inr ⟨hpos, p, d, hp, hblock.symm.trans (congrArg BaseWord.content hd), hlen.symm⟩

section

variable {ι : Type} [DecidableEq ι] {s t : WordStore ι} {a b : ι}

theorem Formed.of_sameBut (hs : s.Formed) (h : SameBut WordObj.content a s t) (ht : t.Valid)
    (ha : ∀ w, t.view a = some w → w.Formed) : t.Formed := by
  refine ⟨ht, fun c w hw => ?_⟩
  by_cases hc : c = a
  · subst hc
    exact ha w hw
  · rw [view_of_sameBut h hc] at hw
    exact hs.formed c w hw

theorem sameBut_put_empty : SameBut WordObj.content a s (s.put a .empty s.heap) :=
  ⟨fun _ hc => Function.update_of_ne hc .., fun _ _ _ _ _ _ => rfl⟩

theorem Formed.of_empty (hs : s.Formed) (h : SameBut WordObj.content a s t) (ht : t.Valid)
    (ha : t.obj a = some .empty) : t.Formed := by
  refine hs.of_sameBut h ht fun w hw => .inl ?_
  rw [view_of_obj_empty ha] at hw
  exact (Option.some.inj hw).symm

theorem view_put_block (p : Nat) (d : Bytes) (len : Int) :
    (s.put a ⟨some p, len⟩ (s.heap.set p d)).view a = some ⟨some d, len⟩ := by
  have hobj : (s.put a ⟨some p, len⟩ (s.heap.set p d)).obj a = some ⟨some p, len⟩ :=
    Function.update_self ..
  have hblock : (s.heap.set p d).block p = some d := Heap.set_block_self ..
  rw [view, hobj]
  exact congrArg (fun block => some (⟨block, len⟩ : BaseWord)) hblock

theorem put_block_spec (hs : s.Valid) {p : Nat} (hfree : s.heap.block p = none) {d : Bytes}
    {len : Int} (hpos : 0 < len) (hlen : (d.length : Int) = len) :
    let t := s.put a ⟨some p, len⟩ (s.heap.set p (d ++ [0, 0, 0]))
    t.Valid ∧ SameBut WordObj.content a s t ∧ t.view a = some ⟨some (d ++ [0, 0, 0]), len⟩ := by
  intro t
  have hown : Own WordObj.content s a p := hs.own_of_free hfree
  have hblock : t.heap.block p = some (d ++ [0, 0, 0]) := Heap.set_block_self ..
  have hobj : t.obj a = some ⟨some p, len⟩ := Function.update_self ..
  have hsame : SameBut WordObj.content a s t :=
    sameBut_put_of_own hown _ fun q hq => s.heap.set_block_of_ne hq _
  refine ⟨hs.of_sameBut hsame hobj (.inr ?_) ?_, hsame, view_put_block p _ len⟩
  · refine ⟨hpos, Option.some_ne_none p, d ++ [0, 0, 0], hblock, ?_⟩
    change len ≤ _
    rw [List.length_append]
    omega
  · intro q hq
    cases hq
    exact ⟨by rw [hblock]; exact Option.some_ne_none _, hown⟩

theorem Formed.of_block (hs : s.Formed) {p : Nat} (hfree : s.heap.block p = none) {d : Bytes}
    {len : Int} (hpos : 0 < len) (hlen : (d.length : Int) = len) :
    (s.put a ⟨some p, len⟩ (s.heap.set p (d ++ [0, 0, 0]))).Formed := by
  obtain ⟨hvalid, hsame, hview⟩ := put_block_spec (a := a) hs.valid hfree hpos hlen
  refine hs.of_sameBut hsame hvalid fun w hw => .inr ⟨d, ?_⟩
  have hd : d ≠ [] := List.ne_nil_of_length_pos (by omega)
  rw [hview] at hw
  rw [← Option.some.inj hw, ← hlen]
  exact ⟨rfl, hd⟩

theorem Formed.clear (hs : s.Formed) (a : ι) : (s.clear a).Formed := by
  cases hw : s.obj a with
  | none =>
    rw [WordStore.clear, hw]
    exact hs
  | some w =>
    obtain ⟨hvalid, hsame, hempty⟩ := clear_spec hs.valid hw
    exact hs.of_empty hsame hvalid hempty

theorem Formed.put_empty (hs : s.Formed) (a : ι) : (s.put a .empty s.heap).Formed :=
  hs.of_empty sameBut_put_empty (valid_put_empty hs.valid sameBut_put_empty)
    (Function.update_self ..)

theorem Formed.fresh (hs : s.Formed) (h : s.fresh a = some t) :
    t.Formed ∧ t.obj a = some .empty := by
  rw [WordStore.fresh] at h
  split at h
  · cases h
    exact ⟨hs.put_empty a, Function.update_self ..⟩
  · cases h

theorem writeN_zeroed {d : Bytes} {n : Nat} (h : d.length = n) :
    Checked.writeN (List.replicate (n + 3) 0) 0 d = some (d ++ [0, 0, 0]) := by
  have hroom : 0 + d.length ≤ (List.replicate (n + 3) (0 : u8)).length := by
    rw [List.length_replicate]
    omega
  rw [Checked.writeN_eq hroom, Checked.splice, List.take_zero, List.nil_append, Nat.zero_add,
    List.drop_replicate, h, Nat.add_sub_cancel_left]
  rfl

theorem readIn_of_pos (new : Allocator u8) {w : WordObj} (hw : s.obj a = some w)
    (mem : Nat → u8) {l : Int} (hl : 0 < l) :
    let c := s.clear a
    s.readIn new a (some mem) l = some (c.put a ⟨some (new.pick c.heap), l⟩
      (c.heap.set (new.pick c.heap) ((List.range l.toNat).map mem ++ [0, 0, 0]))) := by
  intro c
  have hlen : ((List.range l.toNat).map mem).length = l.toNat := by simp
  rw [readIn, hw]
  simp only [Option.bind_eq_bind, Option.bind_some, if_neg (not_le.mpr hl), writeN_zeroed hlen]
  rfl

theorem readIn_nothing (new : Allocator u8) {w : WordObj} (hw : s.obj a = some w)
    {src : Option (Nat → u8)} {l : Int} (h : l ≤ 0 ∨ src = none) :
    s.readIn new a src l = some (s.put a .empty s.heap) := by
  unfold readIn
  rw [hw, Option.bind_eq_bind, Option.bind_some]
  by_cases hl : l ≤ 0
  · rw [if_pos hl]
    rfl
  · rw [if_neg hl, h.resolve_left hl]
    rfl

theorem readIn_view (new : Allocator u8) {w : WordObj} (hw : s.obj a = some w)
    (src : Option (Nat → u8)) (l : Int) : ∃ t, s.readIn new a src l = some t ∧
      t.view a = some (BaseWord.readIn (src.map fun mem => (List.range l.toNat).map mem) l) := by
  by_cases hnothing : l ≤ 0 ∨ src = none
  · refine ⟨_, readIn_nothing new hw hnothing, ?_⟩
    rw [view_of_obj_empty (Function.update_self ..)]
    unfold BaseWord.readIn
    by_cases hl : l ≤ 0
    · rw [if_pos hl]
      rfl
    · rw [if_neg hl, hnothing.resolve_left hl]
      rfl
  · rw [not_or, not_le] at hnothing
    obtain ⟨mem, rfl⟩ := Option.ne_none_iff_exists'.mp hnothing.2
    have hlen : ((List.range l.toNat).map mem).length = l.toNat := by simp
    refine ⟨_, readIn_of_pos new hw mem hnothing.1, ?_⟩
    rw [view_put_block, Option.map_some, BaseWord.readIn, if_neg (not_le.mpr hnothing.1)]
    simp only [BaseWord.block, List.takeD_eq_take 0 hlen.ge, List.take_of_length_le hlen.le]

theorem Formed.readIn (hs : s.Formed) {new : Allocator u8} {src : Option (Nat → u8)} {l : Int}
    (h : s.readIn new a src l = some t) : t.Formed := by
  cases hw : s.obj a with
  | none =>
    unfold WordStore.readIn at h
    rw [hw] at h
    cases h
  | some w =>
    by_cases hnothing : l ≤ 0 ∨ src = none
    · rw [readIn_nothing new hw hnothing] at h
      cases h
      exact hs.put_empty a
    · rw [not_or, not_le] at hnothing
      obtain ⟨mem, rfl⟩ := Option.ne_none_iff_exists'.mp hnothing.2
      rw [readIn_of_pos new hw mem hnothing.1] at h
      cases h
      refine (hs.clear a).of_block (new.pick_free _) hnothing.1 ?_
      rw [List.length_map, List.length_range]
      omega

theorem Formed.copyContent (ht : t.Formed) {new : Allocator u8} (ha : t.obj a = some .empty)
    {t' : WordStore ι} (h : t.copyContent new a b = some t') : t'.Formed := by
  cases hb : t.obj b with
  | none =>
    rw [WordStore.copyContent, hb] at h
    cases h
  | some v =>
    by_cases hne : b = a
    · subst hne
      rw [ha] at hb
      cases hb
      rw [copyContent_of_isempty new ha (by decide)] at h
      cases h
      exact ht
    · obtain ⟨t'', hcopy, hvalid, hsame, hview⟩ := copyContent_spec new ht.valid ha hne hb
      rw [hcopy] at h
      cases h
      refine ht.of_sameBut hsame hvalid fun w hw => ?_
      obtain ⟨x, hx⟩ : ∃ x, t.view b = some x := ⟨_, congrArg (Option.map _) hb⟩
      rw [hview, hx] at hw
      rw [← Option.some.inj hw]
      rcases ht.formed b x hx with rfl | ⟨d, hd⟩
      · exact .inl rfl
      · rw [hd.copy_eq]
        exact .inr ⟨d, hd⟩

theorem Formed.assign (hs : s.Formed) {new : Allocator u8} (ha : s.obj a ≠ none)
    (h : s.assign new a b = some t) : t.Formed := by
  obtain ⟨w, hw⟩ := Option.ne_none_iff_exists'.mp ha
  exact (hs.clear a).copyContent (clear_spec hs.valid hw).2.2 h

theorem fillKey_eq (rand : Nat → Int) {n : Nat} {content : Bytes} (h : n ≤ content.length) :
    fillKey rand n content = some (Checked.splice content 0 (keyText rand n)) := by
  induction n with
  | zero => simp [fillKey, keyText]
  | succ n ih =>
    have hfront : 0 + (keyText rand n).length ≤ content.length := by
      rw [keyText_length]
      omega
    have hkept := Checked.splice_length hfront
    have hmore : keyText rand (n + 1) =
        keyText rand n ++ [keyChar (rand (2 * n)) (rand (2 * n + 1))] := by
      rw [keyText, List.range_succ, List.map_append]
      rfl
    rw [fillKey, ih (by omega), Option.bind_eq_bind, Option.bind_some,
      Checked.write_eq (by omega), hmore, ← Checked.splice_splice hfront, keyText_length,
      Nat.zero_add]

theorem fillKey_zeroed (rand : Nat → Int) (n : Nat) :
    fillKey rand n (List.replicate (n + 3) 0) = some (keyText rand n ++ [0, 0, 0]) := by
  rw [fillKey_eq rand (by rw [List.length_replicate]; omega), Checked.splice, keyText_length,
    List.take_zero, List.nil_append, List.drop_replicate, Nat.zero_add, Nat.add_sub_cancel_left]
  rfl

theorem generate_of_pos (new : Allocator u8) {w : WordObj} (hw : s.obj a = some w)
    (rand : Nat → Int) {len : Int} (hpos : 0 < len) :
    let c := if w.len ≠ 0 ∨ w.content ≠ none then s.clear a else s
    s.generate new a rand len = some (c.put a ⟨some (new.pick c.heap), len⟩
      (c.heap.set (new.pick c.heap) (keyText rand len.toNat ++ [0, 0, 0]))) := by
  intro c
  have hsize : (len + 3).toNat = len.toNat + 3 := by omega
  have hfill := fillKey_zeroed rand len.toNat
  rw [generate, hw]
  simp only [Option.bind_eq_bind, Option.bind_some, hsize, hfill]
  rfl

theorem generate_view (new : Allocator u8) {w : WordObj} (hw : s.obj a = some w) (rng : Rng)
    (now : Int) {len : Nat} (hpos : 0 < len) : ∃ t,
      s.generate new a (rng (BitVec.ofInt 32 now)) len = some t ∧
      t.view a = some (SecProGIS.generate rng now len) := by
  refine ⟨_, generate_of_pos new hw _ (by omega), ?_⟩
  rw [view_put_block]
  rfl

theorem Formed.generate (hs : s.Formed) {new : Allocator u8} {rand : Nat → Int} {len : Int}
    (hpos : 0 < len) (h : s.generate new a rand len = some t) : t.Formed := by
  cases hw : s.obj a with
  | none =>
    rw [WordStore.generate, hw] at h
    cases h
  | some w =>
    have hc : (if w.len ≠ 0 ∨ w.content ≠ none then s.clear a else s).Formed := by
      split
      · exact hs.clear a
      · exact hs
    rw [generate_of_pos new hw rand hpos] at h
    cases h
    refine hc.of_block (new.pick_free _) hpos ?_
    rw [keyText_length]
    omega

theorem Formed.destroy (hs : s.Formed) (a : ι) : (s.destroy a).Formed := by
  cases hw : s.obj a with
  | none =>
    rw [WordStore.destroy, hw]
    exact hs
  | some w =>
    have hdestroy : s.destroy a =
        ⟨Function.update s.obj a none, w.content.elim s.heap s.heap.delete⟩ := by
      rw [WordStore.destroy, hw]
    have hgone : (s.destroy a).obj a = none := by
      rw [hdestroy]
      exact Function.update_self ..
    have hobj : ∀ c, c ≠ a → (s.destroy a).obj c = s.obj c := by
      intro c hc
      rw [hdestroy]
      exact Function.update_of_ne hc ..
    have hsame : SameBut WordObj.content a s (s.destroy a) := by
      cases hp : w.content with
      | none =>
        refine ⟨hobj, fun _ _ _ _ _ _ => ?_⟩
        rw [hdestroy, hp]
        rfl
      | some p =>
        refine .of_own (hs.valid.own hw hp) hobj fun q hq => ?_
        rw [hdestroy, hp]
        exact s.heap.delete_block_of_ne hq
    refine hs.of_sameBut hsame (hs.valid.of_removed hsame hgone) fun v hv => ?_
    rw [view, hgone] at hv
    cases hv

theorem Formed.apply (hs : s.Formed) {new : Allocator u8} {op : WordOp ι}
    (h : s.apply new op = some t) : t.Formed := by
  cases op with
  | default i => exact (hs.fresh h).1
  | ofString i src =>
    obtain ⟨s', hfresh, hrest⟩ := Option.bind_eq_some_iff.mp h
    obtain ⟨text, _, hread⟩ := Option.bind_eq_some_iff.mp hrest
    exact (hs.fresh hfresh).1.readIn hread
  | ofData i src l =>
    obtain ⟨s', hfresh, hread⟩ := Option.bind_eq_some_iff.mp h
    exact (hs.fresh hfresh).1.readIn hread
  | copy i j =>
    obtain ⟨s', hfresh, hcopy⟩ := Option.bind_eq_some_iff.mp h
    exact (hs.fresh hfresh).1.copyContent (hs.fresh hfresh).2 hcopy
  | readIn i src l => exact hs.readIn h
  | clear i =>
    cases (Option.ite_none_left_eq_some.mp h).2
    exact hs.clear i
  | assign i j =>
    obtain ⟨hi, hassign⟩ := Option.ite_none_left_eq_some.mp h
    exact hs.assign hi hassign
  | generate i rand len pos => exact hs.generate pos h
  | destroy i =>
    cases (Option.ite_none_left_eq_some.mp h).2
    exact hs.destroy i

theorem Formed.step (hs : s.Formed) (new : Allocator u8) (op : WordOp ι) :
    (s.step new op).1.Formed := by
  rw [WordStore.step]
  cases h : s.apply new op with
  | none => exact hs
  | some t => exact hs.apply h

end

theorem charIndex_fits {len : Int} (hpos : 0 < len) (hle : len ≤ 2 ^ 30) (i : Int) :
    ∃ j, charIndex i len = some j ∧ 0 ≤ j ∧ j < len := by
  obtain ⟨n, rfl⟩ := Int.eq_ofNat_of_zero_le hpos.le
  have hfits := wrapIndex_fits i (by omega : 0 < n) (by omega)
  refine ⟨(i.tmod n + n).tmod n, ?_, Int.tmod_nonneg _ hfits.1, Int.tmod_lt_of_pos _ hpos⟩
  exact if_pos ⟨by omega, hfits.2⟩

theorem Formed.charAt_isSome {ι : Type} {s : WordStore ι} {a : ι} (hs : s.Formed) {w : WordObj}
    (hw : s.obj a = some w) (hle : w.len ≤ 2 ^ 30) (i : Int) : (s.charAt a i).isSome := by
  rw [charAt, hw]
  rcases hs.object hw with ⟨hlen, hcontent⟩ | ⟨hpos, p, d, hp, hblock, hlen⟩
  · simp [WordObj.isempty, hlen, hcontent]
  · have hone : w.isempty = 1 :=
      WordObj.isempty_eq_one.mpr ⟨hpos, by rw [hp]; exact Option.some_ne_none p⟩
    obtain ⟨j, hj, hlow, hhigh⟩ := charIndex_fits hpos hle i
    have hread : j < d.length + 3 := by omega
    simp [hone, hj, OwnedHeap.Store.block, hp, hblock, hlow, Checked.read, hread]

end WordStore

/-- However objects are made and changed, each is empty or has a block for its text and
three terminators. -/
theorem word_representation {ι : Type} [DecidableEq ι] (new : Allocator u8)
    (ops : List (WordOp ι)) :
    ∀ s ∈ EventLoop.visited (WordStore.step new) WordStore.noWords ops, ∀ i w,
      s.obj i = some w →
        ((w.len = 0 ∧ w.content = none) ∨ (0 < w.len ∧ ∃ p b, w.content = some p ∧
          s.heap.block p = some b ∧ (b.length : Int) = w.len + 3 ∧
          b.drop w.len.toNat = [0, 0, 0])) ∧
        (w.isempty = 0 ∨ w.isempty = 1) ∧
        (w.len ≤ 2 ^ 30 → ∀ k : Int,
          (0 < w.len → ∃ j, WordStore.charIndex k w.len = some j ∧ 0 ≤ j ∧ j < w.len) ∧
          (s.charAt i k).isSome) ∧
        (w.content = none ∨ ∃ p b, w.content = some p ∧ s.heap.block p = some b ∧ 0 ∈ b) := by
  intro s hs i w hw
  have hnone : (WordStore.noWords : WordStore ι).Formed := by
    refine ⟨⟨fun _ _ h => ?_, fun _ _ _ h => ?_, fun _ _ _ _ _ h => ?_⟩, fun _ _ h => ?_⟩ <;>
      cases h
  have hformed : s.Formed :=
    EventLoop.visited_invariant (fun t op h => h.step new op) hnone ops s hs
  refine ⟨?_, ?_, fun hle k => ⟨fun hpos => WordStore.charIndex_fits hpos hle k,
    hformed.charAt_isSome hw hle k⟩, ?_⟩
  · refine (hformed.object hw).imp id ?_
    rintro ⟨hpos, p, d, hp, hblock, hlen⟩
    refine ⟨hpos, p, d ++ [0, 0, 0], hp, hblock, ?_, List.drop_left' (by omega)⟩
    rw [List.length_append, ← hlen]
    rfl
  · rcases hformed.object hw with ⟨hlen, hcontent⟩ | ⟨hpos, p, _, hp, _⟩
    · exact .inl (by simp [WordObj.isempty, hlen, hcontent])
    · exact .inr (WordObj.isempty_eq_one.mpr ⟨hpos, by rw [hp]; exact Option.some_ne_none p⟩)
  · refine (hformed.object hw).imp And.right ?_
    rintro ⟨_, p, d, hp, hblock, _⟩
    exact ⟨p, d ++ [0, 0, 0], hp, hblock, List.mem_append_right d List.mem_cons_self⟩

/-- A text, read over with a length that empties it, and a key in another object. -/
def sampleOps : List (WordOp Bool) :=
  [.ofString true (some (ascii "ab")), .readIn true none 5, .default false,
    .generate false (fun _ => -7) 4 (by decide)]

theorem word_representation_sample : ∃ s ∈ EventLoop.visited (WordStore.step bumpAllocator)
    WordStore.noWords sampleOps, s.obj false = some ⟨some 1, 4⟩ ∧
      (s.charAt false (-1)).isSome := by
  let run := EventLoop.loop (WordStore.step bumpAllocator) WordStore.noWords sampleOps
  have hmem : run.1 ∈ EventLoop.visited (WordStore.step bumpAllocator) WordStore.noWords
      sampleOps := EventLoop.loop_mem_visited _ _
  have hobj : run.1.obj false = some ⟨some 1, 4⟩ := by decide
  exact ⟨run.1, hmem, hobj, ((word_representation bumpAllocator sampleOps run.1 hmem false
    ⟨some 1, 4⟩ hobj).2.2.1 (by decide) (-1)).2⟩

end SecProGIS
