import SecProGIS.BWord
import SecProGIS.Lib.Checked
import SecProGIS.Lib.OwnedHeap

/-! `BASE_WORD` objects with their blocks on the heap: the copy constructor and
the assignment, which clears the target before it looks at the source. -/

namespace SecProGIS

open OwnedHeap (Heap Allocator SameBut Own)

/-- The members of a `BASE_WORD`; NULL is no address. -/
structure WordObj where
  content : Option Nat
  len : Int
deriving DecidableEq

abbrev WordStore (ι : Type) := OwnedHeap.Store ι WordObj u8

namespace WordObj

def empty : WordObj := ⟨none, 0⟩

def isempty (w : WordObj) : Int :=
  if w.len ≤ 0 then
    if w.content = none then 0 else -1
  else if w.content = none then -2
  else 1

/-- Empty, or with a block for the whole length. -/
def Ok (w : WordObj) (block : Option Bytes) : Prop :=
  w = empty ∨ 0 < w.len ∧ w.content ≠ none ∧ ∃ b, block = some b ∧ w.len ≤ b.length

end WordObj

namespace WordStore

variable {ι : Type} [DecidableEq ι] (s : WordStore ι)

def put (i : ι) (w : WordObj) (heap : Heap u8) : WordStore ι :=
  ⟨Function.update s.obj i (some w), heap⟩

def clear (i : ι) : WordStore ι :=
  match s.obj i with
  | none => s
  | some w => s.put i .empty (w.content.elim s.heap s.heap.delete)

/-- `get_cont(dest)`; no result is an access outside a block, or to no object. -/
def getCont (j : ι) (dest : Option Nat) : Option (Int × WordStore ι) := do
  let src ← s.obj j
  if src.isempty ≠ 1 then return (-1, s)
  match dest with
  | none => return (-2, s)
  | some p =>
    let block ← s.block WordObj.content src
    let copied ← Checked.copyN block 0 src.len.toNat (← s.heap.block p)
    return (0, { s with heap := s.heap.set p copied })

/-- The body the copy constructor and the assignment share. -/
def copyContent (new : Allocator u8) (i j : ι) : Option (WordStore ι) := do
  let src ← s.obj j
  if src.isempty = 1 then
    let len := src.len
    let p := new.pick s.heap
    let s := s.put i ⟨some p, len⟩ (s.heap.set p (List.replicate (len.toNat + 3) 0))
    let r ← s.getCont j (some p)
    return r.2
  else return s

def construct (new : Allocator u8) (i j : ι) : Option (WordStore ι) :=
  (s.put i .empty s.heap).copyContent new i j

def assign (new : Allocator u8) (i j : ι) : Option (WordStore ι) := (s.clear i).copyContent new i j

def view (i : ι) : Option BaseWord := (s.obj i).map fun w => ⟨s.block WordObj.content w, w.len⟩

end WordStore

def BaseWord.value (w : BaseWord) : Int × Bytes := (w.len, (w.content.getD []).take w.len.toNat)

def WordStore.value {ι : Type} (s : WordStore ι) (i : ι) : Option (Int × Bytes) :=
  (s.view i).map BaseWord.value

/-- No word is in a state its class does not make, and none shares its block. -/
abbrev WordStore.Valid {ι : Type} (s : WordStore ι) : Prop :=
  OwnedHeap.Valid WordObj.content WordObj.Ok s

theorem BaseWord.copy_of_pos (b : Bytes) {len : Int} (h : 0 < len) :
    copy ⟨some b, len⟩ = ⟨some (block b len.toNat), len⟩ := by
  rw [copy, if_pos (isempty_eq_one.mpr ⟨h, Option.some_ne_none b⟩)]
  rfl

namespace WordObj

variable {w : WordObj}

theorem isempty_eq_one : w.isempty = 1 ↔ 0 < w.len ∧ w.content ≠ none := by
  unfold isempty
  split_ifs <;> simp_all

end WordObj

namespace WordStore

theorem value_copy {ι : Type} {s : WordStore ι} (hs : s.Valid) {b : ι} {v : WordObj}
    (hb : s.obj b = some v) : ((s.view b).map BaseWord.copy).map BaseWord.value = s.value b := by
  rcases hs.ok b v hb with hempty | ⟨hlen, _, d, hd, hdlen⟩
  · rw [value, view, hb, hempty]
    rfl
  · have htake : (BaseWord.block d v.len.toNat).take v.len.toNat = d.take v.len.toNat := by
      rw [BaseWord.block, List.takeD_eq_take 0 (by omega), List.take_append_of_le_length]
      · rw [List.take_take, Nat.min_self]
      · rw [List.length_take]
        omega
    rw [value, view, hb, Option.map_some, hd, Option.map_some, BaseWord.copy_of_pos d hlen]
    simp only [Option.map_some, BaseWord.value, Option.getD_some, htake]

section

variable {ι : Type} [DecidableEq ι] {s t : WordStore ι} {a b : ι}

theorem valid_put_empty (hs : s.Valid) {heap : Heap u8}
    (hsame : SameBut WordObj.content a s (s.put a .empty heap)) : (s.put a .empty heap).Valid :=
  hs.of_sameBut hsame (Function.update_self ..) (.inl rfl) fun _ h => by cases h

theorem sameBut_put_of_own {p : Nat} (hown : Own WordObj.content s a p) (w : WordObj)
    {heap : Heap u8} (hheap : ∀ q, q ≠ p → heap.block q = s.heap.block q) :
    SameBut WordObj.content a s (s.put a w heap) :=
  .of_own hown (fun _ hc => Function.update_of_ne hc ..) hheap

theorem clear_spec (hs : s.Valid) {w : WordObj} (ha : s.obj a = some w) :
    (s.clear a).Valid ∧ SameBut WordObj.content a s (s.clear a) ∧
      (s.clear a).obj a = some .empty := by
  have hclear : s.clear a = s.put a .empty (w.content.elim s.heap s.heap.delete) := by
    rw [clear, ha]
  have hsame : SameBut WordObj.content a s (s.clear a) := by
    rw [hclear]
    cases hp : w.content with
    | none => exact ⟨fun _ hc => Function.update_of_ne hc .., fun _ _ _ _ _ _ => rfl⟩
    | some p =>
      exact sameBut_put_of_own (hs.own ha hp) _ fun q hq => s.heap.delete_block_of_ne hq
  rw [hclear] at hsame ⊢
  exact ⟨valid_put_empty hs hsame, hsame, Function.update_self ..⟩

theorem copyN_zeroed {d : Bytes} {n : Nat} (h : n ≤ d.length) :
    Checked.copyN d 0 n (List.replicate (n + 3) 0) = some (BaseWord.block d n) := by
  have hlen : (d.take n).length = n := by rw [List.length_take, Nat.min_eq_left h]
  rw [Checked.copyN_eq (by omega) (by rw [List.length_replicate]; omega), Checked.splice,
    BaseWord.block, List.takeD_eq_take 0 h, List.drop_zero, hlen, List.take_zero, List.nil_append,
    List.drop_replicate, Nat.zero_add, Nat.add_sub_cancel_left]
  rfl

theorem copyContent_of_isempty (new : Allocator u8) {v : WordObj} (hb : t.obj b = some v)
    (hv : v.isempty ≠ 1) : t.copyContent new a b = some t := by
  simp [copyContent, hb, hv]

theorem copyContent_spec (new : Allocator u8) (ht : t.Valid) (ha : t.obj a = some .empty)
    (hne : b ≠ a) {v : WordObj} (hb : t.obj b = some v) : ∃ t', t.copyContent new a b = some t' ∧
      t'.Valid ∧ SameBut WordObj.content a t t' ∧ t'.view a = (t.view b).map BaseWord.copy := by
  rcases ht.ok b v hb with hempty | ⟨hlen, hcontent, d, hd, hdlen⟩
  · have hv : v.isempty ≠ 1 := by
      rw [hempty]
      decide
    refine ⟨t, copyContent_of_isempty new hb hv, ht, ⟨fun _ _ => rfl, fun _ _ _ _ _ _ => rfl⟩, ?_⟩
    rw [view, view, ha, hb, hempty]
    rfl
  · let p := new.pick t.heap
    let n := v.len.toNat
    have hfree : t.heap.block p = none := new.pick_free t.heap
    have hown : Own WordObj.content t a p := ht.own_of_free hfree
    have hv : v.isempty = 1 := WordObj.isempty_eq_one.mpr ⟨hlen, hcontent⟩
    let zeroed := t.put a ⟨some p, v.len⟩ (t.heap.set p (List.replicate (n + 3) 0))
    let copied := t.put a ⟨some p, v.len⟩
      ((t.heap.set p (List.replicate (n + 3) 0)).set p (BaseWord.block d n))
    have hzeroed : SameBut WordObj.content a t zeroed :=
      sameBut_put_of_own hown _ fun q hq => t.heap.set_block_of_ne hq _
    have hcopied : SameBut WordObj.content a t copied := by
      refine sameBut_put_of_own hown _ fun q hq => ?_
      rw [Heap.set_block_of_ne _ hq, Heap.set_block_of_ne _ hq]
    have hlast : copied.heap.block p = some (BaseWord.block d n) := Heap.set_block_self ..
    have hget : zeroed.getCont b (some p) = some (0, copied) := by
      have hb' : zeroed.obj b = some v := (hzeroed.obj_eq b hne).trans hb
      have hblock : zeroed.block WordObj.content v = some d := (hzeroed.store_block hne hb).trans hd
      have hdest : zeroed.heap.block p = some (List.replicate (n + 3) 0) := Heap.set_block_self ..
      have hcopy := copyN_zeroed (by omega : n ≤ d.length)
      simp only [getCont, hb', hv, hblock, hdest, Option.bind_eq_bind, Option.bind_some, n]
        at hcopy ⊢
      rw [hcopy]
      rfl
    refine ⟨copied, ?_, ?_, hcopied, ?_⟩
    · simp only [copyContent, hb, hv, if_true, Option.bind_eq_bind, Option.bind_some]
      rw [hget]
      rfl
    · refine ht.of_sameBut hcopied (w := ⟨some p, v.len⟩) (Function.update_self ..) (.inr ?_) ?_
      · refine ⟨hlen, Option.some_ne_none p, BaseWord.block d n, hlast, ?_⟩
        simp only [BaseWord.block, List.length_append, List.takeD_length, n]
        omega
      · intro q hq
        cases hq
        exact ⟨by rw [hlast]; exact Option.some_ne_none _, hown⟩
    · have ha' : copied.obj a = some ⟨some p, v.len⟩ := Function.update_self ..
      have hcopy := congrArg some (BaseWord.copy_of_pos d hlen)
      rw [view, view, ha', hb, Option.map_some, Option.map_some, Option.map_some, hd, hcopy]
      exact congrArg (fun block => some (⟨block, v.len⟩ : BaseWord)) hlast

end

theorem view_of_sameBut {ι : Type} {s t : WordStore ι} {a c : ι}
    (h : SameBut WordObj.content a s t) (hc : c ≠ a) : t.view c = s.view c := by
  rw [view, view, h.obj_eq c hc]
  cases hobj : s.obj c with
  | none => rfl
  | some w => rw [Option.map_some, Option.map_some, h.store_block hc hobj]

end WordStore

/-- The value of `b` before is that of the target `a` and of `b` after, and all
other objects are as they were. -/
structure WordStore.Copied {ι : Type} (s s' : WordStore ι) (a b : ι) : Prop where
  target : s'.value a = s.value b
  source : s'.value b = s.value b
  others : ∀ c, c ≠ a → s'.obj c = s.obj c ∧ s'.value c = s.value c

section

variable {ι : Type} [DecidableEq ι] (new : Allocator u8) {s t : WordStore ι} {a b : ι}

theorem copied_of_sameBut (hsame : SameBut WordObj.content a s t) (ht : t.Valid)
    (ha : t.obj a = some .empty) (hne : b ≠ a) (hb : (s.obj b).isSome) :
    ∃ s', t.copyContent new a b = some s' ∧ s'.Valid ∧ s.Copied s' a b := by
  obtain ⟨v, hv⟩ := Option.isSome_iff_exists.mp hb
  have hv' : t.obj b = some v := (hsame.obj_eq b hne).trans hv
  obtain ⟨s', hcopy, hvalid, hrest, hview⟩ := WordStore.copyContent_spec new ht ha hne hv'
  have hall := hsame.trans hrest
  have hvalue : ∀ c, c ≠ a → s'.value c = s.value c :=
    fun c hc => congrArg (Option.map BaseWord.value) (WordStore.view_of_sameBut hall hc)
  refine ⟨s', hcopy, hvalid, ?_, hvalue b hne, fun c hc => ⟨hall.obj_eq c hc, hvalue c hc⟩⟩
  rw [WordStore.value, hview, WordStore.value_copy ht hv']
  exact congrArg (Option.map BaseWord.value) (WordStore.view_of_sameBut hsame hne)

theorem construct_copied (hs : s.Valid) (ha : s.obj a = none) (hb : (s.obj b).isSome) :
    ∃ s', s.construct new a b = some s' ∧ s'.Valid ∧ s.Copied s' a b := by
  have hne : b ≠ a := by
    rintro rfl
    simp [ha] at hb
  have hsame : SameBut WordObj.content a s (s.put a .empty s.heap) :=
    ⟨fun _ hc => Function.update_of_ne hc .., fun _ _ _ _ _ _ => rfl⟩
  exact copied_of_sameBut new hsame (WordStore.valid_put_empty hs hsame)
    (Function.update_self ..) hne hb

theorem assign_copied (hs : s.Valid) (hne : a ≠ b) (ha : (s.obj a).isSome) (hb : (s.obj b).isSome) :
    ∃ s', s.assign new a b = some s' ∧ s'.Valid ∧ s.Copied s' a b := by
  obtain ⟨w, hw⟩ := Option.isSome_iff_exists.mp ha
  obtain ⟨hvalid, hsame, hempty⟩ := WordStore.clear_spec hs hw
  exact copied_of_sameBut new hsame hvalid hempty hne.symm hb

theorem assign_self (hs : s.Valid) (ha : (s.obj a).isSome) : ∃ s', s.assign new a a = some s' ∧
    s'.Valid ∧ SameBut WordObj.content a s s' ∧ s'.value a = some (0, []) := by
  obtain ⟨w, hw⟩ := Option.isSome_iff_exists.mp ha
  obtain ⟨hvalid, hsame, hempty⟩ := WordStore.clear_spec hs hw
  refine ⟨s.clear a, WordStore.copyContent_of_isempty new hempty (by decide), hvalid, hsame, ?_⟩
  rw [WordStore.value, WordStore.view, hempty]
  rfl

end

/-- A new object always gets the value. An assignment gives it to its target
exactly when that is another object, or the value is empty. -/
theorem value_semantics_iff {ι : Type} [DecidableEq ι] (new : Allocator u8) (s : WordStore ι)
    (hs : s.Valid) (a b : ι) (ha : (s.obj a).isSome) (hb : (s.obj b).isSome) :
    (∀ i, s.obj i = none →
      ∃ s', s.construct new i b = some s' ∧ s'.Valid ∧ s.Copied s' i b) ∧
    ((∃ s', s.assign new a b = some s' ∧ s'.Valid ∧ s.Copied s' a b) ↔
      a ≠ b ∨ s.value b = some (0, [])) := by
  refine ⟨fun i hi => construct_copied new hs hi hb, ?_⟩
  by_cases hne : a = b
  · subst hne
    obtain ⟨s', hassign, hvalid, hsame, hvalue⟩ := assign_self new hs ha
    simp only [hassign, Option.some.injEq, exists_eq_left', ne_eq, not_true, false_or]
    constructor
    · exact fun h => h.2.target.symm.trans hvalue
    · intro h
      have hself : s'.value a = s.value a := hvalue.trans h.symm
      exact ⟨hvalid, hself, hself, fun c hc => ⟨hsame.obj_eq c hc,
        congrArg (Option.map BaseWord.value) (WordStore.view_of_sameBut hsame hc)⟩⟩
  · exact iff_of_true (assign_copied new hs hne ha hb) (.inl hne)

def bumpAllocator : Allocator u8 := ⟨fun h => h.bound, fun h => h.block_eq_none _ le_rfl⟩

def noObjects : WordStore Bool := ⟨fun _ => none, fun _ => none, 0, fun _ _ => rfl⟩

/-- One object, with a NUL among its bytes. -/
def sampleStore : WordStore Bool :=
  noObjects.put true ⟨some 0, 2⟩ (noObjects.heap.set 0 [0x41, 0, 0, 0, 0])

theorem sampleStore_valid : sampleStore.Valid := by
  have hnone : noObjects.Valid :=
    ⟨fun _ _ h => absurd h (by simp [noObjects]), fun _ _ _ h => absurd h (by simp [noObjects]),
      fun _ _ _ _ _ h => absurd h (by simp [noObjects])⟩
  have hown : Own WordObj.content noObjects true 0 := hnone.own_of_free rfl
  have hsame : SameBut WordObj.content true noObjects sampleStore :=
    WordStore.sameBut_put_of_own hown _ fun _ hq => Heap.set_block_of_ne _ hq _
  refine hnone.of_sameBut hsame (w := ⟨some 0, 2⟩) rfl (.inr ?_) fun p hp => ?_
  · exact ⟨by decide, by decide, [0x41, 0, 0, 0, 0], rfl, by decide⟩
  · cases hp
    exact ⟨by decide, hown⟩

theorem value_semantics_new : ∃ s', sampleStore.construct bumpAllocator false true = some s' ∧
    s'.Valid ∧ sampleStore.Copied s' false true :=
  (value_semantics_iff bumpAllocator sampleStore sampleStore_valid true true rfl rfl).1 false rfl

theorem value_semantics_self :
    ¬ ∃ s', sampleStore.assign bumpAllocator true true = some s' ∧ s'.Valid ∧
      sampleStore.Copied s' true true := by
  rintro ⟨s', hassign, _, hcopied⟩
  obtain ⟨t, ht, _, _, hvalue⟩ := assign_self bumpAllocator sampleStore_valid
    (a := true) rfl
  rw [hassign] at ht
  cases ht
  rw [hcopied.target] at hvalue
  exact absurd hvalue (by decide)

end SecProGIS
