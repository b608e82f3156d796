import SecProGIS.ListCtrlSort

/-! `OnColumnClick` of `ListCtrlSort.h` over any sequence of clicks. It notes the
column before it compares it with the noted one, so that every click turns the
direction over. -/

namespace SecProGIS

/-- What two texts are compared by, the first difference counting. -/
def sortKey (s : List WChar) : List Nat ×ₗ Bool ×ₗ Int ×ₗ List Nat :=
  toLex (codes (visible s),
    toLex (cut s, toLex (if cut s then middle s else 0, if cut s then codes s else [])))

theorem order_toLex {α β : Type} [LinearOrder α] [LinearOrder β] (a c : α) (b d : β) :
    order (toLex (a, b)) (toLex (c, d)) = if order a c ≠ 0 then order a c else order b d := by
  rcases lt_trichotomy a c with h | rfl | h
  · have hlt : toLex (a, b) < toLex (c, d) := Prod.Lex.toLex_lt_toLex.mpr (.inl h)
    simp [order, hlt, hlt.asymm, h, h.asymm]
  · simp only [order, Prod.Lex.toLex_lt_toLex, lt_self_iff_false, false_or, true_and, if_false,
      not_true, ne_eq]
  · have hlt : toLex (c, d) < toLex (a, b) := Prod.Lex.toLex_lt_toLex.mpr (.inl h)
    simp [order, hlt, h]

theorem order_toDual {α : Type} [LinearOrder α] (x y : α) :
    order (OrderDual.toDual x) (OrderDual.toDual y) = order y x := by
  rcases lt_trichotomy x y with h | rfl | h
  · simp [order, h]
  · simp [order]
  · simp [order, h, h.asymm]

theorem order_self {α : Type} [LinearOrder α] (x : α) : order x x = 0 := order_eq_zero_iff.mpr rfl

theorem verdict_eq_order (s t : List WChar) : verdict s t = order (sortKey s) (sortKey t) := by
  rw [sortKey, sortKey, order_toLex, order_toLex, order_toLex, verdict, wcscmp_eq_order,
    wcscmp_eq_order]
  cases cut s <;> cases cut t
  · simp [order_self]
  · rfl
  · rfl
  · simp [order_self]

theorem precedes_iff {s t : List WChar} : Precedes s t ↔ sortKey s < sortKey t := by
  rw [← verdict_eq_neg_one_iff, verdict_eq_order, order_eq_neg_one_iff]

theorem codes_ascii {s : List WChar} (hs : IsAscii s) : codes s = s.map BitVec.toNat := by
  rw [codes, List.takeWhile_eq_self_iff.mpr fun c hc => decide_eq_true (hs c hc).1]

theorem codes_injective {s t : List WChar} (hs : IsAscii s) (ht : IsAscii t)
    (h : codes s = codes t) : s = t := by
  rw [codes_ascii hs, codes_ascii ht] at h
  exact List.map_injective_iff.mpr (fun _ _ => BitVec.eq_of_toNat_eq) h

theorem sortKey_injective {s t : List WChar} (hs : IsAscii s) (ht : IsAscii t)
    (h : sortKey s = sortKey t) : s = t := by
  simp only [sortKey, EmbeddingLike.apply_eq_iff_eq, Prod.mk.injEq] at h
  obtain ⟨hvisible, hcut, -, hall⟩ := h
  cases hc : cut t with
  | true =>
    rw [hc] at hcut
    rw [hcut, hc, if_pos rfl, if_pos rfl] at hall
    exact codes_injective hs ht hall
  | false =>
    rw [hc] at hcut
    rw [visible, visible, hcut, hc] at hvisible
    exact codes_injective hs ht hvisible

section

variable {ρ : Type}

def NotAbove (cmp : ρ → ρ → Option Int) (a b : ρ) : Prop := ∃ v ≤ 0, cmp a b = some v

/-- What a sort routine asks of a comparison on the items it is given. -/
structure Consistent (cmp : ρ → ρ → Option Int) (items : List ρ) : Prop where
  opposite : ∀ a ∈ items, ∀ b ∈ items, ∃ v, cmp a b = some v ∧ cmp b a = some (-v)
  trans : ∀ a ∈ items, ∀ b ∈ items, ∀ c ∈ items, NotAbove cmp a b → NotAbove cmp b c →
    NotAbove cmp a c

/-- `LVM_SORTITEMSEX`, which may leave equal items in any order. -/
structure SortItems (ρ : Type) where
  sort : (ρ → ρ → Option Int) → List ρ → Option (List ρ)
  sorts : ∀ cmp items, Consistent cmp items → ∃ sorted, sort cmp items = some sorted ∧
    sorted.Perm items ∧ sorted.Pairwise (NotAbove cmp)

theorem order_nonpos {α : Type} [LinearOrder α] {x y : α} : order x y ≤ 0 ↔ x ≤ y := by
  rcases lt_trichotomy x y with h | rfl | h
  · simp [order, h, h.asymm, h.le]
  · simp [order]
  · simp [order, h]

theorem SortItems.sorts_by {κ : Type} [LinearOrder κ] (sortItems : SortItems ρ)
    {cmp : ρ → ρ → Option Int} {items : List ρ} (key : ρ → κ)
    (hcmp : ∀ a ∈ items, ∀ b ∈ items, cmp a b = some (order (key a) (key b))) :
    ∃ sorted, sortItems.sort cmp items = some sorted ∧ sorted.Perm items ∧
      sorted.Pairwise fun a b => key a ≤ key b := by
  have habove : ∀ a ∈ items, ∀ b ∈ items, NotAbove cmp a b ↔ key a ≤ key b := by
    intro a ha b hb
    rw [NotAbove, hcmp a ha b hb, ← order_nonpos]
    exact ⟨fun ⟨_, hv, he⟩ => Option.some.inj he ▸ hv, fun h => ⟨_, h, rfl⟩⟩
  have hcons : Consistent cmp items := by
    refine ⟨fun a ha b hb => ⟨_, hcmp a ha b hb, ?_⟩, fun a ha b hb c hc hab hbc => ?_⟩
    · rw [hcmp b hb a ha, order_swap]
    · rw [habove a ha b hb] at hab
      rw [habove b hb c hc] at hbc
      exact (habove a ha c hc).mpr (hab.trans hbc)
  obtain ⟨sorted, hsort, hperm, hpair⟩ := sortItems.sorts cmp items hcons
  refine ⟨sorted, hsort, hperm, hpair.imp_of_mem fun ha hb hab => ?_⟩
  exact (habove _ (hperm.mem_iff.mp ha) _ (hperm.mem_iff.mp hb)).mp hab

end

structure SortHelper where
  nSortColumn : Nat
  bSortAscending : Bool
deriving DecidableEq

/-- `ListCtrlSortHelper()`. -/
def SortHelper.initial : SortHelper := ⟨0, true⟩

structure ListCtrl (ρ : Type) where
  helper : SortHelper
  items : List ρ

section

variable {δ : Type} [LinearOrder δ] (tcstod : List WChar → δ) (acp oem : TextPage)
variable {ρ : Type} (text : ρ → Nat → List WChar) (sortItems : SortItems ρ)

/-- `CompareProc`; `LVM_GETITEMTEXT` gives at most `MAX_PATH - 1` characters. -/
def compareProc (pT : SortHelper) (a b : ρ) : Option Int :=
  let csText1 := (text a pT.nSortColumn).take 259
  let csText2 := (text b pT.nSortColumn).take 259
  if pT.bSortAscending then compareTexts tcstod csText1 csText2 acp oem
  else compareTexts tcstod csText2 csText1 acp oem

def onColumnClick (c : ListCtrl ρ) (nCol : Nat) : Option (ListCtrl ρ) := do
  let h := { c.helper with nSortColumn := nCol }
  let h := { h with bSortAscending := if nCol = h.nSortColumn then !h.bSortAscending else true }
  let items ← sortItems.sort (compareProc tcstod acp oem text h) c.items
  return ⟨h, items⟩

/-- In the direction of the list, no text stands before a smaller one. -/
def InOrder (asc : Bool) (s t : List WChar) : Prop :=
  s = t ∨ if asc then Precedes s t else Precedes t s

variable {text}

theorem compareTexts_order {s t : List WChar} (hs : IsAscii s ∧ s.length ≤ 258)
    (ht : IsAscii t ∧ t.length ≤ 258) :
    compareTexts tcstod (s.take 259) (t.take 259) acp oem =
      some (order (sortKey s) (sortKey t)) := by
  rw [List.take_of_length_le (by omega), List.take_of_length_le (by omega),
    compareTexts_eq tcstod acp oem hs.1 ht.1 (by omega) (by omega), if_pos ⟨hs.2, ht.2⟩,
    verdict_eq_order]

theorem eq_or_precedes {s t : List WChar} (hs : IsAscii s) (ht : IsAscii t)
    (h : sortKey s ≤ sortKey t) : s = t ∨ Precedes s t := by
  rcases h.eq_or_lt with heq | hlt
  · exact .inl (sortKey_injective hs ht heq)
  · exact .inr (precedes_iff.mpr hlt)

theorem sort_spec (asc : Bool) {nCol : Nat} {items : List ρ}
    (hitems : ∀ r ∈ items, IsAscii (text r nCol) ∧ (text r nCol).length ≤ 258) :
    ∃ sorted, sortItems.sort (compareProc tcstod acp oem text ⟨nCol, asc⟩) items = some sorted ∧
      sorted.Perm items ∧ sorted.Pairwise fun a b => InOrder asc (text a nCol) (text b nCol) := by
  cases asc with
  | true =>
    obtain ⟨sorted, hsort, hperm, hpair⟩ := sortItems.sorts_by (fun r => sortKey (text r nCol))
      fun a ha b hb => compareTexts_order tcstod acp oem (hitems a ha) (hitems b hb)
    refine ⟨sorted, hsort, hperm, hpair.imp_of_mem fun ha hb hab => ?_⟩
    have ha' := hitems _ (hperm.mem_iff.mp ha)
    have hb' := hitems _ (hperm.mem_iff.mp hb)
    exact eq_or_precedes ha'.1 hb'.1 hab
  | false =>
    have hcmp : ∀ a ∈ items, ∀ b ∈ items, compareProc tcstod acp oem text ⟨nCol, false⟩ a b =
        some (order (OrderDual.toDual (sortKey (text a nCol)))
          (OrderDual.toDual (sortKey (text b nCol)))) := by
      intro a ha b hb
      rw [order_toDual]
      exact compareTexts_order tcstod acp oem (hitems b hb) (hitems a ha)
    obtain ⟨sorted, hsort, hperm, hpair⟩ := sortItems.sorts_by
      (fun r => OrderDual.toDual (sortKey (text r nCol))) hcmp
    refine ⟨sorted, hsort, hperm, hpair.imp_of_mem fun ha hb hab => ?_⟩
    have ha' := hitems _ (hperm.mem_iff.mp ha)
    have hb' := hitems _ (hperm.mem_iff.mp hb)
    exact (eq_or_precedes hb'.1 ha'.1 hab).imp_left Eq.symm

/-- One click, on a list that may have been clicked on before. -/
theorem onColumnClick_spec (asc : Bool) (old nCol : Nat) {items : List ρ}
    (hitems : ∀ r ∈ items, IsAscii (text r nCol) ∧ (text r nCol).length ≤ 258) :
    ∃ sorted, onColumnClick tcstod acp oem text sortItems ⟨⟨old, asc⟩, items⟩ nCol =
        some ⟨⟨nCol, !asc⟩, sorted⟩ ∧ sorted.Perm items ∧
      sorted.Pairwise fun a b => InOrder (!asc) (text a nCol) (text b nCol) := by
  obtain ⟨sorted, hsort, hperm, hpair⟩ := sort_spec tcstod acp oem sortItems (!asc) hitems
  refine ⟨sorted, ?_, hperm, hpair⟩
  simp only [onColumnClick, if_true, hsort, Option.bind_eq_bind, Option.bind_some, Option.pure_def]

theorem clicks_perm (items : List ρ) (cols : List Nat)
    (hitems : ∀ c ∈ cols, ∀ r ∈ items, IsAscii (text r c) ∧ (text r c).length ≤ 258) :
    ∃ old l, cols.foldlM (onColumnClick tcstod acp oem text sortItems) ⟨.initial, items⟩ =
      some ⟨⟨old, cols.length % 2 = 0⟩, l⟩ ∧ l.Perm items := by
  induction cols using List.reverseRecOn with
  | nil => exact ⟨0, items, rfl, .refl items⟩
  | append_singleton cols col ih =>
    obtain ⟨old, l, hfold, hperm⟩ := ih fun c hc => hitems c (List.mem_append_left _ hc)
    have hl : ∀ r ∈ l, IsAscii (text r col) ∧ (text r col).length ≤ 258 := fun r hr =>
      hitems col (by simp) r (hperm.mem_iff.mp hr)
    obtain ⟨sorted, hclick, hperm', -⟩ := onColumnClick_spec tcstod acp oem sortItems
      (decide (cols.length % 2 = 0)) old col hl
    have hparity : (!decide (cols.length % 2 = 0)) = decide ((cols ++ [col]).length % 2 = 0) := by
      rw [List.length_append, List.length_singleton, ← decide_not, decide_eq_decide]
      omega
    refine ⟨col, sorted, ?_, hperm'.trans hperm⟩
    rw [List.foldlM_append, hfold, ← hparity]
    simp only [List.foldlM_cons, List.foldlM_nil, Option.bind_eq_bind, Option.bind_some, hclick]
    rfl

/-- After any clicks the list has the records it had, in the order of the column
clicked last: falling after an odd number of clicks, whichever columns they were
on, and rising after an even one. -/
theorem column_clicks (items : List ρ) (cols : List Nat) (col : Nat)
    (hitems : ∀ c ∈ cols ++ [col], ∀ r ∈ items, IsAscii (text r c) ∧ (text r c).length ≤ 258) :
    ∃ c, (cols ++ [col]).foldlM (onColumnClick tcstod acp oem text sortItems) ⟨.initial, items⟩ =
        some c ∧ c.items.Perm items ∧ c.helper.nSortColumn = col ∧
      (c.helper.bSortAscending = true ↔ (cols ++ [col]).length % 2 = 0) ∧
      c.items.Pairwise fun a b =>
        InOrder c.helper.bSortAscending (text a col) (text b col) := by
  obtain ⟨old, l, hfold, hperm⟩ := clicks_perm tcstod acp oem sortItems items cols fun c hc =>
    hitems c (List.mem_append_left _ hc)
  have hl : ∀ r ∈ l, IsAscii (text r col) ∧ (text r col).length ≤ 258 := fun r hr =>
    hitems col (by simp) r (hperm.mem_iff.mp hr)
  obtain ⟨sorted, hclick, hperm', hpair⟩ := onColumnClick_spec tcstod acp oem sortItems
    (decide (cols.length % 2 = 0)) old col hl
  refine ⟨⟨⟨col, !decide (cols.length % 2 = 0)⟩, sorted⟩, ?_, hperm'.trans hperm, rfl, ?_, hpair⟩
  · rw [List.foldlM_append, hfold]
    simp only [List.foldlM_cons, List.foldlM_nil, Option.bind_eq_bind, Option.bind_some, hclick]
    rfl
  · rw [List.length_append, List.length_singleton, ← decide_not, decide_eq_true_eq]
    omega

end

theorem notAbove_iff {ρ : Type} {cmp : ρ → ρ → Option Int} {a b : ρ} :
    (cmp a b).any (· ≤ 0) = true ↔ NotAbove cmp a b := by
  rw [Option.any_eq_true, NotAbove]
  simp only [decide_eq_true_eq]
  exact exists_congr fun v => and_comm

def mergeSortItems (ρ : Type) : SortItems ρ where
  sort cmp items :=
    some ((items.attach.mergeSort fun a b => (cmp a.1 b.1).any (· ≤ 0)).map Subtype.val)
  sorts cmp items hcons := by
    refine ⟨_, rfl, ?_, ?_⟩
    · have hperm := (List.mergeSort_perm items.attach
        fun a b => (cmp a.1 b.1).any (· ≤ 0)).map Subtype.val
      rwa [List.attach_map_subtype_val] at hperm
    · rw [List.pairwise_map]
      have htrans : ∀ a b c : { r // r ∈ items }, (cmp a.1 b.1).any (· ≤ 0) →
          (cmp b.1 c.1).any (· ≤ 0) → (cmp a.1 c.1).any (· ≤ 0) := by
        intro a b c hab hbc
        rw [notAbove_iff] at hab hbc ⊢
        exact hcons.trans a a.2 b b.2 c c.2 hab hbc
      have htotal : ∀ a b : { r // r ∈ items },
          (cmp a.1 b.1).any (· ≤ 0) || (cmp b.1 a.1).any (· ≤ 0) := by
        intro a b
        obtain ⟨v, hab, hba⟩ := hcons.opposite a a.2 b b.2
        rw [hab, hba]
        simp
        omega
      exact (List.pairwise_mergeSort htrans htotal items.attach).imp fun hab => notAbove_iff.mp hab

def sampleText (r : List String) (j : Nat) : List WChar := wide (r.getD j "")

theorem column_clicks_sample : ∃ c, [1, 1, 0].foldlM
    (onColumnClick ttoi64 asciiPage asciiPage sampleText (mergeSortItems (List String)))
      ⟨.initial, [["a", "9"], ["b", "10"]]⟩ = some c ∧ c.helper.bSortAscending = false := by
  have htexts : ∀ c ∈ [1, 1] ++ [0], ∀ r ∈ [["a", "9"], ["b", "10"]],
      IsAscii (sampleText r c) ∧ (sampleText r c).length ≤ 258 := by decide
  obtain ⟨c, hrun, -, -, hasc, -⟩ := column_clicks ttoi64 asciiPage asciiPage
    (mergeSortItems (List String)) [["a", "9"], ["b", "10"]] [1, 1] 0 htexts
  refine ⟨c, hrun, ?_⟩
  rw [← Bool.not_eq_true, hasc]
  decide

end SecProGIS
