import SecProGIS.Lib.Owning
import SecProGIS.TableRuns
import SecProGIS.WordHeap

/-! `_TABLE` on the heap: nodes that own arrays of cells that own texts, each a
block of its own, and what is left of them after a run. -/

namespace SecProGIS

open OwnedHeap (Heap Allocator Store)
open Owning (Rep Grown Freed Frees Many Chain Tidy)

structure RowObj where
  cell : Option Nat
  size : Int
deriving DecidableEq

structure TableObj where
  rows : Option Nat
  size : Int
deriving DecidableEq

/-- What a block is an array of. -/
inductive Item where
  | byte (b : u8)
  | cell (w : WordObj)
  | node (row : RowObj) (next : Option Nat)
deriving DecidableEq

namespace Item

def asByte : Item → Option u8
  | .byte b => some b
  | _ => none

def asCell : Item → Option WordObj
  | .cell w => some w
  | _ => none

def asNode : Item → Option (RowObj × Option Nat)
  | .node row next => some (row, next)
  | _ => none

end Item

abbrev Memory := Heap Item

def nodeBlock (row : RowObj) (next : Option Nat) : List Item := [.node row next]

def WordObj.view (h : Memory) (w : WordObj) : BaseWord :=
  ⟨w.content.bind fun p => (h.block p).bind fun b => b.mapM Item.asByte, w.len⟩

namespace Memory

variable (h : Memory) (new : Allocator Item)

/-- `delete`; no result for what is not, or no longer, allocated. -/
def free (p : Nat) : Option Memory := (h.block p).map fun _ => h.delete p

def nodeAt (p : Nat) : Option (RowObj × Option Nat) := do
  let b ← h.block p
  (← b[0]?).asNode

def cellAt (p i : Nat) : Option WordObj := do
  let b ← h.block p
  (← b[i]?).asCell

def setCell (p i : Nat) (w : WordObj) : Option Memory := do
  let b ← h.block p
  return h.set p (← Checked.write b i (.cell w))

end Memory

namespace WordObj

/-- `~BASE_WORD()`. -/
def destroy (w : WordObj) (h : Memory) : Option Memory := w.content.elim (some h) h.free

def clear (w : WordObj) (h : Memory) : Option (WordObj × Memory) := do
  return (.empty, ← w.content.elim (some h) h.free)

def readIn (new : Allocator Item) (w : WordObj) (src : Option Bytes) (l : Int) (h : Memory) :
    Option (WordObj × Memory) :=
  if l ≤ 0 then some (⟨none, 0⟩, h)
  else
    match src with
    | none => some (⟨none, 0⟩, h)
    | some src => do
      let r ← w.clear h
      let p := new.pick r.2
      let b ← Checked.readN src 0 l.toNat
      return (⟨some p, l⟩, r.2.set p ((b ++ [0, 0, 0]).map .byte))

end WordObj

namespace RowObj

def empty : RowObj := ⟨none, 0⟩

/-- `delete[] cell`. -/
def deleteCells (p : Nat) (h : Memory) : Option Memory := do
  let b ← h.block p
  let cells ← b.mapM Item.asCell
  let h : Memory ← cells.foldrM WordObj.destroy h
  h.free p

/-- `~T_ROW()`. -/
def destroy (r : RowObj) (h : Memory) : Option Memory :=
  r.cell.elim (some h) fun p => deleteCells p h

def clear (r : RowObj) (h : Memory) : Option (RowObj × Memory) := do
  return (.empty, ← r.cell.elim (some h) fun p => deleteCells p h)

/-- The loop of `read_in` from `i` on, for `n` turns. -/
def readCells (new : Allocator Item) (p : Nat) (src : List Cell) :
    Nat → Nat → Memory → Option Memory
  | _, 0, h => some h
  | i, n + 1, h => do
    let c ← src[i]?
    let w ← h.cellAt p i
    let r ← w.readIn new c (cstr (c.getD [])).length h
    readCells new p src (i + 1) n (← r.2.setCell p i r.1)

def readIn (new : Allocator Item) (r : RowObj) (src : Option (List Cell)) (size : Int)
    (h : Memory) : Option (RowObj × Memory) :=
  if size ≤ 0 then some (⟨none, 0⟩, h)
  else
    match src with
    | none => some (⟨none, 0⟩, h)
    | some src => do
      let r ← r.clear h
      let p := new.pick r.2
      let h := r.2.set p (List.replicate size.toNat (.cell .empty))
      return (⟨some p, size⟩, ← readCells new p src 0 size.toNat h)

/-- `operator []`; a row without cells divides by zero. -/
def get (r : RowObj) (h : Memory) (j : Int) : Option WordObj :=
  if r.size = 0 then none else r.cell.bind fun p => h.cellAt p (wrapIndex j r.size.toNat)

end RowObj

/-- `delete` of a node, whose destructor deletes the next one first. -/
def deleteNode : Nat → Nat → Memory → Option Memory
  | 0, _, _ => none
  | fuel + 1, p, h => do
    let n ← h.nodeAt p
    let h ← n.2.elim (some h) fun q => deleteNode fuel q h
    let h ← n.1.destroy h
    h.free p

/-- The `row` of the node `j` links on. -/
def rowAfter (h : Memory) : Nat → Option Nat → Option RowObj
  | _, none => none
  | 0, some p => (h.nodeAt p).map Prod.fst
  | j + 1, some p => (h.nodeAt p).bind fun n => rowAfter h j n.2

namespace TableObj

def empty : TableObj := ⟨none, 0⟩

/-- `~_TABLE()`; there are fewer nodes than the heap has addresses. -/
def destroy (t : TableObj) (h : Memory) : Option Memory :=
  t.rows.elim (some h) fun p => deleteNode h.bound p h

def clear (t : TableObj) (h : Memory) : Option (TableObj × Memory) := do
  return (.empty, ← t.rows.elim (some h) fun p => deleteNode h.bound p h)

def append (new : Allocator Item) (t : TableObj) (src : Option (List Cell)) (size : Int)
    (h : Memory) : Option (TableObj × Memory) := do
  let nrow := new.pick h
  let h : Memory := h.set nrow (nodeBlock .empty none)
  let n ← h.nodeAt nrow
  let r ← n.1.readIn new src size h
  return (⟨some nrow, t.size + 1⟩, r.2.set nrow (nodeBlock r.1 t.rows))

/-- `operator []`; a table without rows divides by zero. -/
def get (t : TableObj) (h : Memory) (i : Int) : Option RowObj :=
  if t.size = 0 then none
  else rowAfter h (t.size.toNat - 1 - wrapIndex i t.size.toNat) t.rows

/-- What `table[i][j]` holds. -/
def read (t : TableObj) (h : Memory) (i j : Int) : Option BaseWord := do
  let r ← t.get h i
  let w ← r.get h j
  return w.view h

/-- The loop over `mysql_fetch_row` in `exec_query_mysql`. -/
def fetch (new : Allocator Item) (t : TableObj) (h : Memory) :
    List (List Cell) → Option (TableObj × Memory)
  | [] => some (t, h)
  | row :: rows => do
    let r ← t.append new (some row) row.length h
    fetch new r.1 r.2 rows

end TableObj

/-- The texts that `append` reads, for an array of this size. -/
def rowSource (src : Option (List Cell)) (size : Int) : List Cell :=
  if size ≤ 0 then [] else (src.getD []).take size.toNat

theorem mapM_map_eq_some {α β : Type*} (f : β → Option α) (g : α → β)
    (hfg : ∀ x, f (g x) = some x) (l : List α) : (l.map g).mapM f = some l := by
  induction l with
  | nil => rfl
  | cons x l ih =>
    rw [List.map_cons, List.mapM_cons, hfg, ih]
    rfl

inductive WordAt (h : Memory) : WordObj → BaseWord → List Nat → Prop
  | null (l : Int) : WordAt h ⟨none, l⟩ ⟨none, l⟩ []
  | owned {p : Nat} {b : Bytes} (l : Int) (block : h.block p = some (b.map .byte)) :
      WordAt h ⟨some p, l⟩ ⟨some b, l⟩ [p]

def wordRep : Rep Item WordObj BaseWord where
  holds := WordAt
  frame hw heq := by
    cases hw with
    | null l => exact .null l
    | owned l block => exact .owned l ((heq _ (List.mem_singleton_self _)).trans block)
  alive hw := by
    cases hw with
    | null l => exact fun _ hp => absurd hp List.not_mem_nil
    | owned l block =>
      intro p hp
      rw [List.mem_singleton.mp hp, block]
      exact Option.some_ne_none _

inductive RowAt (h : Memory) : RowObj → TRow → List Nat → Prop
  | null : RowAt h .empty ⟨[]⟩ []
  | owned {p : Nat} {ws : List WordObj} {vs : List BaseWord} {fp : List Nat} (ne : vs ≠ [])
      (block : h.block p = some (ws.map .cell)) (cells : Many wordRep h ws vs fp) :
      RowAt h ⟨some p, vs.length⟩ ⟨vs⟩ (p :: fp)

def rowRep : Rep Item RowObj TRow where
  holds := RowAt
  frame hr heq := by
    cases hr with
    | null => exact .null
    | owned ne block cells =>
      refine .owned ne ((heq _ List.mem_cons_self).trans block) (wordRep.many.frame cells ?_)
      exact fun p hp => heq p (List.mem_cons_of_mem _ hp)
  alive hr := by
    cases hr with
    | null => exact fun _ hp => absurd hp List.not_mem_nil
    | owned ne block cells =>
      intro p hp
      rcases List.mem_cons.mp hp with rfl | hp
      · rw [block]
        exact Option.some_ne_none _
      · exact wordRep.many.alive cells p hp

structure TableAt (h : Memory) (t : TableObj) (v : Table) (fp : List Nat) : Prop where
  chain : Chain rowRep nodeBlock h t.rows v.rows fp
  size_eq : t.size = v.size
  length_eq : v.size = v.rows.length

def tableRep : Rep Item TableObj Table where
  holds := TableAt
  frame ht heq := ⟨(rowRep.chain nodeBlock).frame ht.chain heq, ht.size_eq, ht.length_eq⟩
  alive ht := (rowRep.chain nodeBlock).alive ht.chain

section

variable {h : Memory} {fp : List Nat}

theorem free_eq {p : Nat} (hp : h.block p ≠ none) : Memory.free h p = some (h.delete p) := by
  obtain ⟨b, hb⟩ := Option.ne_none_iff_exists'.mp hp
  rw [Memory.free, hb]
  rfl

theorem frees_word : Frees wordRep WordObj.destroy := by
  intro h w v fp hw hnodup
  cases hw with
  | null l => exact ⟨h, rfl, .refl h⟩
  | @owned p b l block =>
    have hp : h.block p ≠ none := by
      rw [block]
      exact Option.some_ne_none _
    exact ⟨h.delete p, free_eq hp, .delete h p⟩

theorem frees_row : Frees rowRep RowObj.destroy := by
  intro h r v fp hr hnodup
  cases hr with
  | null => exact ⟨h, rfl, .refl h⟩
  | @owned p ws vs fp ne block cells =>
    rw [List.nodup_cons] at hnodup
    obtain ⟨h', hrun, hfreed⟩ := frees_word.many cells hnodup.2
    have hp : h'.block p ≠ none := by
      rw [hfreed.block_eq p hnodup.1, block]
      exact Option.some_ne_none _
    refine ⟨h'.delete p, ?_, (hfreed.trans (.delete h' p)).perm List.perm_append_comm⟩
    have hcells := mapM_map_eq_some Item.asCell Item.cell (fun _ => rfl) ws
    have hrun' : ws.foldrM WordObj.destroy h = some h' := hrun
    simp only [RowObj.destroy, Option.elim_some, RowObj.deleteCells, block, Option.bind_eq_bind,
      Option.bind_some, hcells, hrun', free_eq hp]

theorem deleteNode_spec {fuel p : Nat} {vs : List TRow}
    (hc : Chain rowRep nodeBlock h (some p) vs fp) (hnodup : fp.Nodup) (hfuel : vs.length ≤ fuel) :
    ∃ h', deleteNode fuel p h = some h' ∧ Freed h h' fp := by
  induction fuel generalizing p vs fp with
  | zero =>
    cases hc
    simp at hfuel
  | succ fuel ih =>
    cases hc with
    | @cons _ row next v fp vs fps block head tail =>
      rw [List.nodup_cons] at hnodup
      obtain ⟨hp, hnodup⟩ := hnodup
      rw [List.mem_append, not_or] at hp
      obtain ⟨hfp, hfps, hapart⟩ := List.nodup_append.mp hnodup
      have hnode : Memory.nodeAt h p = some (row, next) := by
        rw [Memory.nodeAt, block]
        rfl
      have hnext : ∃ h1, next.elim (some h) (fun q => deleteNode fuel q h) = some h1 ∧
          Freed h h1 fps := by
        cases next with
        | none =>
          cases tail
          exact ⟨h, rfl, .refl h⟩
        | some q => exact ih tail hfps (by simpa using hfuel)
      obtain ⟨h1, hrun, hfreed⟩ := hnext
      have hkept : ∀ q ∈ fp, h1.block q = h.block q := fun q hq =>
        hfreed.block_eq q fun hq' => hapart q hq q hq' rfl
      obtain ⟨h2, hrow, hfreed'⟩ := frees_row (rowRep.frame head hkept) hfp
      have halive : h2.block p ≠ none := by
        rw [hfreed'.block_eq p hp.1, hfreed.block_eq p hp.2, block]
        exact Option.some_ne_none _
      refine ⟨h2.delete p, ?_, ((hfreed.trans hfreed').trans (.delete h2 p)).perm ?_⟩
      · simp only [deleteNode, hnode, Option.bind_eq_bind, Option.bind_some, hrun, hrow,
          free_eq halive]
      · have hswap : (fps ++ fp).Perm (fp ++ fps) := List.perm_append_comm
        exact List.perm_append_comm.trans (hswap.cons p)

theorem frees_table : Frees tableRep TableObj.destroy := by
  rintro h ⟨rows, size⟩ ⟨vrows, vsize⟩ fp ⟨hc, -, -⟩ hnodup
  have hfuel := hc.length_le.trans
    (Owning.length_le_bound hnodup ((rowRep.chain nodeBlock).alive hc))
  cases rows with
  | none =>
    cases hc
    exact ⟨h, rfl, .refl h⟩
  | some p => exact deleteNode_spec hc hnodup hfuel

end

section

variable {h h0 : Memory} {fp : List Nat} (new : Allocator Item)

theorem wordReadIn_spec (h : Memory) (c : Cell) :
    ∃ w h' fp, WordObj.empty.readIn new c (cstr (c.getD [])).length h = some (w, h') ∧
      WordAt h' w (TRow.readCell c) fp ∧ Grown h h' fp := by
  by_cases hl : ((cstr (c.getD [])).length : Int) ≤ 0
  · have hnull : TRow.readCell c = ⟨none, 0⟩ := if_pos hl
    refine ⟨⟨none, 0⟩, h, [], if_pos hl, ?_, .refl h⟩
    rw [hnull]
    exact .null 0
  · cases c with
    | none => exact absurd (Int.le_refl 0) hl
    | some b =>
      have hlen : 0 + (cstr b).length ≤ b.length := by
        have := (List.takeWhile_prefix (l := b) (· ≠ 0)).length_le
        rw [cstr]
        omega
      have hblock : BaseWord.block b (cstr b).length = b.take (cstr b).length ++ [0, 0, 0] := by
        rw [BaseWord.block, List.takeD_eq_take 0 (by omega)]
      refine ⟨⟨some (new.pick h), (cstr b).length⟩, _, [new.pick h], ?_, ?_,
        .set_fresh (new.pick_free h) ((BaseWord.block b (cstr b).length).map .byte)⟩
      · rw [Option.getD_some] at hl ⊢
        rw [WordObj.readIn, if_neg hl, hblock]
        simp only [WordObj.clear, WordObj.empty, Option.elim_none, Option.bind_eq_bind,
          Option.bind_some, Option.pure_def, Int.toNat_natCast, Checked.readN_eq hlen,
          List.drop_zero]
      · rw [Option.getD_some] at hl
        rw [TRow.readCell, Option.getD_some, BaseWord.readIn, if_neg hl]
        exact .owned _ (Heap.set_block_self ..)

theorem readCells_spec {p : Nat} {src : List Cell} {i n : Nat} {ws : List WordObj}
    {vs : List BaseWord} (hg : Grown h0 h (p :: fp))
    (hblock : h.block p = some (ws.map .cell ++ List.replicate n (.cell .empty)))
    (hm : Many wordRep h ws vs fp) (hi : ws.length = i) (hn : i + n ≤ src.length) :
    ∃ h' ws' fp', RowObj.readCells new p src i n h = some h' ∧ Grown h0 h' (p :: fp') ∧
      h'.block p = some (ws'.map .cell) ∧
      Many wordRep h' ws' (vs ++ ((src.drop i).take n).map TRow.readCell) fp' := by
  induction n generalizing i ws vs fp h with
  | zero =>
    refine ⟨h, ws, fp, rfl, hg, ?_, ?_⟩
    · rw [hblock, List.replicate_zero, List.append_nil]
    · rw [List.take_zero, List.map_nil, List.append_nil]
      exact hm
  | succ n ih =>
    have hlt : i < src.length := by omega
    have halive : ∀ q ∈ p :: fp, h.block q ≠ none := by
      intro q hq
      rcases List.mem_cons.mp hq with rfl | hq
      · rw [hblock]
        exact Option.some_ne_none _
      · exact wordRep.many.alive hm q hq
    obtain ⟨w, h1, fpw, hread, hw, hgrown⟩ := wordReadIn_spec new h src[i]
    have hp : p ∉ fpw := fun hp => halive p List.mem_cons_self (hgrown.fresh p hp)
    have hkept : ∀ q ∈ p :: fp, h1.block q = h.block q := fun q hq =>
      hgrown.block_eq q fun hq' => halive q hq (hgrown.fresh q hq')
    -- the array with the cell `i` read in
    let b : List Item := (ws ++ [w]).map .cell ++ List.replicate n (.cell .empty)
    have hset : Memory.setCell h1 p i w = some (h1.set p b) := by
      have hb := hkept p List.mem_cons_self
      rw [hblock] at hb
      have hwrite : Checked.write (ws.map .cell ++ List.replicate (n + 1) (.cell .empty)) i
          (Item.cell w) = some b := by
        rw [Checked.write, if_pos (by simp; omega), List.set_append_right _ _ (by simp; omega)]
        simp [b, hi, List.replicate_succ]
      rw [Memory.setCell, hb]
      simp only [Option.bind_eq_bind, Option.bind_some, hwrite, Option.pure_def]
    have hcell : Memory.cellAt h p i = some .empty := by
      rw [Memory.cellAt, hblock]
      simp [← hi, Item.asCell]
    have hg' : Grown h0 (h1.set p b) (p :: (fp ++ fpw)) :=
      (hg.trans halive hgrown).set_mem List.mem_cons_self b
    have hnotin : p ∉ fp ++ fpw := (List.nodup_cons.mp hg'.nodup).1
    rw [List.mem_append, not_or] at hnotin
    have hm' : Many wordRep (h1.set p b) (ws ++ [w]) (vs ++ [TRow.readCell src[i]])
        (fp ++ fpw) := by
      refine (wordRep.many.frame hm fun q hq => ?_).append
        (.singleton (wordRep.frame hw fun q hq => ?_))
      · have hq' : q ≠ p := fun he => hnotin.1 (he ▸ hq)
        rw [Heap.set_block_of_ne _ hq', hkept q (List.mem_cons_of_mem p hq)]
      · have hq' : q ≠ p := fun he => hp (he ▸ hq)
        rw [Heap.set_block_of_ne _ hq']
    obtain ⟨h', ws', fp', hrun, hgrown', hblock', hm''⟩ :=
      ih hg' (Heap.set_block_self ..) hm' (by simp [hi]) (by omega : i + 1 + n ≤ src.length)
    refine ⟨h', ws', fp', ?_, hgrown', hblock', ?_⟩
    · simp only [RowObj.readCells, List.getElem?_eq_getElem hlt, Option.bind_eq_bind,
        Option.bind_some, hcell, hread, hset, hrun]
    · rwa [List.drop_eq_getElem_cons hlt, List.take_succ_cons, List.map_cons,
        ← List.singleton_append, ← List.append_assoc]

theorem rowReadIn_spec (h : Memory) {src : Option (List Cell)} {size : Int}
    (hsize : 0 < size → ∀ s ∈ src, size ≤ s.length) :
    ∃ r h' fp, RowObj.empty.readIn new src size h = some (r, h') ∧
      RowAt h' r (TRow.readIn (rowSource src size)) fp ∧ Grown h h' fp := by
  by_cases hpos : size ≤ 0
  · have hnil : rowSource src size = [] := if_pos hpos
    rw [hnil]
    exact ⟨.empty, h, [], if_pos hpos, .null, .refl h⟩
  · cases src with
    | none =>
      have hnil : rowSource none size = [] := by
        rw [rowSource, if_neg hpos]
        exact List.take_nil
      rw [hnil]
      exact ⟨.empty, h, [], if_neg hpos, .null, .refl h⟩
    | some src =>
      have hlen : size ≤ src.length := hsize (by omega) src rfl
      have hsrc : rowSource (some src) size = src.take size.toNat := if_neg hpos
      let p := new.pick h
      obtain ⟨h', ws, fp, hrun, hgrown, hblock, hm⟩ := readCells_spec (n := size.toNat) new
        (Grown.set_fresh (new.pick_free h) (List.replicate size.toNat (.cell .empty)))
        (Heap.set_block_self ..) (.nil (R := wordRep)) rfl (by omega : 0 + size.toNat ≤ src.length)
      rw [List.nil_append, List.length_nil, List.drop_zero] at hm
      rw [List.length_nil] at hrun
      refine ⟨⟨some p, size⟩, h', p :: fp, ?_, ?_, hgrown⟩
      · rw [RowObj.readIn, if_neg hpos]
        simp only [RowObj.clear, RowObj.empty, Option.elim_none, Option.bind_eq_bind,
          Option.bind_some, Option.pure_def, hrun, p]
      · have hcount : ((src.take size.toNat).map TRow.readCell).length = size.toNat := by
          rw [List.length_map, List.length_take]
          omega
        have hne : (src.take size.toNat).map TRow.readCell ≠ [] := by
          intro hnil
          rw [hnil, List.length_nil] at hcount
          omega
        have hat := RowAt.owned hne hblock hm
        rw [hcount, Int.toNat_of_nonneg (by omega)] at hat
        rw [hsrc]
        exact hat

theorem append_spec {t : TableObj} {v : Table} (ht : TableAt h t v fp)
    {src : Option (List Cell)} {size : Int} (hsize : 0 < size → ∀ s ∈ src, size ≤ s.length) :
    ∃ t' h' fp', t.append new src size h = some (t', h') ∧ Grown h h' fp' ∧
      TableAt h' t' (v.append (rowSource src size)) (fp' ++ fp) := by
  let p := new.pick h
  let h1 : Memory := h.set p (nodeBlock .empty none)
  have hg : Grown h h1 [p] := .set_fresh (new.pick_free h) _
  have hself : h1.block p = some (nodeBlock .empty none) := Heap.set_block_self ..
  obtain ⟨r, h2, fpr, hread, hrow, hgrown⟩ := rowReadIn_spec new h1 hsize
  have hboth : Grown h h2 (p :: fpr) := hg.trans (fun q hq => by
    rw [List.mem_singleton.mp hq, hself]
    exact Option.some_ne_none _) hgrown
  have hlast := hboth.set_mem List.mem_cons_self (nodeBlock r t.rows)
  have hp : p ∉ fpr := (List.nodup_cons.mp hboth.nodup).1
  refine ⟨⟨some p, t.size + 1⟩, h2.set p (nodeBlock r t.rows), p :: fpr, ?_, hlast, ?_, ?_, ?_⟩
  · have hnode : Memory.nodeAt h1 p = some (.empty, none) := by
      rw [Memory.nodeAt, hself]
      rfl
    simp only [TableObj.append, Option.bind_eq_bind]
    rw [hnode, Option.bind_some, hread]
    rfl
  · refine .cons (Heap.set_block_self ..) (rowRep.frame hrow fun q hq => ?_)
      ((rowRep.chain nodeBlock).frame ht.chain fun q hq => ?_)
    · have hne : q ≠ p := fun he => hp (he ▸ hq)
      exact Heap.set_block_of_ne _ hne _
    · refine hlast.block_eq q fun hq' => ?_
      exact tableRep.alive ht q hq (hlast.fresh q hq')
  · simp only [Table.append, ht.size_eq, Nat.cast_add, Nat.cast_one]
  · simp only [Table.append, List.length_cons, ht.length_eq]

theorem fetch_spec {t : TableObj} {v : Table} (ht : TableAt h t v fp)
    (rows : List (List Cell)) :
    ∃ t' h' fp', t.fetch new h rows = some (t', h') ∧ Grown h h' fp' ∧
      TableAt h' t' (v.appendAll rows) (fp' ++ fp) := by
  induction rows generalizing t v fp h with
  | nil => exact ⟨t, h, [], rfl, .refl h, ht⟩
  | cons row rows ih =>
    have hsrc : rowSource (some row) row.length = row := by
      cases row with
      | nil => rfl
      | cons c row =>
        rw [rowSource, if_neg (by simp only [List.length_cons]; omega)]
        exact List.take_length
    have hfit : 0 < (row.length : Int) → ∀ s ∈ some row, (row.length : Int) ≤ s.length := by simp
    obtain ⟨t1, h1, fp1, happ, hg, hat⟩ := append_spec new ht hfit
    rw [hsrc] at hat
    obtain ⟨t2, h2, fp2, hrest, hg', hat'⟩ := ih hat
    have halive : ∀ p ∈ fp1, h1.block p ≠ none := fun p hp =>
      tableRep.alive hat p (List.mem_append_left _ hp)
    refine ⟨t2, h2, fp2 ++ fp1, ?_, ?_, ?_⟩
    · simp only [TableObj.fetch, happ, Option.bind_eq_bind, Option.bind_some, hrest]
    · exact (hg.trans halive hg').perm List.perm_append_comm
    · rw [List.append_assoc]
      exact hat'

end

section

variable {h : Memory} {fp : List Nat}

theorem WordAt.view_eq {w : WordObj} {v : BaseWord} (hw : WordAt h w v fp) : w.view h = v := by
  cases hw with
  | null l => rfl
  | @owned p b l block =>
    have hbytes := mapM_map_eq_some Item.asByte Item.byte (fun _ => rfl) b
    simp only [WordObj.view, Option.bind_some, block, hbytes]

theorem RowAt.get_eq {r : RowObj} {v : TRow} (hr : RowAt h r v fp) (j : Int) :
    (r.get h j).map (WordObj.view h) = v.get j := by
  cases hr with
  | null => rfl
  | @owned p ws vs fp ne block cells =>
    have hpos : 0 < vs.length := List.length_pos_of_ne_nil ne
    have hsize : TRow.getSize ⟨vs⟩ = vs.length := rfl
    have hlt : wrapIndex j vs.length < vs.length := by
      rw [wrapIndex_eq_emod j hpos]
      have hlow := Int.emod_nonneg j (by omega : (vs.length : Int) ≠ 0)
      have hhigh := Int.emod_lt_of_pos j (by omega : (0 : Int) < vs.length)
      omega
    obtain ⟨w, fpw, hw, hword⟩ := cells.getElem? (List.getElem?_eq_getElem hlt)
    have hcell : Memory.cellAt h p (wrapIndex j vs.length) = some w := by
      rw [Memory.cellAt, block]
      simp only [Option.bind_eq_bind, Option.bind_some, List.getElem?_map, hw, Option.map_some,
        Item.asCell]
    rw [RowObj.get, if_neg (by simp only; omega), TRow.get, hsize, if_neg (by omega),
      List.getElem?_eq_getElem hlt, ← hword.view_eq]
    simp only [Option.bind_some, Int.toNat_natCast, hcell, Option.map_some]

theorem rowAfter_eq {o : Option Nat} {vs : List TRow} (hc : Chain rowRep nodeBlock h o vs fp)
    {j : Nat} {v : TRow} (hv : vs[j]? = some v) :
    ∃ r fp, rowAfter h j o = some r ∧ RowAt h r v fp := by
  induction hc generalizing j with
  | nil => cases hv
  | @cons p row next v' fp vs fps block head tail ih =>
    have hnode : Memory.nodeAt h p = some (row, next) := by
      rw [Memory.nodeAt, block]
      rfl
    cases j with
    | zero =>
      cases hv
      exact ⟨row, fp, by rw [rowAfter, hnode]; rfl, head⟩
    | succ j =>
      rw [rowAfter, hnode]
      exact ih hv

theorem TableAt.read_eq {t : TableObj} {v : Table} (ht : TableAt h t v fp) (i j : Int) :
    t.read h i j = (v.get i).bind fun r => r.get j := by
  obtain ⟨hc, hsize, hlen⟩ := ht
  by_cases hzero : v.size = 0
  · have ht0 : t.get h i = none := if_pos (by omega)
    have hv0 : v.get i = none := if_pos hzero
    rw [TableObj.read, ht0, hv0]
    rfl
  · have hpos : 0 < v.size := by omega
    have hlow := Int.emod_nonneg i (by omega : (v.size : Int) ≠ 0)
    have hhigh := Int.emod_lt_of_pos i (by omega : (0 : Int) < v.size)
    have hlt : v.size - 1 - wrapIndex i v.size < v.rows.length := by omega
    have hrow := List.getElem?_eq_getElem hlt
    obtain ⟨r, fpr, hafter, hat⟩ := rowAfter_eq hc hrow
    have hget : t.get h i = some r := by
      rw [TableObj.get, if_neg (by omega), hsize, Int.toNat_natCast, hafter]
    rw [TableObj.read, hget, Table.get, if_neg hzero, hrow]
    simp only [Option.bind_eq_bind, Option.bind_some, ← hat.get_eq j]
    cases r.get h j with
    | none => rfl
    | some w => rfl

end

inductive TableAct (ι : Type) where
  | construct (i : ι)
  | append (i : ι) (src : Option (List Cell)) (size : Int)
  | query (i : ι) (c : Call) (res : Option (List (List Cell)))
  | clear (i : ι)
  | destroy (i : ι)

/-- `exec_query_mysql` into a table, from `mysql_store_result` on. -/
def TableObj.query (new : Allocator Item) (t : TableObj) (c : Call)
    (res : Option (List (List Cell))) (h : Memory) : Option (TableObj × Memory) :=
  if c.code ≠ 0 then some (t, h) else res.bind (t.fetch new h)

abbrev TableStore (ι : Type) := Store ι TableObj Item

section

variable {ι : Type} [DecidableEq ι]

namespace TableStore

def put (s : TableStore ι) (i : ι) : Option (TableObj × Memory) → TableStore ι × Option Unit
  | none => (s, some ())
  | some (t, h) => (⟨Function.update s.obj i (some t), h⟩, none)

/-- One action; a result is an access or a deletion of what is not there. -/
def step (new : Allocator Item) (s : TableStore ι) : TableAct ι → TableStore ι × Option Unit
  | .construct i => s.put i (some (.empty, s.heap))
  | .append i src size => s.put i ((s.obj i).bind fun t => t.append new src size s.heap)
  | .query i c res => s.put i ((s.obj i).bind fun t => t.query new c res s.heap)
  | .clear i => s.put i ((s.obj i).bind fun t => t.clear s.heap)
  | .destroy i =>
    match (s.obj i).bind fun t => t.destroy s.heap with
    | none => (s, some ())
    | some h => (⟨Function.update s.obj i none, h⟩, none)

end TableStore

/-- What the tables are to hold. -/
def seeTables (v : ι → Option Table) (_ : TableStore ι) : TableAct ι → ι → Option Table
  | .construct i => Function.update v i (some .empty)
  | .append i src size => Function.update v i ((v i).map fun t => t.append (rowSource src size))
  | .query i c res => Function.update v i ((v i).map fun t => (t.step (.query c res)).1)
  | .clear i => Function.update v i ((v i).map Table.clear)
  | .destroy i => Function.update v i none

/-- Every variable is constructed before it is used and once only, the arrays
that are read have the size they are given with, and a query that succeeds gives
a result set: `mysql_fetch_row` is not called on `NULL`. -/
def Scoped (v : ι → Option Table) : TableAct ι → Prop
  | .construct i => v i = none
  | .append i src size => v i ≠ none ∧ (0 < size → ∀ s ∈ src, size ≤ s.length)
  | .query i c res => v i ≠ none ∧ (c.code = 0 → res ≠ none)
  | .clear i => v i ≠ none
  | .destroy i => v i ≠ none

def TidyTables (p : TableStore ι × (ι → Option Table)) : Prop := ∃ fp, Tidy tableRep p.1 p.2 fp

variable (new : Allocator Item) {s : TableStore ι} {v : ι → Option Table} {owns : ι → List Nat}

theorem tidy_put (hs : Tidy tableRep s v owns) {i : ι} {x : Table} {t : TableObj} {h : Memory}
    {fp : List Nat} (hg : Grown s.heap h fp) (ht : TableAt h t x (fp ++ owns i)) :
    (s.put i (some (t, h))).2 = none ∧
      TidyTables ((s.put i (some (t, h))).1, Function.update v i (some x)) :=
  ⟨rfl, _, hs.grow hg ht⟩

theorem tidy_step (hs : Tidy tableRep s v owns) (act : TableAct ι) (hact : Scoped v act) :
    (s.step new act).2 = none ∧ TidyTables ((s.step new act).1, seeTables v s act) := by
  cases act with
  | construct i =>
    obtain ⟨_, howns⟩ := hs.obj_none hact
    refine tidy_put hs (.refl s.heap) ?_
    rw [howns]
    exact ⟨.nil, rfl, rfl⟩
  | append i src size =>
    obtain ⟨x, hx⟩ := Option.ne_none_iff_exists'.mp hact.1
    obtain ⟨t, hobj, ht⟩ := hs.obj_some hx
    obtain ⟨t', h', fp', hrun, hg, hat⟩ := append_spec new ht hact.2
    rw [TableStore.step, seeTables, hobj, hx, Option.bind_some, hrun]
    exact tidy_put hs hg hat
  | query i c res =>
    obtain ⟨x, hx⟩ := Option.ne_none_iff_exists'.mp hact.1
    obtain ⟨t, hobj, ht⟩ := hs.obj_some hx
    rw [TableStore.step, seeTables, hobj, hx, Option.bind_some, Option.map_some, TableObj.query,
      Table.step, execQueryMysqlStored]
    by_cases hc : c.code = 0
    · obtain ⟨rows, rfl⟩ := Option.ne_none_iff_exists'.mp (hact.2 hc)
      obtain ⟨t', h', fp', hrun, hg, hat⟩ := fetch_spec new ht rows
      rw [if_neg (not_not.mpr hc), if_neg (not_not.mpr hc), Option.bind_some, hrun,
        Option.map_some, Table.fetch_eq]
      exact tidy_put hs hg hat
    · rw [if_pos hc, if_pos hc]
      exact tidy_put hs (.refl s.heap) ht
  | clear i =>
    obtain ⟨x, hx⟩ := Option.ne_none_iff_exists'.mp hact
    obtain ⟨t, hobj, ht⟩ := hs.obj_some hx
    obtain ⟨h', hrun, hfreed⟩ := frees_table ht (hs.nodup i)
    have hclear : t.clear s.heap = some (.empty, h') := by
      rw [TableObj.destroy] at hrun
      rw [TableObj.clear, hrun]
      rfl
    rw [TableStore.step, seeTables, hobj, hx, Option.bind_some, hclear]
    exact ⟨rfl, _, hs.free hfreed ⟨.nil, rfl, rfl⟩⟩
  | destroy i =>
    obtain ⟨x, hx⟩ := Option.ne_none_iff_exists'.mp hact
    obtain ⟨t, hobj, ht⟩ := hs.obj_some hx
    obtain ⟨h', hrun, hfreed⟩ := frees_table ht (hs.nodup i)
    have hbind : (s.obj i).bind (fun t => t.destroy s.heap) = some h' := by
      rw [hobj]
      exact hrun
    rw [TableStore.step, hbind]
    exact ⟨rfl, _, hs.free hfreed rfl⟩

/-- In every run of tables that are used in scope, where a query that succeeds
gives a result set, nothing is accessed or deleted that is not there. Each block
has one owner among the tables that still exist, each of which reads back, at
every index, as the list of its rows. -/
theorem table_heap_run (acts : List (TableAct ι))
    (hacts : EventLoop.Along (EventLoop.watched (TableStore.step new) seeTables)
      (fun p act => Scoped p.2 act) (⟨fun _ => none, .empty⟩, fun _ => none) acts) :
    let r := EventLoop.loop (EventLoop.watched (TableStore.step new) seeTables)
      (⟨fun _ => none, .empty⟩, fun _ => none) acts
    let s := r.1.1
    let v := r.1.2
    r.2 = none ∧ (∃ fp, Tidy tableRep s v fp) ∧
    (∀ i x, v i = some x → ∃ t, s.obj i = some t ∧ t.size = x.size ∧
      ∀ j k, t.read s.heap j k = (x.get j).bind fun row => row.get k) ∧
    ((∀ i, v i = none) → ∀ p, s.heap.block p = none) := by
  intro r s v
  have hstart : TidyTables ((⟨fun _ => none, .empty⟩, fun _ => none) :
      TableStore ι × (ι → Option Table)) := ⟨_, .empty⟩
  have hstep : ∀ (p : TableStore ι × (ι → Option Table)) act, Scoped p.2 act → TidyTables p →
      TidyTables (EventLoop.watched (TableStore.step new) seeTables p act).1 :=
    fun _ act hact ⟨_, hp⟩ => (tidy_step new hp act hact).2
  have hend : r.2 = none := by
    rw [EventLoop.loop_snd_eq_none]
    refine (hacts.with_invariant hstep hstart).imp fun p act h => ?_
    obtain ⟨hact, _, hp⟩ := h
    exact (tidy_step new hp act hact).1
  obtain ⟨fp, htidy⟩ : TidyTables (s, v) := hacts.loop_invariant hstep hstart
  refine ⟨hend, ⟨fp, htidy⟩, fun i x hx => ?_, fun hnone p => ?_⟩
  · obtain ⟨t, hobj, ht⟩ := htidy.obj_some hx
    exact ⟨t, hobj, ht.size_eq, ht.read_eq⟩
  · by_contra hp
    obtain ⟨i, hi⟩ := htidy.owned p hp
    rw [(htidy.obj_none (hnone i)).2] at hi
    exact List.not_mem_nil hi

def lowAllocator : Allocator Item := ⟨fun h => h.bound, fun h => h.block_eq_none _ (Nat.le_refl _)⟩

def sampleActs : List (TableAct Bool) :=
  [.construct true, .append true (some [some [97, 98], none]) 2, .construct false,
    .append false none 3, .query true answered (some [[some [99]]]), .clear false, .destroy true,
    .destroy false]

theorem table_heap_run_sample :
    (EventLoop.loop (EventLoop.watched (TableStore.step lowAllocator) seeTables)
      (⟨fun _ => none, .empty⟩, fun _ => none) sampleActs).1.1.heap.block 0 = none := by
  refine (table_heap_run lowAllocator sampleActs ?_).2.2.2 (fun i => ?_) 0
  · refine ⟨rfl, fun _ => ⟨⟨?_, ?_⟩, fun _ => ⟨rfl, fun _ => ⟨⟨?_, ?_⟩, fun _ => ⟨⟨?_, ?_⟩, fun _ =>
      ⟨?_, fun _ => ⟨?_, fun _ => ⟨?_, fun _ => trivial⟩⟩⟩⟩⟩⟩⟩⟩
    all_goals simp [EventLoop.watched, seeTables, Scoped]
  · cases i <;> rfl

end

end SecProGIS
