import SecProGIS.WordRuns
import SecProGIS.SqlShape

/-! The key that `KM_SK::generate` leaves in an object: counted, as a C string,
as `store()` puts it into its statement, and as `get_cont` copies it. -/

namespace SecProGIS

open OwnedHeap (Heap Allocator)

def Alnum (c : u8) : Prop :=
  48 ≤ c.toNat ∧ c.toNat ≤ 57 ∨ 65 ≤ c.toNat ∧ c.toNat ≤ 90 ∨ 97 ≤ c.toNat ∧ c.toNat ≤ 122

theorem Alnum.ne {c d : u8} (h : Alnum c)
    (hd : d.toNat < 48 ∨ 57 < d.toNat ∧ d.toNat < 65 ∨ 90 < d.toNat ∧ d.toNat < 97) : c ≠ d := by
  rintro rfl
  unfold Alnum at h
  omega

theorem keyText_alnum (rand : Nat → Int) (n : Nat) : ∀ c ∈ keyText rand n, Alnum c := by
  intro c hc
  obtain ⟨i, _, rfl⟩ := List.mem_map.mp hc
  obtain ⟨v, hv, hrange⟩ := keyChar_alnum (rand (2 * i)) (rand (2 * i + 1))
  have hnat : (keyChar (rand (2 * i)) (rand (2 * i + 1))).toNat = v := by
    rw [hv, BitVec.toNat_ofNat]
    exact Nat.mod_eq_of_lt (by omega)
  unfold Alnum
  rw [hnat]
  exact hrange

theorem getCont_of_block {ι : Type} {s : WordStore ι} {i : ι} {p q : Nat} {key d : Bytes}
    (hobj : s.obj i = some ⟨some p, key.length⟩) (hblock : s.heap.block p = some (key ++ [0, 0, 0]))
    (hkey : key ≠ []) (hd : s.heap.block q = some d) (hroom : key.length ≤ d.length) :
    s.getCont i (some q) = some (0, { s with heap := s.heap.set q (key ++ d.drop key.length) }) := by
  have hpos : (0 : Int) < key.length := by
    have := List.length_pos_of_ne_nil hkey
    omega
  have hone : (⟨some p, key.length⟩ : WordObj).isempty = 1 :=
    WordObj.isempty_eq_one.mpr ⟨hpos, Option.some_ne_none p⟩
  have hfront : (key ++ [0, 0, 0]).take key.length = key := List.take_left' rfl
  have hcopy : Checked.copyN (key ++ [0, 0, 0]) 0 key.length d =
      some (key ++ d.drop key.length) := by
    rw [Checked.copyN_eq (by rw [List.length_append]; omega) (by omega), List.drop_zero, hfront,
      Checked.splice, List.take_zero, List.nil_append, Nat.zero_add]
  have hsource : s.block WordObj.content ⟨some p, key.length⟩ = some (key ++ [0, 0, 0]) := hblock
  simp only [WordStore.getCont, hobj, hone, hsource, hd, Option.bind_eq_bind, Option.bind_some,
    Int.toNat_natCast, hcopy]
  rfl

/-- Whatever an object held, a generated key of `n` characters is alphanumeric and
terminated, its C string is the whole key, and so is what `get_cont` copies. -/
theorem generated_key {ι : Type} [DecidableEq ι] (new : Allocator u8) (s : WordStore ι) (i : ι)
    (w : WordObj) (hw : s.obj i = some w) (rand : Nat → Int) (n : Nat) (hn : 0 < n) :
    ∃ (t : WordStore ι) (p : Nat) (key : Bytes), s.generate new i rand n = some t ∧
      t.obj i = some ⟨some p, n⟩ ∧ t.heap.block p = some (key ++ [0, 0, 0]) ∧
      (⟨some p, n⟩ : WordObj).isempty = 1 ∧ key.length = n ∧ (∀ c ∈ key, Alnum c) ∧
      cstr (key ++ [0, 0, 0]) = key ∧
      SqlText.quote ∉ key ∧ SqlText.backslash ∉ key ∧
      (∀ (serv : KmServ) cs, t.view i = some serv.skey →
        serv.skey.text = key ∧ SqlText.plain cs serv.skey.text = true) ∧
      ∀ q d, q ≠ p → t.heap.block q = some d → n ≤ d.length →
        ∃ t', t.getCont i (some q) = some (0, t') ∧
          t'.heap.block q = some (key ++ d.drop n) := by
  let c := if w.len ≠ 0 ∨ w.content ≠ none then s.clear i else s
  let p := new.pick c.heap
  let key := keyText rand n
  let t := c.put i ⟨some p, n⟩ (c.heap.set p (key ++ [0, 0, 0]))
  have halnum : ∀ x ∈ key, Alnum x := keyText_alnum rand n
  have hlen : key.length = n := keyText_length rand n
  have hobj : t.obj i = some ⟨some p, n⟩ := Function.update_self ..
  have hblock : t.heap.block p = some (key ++ [0, 0, 0]) := Heap.set_block_self ..
  have hcstr : cstr (key ++ [0, 0, 0]) = key :=
    cstr_append_zero (fun x hx => (halnum x hx).ne (by decide)) _
  have hquote : ∀ x ∈ key, x ≠ SqlText.quote ∧ x ≠ SqlText.backslash := fun x hx =>
    ⟨(halnum x hx).ne (by decide), (halnum x hx).ne (by decide)⟩
  refine ⟨t, p, key, WordStore.generate_of_pos new hw rand (by omega), hobj, hblock, ?_, hlen,
    halnum, hcstr, fun h => (hquote _ h).1 rfl, fun h => (hquote _ h).2 rfl, ?_, ?_⟩
  · exact WordObj.isempty_eq_one.mpr ⟨show (0 : Int) < n by omega, Option.some_ne_none p⟩
  · intro serv cs hview
    have hserv : serv.skey = ⟨some (key ++ [0, 0, 0]), n⟩ :=
      Option.some.inj (hview.symm.trans (WordStore.view_put_block p _ n))
    have htext : serv.skey.text = key := by
      rw [hserv]
      exact hcstr
    rw [htext]
    exact ⟨rfl, SqlText.plain_of_forall hquote⟩
  · intro q d _ hd hroom
    have hkey : key ≠ [] := List.ne_nil_of_length_pos (by omega)
    refine ⟨_, getCont_of_block (by rw [hlen]; exact hobj) hblock hkey hd (by omega), ?_⟩
    rw [hlen]
    exact Heap.set_block_self ..

theorem generated_key_over_text : ∃ t p key, sampleStore.generate bumpAllocator true
    (fun k => -(k : Int)) 5 = some t ∧ t.heap.block p = some (key ++ [0, 0, 0]) ∧
      key.length = 5 ∧ cstr (key ++ [0, 0, 0]) = key := by
  obtain ⟨t, p, key, ht, -, hblock, -, hlen, -, hcstr, -⟩ := generated_key bumpAllocator
    sampleStore true ⟨some 0, 2⟩ rfl (fun k => -(k : Int)) 5 (by decide)
  exact ⟨t, p, key, ht, hblock, hlen, hcstr⟩

end SecProGIS
