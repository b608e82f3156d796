import SecProGIS.ServiceTable

/-! Storing a service and restoring it: `store()` writes the characters of the
key, `restore()` takes them for hexadecimal digits and halves the length. -/

namespace SecProGIS

namespace KmServ

theorem hexDecode_append {b : Bytes} {n : Nat} (h : 2 * n ≤ b.length) (c : Bytes) :
    hexDecode (b ++ c) n = hexDecode b n := by
  refine List.map_congr_left fun i hi => ?_
  have hi' := List.mem_range.mp hi
  simp only [List.getD_eq_getElem?_getD]
  rw [List.getElem?_append_left (by omega), List.getElem?_append_left (by omega)]

def restoredKey (c : Cell) : BaseWord :=
  let skeyH := cstr (c.getD [])
  BaseWord.readIn (some (hexDecode skeyH (skeyH.length / 2))) ↑(skeyH.length / 2)

theorem readCell_restoredKey (c : Cell) :
    let key := TRow.readCell c
    BaseWord.readIn (some (hexDecode (key.content.getD []) (key.len.tdiv 2).toNat))
      (key.len.tdiv 2) = restoredKey c := by
  intro key
  let l := (cstr (c.getD [])).length
  have hkey : key = BaseWord.readIn c l := rfl
  have hhalf : (l : Int).tdiv 2 = ↑(l / 2) := by
    rw [Int.tdiv_eq_ediv_of_nonneg (by omega)]
    rfl
  by_cases hl : l = 0
  · have hempty : key = ⟨none, 0⟩ := by simp [hkey, hl, BaseWord.readIn]
    have hright : restoredKey c = ⟨none, 0⟩ := by
      have hz : (cstr (c.getD [])).length = 0 := hl
      simp [restoredKey, hz, BaseWord.readIn]
    rw [hright, hempty]
    rfl
  · cases c with
    | none => exact absurd rfl hl
    | some b =>
      obtain ⟨rest, hrest⟩ : cstr b <+: b := List.takeWhile_prefix _
      have hb : l = (cstr b).length := rfl
      have hblock : b.takeD l 0 = cstr b := by
        have h := List.takeD_left (cstr b) rest 0
        rwa [hrest] at h
      have hlong : key = ⟨some (cstr b ++ [0, 0, 0]), l⟩ := by
        rw [hkey, BaseWord.readIn, if_neg (by omega), ← hblock]
        rfl
      rw [hlong]
      simp only [Option.getD_some, hhalf, Int.toNat_natCast]
      rw [hexDecode_append (by omega)]
      rfl

/-- The text that `get_cont(tmpexp, 16)` leaves in the sixteen zeros. -/
def restoredExpire (c : Cell) : Bytes :=
  cstr ((TRow.readCell c).getContMax (Vector.replicate 16 0) 16).2.toList

theorem restoreRowBy_readIn (toInt : Bytes → Int) (s : KmServ) (row : Rows.Row Column Bytes) :
    ∃ r, s.restoreRowBy toInt (TRow.readIn (serviceColumns.map row)) = some r ∧
      (r.1 = 0 ↔ (TRow.readCell (row .md5P)).len ≠ 0 ∧ (restoredKey (row .skey)).len ≠ 0 ∧
        (TRow.readCell (row .expire)).isempty = 1) ∧
      (r.1 = 0 → r.2.md5Plaint = TRow.readCell (row .md5P) ∧
        r.2.skey = restoredKey (row .skey) ∧ r.2.expireT = toInt (restoredExpire (row .expire))) := by
  have hsize : (TRow.readIn (serviceColumns.map row)).getSize = 9 := rfl
  have h1 : (TRow.readIn (serviceColumns.map row)).get 1 = some (TRow.readCell (row .md5P)) :=
    TRow.readIn_get (i := 1) (by simp [serviceColumns])
  have h3 : (TRow.readIn (serviceColumns.map row)).get 3 = some (TRow.readCell (row .skey)) :=
    TRow.readIn_get (i := 3) (by simp [serviceColumns])
  have h4 : (TRow.readIn (serviceColumns.map row)).get 4 = some (TRow.readCell (row .expire)) :=
    TRow.readIn_get (i := 4) (by simp [serviceColumns])
  have hself : BaseWord.readIn (TRow.readCell (row .md5P)).content (TRow.readCell (row .md5P)).len =
    TRow.readCell (row .md5P) := BaseWord.readIn_readIn _ _
  simp only [restoreRowBy, hsize, h1, h3, h4, Option.pure_def, Option.bind_eq_bind,
    Option.bind_some, hself, readCell_restoredKey]
  rw [if_neg (by decide)]
  by_cases hm : (TRow.readCell (row .md5P)).len = 0
  · simp [hm]
  · by_cases hk : (restoredKey (row .skey)).len = 0
    · simp [hm, hk]
    · by_cases he : (TRow.readCell (row .expire)).isempty = 1
      · simp [hm, hk, he, BaseWord.getContMax, restoredExpire]
      · simp [hm, hk, he, BaseWord.getContMax]

section

variable (conf : KmConf) (s : KmServ) (sel : Call) (db : Db Column)

theorem restoreRows_rowsAfter :
    restoreRows conf.skTable (Function.update db (cstr conf.skTable) (s.rowsAfter conf sel db))
        s.orgnization s.md5Cipher.text =
      if sel.code = 0 ∧ Rows.select s.existing (db (cstr conf.skTable)) ≠ [] then
        (Rows.select s.existing (db (cstr conf.skTable))).map (Rows.assign (s.stored conf))
      else restoreRows conf.skTable db s.orgnization s.md5Cipher.text ++
        [Rows.assign ((.md5C, s.md5Cipher.text) :: s.stored conf) fun _ => none] := by
  have horg : ∀ r : Rows.Row Column Bytes, Rows.assign (s.stored conf) r .org =
      some (Decimal.intText s.orgnization) := fun r => Rows.assign_of_lookup rfl r
  rw [restoreRows, Function.update_self, rowsAfter]
  split
  · rw [Rows.select_and, existing, Rows.select_update_same (stored_lookup_md5C conf s)]
    refine List.filter_eq_self.mpr fun r hr => ?_
    obtain ⟨r0, _, rfl⟩ := List.mem_map.mp hr
    simp [horg]
  · let new : Rows.Row Column Bytes :=
      Rows.assign ((.md5C, s.md5Cipher.text) :: s.stored conf) fun _ => none
    have hdigest : new .md5C = some s.md5Cipher.text := Rows.assign_of_lookup rfl _
    have horg : new .org = some (Decimal.intText s.orgnization) := Rows.assign_of_lookup rfl _
    have hnew : Rows.holds [(.md5C, s.md5Cipher.text), (.org, Decimal.intText s.orgnization)]
        new = true := by
      simp [hdigest, horg]
    rw [Rows.insert, Rows.select_append, Rows.select_singleton, if_pos hnew]
    rfl

end

/-- The key text a store writes never restores to the key: it is taken for
half as many bytes. -/
theorem restoredKey_text_ne {w : BaseWord} {k : Bytes} (hw : w.Holds k) (hk : ∀ c ∈ k, c ≠ 0) :
    restoredKey (some w.text) ≠ w := by
  intro h
  have hpos := List.length_pos_of_ne_nil hw.2
  have hlen := congrArg BaseWord.len h
  have hself : cstr k = k := cstr_eq hk
  rw [hw.text_eq hk, hw.1] at hlen
  simp only [restoredKey, Option.getD_some, hself] at hlen
  by_cases hone : k.length / 2 = 0
  · rw [hone] at hlen
    simp only [BaseWord.readIn, Nat.cast_zero, le_refl, if_true] at hlen
    omega
  · rw [BaseWord.readIn_len (by omega)] at hlen
    omega

def RestoresTo (s : KmServ) (row : Rows.Row Column Bytes) : Prop :=
  TRow.readCell (row .md5P) = s.md5Plaint ∧ restoredKey (row .skey) = s.skey ∧
    (TRow.readCell (row .expire)).isempty = 1

theorem restoreRowBy_restoresTo {s : KmServ} (hp : s.md5Plaint.isempty = 1)
    (hk : s.skey.isempty = 1) (fresh : KmServ) (row : Rows.Row Column Bytes) :
    (∃ s', fresh.restoreRowBy atoi (TRow.readIn (serviceColumns.map row)) = some (0, s') ∧
      s'.md5Plaint = s.md5Plaint ∧ s'.skey = s.skey) ↔ s.RestoresTo row := by
  obtain ⟨⟨code, s'⟩, hr, hcode, hwords⟩ := restoreRowBy_readIn atoi fresh row
  constructor
  · rintro ⟨s'', hs'', hmd5, hkey⟩
    obtain ⟨rfl, rfl⟩ := Prod.mk.inj (Option.some.inj (hr.symm.trans hs''))
    obtain ⟨hw1, hw2, -⟩ := hwords rfl
    exact ⟨hw1.symm.trans hmd5, hw2.symm.trans hkey, (hcode.mp rfl).2.2⟩
  · rintro ⟨hmd5, hkey, hexp⟩
    have hzero : code = 0 := hcode.mpr ⟨by rw [hmd5]; exact (BaseWord.isempty_eq_one.mp hp).1.ne',
      by rw [hkey]; exact (BaseWord.isempty_eq_one.mp hk).1.ne', hexp⟩
    obtain ⟨hw1, hw2, -⟩ := hwords hzero
    exact ⟨s', by rw [hr, hzero], hw1.trans hmd5, hw2.trans hkey⟩

/-- What a fresh service restores is decided by the first row it finds. -/
theorem ofCipher_restore_iff {conf : KmConf} {s : KmServ} {md5C : BaseWord} {c : Call}
    (hp : s.md5Plaint.isempty = 1) (hm : md5C.isempty = 1) (hk : s.skey.isempty = 1)
    (hconf : conf.configured) (hc : c.code = 0) {db : Db Column} {mem : Int × Int} :
    (∃ s', (ofCipher s.orgnization md5C mem).restore conf c db = some (0, s') ∧
      s'.md5Plaint = s.md5Plaint ∧ s'.skey = s.skey) ↔
    ∃ row, (restoreRows conf.skTable db s.orgnization md5C.copy.text).head? = some row ∧
      s.RestoresTo row := by
  have hrestore := restoreBy_eq atoi conf (ofCipher s.orgnization md5C mem) c db
    (BaseWord.copy_isempty hm) hconf hc
  have horg : (ofCipher s.orgnization md5C mem).orgnization = s.orgnization := rfl
  have htext : (ofCipher s.orgnization md5C mem).md5Cipher.text = md5C.copy.text := rfl
  rw [restore, hrestore, horg, htext]
  cases (restoreRows conf.skTable db s.orgnization md5C.copy.text).head? with
  | none => simp
  | some row => simp only [restoreRowBy_restoresTo hp hk, Option.some.injEq, exists_eq_left']

/-- After a store that returned 0, restoring gives the stored digest and key
back only from an older row that the store's failed select did not see. -/
theorem store_restore_iff (conf : KmConf) (s : KmServ) (rng : Rng) (now : Int) {n : Nat}
    (hn : 0 < n) (hkey : s.skey = generate rng now n) (md5C : BaseWord) (enctm : Int)
    (sel wr c : Call) (hc : c.code = 0) (db : Db Column) (mem : Int × Int)
    (hstore : (s.store conf md5C enctm sel wr db).1 = 0) :
    (∃ s', (ofCipher s.orgnization md5C mem).restore conf c
        (s.store conf md5C enctm sel wr db).2.2 = some (0, s') ∧
      s'.md5Plaint = s.md5Plaint ∧ s'.skey = s.skey) ↔
    sel.code ≠ 0 ∧ ∃ row, (restoreRows conf.skTable db s.orgnization md5C.copy.text).head? =
      some row ∧ s.RestoresTo row := by
  have hok := (store_fst_eq_zero conf s sel wr db md5C enctm).mp hstore
  obtain ⟨hp, hm, hk, hconf⟩ := isempty_of_accepts conf s md5C enctm hok.1
  have hrows := restoreRows_rowsAfter conf (s.withCipher md5C enctm) sel db
  have hnew : ∀ vs r, vs.lookup Column.skey = some s.skey.text →
      ¬ s.RestoresTo (Rows.assign vs r) := by
    intro vs r hv hr
    have hkey' := hr.2.1
    rw [Rows.assign_of_lookup hv r] at hkey'
    have hholds := generate_holds rng now hn
    rw [← hkey] at hholds
    exact restoredKey_text_ne hholds (fun _ => keyText_ne_zero) hkey'
  rw [ofCipher_restore_iff hp hm hk hconf hc, store_db, if_pos hok]
  have hrows' : restoreRows conf.skTable (Function.update db (cstr conf.skTable)
      ((s.withCipher md5C enctm).rowsAfter conf sel db)) s.orgnization md5C.copy.text = _ := hrows
  rw [hrows']
  split
  · rename_i hupd
    obtain ⟨r0, rs, hr0⟩ := List.exists_cons_of_ne_nil hupd.2
    have hold := hnew (stored conf (s.withCipher md5C enctm)) r0 rfl
    simp [hr0, hold, hupd.1]
  · rename_i hins
    cases hbefore : restoreRows conf.skTable db s.orgnization md5C.copy.text with
    | nil =>
      have hb : restoreRows conf.skTable db (s.withCipher md5C enctm).orgnization
          (s.withCipher md5C enctm).md5Cipher.text = [] := hbefore
      have hold := hnew ((.md5C, (s.withCipher md5C enctm).md5Cipher.text) ::
        stored conf (s.withCipher md5C enctm)) (fun _ => none) rfl
      simp [hb, hold]
    | cons r0 rs =>
      have hb : restoreRows conf.skTable db (s.withCipher md5C enctm).orgnization
          (s.withCipher md5C enctm).md5Cipher.text = r0 :: rs := hbefore
      have hsel : sel.code ≠ 0 := by
        intro hz
        refine hins ⟨hz, fun hnone => ?_⟩
        have hand := Rows.select_and Column.md5C md5C.copy.text
          [(Column.org, Decimal.intText s.orgnization)] (db (cstr conf.skTable))
        have hex : Rows.select [(Column.md5C, md5C.copy.text)] (db (cstr conf.skTable)) = [] :=
          hnone
        rw [hex] at hand
        rw [restoreRows, hand] at hbefore
        simp [Rows.select] at hbefore
      simp [hb, hsel]

def hexRow : Rows.Row Column Bytes :=
  Rows.assign [(.org, ascii "1"), (.md5P, List.replicate 64 0x62),
    (.md5C, List.replicate 64 0x61), (.skey, Hex.text (List.replicate 16 0x30)),
    (.expire, ascii "1700000000")] fun _ => none

theorem store_restore_hexRow : ∃ s', (ofCipher 1 sampleDigest (0, 0)).restore ⟨ascii "service", 1⟩
    answered ((sampleServ 1).store ⟨ascii "service", 1⟩ sampleDigest 1600000000 offline answered
      fun _ => [hexRow]).2.2 = some (0, s') ∧
    s'.md5Plaint = (sampleServ 1).md5Plaint ∧ s'.skey = (sampleServ 1).skey :=
  (store_restore_iff ⟨ascii "service", 1⟩ (sampleServ 1) (fun _ _ => 0) 0 (by decide : 0 < 16) rfl
    sampleDigest 1600000000 offline answered answered (by decide) (fun _ => [hexRow]) (0, 0)
    (by decide)).mpr
    ⟨by decide, hexRow, rfl, by decide, by decide, by decide⟩

/-- The store returns 0, but what is restored is no key of sixteen bytes. -/
theorem store_restore_sample :
    let st := (sampleServ 1).store ⟨ascii "service", 1⟩ sampleDigest 1600000000 answered answered
      fun _ => []
    st.1 = 0 ∧ ¬ ∃ s', (ofCipher 1 sampleDigest (0, 0)).restore ⟨ascii "service", 1⟩ answered
      st.2.2 = some (0, s') ∧ s'.md5Plaint = (sampleServ 1).md5Plaint ∧ s'.skey = (sampleServ 1).skey := by
  refine ⟨by decide, ?_⟩
  rintro ⟨s', hs', -, hkey⟩
  have hlen : ((ofCipher 1 sampleDigest (0, 0)).restore ⟨ascii "service", 1⟩ answered
      ((sampleServ 1).store ⟨ascii "service", 1⟩ sampleDigest 1600000000 answered answered
        fun _ => []).2.2).map (fun r => r.2.skey.len) = some 8 := by decide
  rw [hs', Option.map_some, hkey] at hlen
  exact absurd hlen (by decide)

end KmServ

end SecProGIS
