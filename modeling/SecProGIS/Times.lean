import SecProGIS.EncryptFile
import SecProGIS.KeyRoundTrip
import SecProGIS.ViewDlg

/-! The two times of a row: `store()` prints 64-bit numbers, `restore()` and
`AddEncList` read them back with conversions to `int`. -/

namespace SecProGIS

open Decimal (intText)

/-- What is documented of `atoi` and `_ttoi`: the result is an `int`, and the
text of an `int` gives that `int`. -/
structure TextToInt where
  toInt : Bytes → Int
  le_toInt : ∀ b, -2 ^ 31 ≤ toInt b
  toInt_lt : ∀ b, toInt b < 2 ^ 31
  toInt_intText : ∀ n : Int, -2 ^ 31 ≤ n → n < 2 ^ 31 → toInt (intText n) = n

namespace TextToInt

theorem atoi_eq (b : Bytes) : atoi b = max (-2 ^ 31) (min (2 ^ 31 - 1) (Decimal.value b)) := rfl

def saturating : TextToInt where
  toInt := atoi
  le_toInt b := by
    rw [atoi_eq]
    exact le_max_left _ _
  toInt_lt b := by
    rw [atoi_eq]
    omega
  toInt_intText n hlow hhigh := by
    rw [atoi_eq, Decimal.value_intText]
    omega

def wrapping : TextToInt where
  toInt b := (BitVec.ofInt 32 (Decimal.value b)).toInt
  le_toInt b := BitVec.le_toInt _
  toInt_lt b := BitVec.toInt_lt
  toInt_intText n hlow hhigh := by
    rw [Decimal.value_intText, BitVec.toInt_ofInt]
    exact Int.bmod_eq_of_le (by omega) (by omega)

theorem toInt_intText_iff (conv : TextToInt) {n : Int} (h : -2 ^ 31 ≤ n) :
    conv.toInt (intText n) = n ↔ n < 2 ^ 31 := by
  constructor
  · intro he
    rw [← he]
    exact conv.toInt_lt _
  · exact conv.toInt_intText n h

end TextToInt

theorem TRow.readCell_holds {b : Bytes} (hne : b ≠ []) (hb : ∀ c ∈ b, c ≠ 0) :
    (TRow.readCell (some b)).Holds b := by
  have hself : cstr b = b := cstr_eq hb
  have hheld := TRow.readCell_holds_cstr (b := b) (by rwa [hself])
  rwa [hself] at hheld

namespace KmServ

theorem restoredExpire_eq {b : Bytes} (hne : b ≠ []) (hb : ∀ c ∈ b, c ≠ 0) (hlen : b.length < 16) :
    restoredExpire (some b) = b := by
  have hheld := TRow.readCell_holds hne hb
  have hmin : ¬ (16 : Int) < b.length := by omega
  have htake : (b ++ [0, 0, 0]).take b.length = b := List.take_left
  have hzeros : (Vector.replicate 16 (0 : u8)).toList.drop b.length =
      0 :: List.replicate (15 - b.length) 0 := by
    rw [Vector.toList_replicate, List.drop_replicate, ← List.replicate_succ]
    congr 1
    omega
  rw [restoredExpire, BaseWord.getContMax, if_neg (by simp [hheld.isempty_eq]), hheld.1]
  simp only [hmin, if_false, Option.getD_some, Int.toNat_natCast, htake]
  rw [blit_toList (by omega), List.take_zero, List.nil_append, Nat.zero_add, hzeros,
    cstr_append_zero hb]

theorem restoredKey_len {k : Bytes} (hk : ∀ c ∈ k, c ≠ 0) (hlen : 2 ≤ k.length) :
    (restoredKey (some k)).len ≠ 0 := by
  have hself : cstr k = k := cstr_eq hk
  rw [restoredKey, Option.getD_some, hself, BaseWord.readIn_len (by omega)]
  omega

end KmServ

/-- What a row holds after a store of `OnEncryptFile`. -/
structure WrittenRow (row : Rows.Row Column Bytes) (o t e : Int) (p c : Bytes) : Prop where
  org_eq : row .org = some (intText o)
  md5P_eq : row .md5P = some (Hex.text (sm3 p))
  md5C_eq : row .md5C = some (Hex.text (sm3 c))
  skey_eq : ∃ k, row .skey = some k ∧ k.length = 16 ∧ ∀ b ∈ k, b ≠ 0
  expire_eq : row .expire = some (intText t)
  encTm_eq : row .encTm = some (intText e)

section

variable {o t e : Int} {p c : Bytes} {row : Rows.Row Column Bytes}

theorem written_row {rng : Rng} {now mem : Int} {conf : KmConf} {sel wr : Call} {db : Db Column}
    (hstore : ((fileServOf o p t mem rng now).store conf (hexWord (sm3 c)) e sel wr db).1 = 0) :
    ∃ row, (Rows.select [(.md5C, Hex.text (sm3 c))]
        (((fileServOf o p t mem rng now).store conf (hexWord (sm3 c)) e sel wr db).2.2
          (cstr conf.skTable))).getLast? = some row ∧
      WrittenRow row o t e p c := by
  let s := (fileServOf o p t mem rng now).withCipher (hexWord (sm3 c)) e
  have hok := (KmServ.store_fst_eq_zero conf _ sel wr db (hexWord (sm3 c)) e).mp hstore
  have htext : ∀ b, (hexWord (sm3 b)).copy.text = Hex.text (sm3 b) := by
    intro b
    have hholds := hexWord_holds (sm3_length b)
    rw [hholds.copy_eq, hholds.text_eq fun _ => Hex.ne_zero_of_mem]
  have hkey : s.skey.text = keyText (rng (BitVec.ofInt 32 now)) 16 :=
    (generate_holds rng now (by decide : 0 < 16)).text_eq fun _ => keyText_ne_zero
  obtain ⟨row, hlast, hcols⟩ := KmServ.rowsAfter_last conf s sel db
  have hexisting : s.existing = [(.md5C, Hex.text (sm3 c))] := by
    rw [← htext c]
    rfl
  rw [hexisting] at hlast
  refine ⟨row, ?_, hcols .org _ rfl, ?_, ?_, ?_, hcols .expire _ rfl, hcols .encTm _ rfl⟩
  · rw [KmServ.store_db, if_pos hok, Function.update_self]
    exact hlast
  · rw [← htext p]
    exact hcols .md5P _ rfl
  · have hmem := List.mem_of_getLast? hlast
    simpa using (List.mem_filter.mp hmem).2
  · have hskey := hcols .skey _ rfl
    rw [hkey] at hskey
    exact ⟨_, hskey, keyText_length _ _, fun _ => keyText_ne_zero⟩

theorem WrittenRow.restoreRowBy_eq (h : WrittenRow row o t e p c)
    (ht : (intText t).length < 16) (toInt : Bytes → Int) (fresh : KmServ) :
    ∃ s', fresh.restoreRowBy toInt (TRow.readIn (serviceColumns.map row)) = some (0, s') ∧
      s'.expireT = toInt (intText t) := by
  have hdigest : Hex.text (sm3 p) ≠ [] := by
    apply List.ne_nil_of_length_pos
    rw [Hex.text_length, sm3_length]
    decide
  obtain ⟨k, hk, hklen, hkz⟩ := h.skey_eq
  have htext := Decimal.intText_ne_nil t
  have hz : ∀ b ∈ intText t, b ≠ 0 := fun _ => Decimal.ne_zero_of_mem
  obtain ⟨⟨code, s'⟩, hr, hcode, hwords⟩ := KmServ.restoreRowBy_readIn toInt fresh row
  have hzero : code = 0 := by
    apply hcode.mpr
    rw [h.md5P_eq, hk, h.expire_eq]
    refine ⟨?_, ?_, (TRow.readCell_holds htext hz).isempty_eq⟩
    · have hone := (TRow.readCell_holds hdigest fun _ => Hex.ne_zero_of_mem).isempty_eq
      exact (BaseWord.isempty_eq_one.mp hone).1.ne'
    · exact KmServ.restoredKey_len hkz (by omega)
  obtain ⟨-, -, hexp⟩ := hwords hzero
  rw [h.expire_eq, KmServ.restoredExpire_eq htext hz ht] at hexp
  exact ⟨s', by rw [hr, hzero], hexp⟩

end

def encRow (row : Rows.Row Column Bytes) (orgName : Cell) : EncRow :=
  ⟨row .md5P, row .expire, row .encTm, row .fname, row .rmrk, orgName⟩

def RestoresTime (atoi : TextToInt) (row : Rows.Row Column Bytes) (t : Int) : Prop :=
  ∀ (conf : KmConf) (s : KmServ) (c : Call) (db : Db Column), conf.configured →
    s.md5Cipher.isempty = 1 → c.code = 0 →
    (restoreRows conf.skTable db s.orgnization s.md5Cipher.text).head? = some row →
    ∃ s', s.restoreBy atoi.toInt conf c db = some (0, s') ∧ s'.expireT = t

def ListsTimes (ttoi : TextToInt) (row : Rows.Row Column Bytes) (t e : Int) : Prop :=
  ∀ (managerName : List Char) (adminID : Int) (q : EncQuery) (items : List EncItem) (i : Nat)
    (orgName : Cell), q.call.code = 0 →
    addEncList ttoi.toInt managerName adminID q = some items →
    (q.rows (encListSql (intText adminID)))[i]? = some (encRow row orgName) →
    ∃ item, items[i]? = some item ∧ item.deadline = t ∧ item.encTime = e

theorem cstr_intText (n : Int) : cstr (intText n) = intText n :=
  cstr_eq fun _ => Decimal.ne_zero_of_mem

section

variable {o t e : Int} {p c : Bytes} {row : Rows.Row Column Bytes}

theorem WrittenRow.listsTimes_iff (ttoi : TextToInt) (h : WrittenRow row o t e p c) :
    ListsTimes ttoi row t e ↔ ttoi.toInt (intText t) = t ∧ ttoi.toInt (intText e) = e := by
  have hitem : ∀ managerName orgName, ((encRow row orgName).item ttoi.toInt managerName).deadline =
      ttoi.toInt (intText t) ∧
      ((encRow row orgName).item ttoi.toInt managerName).encTime = ttoi.toInt (intText e) := by
    intro managerName orgName
    simp only [EncRow.item, encRow, h.expire_eq, h.encTm_eq, Option.getD_some, cstr_intText, and_self]
  constructor
  · intro hlists
    let q : EncQuery := ⟨answered, fun _ => [encRow row none]⟩
    have hq : q.call.code = 0 := (by decide : answered.code = 0)
    have hlen : (intText 0).length = 1 := by decide
    have hlist : addEncList ttoi.toInt [] 0 q = some [(encRow row none).item ttoi.toInt []] := by
      rw [addEncList_eq _ _ hq, if_neg (by rw [encListSql_length, hlen]; decide)]
      rfl
    obtain ⟨item, hget, hdead, htime⟩ := hlists [] 0 q _ 0 none hq hlist rfl
    obtain rfl := Option.some.inj hget
    exact ⟨(hitem [] none).1.symm.trans hdead, (hitem [] none).2.symm.trans htime⟩
  · rintro ⟨hdead, htime⟩ managerName adminID q items i orgName hq hitems hrow
    rw [addEncList_eq _ _ hq] at hitems
    split at hitems
    · exact absurd hitems (by simp)
    · obtain rfl := Option.some.inj hitems
      refine ⟨(encRow row orgName).item ttoi.toInt managerName, ?_, ?_, ?_⟩
      · rw [List.getElem?_map, hrow, Option.map_some]
      · rw [(hitem _ _).1, hdead]
      · rw [(hitem _ _).2, htime]

theorem WrittenRow.restoresTime_iff (atoi : TextToInt) (h : WrittenRow row o t e p c)
    (ht : (intText t).length < 16) :
    RestoresTime atoi row t ↔ atoi.toInt (intText t) = t := by
  have hrestore : ∀ (conf : KmConf) (s : KmServ) (c : Call) (db : Db Column), conf.configured →
      s.md5Cipher.isempty = 1 → c.code = 0 →
      (restoreRows conf.skTable db s.orgnization s.md5Cipher.text).head? = some row →
      ∃ s', s.restoreBy atoi.toInt conf c db = some (0, s') ∧
        s'.expireT = atoi.toInt (intText t) := by
    intro conf s c db hconf hs hc hhead
    rw [KmServ.restoreBy_eq atoi.toInt conf s c db hs hconf hc, hhead]
    exact h.restoreRowBy_eq ht atoi.toInt s
  constructor
  · intro hrestores
    -- a service that looks for the row in a table of its own
    let s := KmServ.ofCipher o (hexWord (sm3 c)) (0, 0)
    have hholds := hexWord_holds (sm3_length c)
    have hs : s.md5Cipher.isempty = 1 := BaseWord.copy_isempty hholds.isempty_eq
    have htext : s.md5Cipher.text = Hex.text (sm3 c) := by
      have hcopy : s.md5Cipher = hexWord (sm3 c) := hholds.copy_eq
      rw [hcopy, hholds.text_eq fun _ => Hex.ne_zero_of_mem]
    have horg : s.orgnization = o := rfl
    have hhead : (restoreRows (ascii "service") (fun _ => [row]) s.orgnization
        s.md5Cipher.text).head? = some row := by
      rw [htext, horg, restoreRows, Rows.select_singleton, if_pos]
      · rfl
      · simp [h.md5C_eq, h.org_eq]
    obtain ⟨s1, hs1, ht1⟩ := hrestores ⟨ascii "service", 0⟩ s answered _ (by decide) hs (by decide)
      hhead
    obtain ⟨s2, hs2, ht2⟩ := hrestore ⟨ascii "service", 0⟩ s answered _ (by decide) hs (by decide)
      hhead
    have hsame : s1 = s2 := (Prod.mk.inj (Option.some.inj (hs1.symm.trans hs2))).2
    rw [← ht2, ← hsame, ht1]
  · intro hconv conf s c db hconf hs hc hhead
    obtain ⟨s', hs', ht'⟩ := hrestore conf s c db hconf hs hc hhead
    exact ⟨s', hs', ht'.trans hconv⟩

end

/-- The times of a stored row are read back as they were exactly when both are
numbers of an `int`: until January 2038. -/
theorem times_survive_iff (atoi ttoi : TextToInt) (o : Int) (p c : Bytes) (t e mem : Int)
    (ht : 0 ≤ t ∧ t ≤ 32535215999) (he : 0 ≤ e ∧ e ≤ 32535215999) (rng : Rng) (now : Int)
    (conf : KmConf) (sel wr : Call) (db : Db Column)
    (hstore : ((fileServOf o p t mem rng now).store conf (hexWord (sm3 c)) e sel wr db).1 = 0) :
    ∃ row, (Rows.select [(.md5C, Hex.text (sm3 c))]
        (((fileServOf o p t mem rng now).store conf (hexWord (sm3 c)) e sel wr db).2.2
          (cstr conf.skTable))).getLast? = some row ∧
      (RestoresTime atoi row t ∧ ListsTimes ttoi row t e ↔ t < 2 ^ 31 ∧ e < 2 ^ 31) := by
  obtain ⟨row, hlast, hrow⟩ := written_row hstore
  have hlen := Decimal.intText_length (i := t) (k := 11) (by decide) (by omega) (by omega)
  refine ⟨row, hlast, ?_⟩
  rw [hrow.restoresTime_iff atoi (by omega), hrow.listsTimes_iff ttoi,
    atoi.toInt_intText_iff (by omega), ttoi.toInt_intText_iff (by omega),
    ttoi.toInt_intText_iff (by omega)]
  exact ⟨fun h => h.2, fun h => ⟨h.1, h⟩⟩

theorem fileServOf_store {o t : Int} {p c : Bytes} (ht : t ≠ 0) (e mem : Int) (rng : Rng)
    (now : Int) (conf : KmConf) (hconf : conf.configured = true) (sel wr : Call)
    (hwr : wr.code = 0) (db : Db Column) :
    ((fileServOf o p t mem rng now).store conf (hexWord (sm3 c)) e sel wr db).1 = 0 :=
  (KmServ.store_fst_eq_zero conf _ sel wr db _ e).mpr
    ⟨(fileServOf_accepts_iff o p t mem rng now hconf c e).mpr ht, hwr⟩

theorem times_survive_2023 :
    ∃ row, (Rows.select [(.md5C, Hex.text (sm3 [0x42]))]
        (((fileServOf 1 [0x41] 1700000000 0 (fun _ _ => 0) 0).store ⟨ascii "service", 1⟩
          (hexWord (sm3 [0x42])) 1699990000 answered answered fun _ => []).2.2
          (cstr (ascii "service")))).getLast? = some row ∧
      (RestoresTime .saturating row 1700000000 ∧
        ListsTimes .saturating row 1700000000 1699990000 ↔
          (1700000000 : Int) < 2 ^ 31 ∧ (1699990000 : Int) < 2 ^ 31) :=
  times_survive_iff .saturating .saturating 1 [0x41] [0x42] 1700000000 1699990000 0 (by decide)
    (by decide) (fun _ _ => 0) 0 ⟨ascii "service", 1⟩ answered answered (fun _ => [])
    (fileServOf_store (by decide) _ _ _ _ _ (by decide) _ _ (by decide) _)

/-- A deadline of the 19th of January 2038, one second after the last `int`:
neither a saturating nor a wrapping conversion gives it back. -/
theorem times_lost_2038 :
    let st := (fileServOf 1 [0x41] 2147483648 0 (fun _ _ => 0) 0).store ⟨ascii "service", 1⟩
      (hexWord (sm3 [0x42])) 1699990000 answered answered fun _ => []
    st.1 = 0 ∧ ∃ row, (Rows.select [(.md5C, Hex.text (sm3 [0x42]))]
        (st.2.2 (cstr (ascii "service")))).getLast? = some row ∧
      ∀ conv ∈ [TextToInt.saturating, TextToInt.wrapping],
        ¬ RestoresTime conv row 2147483648 ∧ ¬ ListsTimes conv row 2147483648 1699990000 := by
  have hstore := fileServOf_store (o := 1) (t := 2147483648) (p := [0x41]) (c := [0x42])
    (by decide) 1699990000 0 (fun _ _ => 0) 0 ⟨ascii "service", 1⟩ (by decide) answered answered
    (by decide) fun _ => []
  obtain ⟨row, hlast, hrow⟩ := written_row hstore
  have hlen := Decimal.intText_length (i := 2147483648) (k := 10) (by decide) (by decide)
    (by decide)
  refine ⟨hstore, row, hlast, fun conv _ => ⟨?_, ?_⟩⟩
  · rw [hrow.restoresTime_iff conv (by omega), conv.toInt_intText_iff (by decide)]
    decide
  · rw [hrow.listsTimes_iff conv, conv.toInt_intText_iff (by decide)]
    exact fun h => absurd h.1 (by decide)

end SecProGIS
