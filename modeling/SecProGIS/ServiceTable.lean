import SecProGIS.KM

/-! The key table under `store()`: every store puts the row of a cipher
digest, and what `restore()` then finds for a digest and an organisation. -/

namespace SecProGIS

namespace KmServ

variable (conf : KmConf) (s : KmServ) (sel wr : Call) (db : Db Column)

def rowsAfter : List (Rows.Row Column Bytes) :=
  if sel.code = 0 ∧ Rows.select s.existing (db (cstr conf.skTable)) ≠ [] then
    Rows.update (s.stored conf) s.existing (db (cstr conf.skTable))
  else Rows.insert ((.md5C, s.md5Cipher.text) :: s.stored conf) (db (cstr conf.skTable))

theorem lookup_getSize : (s.lookup conf sel db).getSize =
    if sel.code = 0 then (Rows.select s.existing (db (cstr conf.skTable))).length else 0 := by
  rw [lookup, execQueryMysqlInto_getSize, Db.result, List.length_map]

theorem insert_digest (m : Bytes) (t : List (Rows.Row Column Bytes)) :
    Rows.insert [(.org, Decimal.intText s.orgnization), (.md5P, s.md5Plaint.text), (.md5C, m),
        (.skey, s.skey.text), (.expire, Decimal.intText s.expireT),
        (.admin, Decimal.intText conf.admin), (.encTm, Decimal.intText s.encT)] t =
      Rows.insert ((.md5C, m) :: s.stored conf) t :=
  Rows.insert_congr (fun c => by cases c <;> rfl) t

theorem run_writing : (s.writing conf (s.lookup conf sel db)).run db =
    Function.update db (cstr conf.skTable) (s.rowsAfter conf sel db) := by
  have hsize := lookup_getSize conf s sel db
  rw [writing, rowsAfter]
  by_cases hsel : sel.code = 0
  · rw [if_pos hsel] at hsize
    by_cases hrows : Rows.select s.existing (db (cstr conf.skTable)) = []
    · rw [hrows] at hsize
      rw [if_pos (by rw [hsize]; decide), if_neg (by simp [hrows]), ← insert_digest]
      rfl
    · have hpos := List.length_pos_of_ne_nil hrows
      rw [if_neg (by omega), if_pos ⟨hsel, hrows⟩]
      rfl
  · rw [if_neg hsel] at hsize
    rw [if_pos (by rw [hsize]; decide), if_neg (by simp [hsel]), ← insert_digest]
    rfl

theorem storeRow_eq : s.storeRow conf sel wr db =
    if !s.storable conf then (-1, db)
    else if wr.code ≠ 0 then (-2, db)
    else (0, Function.update db (cstr conf.skTable) (s.rowsAfter conf sel db)) := by
  simp only [storeRow, execQueryMysql, run_writing]
  by_cases hs : s.storable conf <;> by_cases hw : wr.code = 0 <;> simp [hs, hw]

def withCipher (md5C : BaseWord) (enctm : Int) : KmServ :=
  { s with md5Cipher := md5C.copy, encT := enctm }

/-- The guards of both overloads of `store`. -/
def accepts (md5C : BaseWord) (enctm : Int) : Bool :=
  decide (md5C.isempty = 1) && (s.withCipher md5C enctm).storable conf

variable (md5C : BaseWord) (enctm : Int)

/-- A store that does not return 0 leaves the tables as they are. -/
theorem store_result :
    ((s.store conf md5C enctm sel wr db).1, (s.store conf md5C enctm sel wr db).2.2) =
    if s.accepts conf md5C enctm ∧ wr.code = 0 then
      (0, Function.update db (cstr conf.skTable) ((s.withCipher md5C enctm).rowsAfter conf sel db))
    else (-1, db) := by
  by_cases he : md5C.isempty = 1
  · have hstore : s.store conf md5C enctm sel wr db =
        (if ((s.withCipher md5C enctm).storeRow conf sel wr db).1 ≠ 0 then -1 else 0,
          s.withCipher md5C enctm, ((s.withCipher md5C enctm).storeRow conf sel wr db).2) := by
      rw [store, if_neg (by simp [he])]
      rfl
    rw [hstore, storeRow_eq, accepts]
    by_cases hs : (s.withCipher md5C enctm).storable conf <;> by_cases hw : wr.code = 0 <;>
      simp [hs, hw, he]
  · simp [store, accepts, he]

theorem store_fst : (s.store conf md5C enctm sel wr db).1 =
    if s.accepts conf md5C enctm ∧ wr.code = 0 then 0 else -1 := by
  have hresult := congrArg Prod.fst (store_result conf s sel wr db md5C enctm)
  rw [apply_ite Prod.fst] at hresult
  exact hresult

theorem store_db : (s.store conf md5C enctm sel wr db).2.2 =
    if s.accepts conf md5C enctm ∧ wr.code = 0 then
      Function.update db (cstr conf.skTable) ((s.withCipher md5C enctm).rowsAfter conf sel db)
    else db := by
  have hresult := congrArg Prod.snd (store_result conf s sel wr db md5C enctm)
  rw [apply_ite Prod.snd] at hresult
  exact hresult

theorem store_fst_eq_zero : (s.store conf md5C enctm sel wr db).1 = 0 ↔
    s.accepts conf md5C enctm ∧ wr.code = 0 := by
  rw [store_fst]
  split <;> simp_all

theorem stored_lookup_md5C : (s.stored conf).lookup .md5C = none := rfl

theorem rowsAfter_eq_put (hsel : sel.code = 0) : s.rowsAfter conf sel db =
    Rows.put .md5C (db (cstr conf.skTable)) (s.md5Cipher.text, s.stored conf) := by
  rw [rowsAfter, Rows.put, existing]
  by_cases hrows : Rows.select [(Column.md5C, s.md5Cipher.text)] (db (cstr conf.skTable)) = []
  · simp [hrows]
  · have hne : (Rows.select [(Column.md5C, s.md5Cipher.text)]
        (db (cstr conf.skTable))).isEmpty = false := by simpa using hrows
    rw [if_pos ⟨hsel, hrows⟩, hne]
    rfl

theorem rowsAfter_last : ∃ row,
    (Rows.select s.existing (s.rowsAfter conf sel db)).getLast? = some row ∧
      ∀ c v, (s.stored conf).lookup c = some v → row c = some v := by
  have hk := stored_lookup_md5C conf s
  rw [rowsAfter]
  split
  · rename_i h
    have hrows : Rows.select [(Column.md5C, s.md5Cipher.text)] (db (cstr conf.skTable)) ≠ [] := h.2
    refine ⟨Rows.assign (s.stored conf) (List.getLast _ hrows), ?_,
      fun c v hv => Rows.assign_of_lookup hv _⟩
    rw [existing, Rows.select_update_same hk, List.getLast?_map,
      List.getLast?_eq_some_getLast hrows]
    rfl
  · refine ⟨Rows.assign ((.md5C, s.md5Cipher.text) :: s.stored conf) fun _ => none, ?_,
      fun c v hv => Rows.assign_cons_of_lookup hk hv _ _⟩
    rw [existing, Rows.select_insert_same (by simp), List.getLast?_concat]

theorem isempty_of_accepts (h : s.accepts conf md5C enctm) :
    s.md5Plaint.isempty = 1 ∧ md5C.isempty = 1 ∧ s.skey.isempty = 1 ∧ conf.configured := by
  simp only [accepts, Bool.and_eq_true, decide_eq_true_eq] at h
  obtain ⟨hc, hs⟩ := h
  have hp : (s.withCipher md5C enctm).md5Plaint = s.md5Plaint := rfl
  have hk : (s.withCipher md5C enctm).skey = s.skey := rfl
  rw [storable, hp, hk] at hs
  split_ifs at hs with h1 h2 h3 h4
  exact ⟨by simpa using h1, hc, by simpa using h3, hs⟩

end KmServ

def restoreRows (skTable : Bytes) (db : Db Column) (o : Int) (m : Bytes) :
    List (Rows.Row Column Bytes) :=
  Rows.select [(.md5C, m), (.org, Decimal.intText o)] (db (cstr skTable))

theorem KmServ.restoreBy_eq (toInt : Bytes → Int) (conf : KmConf) (s : KmServ) (c : Call)
    (db : Db Column) (hs : s.md5Cipher.isempty = 1) (hconf : conf.configured) (hc : c.code = 0) :
    s.restoreBy toInt conf c db =
      match (restoreRows conf.skTable db s.orgnization s.md5Cipher.text).head? with
      | none => some (-3, s)
      | some row => s.restoreRowBy toInt (TRow.readIn (serviceColumns.map row)) := by
  have hrows : db.result serviceColumns (cstr conf.skTable)
      [(Column.md5C, s.md5Cipher.text), (Column.org, Decimal.intText s.orgnization)] =
      (restoreRows conf.skTable db s.orgnization s.md5Cipher.text).map serviceColumns.map := rfl
  rw [restoreBy, if_neg (by simp [hs]), if_neg (by simp [hconf])]
  simp only [execQueryMysqlInto, hc, hrows, if_true]
  cases restoreRows conf.skTable db s.orgnization s.md5Cipher.text with
  | nil => rfl
  | cons row rows =>
    have hget := Table.appendAll_get (i := 0)
      (by simp : 0 < ((row :: rows).map fun r : Rows.Row Column Bytes =>
        serviceColumns.map r).length)
    rw [if_neg (by decide), if_neg (by rw [Table.appendAll_getSize]; simp)]
    exact congrArg (fun r => Option.bind r (s.restoreRowBy toInt)) hget

/-- One call of `store(md5_c, enctm)` with the statics and answers it meets. -/
structure Storing where
  serv : KmServ
  md5C : BaseWord
  enctm : Int
  admin : Int
  sel : Call
  wr : Call

namespace Storing

def conf (skTable : Bytes) (r : Storing) : KmConf := ⟨skTable, r.admin⟩

def accepted (skTable : Bytes) (r : Storing) : Bool :=
  r.serv.accepts (r.conf skTable) r.md5C r.enctm

def run (skTable : Bytes) (db : Db Column) (r : Storing) : Db Column :=
  (r.serv.store (r.conf skTable) r.md5C r.enctm r.sel r.wr db).2.2

def digest (r : Storing) : Bytes := r.md5C.copy.text

def values (skTable : Bytes) (r : Storing) : Rows.Values Column Bytes :=
  (r.serv.withCipher r.md5C r.enctm).stored (r.conf skTable)

def made (skTable : Bytes) (hist : List Storing) : List Storing := hist.filter (accepted skTable)

def isFor (o : Int) (m : Bytes) (r : Storing) : Bool :=
  decide (r.serv.orgnization = o) && decide (r.digest = m)

end Storing

theorem Storing.foldl_run (skTable : Bytes) {hist : List Storing}
    (hcalls : ∀ r ∈ hist, r.sel.code = 0 ∧ r.wr.code = 0) (db : Db Column) :
    hist.foldl (Storing.run skTable) db (cstr skTable) =
      ((made skTable hist).map fun r => (r.digest, r.values skTable)).foldl
        (Rows.put Column.md5C) (db (cstr skTable)) := by
  induction hist generalizing db with
  | nil => rfl
  | cons r hist ih =>
    obtain ⟨hsel, hwr⟩ := hcalls r (by simp)
    have ih := ih (fun r' h => hcalls r' (by simp [h])) (Storing.run skTable db r)
    have hrun := KmServ.store_db (r.conf skTable) r.serv r.sel r.wr db r.md5C r.enctm
    by_cases ha : r.accepted skTable
    · have hrow : Storing.run skTable db r (cstr skTable) =
          Rows.put .md5C (db (cstr skTable)) (r.digest, r.values skTable) := by
        rw [Storing.run, hrun, if_pos ⟨ha, hwr⟩, KmServ.rowsAfter_eq_put _ _ _ _ hsel]
        exact Function.update_self _ _ _
      have hmade : made skTable (r :: hist) = r :: made skTable hist := List.filter_cons_of_pos ha
      rw [List.foldl_cons, ih, hrow, hmade]
      rfl
    · have hrow : Storing.run skTable db r = db := by
        rw [Storing.run, hrun, if_neg fun h => ha h.1]
      have hmade : made skTable (r :: hist) = made skTable hist := List.filter_cons_of_neg ha
      rw [List.foldl_cons, ih, hrow, hmade]

theorem Storing.lastPut_eq (skTable m : Bytes) (hist : List Storing) :
    Rows.lastPut m (hist.map fun r => (r.digest, r.values skTable)) =
      (hist.reverse.find? fun r => r.digest = m).map (Storing.values skTable) := by
  rw [Rows.lastPut, ← List.map_reverse, List.find?_map, Option.map_map]
  rfl

def sampleServ (o : Int) : KmServ :=
  (KmServ.ofPlain o (.readIn (some (List.replicate 64 0x62)) 64) 1700000000 0).genKey
    (fun _ _ => 0) 0 16

def sampleDigest : BaseWord := .readIn (some (List.replicate 64 0x61)) 64

end SecProGIS
