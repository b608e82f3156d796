import SecProGIS.INTmysql
import SecProGIS.Lib.Decimal

/-! `KM.cpp`: the generation of content keys, and the services that store them
in the key table, restore them and hand them out until they expire. -/

namespace SecProGIS

def keyChar (r s : Int) : u8 :=
  let key1 := (r.tmod 3 + 3).tmod 3
  if key1 = 0 then BitVec.ofInt 8 ((s.tmod 10 + 10).tmod 10 + 48)
  else if key1 = 1 then BitVec.ofInt 8 ((s.tmod 26 + 26).tmod 26 + 65)
  else BitVec.ofInt 8 ((s.tmod 26 + 26).tmod 26 + 97)

def keyText (rand : Nat → Int) (len : Nat) : Bytes :=
  (List.range len).map fun i => keyChar (rand (2 * i)) (rand (2 * i + 1))

/-- The C library's `rand()` after `srand(seed)`. -/
abbrev Rng := u32 → Nat → Int

/-- `KM_SK::generate` at the time `now`; the old content is cleared. -/
def generate (rng : Rng) (now : Int) (len : Nat) : BaseWord :=
  ⟨some (keyText (rng (BitVec.ofInt 32 now)) len ++ [0, 0, 0]), len⟩

theorem keyChar_alnum (r s : Int) : ∃ c : Nat, keyChar r s = BitVec.ofNat 8 c ∧
    (48 ≤ c ∧ c ≤ 57 ∨ 65 ≤ c ∧ c ≤ 90 ∨ 97 ≤ c ∧ c ≤ 122) := by
  have hmod : ∀ k : Int, 0 < k → 0 ≤ (s.tmod k + k).tmod k ∧ (s.tmod k + k).tmod k < k := by
    intro k hk
    have h1 := Int.lt_tmod_of_pos s hk
    exact ⟨Int.tmod_nonneg _ (by omega), Int.tmod_lt_of_pos _ hk⟩
  have hofInt : ∀ v : Int, 0 ≤ v → BitVec.ofInt 8 v = BitVec.ofNat 8 v.toNat := by
    intro v hv
    obtain ⟨c, rfl⟩ := Int.eq_ofNat_of_zero_le hv
    exact BitVec.ofInt_natCast 8 c
  have h10 := hmod 10 (by decide)
  have h26 := hmod 26 (by decide)
  unfold keyChar
  simp only
  split_ifs
  · exact ⟨_, hofInt _ (by omega), by omega⟩
  · exact ⟨_, hofInt _ (by omega), by omega⟩
  · exact ⟨_, hofInt _ (by omega), by omega⟩

theorem keyText_ne_zero {rand : Nat → Int} {len : Nat} {c : u8} (h : c ∈ keyText rand len) :
    c ≠ 0 := by
  obtain ⟨i, _, rfl⟩ := List.mem_map.mp h
  obtain ⟨c, hc, hrange⟩ := keyChar_alnum (rand (2 * i)) (rand (2 * i + 1))
  intro hz
  have hn := congrArg BitVec.toNat (hc.symm.trans hz)
  simp only [BitVec.toNat_ofNat, BitVec.ofNat_eq_ofNat] at hn
  omega

@[simp] theorem keyText_length (rand : Nat → Int) (len : Nat) :
    (keyText rand len).length = len := by simp [keyText]

theorem generate_holds (rng : Rng) (now : Int) {len : Nat} (h : 0 < len) :
    (generate rng now len).Holds (keyText (rng (BitVec.ofInt 32 now)) len) := by
  refine ⟨by simp [generate], ?_⟩
  intro hnil
  have hlen := keyText_length (rng (BitVec.ofInt 32 now)) len
  rw [hnil, List.length_nil] at hlen
  omega

inductive Column where
  | org | md5P | md5C | skey | expire | admin | encTm | fname | rmrk
deriving DecidableEq

def serviceColumns : List Column :=
  [.org, .md5P, .md5C, .skey, .expire, .admin, .encTm, .fname, .rmrk]

structure KmConf where
  skTable : Bytes
  admin : Int

def KmConf.configured (c : KmConf) : Bool := !(cstr c.skTable).isEmpty

def KmConf.setConf (skTab : Bytes) (adm : Int) : KmConf := ⟨skTab, adm⟩

structure KmServ where
  orgnization : Int
  md5Plaint : BaseWord
  md5Cipher : BaseWord
  skey : BaseWord
  expireT : Int
  encT : Int

namespace KmServ

/-- The constructor from the cipher digest; `mem` is what memory holds in the
members it does not set. -/
def ofCipher (comp : Int) (md5C : BaseWord) (mem : Int × Int) : KmServ :=
  ⟨comp, .empty, md5C.copy, .empty, mem.1, mem.2⟩

/-- The constructor from the plaintext digest and the deadline. -/
def ofPlain (comp : Int) (md5P : BaseWord) (expire : Int) (mem : Int) : KmServ :=
  ⟨comp, md5P.copy, .empty, .empty, expire, mem⟩

def genKey (s : KmServ) (rng : Rng) (now : Int) (len : Nat) : KmServ :=
  { s with skey := generate rng now len }

def storable (conf : KmConf) (s : KmServ) : Bool :=
  if s.md5Plaint.isempty ≠ 1 then false
  else if s.md5Cipher.isempty ≠ 1 then false
  else if s.skey.isempty ≠ 1 then false
  else if s.expireT = 0 then false
  else conf.configured

/-- The first statement of `store()`, by the cipher digest alone. -/
def existing (s : KmServ) : Rows.Values Column Bytes := [(.md5C, s.md5Cipher.text)]

/-- The columns `store()` writes besides the cipher digest. The key goes in as
`skey.get_cont()`; its hexadecimal form `skey_tmp` is computed and dropped. -/
def stored (conf : KmConf) (s : KmServ) : Rows.Values Column Bytes :=
  [(.org, Decimal.intText s.orgnization), (.md5P, s.md5Plaint.text), (.skey, s.skey.text),
    (.expire, Decimal.intText s.expireT), (.admin, Decimal.intText conf.admin),
    (.encTm, Decimal.intText s.encT)]

/-- The second statement of `store()`, chosen by the size of the table read. -/
def writing (conf : KmConf) (s : KmServ) (table : Table) : Statement Column :=
  if table.getSize < 1 then
    .insert (cstr conf.skTable)
      [(.org, Decimal.intText s.orgnization), (.md5P, s.md5Plaint.text),
        (.md5C, s.md5Cipher.text), (.skey, s.skey.text),
        (.expire, Decimal.intText s.expireT), (.admin, Decimal.intText conf.admin),
        (.encTm, Decimal.intText s.encT)]
  else .update (cstr conf.skTable) (s.stored conf) s.existing

/-- What the first query of `store()` leaves in `table`; its code is ignored. -/
def lookup (conf : KmConf) (s : KmServ) (sel : Call) (db : Db Column) : Table :=
  (execQueryMysqlInto sel (db.result serviceColumns (cstr conf.skTable) s.existing)
    Table.empty).2

def storeRow (conf : KmConf) (s : KmServ) (sel wr : Call) (db : Db Column) : Int × Db Column :=
  if !s.storable conf then (-1, db)
  else
    let r := execQueryMysql wr (s.writing conf (s.lookup conf sel db)) db
    (if r.1 ≠ 0 then -2 else 0, r.2)

def store (conf : KmConf) (s : KmServ) (md5C : BaseWord) (enctm : Int) (sel wr : Call)
    (db : Db Column) : Int × KmServ × Db Column :=
  if md5C.isempty ≠ 1 then (-1, s, db)
  else
    let s := { s with md5Cipher := md5C.copy, encT := enctm }
    let r := s.storeRow conf sel wr db
    (if r.1 ≠ 0 then -1 else 0, s, r.2)

def hexValue (c : u8) : Int :=
  if c.toInt < 97 then c.toInt - 48 else c.toInt - 97 + 10

def hexDecode (skeyH : Bytes) (keyLen : Nat) : Bytes :=
  (List.range keyLen).map fun i =>
    BitVec.ofInt 8 (hexValue (skeyH.getD (2 * i) 0) * 16 + hexValue (skeyH.getD (2 * i + 1) 0))

/-- `restore()` on the first row it has read, with the `atoi` of a C library. -/
def restoreRowBy (toInt : Bytes → Int) (s : KmServ) (row : TRow) : Option (Int × KmServ) := do
  if row.getSize < 5 then return (-3, s)
  let md5 ← row.get 1
  let md5Plaint := BaseWord.readIn md5.content md5.len
  let s := { s with md5Plaint }
  if md5Plaint.len = 0 then return (-4, s)
  let key ← row.get 3
  let keyLen := key.len.tdiv 2
  let skey := BaseWord.readIn (some (hexDecode (key.content.getD []) keyLen.toNat)) keyLen
  let s := { s with skey }
  if skey.len = 0 then return (-4, s)
  let exp ← row.get 4
  let tmpexp := exp.getContMax (Vector.replicate 16 0) 16
  if tmpexp.1 ≠ 0 then return (-4, s)
  return (0, { s with expireT := toInt (cstr tmpexp.2.toList) })

/-- `restore()`; no result means that an index is taken into nothing. -/
def restoreBy (toInt : Bytes → Int) (conf : KmConf) (s : KmServ) (c : Call) (db : Db Column) :
    Option (Int × KmServ) :=
  if s.md5Cipher.isempty ≠ 1 then some (-2, s)
  else if !conf.configured then some (-2, s)
  else
    let cond := [(.md5C, s.md5Cipher.text), (.org, Decimal.intText s.orgnization)]
    let q := execQueryMysqlInto c (db.result serviceColumns (cstr conf.skTable) cond) Table.empty
    if q.1 ≠ 0 then some (-3, s)
    else if q.2.getSize ≤ 0 then some (-3, s)
    else (q.2.get 0).bind (s.restoreRowBy toInt)

def restore (conf : KmConf) (s : KmServ) (c : Call) (db : Db Column) : Option (Int × KmServ) :=
  s.restoreBy atoi conf c db

def verify (s : KmServ) (now : Int) : Int :=
  if s.expireT = 0 then -1
  else if s.expireT - now < 0 then -2
  else 0

def getSkey {n : Nat} (s : KmServ) (now : Int) (dest : Vector u8 n) : Int × Vector u8 n :=
  if s.verify now ≠ 0 then (-1, dest)
  else
    let r := s.skey.getContTo dest
    if r.1 ≠ 0 then (-2, dest) else (0, r.2)

end KmServ

end SecProGIS
