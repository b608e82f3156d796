import SecProGIS.DBTable
import SecProGIS.Lib.Rows

/-! `MY_QUERY` of `INTmysql.cpp`: the codes of `exec_query_mysql`, and what its
statements do to the tables of the server. -/

namespace SecProGIS

structure DbConf where
  dbIp : Bytes
  dbPort : Int
  dbUsr : Bytes
  dbPwd : Bytes
  db : Bytes

def DbConf.configured (c : DbConf) : Bool :=
  !(cstr c.dbIp).isEmpty && !decide (c.dbPort = -1) && !(cstr c.dbUsr).isEmpty &&
    !(cstr c.dbPwd).isEmpty && !(cstr c.db).isEmpty

/-- What one call of `exec_query_mysql` finds: the configuration, and whether
each call into the client library goes through. -/
structure Call where
  conf : DbConf
  init : Bool
  connect : Bool
  setNames : Bool
  query : Bool

def Call.code (c : Call) : Int :=
  if !c.conf.configured then -1
  else if !c.init then -2
  else if !c.connect then -3
  else if !c.setNames then -4
  else if !c.query then -4
  else 0

def answered : Call :=
  ⟨⟨ascii "10.0.0.1", 3306, ascii "gis", ascii "gis", ascii "gis"⟩, true, true, true, true⟩

def offline : Call := { answered with connect := false }

def refused : Call := { answered with query := false }

inductive Statement (κ : Type*) where
  | select (table : Bytes) (cond : Rows.Values κ Bytes)
  | insert (table : Bytes) (values : Rows.Values κ Bytes)
  | update (table : Bytes) (values cond : Rows.Values κ Bytes)

/-- The tables of the server by name; a column holds the literal text. -/
abbrev Db (κ : Type*) := Bytes → List (Rows.Row κ Bytes)

section

variable {κ : Type*} [DecidableEq κ]

def Statement.run (st : Statement κ) (db : Db κ) : Db κ :=
  match st with
  | select _ _ => db
  | insert table values => Function.update db table (Rows.insert values (db table))
  | update table values cond => Function.update db table (Rows.update values cond (db table))

def Db.result (cols : List κ) (db : Db κ) (table : Bytes) (cond : Rows.Values κ Bytes) :
    List (List Cell) :=
  (Rows.select cond (db table)).map fun r => cols.map r

/-- `exec_query_mysql(sql_str)`: a failed call has no effect. -/
def execQueryMysql (c : Call) (st : Statement κ) (db : Db κ) : Int × Db κ :=
  (c.code, if c.code = 0 then st.run db else db)

/-- `exec_query_mysql(sql_str, ret_table)` for a statement with that result;
`append` never fails, so the code -5 does not occur. -/
def execQueryMysqlInto (c : Call) (result : List (List Cell)) (t : Table) : Int × Table :=
  (c.code, if c.code = 0 then t.appendAll result else t)

end

theorem Call.code_eq_zero {c : Call} :
    c.code = 0 ↔ c.conf.configured ∧ c.init ∧ c.connect ∧ c.setNames ∧ c.query := by
  unfold Call.code
  split_ifs <;> simp_all

theorem execQueryMysqlInto_getSize (c : Call) (result : List (List Cell)) :
    (execQueryMysqlInto c result Table.empty).2.getSize =
      if c.code = 0 then result.length else 0 := by
  rw [execQueryMysqlInto]
  split
  · exact Table.appendAll_getSize result
  · rfl

end SecProGIS
