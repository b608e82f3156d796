import SecProGIS.KM
import SecProGIS.Lib.SqlText

/-! The texts of the statements, and the server that gets them: a text that reads
as a statement is carried out as that one, whatever the server makes of others. -/

namespace SecProGIS

open SqlText

namespace Statement

variable {κ : Type*} (name : κ → Bytes)

def equation (cv : κ × Bytes) : List Token := [.word (name cv.1), .symbol 0x3D, .literal cv.2]

def equations (sep : Token) (vs : Rows.Values κ Bytes) : List Token :=
  List.intercalate [sep] (vs.map (equation name))

def comma : Token := .symbol 0x2C

def tokens : Statement κ → List Token
  | select table cond =>
    [.word (ascii "select"), .symbol 0x2A, .word (ascii "from"), .word table,
      .word (ascii "where")] ++ equations name (.word (ascii "and")) cond ++ [.symbol 0x3B]
  | insert table values =>
    [.word (ascii "insert"), .word (ascii "into"), .word table, .symbol 0x28] ++
      List.intersperse comma (values.map fun cv => .word (name cv.1)) ++
      [.symbol 0x29, .word (ascii "values"), .symbol 0x28] ++
      List.intersperse comma (values.map fun cv => .literal cv.2) ++ [.symbol 0x29, .symbol 0x3B]
  | update table values cond =>
    [.word (ascii "update"), .word table, .word (ascii "set")] ++ equations name comma values ++
      [.word (ascii "where")] ++ equations name (.word (ascii "and")) cond ++ [.symbol 0x3B]

end Statement

def Column.name : Column → Bytes
  | org => ascii "org"
  | md5P => ascii "md5_p"
  | md5C => ascii "md5_c"
  | skey => ascii "skey"
  | expire => ascii "expire"
  | admin => ascii "admin"
  | encTm => ascii "enc_tm"
  | fname => ascii "fname"
  | rmrk => ascii "rmrk"

def Column.ofName (w : Bytes) : Option Column := serviceColumns.find? fun c => c.name = w

namespace Statement

/-- A list of equations, and what follows it. -/
def parseEquations (sep : Token) :
    List Token → Option (Rows.Values Column Bytes × List Token)
  | [.word w, .symbol c, .literal v] =>
    if c = 0x3D then (Column.ofName w).map fun col => ([(col, v)], []) else none
  | .word w :: .symbol c :: .literal v :: t :: ts =>
    if c = 0x3D then
      (Column.ofName w).bind fun col =>
        if t = sep then (parseEquations sep ts).map fun r => ((col, v) :: r.1, r.2)
        else some ([(col, v)], t :: ts)
    else none
  | _ => none

/-- Names with commas between them up to a closing bracket. -/
def parseNames : List Token → Option (List Column × List Token)
  | .word w :: .symbol c :: ts =>
    (Column.ofName w).bind fun col =>
      if c = 0x2C then (parseNames ts).map fun r => (col :: r.1, r.2)
      else if c = 0x29 then some ([col], ts)
      else none
  | _ => none

def parseLiterals : List Token → Option (List Bytes × List Token)
  | .literal v :: .symbol c :: ts =>
    if c = 0x2C then (parseLiterals ts).map fun r => (v :: r.1, r.2)
    else if c = 0x29 then some ([v], ts)
    else none
  | _ => none

def parseSelect : List Token → Option (Statement Column)
  | .symbol c :: .word w1 :: .word table :: .word w2 :: ts =>
    if c = 0x2A ∧ w1 = ascii "from" ∧ w2 = ascii "where" then
      (parseEquations (.word (ascii "and")) ts).bind fun r =>
        if r.2 = [.symbol 0x3B] then some (.select table r.1) else none
    else none
  | _ => none

def parseValues (table : Bytes) (cols : List Column) : List Token → Option (Statement Column)
  | .word w :: .symbol c :: ts =>
    if w = ascii "values" ∧ c = 0x28 then
      (parseLiterals ts).bind fun r =>
        if cols.length = r.1.length ∧ r.2 = [.symbol 0x3B] then some (.insert table (cols.zip r.1))
        else none
    else none
  | _ => none

def parseInsert : List Token → Option (Statement Column)
  | .word w :: .word table :: .symbol c :: ts =>
    if w = ascii "into" ∧ c = 0x28 then
      (parseNames ts).bind fun r => parseValues table r.1 r.2
    else none
  | _ => none

def parseWhere (table : Bytes) (values : Rows.Values Column Bytes) :
    List Token → Option (Statement Column)
  | .word w :: ts =>
    if w = ascii "where" then
      (parseEquations (.word (ascii "and")) ts).bind fun r =>
        if r.2 = [.symbol 0x3B] then some (.update table values r.1) else none
    else none
  | _ => none

def parseUpdate : List Token → Option (Statement Column)
  | .word table :: .word w :: ts =>
    if w = ascii "set" then (parseEquations comma ts).bind fun r => parseWhere table r.1 r.2
    else none
  | _ => none

def parse : List Token → Option (Statement Column)
  | .word w :: ts =>
    if w = ascii "select" then parseSelect ts
    else if w = ascii "insert" then parseInsert ts
    else if w = ascii "update" then parseUpdate ts
    else none
  | _ => none

/-- The statements with a text of their own: every list in them has an element,
and no column is written twice. -/
def Full : Statement Column → Prop
  | select _ cond => cond ≠ []
  | insert _ values => values ≠ [] ∧ (values.map Prod.fst).Nodup
  | update _ values cond => (values ≠ [] ∧ (values.map Prod.fst).Nodup) ∧ cond ≠ []

theorem ofName_name (c : Column) : Column.ofName c.name = some c := by
  cases c <;> decide

theorem parseEquations_eq (sep : Token) {vs : Rows.Values Column Bytes} (hvs : vs ≠ [])
    {t : Token} (ht : t ≠ sep) (ts : List Token) :
    parseEquations sep (equations Column.name sep vs ++ t :: ts) = some (vs, t :: ts) := by
  induction vs with
  | nil => exact absurd rfl hvs
  | cons cv vs ih =>
    cases vs with
    | nil =>
      simp [equations, List.intercalate, equation, parseEquations, ofName_name, ht]
    | cons cv' vs =>
      have ih := ih (by simp)
      have hstep : equations Column.name sep (cv :: cv' :: vs) =
          equation Column.name cv ++ sep :: equations Column.name sep (cv' :: vs) := by
        simp [equations, List.intercalate]
      rw [hstep]
      simp [equation, parseEquations, ofName_name, ih]

theorem parseNames_eq (cols : List Column) (h : cols ≠ []) (ts : List Token) :
    parseNames (List.intersperse comma (cols.map fun c => .word c.name) ++ .symbol 0x29 :: ts) =
      some (cols, ts) := by
  induction cols with
  | nil => exact absurd rfl h
  | cons c cols ih =>
    cases cols with
    | nil => simp [parseNames, ofName_name]
    | cons c' cols =>
      change parseNames (.word c.name :: .symbol 0x2C ::
        (List.intersperse comma ((c' :: cols).map fun c => .word c.name) ++ .symbol 0x29 :: ts)) = _
      rw [parseNames, ofName_name, Option.bind_some, if_pos rfl, ih (by simp)]
      rfl

theorem parseLiterals_eq (vs : List Bytes) (h : vs ≠ []) (ts : List Token) :
    parseLiterals (List.intersperse comma (vs.map .literal) ++ .symbol 0x29 :: ts) =
      some (vs, ts) := by
  induction vs with
  | nil => exact absurd rfl h
  | cons v vs ih =>
    cases vs with
    | nil => simp [parseLiterals]
    | cons v' vs =>
      change parseLiterals (.literal v :: .symbol 0x2C ::
        (List.intersperse comma ((v' :: vs).map .literal) ++ .symbol 0x29 :: ts)) = _
      rw [parseLiterals, if_pos rfl, ih (by simp)]
      rfl

theorem parse_select (table : Bytes) {cond : Rows.Values Column Bytes} (h : cond ≠ []) :
    parse ((select table cond).tokens Column.name) = some (select table cond) := by
  have hcond := parseEquations_eq (.word (ascii "and")) h (t := .symbol 0x3B) (by simp) []
  have htokens : (select table cond).tokens Column.name = .word (ascii "select") ::
      .symbol 0x2A :: .word (ascii "from") :: .word table :: .word (ascii "where") ::
        (equations Column.name (.word (ascii "and")) cond ++ [.symbol 0x3B]) := by
    simp [tokens]
  rw [htokens, parse, if_pos rfl, parseSelect, if_pos ⟨rfl, rfl, rfl⟩, hcond, Option.bind_some,
    if_pos rfl]

theorem parse_insert (table : Bytes) {values : Rows.Values Column Bytes} (h : values ≠ []) :
    parse ((insert table values).tokens Column.name) = some (insert table values) := by
  have hnames := parseNames_eq (values.map Prod.fst) (by simpa using h)
    (.word (ascii "values") :: .symbol 0x28 ::
      (List.intersperse comma ((values.map Prod.snd).map .literal) ++ [.symbol 0x29, .symbol 0x3B]))
  have hliterals := parseLiterals_eq (values.map Prod.snd) (by simpa using h) [.symbol 0x3B]
  have htokens : (insert table values).tokens Column.name = .word (ascii "insert") ::
      .word (ascii "into") :: .word table :: .symbol 0x28 ::
        (List.intersperse comma ((values.map Prod.fst).map fun c => .word c.name) ++
          .symbol 0x29 :: .word (ascii "values") :: .symbol 0x28 ::
          (List.intersperse comma ((values.map Prod.snd).map .literal) ++
            [.symbol 0x29, .symbol 0x3B])) := by
    simp [tokens, Function.comp_def]
  have hother : ¬ ascii "insert" = ascii "select" := by decide
  rw [htokens, parse, if_neg hother, if_pos rfl, parseInsert, if_pos ⟨rfl, rfl⟩, hnames,
    Option.bind_some, parseValues, if_pos ⟨rfl, rfl⟩, hliterals, Option.bind_some,
    if_pos ⟨by simp, rfl⟩]
  simp only [List.zip_map', Prod.mk.eta, List.map_id']

theorem parse_update (table : Bytes) {values cond : Rows.Values Column Bytes} (hv : values ≠ [])
    (hc : cond ≠ []) :
    parse ((update table values cond).tokens Column.name) = some (update table values cond) := by
  have hvalues := parseEquations_eq comma hv (t := .word (ascii "where")) (by simp [comma])
    (equations Column.name (.word (ascii "and")) cond ++ [.symbol 0x3B])
  have hcond := parseEquations_eq (.word (ascii "and")) hc (t := .symbol 0x3B) (by simp) []
  have htokens : (update table values cond).tokens Column.name = .word (ascii "update") ::
      .word table :: .word (ascii "set") :: (equations Column.name comma values ++
        .word (ascii "where") ::
          (equations Column.name (.word (ascii "and")) cond ++ [.symbol 0x3B])) := by
    simp [tokens]
  have hselect : ¬ ascii "update" = ascii "select" := by decide
  have hinsert : ¬ ascii "update" = ascii "insert" := by decide
  rw [htokens, parse, if_neg hselect, if_neg hinsert, if_pos rfl, parseUpdate, if_pos rfl, hvalues,
    Option.bind_some, parseWhere, if_pos rfl, hcond, Option.bind_some, if_pos rfl]

theorem parse_tokens {st : Statement Column} (h : st.Full) :
    parse (st.tokens Column.name) = some st := by
  cases st with
  | select table cond => exact parse_select table h
  | insert table values => exact parse_insert table h.1
  | update table values cond => exact parse_update table h.1.1 h.2

end Statement

/-- A server: what the texts it accepts do to its tables. -/
structure Server where
  charset : Charset
  exec : Bytes → Db Column → Db Column
  exec_eq : ∀ {text : Bytes} {st : Statement Column}, st.Full →
    lex charset text = some (st.tokens Column.name) → ∀ db, exec text db = st.run db

/-- The server that leaves its tables when it cannot read a text. -/
def Server.reading (cs : Charset) : Server where
  charset := cs
  exec text db := (((lex cs text).bind Statement.parse).map fun st => st.run db).getD db
  exec_eq hst hlex db := by rw [hlex, Option.bind_some, Statement.parse_tokens hst]; rfl

/-- `exec_query_mysql(sql_str)` for a text, where the effect is the server's. -/
def execQueryText (server : Server) (c : Call) (text : Bytes) (db : Db Column) : Int × Db Column :=
  (c.code, if c.code = 0 then server.exec text db else db)

theorem execQueryText_eq {server : Server} {text : Bytes} {st : Statement Column} (hst : st.Full)
    (hlex : lex server.charset text = some (st.tokens Column.name)) (c : Call) (db : Db Column) :
    execQueryText server c text db = execQueryMysql c st db := by
  rw [execQueryText, execQueryMysql, server.exec_eq hst hlex]

end SecProGIS
