import SecProGIS.INTmysql
import SecProGIS.Lib.Typestate

/-! The calls of both `exec_query_mysql` into the client library, in order: the
connection and the result as resources. The overload with a table leaves the
connection open when its statement fails, and fetches from a NULL result. -/

namespace SecProGIS

open Typestate (Role)

/-- A call into the client library: whether it returns a connection or a
result, and whether it is given a result or NULL. -/
inductive ClientCall where
  | init (con : Bool)
  | realConnect
  | query (str : Bytes)
  | storeResult (res : Bool)
  | fetchRow (res : Bool)
  | numFields (res : Bool)
  | freeResult (res : Bool)
  | close
deriving DecidableEq

def execQueryCalls (c : Call) (sqlStr : Option Bytes) : List ClientCall × Int :=
  if !c.conf.configured then ([], -1)
  else
    match sqlStr with
    | none => ([], -1)
    | some str =>
      if !c.init then ([.init false], -2)
      else
        let t := [.init true, .realConnect]
        if !c.connect then (t ++ [.close], -3)
        else
          let t := t ++ [.query (ascii "set names gbk;")]
          if !c.setNames then (t ++ [.close], -4)
          else
            let t := t ++ [.query str]
            if !c.query then (t ++ [.close], -4) else (t ++ [.close], 0)

/-- The loop over the rows of the result, with the code of `append` for each. -/
def fetchRows (append : Table → List Cell → Int × Table) :
    List (List Cell) → Table → List ClientCall × Int × Table
  | [], retTable => ([.fetchRow true, .freeResult true, .close], 0, retTable)
  | row :: rows, retTable =>
    let t := [.fetchRow true, .numFields true]
    let r := append retTable row
    if r.1 ≠ 0 then (t ++ [.freeResult true, .close], -5, r.2)
    else
      let rest := fetchRows append rows r.2
      (t ++ rest.1, rest.2)

/-- `exec_query_mysql(sql_str, ret_table)`; no result means NULL, and the call
that fetches from it does not return. -/
def execQueryIntoCalls (append : Table → List Cell → Int × Table) (c : Call)
    (sqlStr : Option Bytes) (res : Option (List (List Cell))) (retTable : Table) :
    List ClientCall × Option (Int × Table) :=
  if !c.conf.configured then ([], some (-1, retTable))
  else
    match sqlStr with
    | none => ([], some (-1, retTable))
    | some str =>
      if !c.init then ([.init false], some (-2, retTable))
      else
        let t := [.init true, .realConnect]
        if !c.connect then (t ++ [.close], some (-3, retTable))
        else
          let t := t ++ [.query (ascii "set names 'GBK';")]
          if !c.setNames then (t ++ [.close], some (-4, retTable))
          else
            let t := t ++ [.query str]
            -- no call closes the connection here
            if !c.query then (t, some (-4, retTable))
            else
              match res with
              | none => (t ++ [.storeResult false, .fetchRow false], none)
              | some rows =>
                let r := fetchRows append rows retTable
                (t ++ [.storeResult true] ++ r.1, some r.2)

theorem execQueryCalls_snd (c : Call) (str : Bytes) : (execQueryCalls c (some str)).2 = c.code := by
  simp only [execQueryCalls, Call.code]
  split_ifs <;> rfl

theorem fetchRows_snd (rows : List (List Cell)) (t : Table) :
    (fetchRows (fun t row => (0, t.append row)) rows t).2 = (0, t.appendAll rows) := by
  induction rows generalizing t with
  | nil => rfl
  | cons row rows ih =>
    rw [fetchRows, if_neg (by simp), ih]
    rfl

theorem execQueryIntoCalls_snd (c : Call) (str : Bytes) (rows : List (List Cell)) (t : Table) :
    (execQueryIntoCalls (fun t row => (0, t.append row)) c (some str) (some rows) t).2 =
      some (execQueryMysqlInto c rows t) := by
  simp only [execQueryIntoCalls, execQueryMysqlInto, Call.code, fetchRows_snd]
  split_ifs <;> simp_all

namespace ClientCall

def conRole : ClientCall → Role
  | .init true => .acquire
  | .realConnect | .query _ | .storeResult _ => .use
  | .close => .release
  | _ => .other

def resRole : ClientCall → Role
  | .storeResult true => .acquire
  | .fetchRow true | .numFields true => .use
  | .freeResult true => .release
  | _ => .other

def OnNull : ClientCall → Prop
  | .fetchRow false | .numFields false => True
  | _ => False

end ClientCall

/-- The connection and the result are used linearly: what is obtained is closed
or freed once, and nothing is read from a NULL result. -/
structure Disciplined (t : List ClientCall) : Prop where
  con_linear : Typestate.Linear ClientCall.conRole t
  res_linear : Typestate.Linear ClientCall.resRole t
  close_once : .init true ∈ t → t.count .close = 1
  free_once : .storeResult true ∈ t → t.count (.freeResult true) = 1
  not_onNull : ∀ e ∈ t, ¬ e.OnNull

namespace ClientCall

theorem conRole_eq_release (e : ClientCall) : e.conRole = .release ↔ e = .close := by
  cases e with
  | init con => cases con <;> simp [conRole]
  | _ => simp [conRole]

theorem resRole_eq_release (e : ClientCall) : e.resRole = .release ↔ e = .freeResult true := by
  cases e with
  | storeResult res | fetchRow res | numFields res | freeResult res =>
    cases res <;> simp [resRole]
  | _ => simp [resRole]

end ClientCall

theorem Disciplined.of_linear {t : List ClientCall}
    (hcon : Typestate.Linear ClientCall.conRole t) (hres : Typestate.Linear ClientCall.resRole t)
    (hnull : ∀ e ∈ t, ¬ e.OnNull) : Disciplined t where
  con_linear := hcon
  res_linear := hres
  close_once h := by
    have hone := hcon.release_once h rfl
    simp only [ClientCall.conRole_eq_release] at hone
    exact hone
  free_once h := by
    have hone := hres.release_once h rfl
    simp only [ClientCall.resRole_eq_release] at hone
    exact hone
  not_onNull := hnull

section

variable (append : Table → List Cell → Int × Table) (c : Call) (sqlStr : Option Bytes)
  (rows : List (List Cell)) (t : Table)

theorem execQueryCalls_disciplined : Disciplined (execQueryCalls c sqlStr).1 := by
  cases sqlStr with
  | none =>
    simp only [execQueryCalls]
    split_ifs <;> exact .of_linear (.inl rfl) (.inl rfl) (by simp)
  | some str =>
    simp only [execQueryCalls]
    split_ifs
    · exact .of_linear (.inl rfl) (.inl rfl) (by simp)
    · exact .of_linear (.inl rfl) (.inl rfl) (by simp [ClientCall.OnNull])
    all_goals exact .of_linear (.inr rfl) (.inl rfl) (by simp [ClientCall.OnNull])

theorem fetchRows_run :
    Typestate.run ClientCall.conRole .held (fetchRows append rows t).1 = some .released ∧
    Typestate.run ClientCall.resRole .held (fetchRows append rows t).1 = some .released ∧
    ∀ e ∈ (fetchRows append rows t).1, ¬ e.OnNull := by
  induction rows generalizing t with
  | nil => exact ⟨rfl, rfl, by simp [fetchRows, ClientCall.OnNull]⟩
  | cons row rows ih =>
    obtain ⟨hcon, hres, hnull⟩ := ih (append t row).2
    rw [fetchRows]
    simp only
    split_ifs
    · exact ⟨rfl, rfl, by simp [ClientCall.OnNull]⟩
    · refine ⟨hcon, hres, fun e he => ?_⟩
      rw [List.mem_append] at he
      rcases he with he | he
      · revert e
        simp [ClientCall.OnNull]
      · exact hnull e he

end

/-- The overload without a table is always disciplined. The other is so exactly
when, once it comes to its statement, that succeeds with a result. -/
theorem client_calls_iff (append : Table → List Cell → Int × Table) (c : Call)
    (sqlStr : Option Bytes) (res : Option (List (List Cell))) (retTable : Table) :
    Disciplined (execQueryCalls c sqlStr).1 ∧
    (Disciplined (execQueryIntoCalls append c sqlStr res retTable).1 ↔
      (c.conf.configured ∧ sqlStr.isSome ∧ c.init ∧ c.connect ∧ c.setNames →
        c.query ∧ res.isSome)) := by
  refine ⟨execQueryCalls_disciplined c sqlStr, ?_⟩
  cases sqlStr with
  | none =>
    simp only [execQueryIntoCalls, ite_self]
    exact iff_of_true (.of_linear (.inl rfl) (.inl rfl) (by simp)) (by simp)
  | some str =>
    simp only [execQueryIntoCalls]
    split_ifs with hconf hinit hconnect hnames hquery
    · exact iff_of_true (.of_linear (.inl rfl) (.inl rfl) (by simp)) (by simp_all)
    · exact iff_of_true (.of_linear (.inl rfl) (.inl rfl) (by simp [ClientCall.OnNull]))
        (by simp_all)
    · exact iff_of_true (.of_linear (.inr rfl) (.inl rfl) (by simp [ClientCall.OnNull]))
        (by simp_all)
    · exact iff_of_true (.of_linear (.inr rfl) (.inl rfl) (by simp [ClientCall.OnNull]))
        (by simp_all)
    · refine iff_of_false (fun h => ?_) (by simp_all)
      exact absurd (h.close_once (by simp)) (by simp)
    · cases res with
      | none =>
        refine iff_of_false (fun h => ?_) (by simp_all)
        exact h.not_onNull (.fetchRow false) (by simp) trivial
      | some rows =>
        obtain ⟨hcon, hres, hnull⟩ := fetchRows_run append rows retTable
        refine iff_of_true (.of_linear (.inr hcon) (.inr hres) fun e he => ?_) (by simp_all)
        rw [List.mem_append] at he
        rcases he with he | he
        · revert e
          simp [ClientCall.OnNull]
        · exact hnull e he

/-- A refused statement leaves the connection open, and a statement without a
result leads to a fetch from NULL. -/
theorem client_calls_wrong :
    (execQueryIntoCalls (fun t row => (0, t.append row)) refused (some []) none Table.empty).1.count
      .close = 0 ∧
    ClientCall.fetchRow false ∈ (execQueryIntoCalls (fun t row => (0, t.append row)) answered
      (some []) none Table.empty).1 ∧
    ¬ Disciplined (execQueryIntoCalls (fun t row => (0, t.append row)) refused (some []) none
      Table.empty).1 := by
  refine ⟨by decide, by decide, fun h => ?_⟩
  exact absurd (h.close_once (by decide)) (by decide)

end SecProGIS
