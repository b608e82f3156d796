import SecProGIS.LoginDlg

/-! The check of an administrator against all rows the server returns for the
name. It looks at the row that comes first. -/

namespace SecProGIS

def adminLookup (same : Bytes → Bytes → Bool) (table : List AdminRow) (name : Bytes) :
    List AdminRow :=
  table.filter fun row => row.acc.any fun acc => same acc name

/-- The answers of the server, in an order of its own. -/
structure Reply (same : Bytes → Bytes → Bool) (table : List AdminRow) where
  rows : Bytes → List AdminRow
  perm : ∀ name, (rows name).Perm (adminLookup same table name)

namespace AdminRow

variable (name hash : Bytes) (row : AdminRow)

def Matches : Prop := cstr (row.acc.getD []) = name ∧ cstr (row.password.getD []) = hash

/-- With this row first the program ends: the statement does not fit its
buffer, or a column to compare is empty and its cell NULL. -/
def Ends : Prop :=
  100 ≤ (adminSql name).length ∨ cstr (row.acc.getD []) = [] ∨
    cstr (row.acc.getD []) = name ∧ cstr (row.password.getD []) = []

instance : Decidable (row.Matches name hash) := inferInstanceAs (Decidable (_ ∧ _))

instance : Decidable (row.Ends name) := inferInstanceAs (Decidable (_ ∨ _ ∨ _))

def number : Int := atoi (cstr (row.id.getD []))

def decision : Option (Option Int) :=
  if 100 ≤ (adminSql name).length then none else row.verdict name hash

variable {name hash row}

theorem decision_eq_none : row.decision name hash = none ↔ row.Ends name := by
  rw [decision, verdict, Ends]
  by_cases hfit : 100 ≤ (adminSql name).length
  · simp [hfit]
  by_cases hacc : cstr (row.acc.getD []) = []
  · simp [hacc]
  by_cases hname : cstr (row.acc.getD []) = name
  · subst hname
    by_cases hpassword : cstr (row.password.getD []) = []
    · simp [hpassword]
    · by_cases hhash : cstr (row.password.getD []) = hash
      · subst hhash
        simp [hfit, hacc, hpassword]
      · simp [hfit, hacc, hpassword, hhash]
  · simp [hfit, hacc, hname]

theorem decision_eq_accept {id : Int} : row.decision name hash = some (some id) ↔
    row.Matches name hash ∧ ¬ row.Ends name ∧ id = row.number := by
  constructor
  · intro h
    have hends : ¬ row.Ends name := fun he => by simp [decision_eq_none.mpr he] at h
    rw [decision, if_neg fun hfit => hends (.inl hfit)] at h
    obtain ⟨hname, hhash, hid⟩ := verdict_eq_some h
    exact ⟨⟨hname, hhash⟩, hends, hid⟩
  · rintro ⟨⟨hname, hhash⟩, hends, rfl⟩
    simp only [Ends, not_or, not_and] at hends
    obtain ⟨hfit, hacc, hpassword⟩ := hends
    rw [decision, if_neg hfit, verdict, if_neg hacc, if_pos hname, if_neg (hpassword hname),
      if_pos hhash]
    rfl

end AdminRow

def LoginDlg.conclude (d : LoginDlg) (boxes : LoginBoxes) :
    Option (Option Int) → LoginDlg × Option LoginEnd
  | none => (d, some .terminated)
  | some none => (d, none)
  | some (some admid) => { d with admid := admid }.onOK boxes

theorem conclude_injective (d : LoginDlg) (boxes : LoginBoxes) :
    Function.Injective (d.conclude boxes) := by
  intro x y h
  match x, y with
  | none, none => rfl
  | some none, some none => rfl
  | some (some i), some (some j) =>
    have hid : i = j := congrArg (fun r : LoginDlg × Option LoginEnd => r.1.admid) h
    rw [hid]
  | none, some none | none, some (some _) | some none, none | some none, some (some _)
  | some (some _), none | some (some _), some none =>
    exact absurd (congrArg Prod.snd h) (by simp [LoginDlg.conclude, LoginDlg.onOK])

theorem conclude_ended_iff {d : LoginDlg} {boxes : LoginBoxes} {x : Option (Option Int)} :
    (d.conclude boxes x).2 = some (.ended idOk) ↔ ∃ id, x = some (some id) := by
  match x with
  | none => simp [LoginDlg.conclude]
  | some none => simp [LoginDlg.conclude]
  | some (some id) => simp [LoginDlg.conclude, LoginDlg.onOK]

theorem exists_perm_cons {α : Type*} {l : List α} {x : α} (h : x ∈ l) :
    ∃ t, (x :: t).Perm l := by
  obtain ⟨u, v, rfl⟩ := List.append_of_mem h
  exact ⟨u ++ v, List.perm_middle.symm⟩

namespace LoginDlg

variable (acp : CString → Bytes) (md5 : Md5) (d : LoginDlg)

def cAdmin : Bytes := cstr (acp d.managerName)

def md5Pas : Bytes := Hex.text (md5 (acp d.managerPassword)).toList

variable {acp md5 d} {a : Attempt}

theorem handle_of_cons (hcall : a.call.code = 0) {row : AdminRow} {rows : List AdminRow}
    (h : a.rows (d.cAdmin acp) = row :: rows) : d.handle acp md5 (.buttonLogin a) =
      d.conclude a.boxes (row.decision (d.cAdmin acp) (d.md5Pas acp md5)) := by
  have hconf : a.call.conf.configured = true := (Call.code_eq_zero.mp hcall).1
  rw [cAdmin] at h
  rw [handle_buttonLogin, h, AdminRow.decision, cAdmin, md5Pas]
  by_cases hfit : 100 ≤ (adminSql (cstr (acp d.managerName))).length
  · simp [hconf, hfit, conclude]
  · simp only [hconf, hfit, hcall, Bool.not_true, Bool.false_eq_true, if_false, ne_eq, not_true,
      List.head?_cons]
    split <;> rename_i hverdict <;> rw [hverdict] <;> rfl

theorem handle_of_nil (hcall : a.call.code = 0) (h : a.rows (d.cAdmin acp) = []) :
    d.handle acp md5 (.buttonLogin a) = d.conclude a.boxes
      (if 100 ≤ (adminSql (d.cAdmin acp)).length then none else some none) := by
  have hconf : a.call.conf.configured = true := (Call.code_eq_zero.mp hcall).1
  rw [cAdmin] at h ⊢
  rw [handle_buttonLogin, h]
  by_cases hfit : 100 ≤ (adminSql (cstr (acp d.managerName))).length
  · simp [hconf, hfit, conclude]
  · simp [hconf, hfit, hcall, conclude]

end LoginDlg

section

variable (acp : CString → Bytes) (md5 : Md5) (same : Bytes → Bytes → Bool)
  (table : List AdminRow) (d : LoginDlg) (call : Call) (boxes : LoginBoxes)

def login (reply : Reply same table) : LoginDlg × Option LoginEnd :=
  d.handle acp md5 (.buttonLogin ⟨call, reply.rows, boxes⟩)

/-- The decision does not depend on the order of the rows: it accepts when one
of them matches, with the number of such a row. -/
structure OrderFree : Prop where
  accepts_iff : ∀ reply, (login acp md5 same table d call boxes reply).2 = some (.ended idOk) ↔
    ∃ row ∈ adminLookup same table (d.cAdmin acp), row.Matches (d.cAdmin acp) (d.md5Pas acp md5)
  admid_eq : ∀ reply, (login acp md5 same table d call boxes reply).2 = some (.ended idOk) →
    ∃ row ∈ adminLookup same table (d.cAdmin acp),
      row.Matches (d.cAdmin acp) (d.md5Pas acp md5) ∧
      (login acp md5 same table d call boxes reply).1.admid = row.number
  order : ∀ reply reply',
    login acp md5 same table d call boxes reply = login acp md5 same table d call boxes reply'

variable {acp md5 same table d call boxes}

theorem exists_reply {name : Bytes} {row : AdminRow} (h : row ∈ adminLookup same table name) :
    ∃ reply : Reply same table, ∃ rows, reply.rows name = row :: rows := by
  obtain ⟨t, ht⟩ := exists_perm_cons h
  refine ⟨⟨Function.update (adminLookup same table) name (row :: t), fun name' => ?_⟩, t,
    Function.update_self ..⟩
  by_cases hname : name' = name
  · subst hname
    rwa [Function.update_self]
  · rw [Function.update_of_ne hname]

theorem exists_login (hcall : call.code = 0) {row : AdminRow}
    (h : row ∈ adminLookup same table (d.cAdmin acp)) : ∃ reply,
    login acp md5 same table d call boxes reply =
      d.conclude boxes (row.decision (d.cAdmin acp) (d.md5Pas acp md5)) := by
  obtain ⟨reply, rows, hrows⟩ := exists_reply h
  exact ⟨reply, LoginDlg.handle_of_cons (a := ⟨call, reply.rows, boxes⟩) hcall hrows⟩

theorem OrderFree.decision_eq (h : OrderFree acp md5 same table d call boxes)
    (hcall : call.code = 0) {row row' : AdminRow}
    (hrow : row ∈ adminLookup same table (d.cAdmin acp))
    (hrow' : row' ∈ adminLookup same table (d.cAdmin acp)) :
    row.decision (d.cAdmin acp) (d.md5Pas acp md5) =
      row'.decision (d.cAdmin acp) (d.md5Pas acp md5) := by
  obtain ⟨reply, hreply⟩ := exists_login hcall hrow
  obtain ⟨reply', hreply'⟩ := exists_login hcall hrow'
  have hsame := h.order reply reply'
  rw [hreply, hreply'] at hsame
  exact conclude_injective d boxes hsame

theorem OrderFree.accepts (h : OrderFree acp md5 same table d call boxes) (hcall : call.code = 0)
    (hmatch : ∃ row ∈ adminLookup same table (d.cAdmin acp),
      row.Matches (d.cAdmin acp) (d.md5Pas acp md5)) {row : AdminRow}
    (hrow : row ∈ adminLookup same table (d.cAdmin acp)) :
    ∃ id, row.decision (d.cAdmin acp) (d.md5Pas acp md5) = some (some id) := by
  obtain ⟨reply, hreply⟩ := exists_login hcall hrow
  have hended := (h.accepts_iff reply).mpr hmatch
  rw [hreply] at hended
  exact conclude_ended_iff.mp hended

theorem orderFree_of_login {x : Option (Option Int)}
    (hlogin : ∀ reply, login acp md5 same table d call boxes reply = d.conclude boxes x)
    (haccept : ∀ id, x = some (some id) → ∃ row ∈ adminLookup same table (d.cAdmin acp),
      row.Matches (d.cAdmin acp) (d.md5Pas acp md5) ∧ id = row.number)
    (hmatch : (∃ row ∈ adminLookup same table (d.cAdmin acp),
      row.Matches (d.cAdmin acp) (d.md5Pas acp md5)) → ∃ id, x = some (some id)) :
    OrderFree acp md5 same table d call boxes where
  accepts_iff reply := by
    rw [hlogin, conclude_ended_iff]
    refine ⟨?_, hmatch⟩
    rintro ⟨id, hid⟩
    obtain ⟨row, hrow, hmatches, _⟩ := haccept id hid
    exact ⟨row, hrow, hmatches⟩
  admid_eq reply h := by
    rw [hlogin, conclude_ended_iff] at h
    obtain ⟨id, rfl⟩ := h
    obtain ⟨row, hrow, hmatches, hid⟩ := haccept id rfl
    exact ⟨row, hrow, hmatches, by rw [hlogin]; exact hid⟩
  order reply reply' := (hlogin reply).trans (hlogin reply').symm

theorem orderFree_of_decision (hcall : call.code = 0) {x : Option (Option Int)}
    (hrows : ∀ row ∈ adminLookup same table (d.cAdmin acp),
      row.decision (d.cAdmin acp) (d.md5Pas acp md5) = x)
    (hmatch : (∃ row ∈ adminLookup same table (d.cAdmin acp),
      row.Matches (d.cAdmin acp) (d.md5Pas acp md5)) → ∃ id, x = some (some id)) :
    OrderFree acp md5 same table d call boxes := by
  by_cases hnil : adminLookup same table (d.cAdmin acp) = []
  · refine orderFree_of_login (x := if 100 ≤ (adminSql (d.cAdmin acp)).length then none
      else some none) (fun reply => ?_) (fun id hid => ?_) fun h => ?_
    · have hperm := reply.perm (d.cAdmin acp)
      rw [hnil] at hperm
      exact LoginDlg.handle_of_nil (a := ⟨call, reply.rows, boxes⟩) hcall (List.perm_nil.mp hperm)
    · split at hid <;> cases hid
    · rw [hnil] at h
      simp at h
  · refine orderFree_of_login (x := x) (fun reply => ?_) (fun id hid => ?_) hmatch
    · have hperm := reply.perm (d.cAdmin acp)
      cases hfirst : reply.rows (d.cAdmin acp) with
      | nil =>
        rw [hfirst] at hperm
        exact absurd (List.nil_perm.mp hperm) hnil
      | cons row rows =>
        rw [hfirst] at hperm
        rw [login, LoginDlg.handle_of_cons (a := ⟨call, reply.rows, boxes⟩) hcall hfirst,
          hrows row (hperm.subset (by simp))]
    · obtain ⟨row, hrow⟩ := List.exists_mem_of_ne_nil _ hnil
      obtain ⟨hmatches, _, hnumber⟩ := AdminRow.decision_eq_accept.mp ((hrows row hrow).trans hid)
      exact ⟨row, hrow, hmatches, hnumber⟩

end

/-- The decision does not depend on the order exactly when the returned rows
all match, do not end the program and have one number, or when none matches and
all or none end the program. -/
theorem login_order_iff (acp : CString → Bytes) (md5 : Md5) (same : Bytes → Bytes → Bool)
    (table : List AdminRow) (d : LoginDlg) (call : Call) (boxes : LoginBoxes)
    (hcall : call.code = 0) :
    let name := d.cAdmin acp
    let hash := d.md5Pas acp md5
    let returned := adminLookup same table name
    OrderFree acp md5 same table d call boxes ↔
      ((∀ row ∈ returned, row.Matches name hash ∧ ¬ row.Ends name) ∧
        ∀ row ∈ returned, ∀ row' ∈ returned, row.number = row'.number) ∨
      (∀ row ∈ returned, ¬ row.Matches name hash) ∧
        ((∀ row ∈ returned, row.Ends name) ∨ ∀ row ∈ returned, ¬ row.Ends name) := by
  intro name hash returned
  constructor
  · intro h
    have hsame : ∀ row ∈ returned, ∀ row' ∈ returned,
        row.decision name hash = row'.decision name hash :=
      fun row hrow row' hrow' => h.decision_eq hcall hrow hrow'
    by_cases hmatch : ∃ row ∈ returned, row.Matches name hash
    · have haccept : ∀ row ∈ returned, row.Matches name hash ∧ ¬ row.Ends name ∧
          row.decision name hash = some (some row.number) := by
        intro row hrow
        obtain ⟨id, hid⟩ := h.accepts hcall hmatch hrow
        obtain ⟨hmatches, hends, rfl⟩ := AdminRow.decision_eq_accept.mp hid
        exact ⟨hmatches, hends, hid⟩
      refine .inl ⟨fun row hrow => ⟨(haccept row hrow).1, (haccept row hrow).2.1⟩, ?_⟩
      intro row hrow row' hrow'
      have hnumber := hsame row hrow row' hrow'
      rw [(haccept row hrow).2.2, (haccept row' hrow').2.2] at hnumber
      exact Option.some.inj (Option.some.inj hnumber)
    · refine .inr ⟨fun row hrow hm => hmatch ⟨row, hrow, hm⟩, ?_⟩
      by_cases hends : ∃ row ∈ returned, row.Ends name
      · obtain ⟨row, hrow, hend⟩ := hends
        refine .inl fun row' hrow' => ?_
        have hnone : row.decision name hash = none := AdminRow.decision_eq_none.mpr hend
        exact AdminRow.decision_eq_none.mp ((hsame row' hrow' row hrow).trans hnone)
      · exact .inr fun row hrow hend => hends ⟨row, hrow, hend⟩
  · rintro (⟨hmatch, hnumber⟩ | ⟨hmatch, hends | hends⟩)
    · obtain ⟨id, hid⟩ : ∃ id, ∀ row ∈ returned, row.number = id := by
        cases hfirst : returned with
        | nil => exact ⟨0, by simp⟩
        | cons row rows =>
          have hrow : row ∈ returned := by rw [hfirst]; exact List.mem_cons_self
          exact ⟨row.number, fun row' hrow' => hnumber row' (hfirst ▸ hrow') row hrow⟩
      refine orderFree_of_decision hcall (x := some (some id)) (fun row hrow => ?_)
        fun _ => ⟨id, rfl⟩
      rw [AdminRow.decision_eq_accept]
      exact ⟨(hmatch row hrow).1, (hmatch row hrow).2, (hid row hrow).symm⟩
    · refine orderFree_of_decision hcall (x := none)
        (fun row hrow => AdminRow.decision_eq_none.mpr (hends row hrow)) ?_
      exact fun ⟨row, hrow, hm⟩ => absurd hm (hmatch row hrow)
    · refine orderFree_of_decision hcall (x := some none) (fun row hrow => ?_)
        fun ⟨row, hrow, hm⟩ => absurd hm (hmatch row hrow)
      match hdecision : row.decision name hash with
      | none => exact absurd (AdminRow.decision_eq_none.mp hdecision) (hends row hrow)
      | some none => rfl
      | some (some id) =>
        exact absurd (AdminRow.decision_eq_accept.mp hdecision).1 (hmatch row hrow)

def lowerByte (c : u8) : u8 := if 65 ≤ c ∧ c ≤ 90 then c + 32 else c

def sameIgnoringCase (a b : Bytes) : Bool := a.map lowerByte = b.map lowerByte

def sampleAdmin (id acc : String) : AdminRow :=
  ⟨some (ascii id), some (ascii acc), some (Hex.text (List.replicate 16 0)), []⟩

def sampleUser : LoginDlg := ⟨"gis".toList, "gis".toList, 0⟩

/-- Two rows with one number. -/
theorem login_order_one : answered.code = 0 ∧
    OrderFree latin (fun _ => Vector.replicate 16 0) sameIgnoringCase
      [sampleAdmin "7" "gis", sampleAdmin "07" "gis"] sampleUser answered ⟨[], []⟩ := by
  refine ⟨by decide, ?_⟩
  refine (login_order_iff latin (fun _ => Vector.replicate 16 0) sameIgnoringCase
    [sampleAdmin "7" "gis", sampleAdmin "07" "gis"] sampleUser answered ⟨[], []⟩
    (by decide)).mpr (.inl ?_)
  decide

/-- The row with the name in capitals comes first, and the other is not looked at. -/
theorem login_order_two :
    ¬ OrderFree latin (fun _ => Vector.replicate 16 0) sameIgnoringCase
      [sampleAdmin "6" "GIS", sampleAdmin "7" "gis"] sampleUser answered ⟨[], []⟩ := by
  intro h
  have hfirst := h.accepts_iff ⟨adminLookup sameIgnoringCase _, fun _ => .refl _⟩
  have hmem : sampleAdmin "7" "gis" ∈ adminLookup sameIgnoringCase
      [sampleAdmin "6" "GIS", sampleAdmin "7" "gis"] (sampleUser.cAdmin latin) :=
    List.mem_filter.mpr ⟨by simp, by decide⟩
  exact absurd (hfirst.mpr ⟨_, hmem, by decide⟩) (by decide)

end SecProGIS
