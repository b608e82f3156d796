import SecProGIS.Lib.Rows

/-! Files and a table of records by key, filed together: an entry goes to a
path and to the row of its key, and stays until a later entry takes either. -/

structure Archive (π β κ ν : Type*) where
  files : π → Option β
  rows : List (Rows.Row κ ν)

namespace Archive

variable {π β κ ν : Type*}

structure Entry (π β κ ν : Type*) where
  path : π
  file : β
  key : ν
  values : Rows.Values κ ν

variable [DecidableEq π] [DecidableEq κ] [DecidableEq ν]

def put (k : κ) (a : Archive π β κ ν) (e : Entry π β κ ν) : Archive π β κ ν :=
  ⟨Function.update a.files e.path (some e.file), Rows.put k a.rows (e.key, e.values)⟩

section

variable {k : κ} {a : Archive π β κ ν}

theorem foldl_put_rows (es : List (Entry π β κ ν)) : (es.foldl (put k) a).rows =
    (es.map fun e => (e.key, e.values)).foldl (Rows.put k) a.rows := by
  induction es generalizing a with
  | nil => rfl
  | cons e es ih => exact ih

end

end Archive
