import SecProGIS.PathParts

/-! The paths `OnBnClickedButtonsavepath` makes for the files of one folder. A
cancelled folder dialog is taken for the folder with the empty name, and the new
names are not compared with the selected ones. -/

namespace SecProGIS

/-- The comparison of file names: it folds no other character with the
backslash. -/
structure CaseTable where
  upper : Char → Char
  upper_backslash : ∀ c, upper c = '\\' ↔ c = '\\'

namespace CaseTable

variable (t : CaseTable)

def Same (p q : CString) : Prop := p.map t.upper = q.map t.upper

instance (p q : CString) : Decidable (t.Same p q) := inferInstanceAs (Decidable (_ = _))

theorem backslash_mem_map {p : CString} : '\\' ∈ p.map t.upper ↔ '\\' ∈ p := by
  rw [List.mem_map]
  constructor
  · rintro ⟨c, hc, he⟩
    exact ((t.upper_backslash c).mp he) ▸ hc
  · exact fun h => ⟨'\\', h, (t.upper_backslash '\\').mpr rfl⟩

theorem same_append_cons {dir dir' name name' : CString} (h : '\\' ∉ name) (h' : '\\' ∉ name') :
    t.Same (dir ++ '\\' :: name) (dir' ++ '\\' :: name') ↔ t.Same dir dir' ∧ t.Same name name' := by
  have hsep : t.upper '\\' = '\\' := (t.upper_backslash '\\').mpr rfl
  rw [Same, List.map_append, List.map_append, List.map_cons, List.map_cons, hsep]
  exact Parts.append_cons_inj (mt t.backslash_mem_map.mp h) (mt t.backslash_mem_map.mp h')

end CaseTable

theorem Absolute.append {path : CString} (h : Absolute path) (rest : CString) :
    Absolute (path ++ rest) := by
  rcases h with ⟨drive, tail, rfl⟩ | ⟨tail, rfl⟩
  · exact .inl ⟨drive, tail ++ rest, rfl⟩
  · exact .inr ⟨tail ++ rest, rfl⟩

theorem nameOf_append_cons (dir : CString) {name : CString} (h : '\\' ∉ name) :
    nameOf (dir ++ '\\' :: name) = name := Parts.afterLast_append dir h

structure FolderSelection where
  dir : CString
  names : List CString
  absolute : Absolute (dir ++ ['\\'])
  backslash_notMem : ∀ name ∈ names, '\\' ∉ name
  nodup : names.Nodup
  two_le : 2 ≤ names.length

namespace FolderSelection

variable (sel : FolderSelection)

def paths : List CString := sel.names.map fun name => sel.dir ++ '\\' :: name

theorem absolute_of_mem {path : CString} (h : path ∈ sel.paths) : Absolute path := by
  obtain ⟨name, _, rfl⟩ := List.mem_map.mp h
  rw [List.append_cons]
  exact sel.absolute.append name

theorem map_nameOf : sel.paths.map nameOf = sel.names := by
  rw [paths, List.map_map, List.map_congr_left (g := id), List.map_id]
  exact fun name hname => nameOf_append_cons sel.dir (sel.backslash_notMem name hname)

end FolderSelection

def buChongEnc : CString := "(加密)".toList

theorem backslash_notMem_buChongEnc : '\\' ∉ buChongEnc := by decide

theorem getD_range_eq_map {α β : Type*} (f : α → β) (a : α) (l : List α) :
    (List.range l.length).map (fun i => f (l.getD i a)) = l.map f := by
  refine List.ext_getElem (by simp) fun i h h' => ?_
  have hi : i < l.length := by simpa using h'
  simp [hi]

namespace ArchiveDlg

def savePaths (names : List CString) (choice : Option CString) : List CString :=
  if names.length = 1 then choice.toList
  else names.map fun name => choice.getD [] ++ '\\' :: (buChongEnc ++ name)

theorem onSavePath_eq (d : ArchiveDlg) (choice : Option CString)
    (hname : d.plainNameAry.length = d.selFileNum) (hne : d.plainPathAry ≠ []) :
    d.onSavePath choice = { d with cipherPathAry := savePaths d.plainNameAry choice } := by
  rw [onSavePath, if_neg (mt List.isEmpty_iff.mp hne), ← hname, savePaths]
  split
  · rfl
  · have hpaths := getD_range_eq_map
      (fun name => choice.getD [] ++ ['\\'] ++ (buChongEnc ++ name)) [] d.plainNameAry
    simp only [List.append_assoc, List.singleton_append] at hpaths
    simp only [List.append_assoc, List.singleton_append, ← hpaths]
    rfl

end ArchiveDlg

theorem onSavePath_selection (d : ArchiveDlg) (combo1 : CString) (sel : FolderSelection)
    (choice : Option CString) :
    ((d.onReadFile combo1 (some sel.paths)).onSavePath choice).cipherPathAry =
      sel.names.map fun name => choice.getD [] ++ '\\' :: (buChongEnc ++ name) := by
  have hlen : sel.paths.length = sel.names.length := List.length_map _
  have htwo := sel.two_le
  have hne : sel.paths ≠ [] := List.ne_nil_of_length_pos (by omega)
  rw [d.onReadFile_eq combo1 fun _ => sel.absolute_of_mem, sel.map_nameOf,
    ArchiveDlg.onSavePath_eq _ choice hlen.symm hne]
  exact if_neg (by omega : sel.names.length ≠ 1)

def InFolder (folder path : CString) : Prop := ∃ name, '\\' ∉ name ∧ path = folder ++ '\\' :: name

/-- What the paths to save to are to be: none when the dialog is cancelled, else
one for each file, in the folder, and not the path of a selected file. -/
def Unclobbered (t : CaseTable) (paths : List CString) (choice : Option CString)
    (cipherPathAry : List CString) : Prop :=
  match choice with
  | none => cipherPathAry = []
  | some folder =>
    cipherPathAry.length = paths.length ∧ cipherPathAry.Nodup ∧
      ∀ cipher ∈ cipherPathAry, InFolder folder cipher ∧ ∀ plain ∈ paths, ¬ t.Same cipher plain

section

variable (t : CaseTable) (sel : FolderSelection) (folder : CString)

theorem marked_nodup :
    (sel.names.map fun name => folder ++ '\\' :: (buChongEnc ++ name)).Nodup := by
  refine List.Nodup.map (fun name name' he => ?_) sel.nodup
  exact List.append_cancel_left (List.cons_eq_cons.mp (List.append_cancel_left he)).2

theorem marked_inFolder {name : CString} (h : name ∈ sel.names) :
    InFolder folder (folder ++ '\\' :: (buChongEnc ++ name)) := by
  refine ⟨buChongEnc ++ name, ?_, rfl⟩
  rw [List.mem_append, not_or]
  exact ⟨backslash_notMem_buChongEnc, sel.backslash_notMem name h⟩

theorem same_marked_iff {name other : CString} (h : name ∈ sel.names) (h' : other ∈ sel.names) :
    t.Same (folder ++ '\\' :: (buChongEnc ++ name)) (sel.dir ++ '\\' :: other) ↔
      t.Same folder sel.dir ∧ t.Same (buChongEnc ++ name) other := by
  refine t.same_append_cons ?_ (sel.backslash_notMem other h')
  rw [List.mem_append, not_or]
  exact ⟨backslash_notMem_buChongEnc, sel.backslash_notMem name h⟩

end

/-- The paths are good exactly when a folder is chosen, and in the folder of the
selection no file has the new name of another. -/
theorem output_paths_iff (t : CaseTable) (d : ArchiveDlg) (combo1 : CString)
    (sel : FolderSelection) (choice : Option CString) :
    Unclobbered t sel.paths choice
      ((d.onReadFile combo1 (some sel.paths)).onSavePath choice).cipherPathAry ↔
    ∃ folder, choice = some folder ∧ ¬ (t.Same folder sel.dir ∧
      ∃ name ∈ sel.names, ∃ other ∈ sel.names, t.Same (buChongEnc ++ name) other) := by
  rw [onSavePath_selection]
  cases choice with
  | none =>
    have hne : sel.names ≠ [] := List.ne_nil_of_length_pos (by have := sel.two_le; omega)
    simp [Unclobbered, hne]
  | some folder =>
    have hlen : sel.names.length = sel.paths.length := (List.length_map _).symm
    simp only [Unclobbered, Option.getD_some, List.length_map, hlen, marked_nodup, true_and,
      Option.some.injEq, exists_eq_left']
    constructor
    · rintro h ⟨hdir, name, hname, other, hother, hsame⟩
      have hpaths := (h _ (List.mem_map_of_mem hname)).2 _ (List.mem_map_of_mem hother)
      exact hpaths ((same_marked_iff t sel folder hname hother).mpr ⟨hdir, hsame⟩)
    · intro h cipher hcipher
      obtain ⟨name, hname, rfl⟩ := List.mem_map.mp hcipher
      refine ⟨marked_inFolder sel folder hname, fun plain hplain hsame => h ?_⟩
      obtain ⟨other, hother, rfl⟩ := List.mem_map.mp hplain
      have hboth := (same_marked_iff t sel folder hname hother).mp hsame
      exact ⟨hboth.1, name, hname, other, hother, hboth.2⟩

theorem toUpper_eq_backslash_iff (c : Char) : c.toUpper = '\\' ↔ c = '\\' := by
  unfold Char.toUpper
  split
  · rename_i h
    refine iff_of_false (fun he => ?_) (fun he => ?_)
    · have hval := congrArg Char.val he
      dsimp only at hval
      rw [eq_sub_of_add_eq hval] at h
      exact absurd h.2 (by decide)
    · rw [he] at h
      exact absurd h.1 (by decide)
  · exact Iff.rfl

def CaseTable.ascii : CaseTable := ⟨Char.toUpper, toUpper_eq_backslash_iff⟩

/-- A file, and what an earlier run made of it. -/
def sampleSelection : FolderSelection where
  dir := "C:\\gis".toList
  names := ["a.dwg".toList, "(加密)a.dwg".toList]
  absolute := absolute_drive 'C' "gis\\".toList
  backslash_notMem := by decide
  nodup := by decide
  two_le := by decide

/-- Nothing is chosen, and two paths are there; the folder of the selection is
chosen, and the new path of the first file is that of the second. -/
theorem output_paths_wrong :
    ¬ Unclobbered .ascii sampleSelection.paths none
      ((sampleDlg.onReadFile [] (some sampleSelection.paths)).onSavePath none).cipherPathAry ∧
    ¬ Unclobbered .ascii sampleSelection.paths (some "C:\\gis".toList)
      ((sampleDlg.onReadFile [] (some sampleSelection.paths)).onSavePath
        (some "C:\\gis".toList)).cipherPathAry := by
  constructor
  · rw [Unclobbered]
    decide
  · intro h
    have hcipher := (h.2.2 "C:\\gis\\(加密)a.dwg".toList (by decide)).2
    exact hcipher "C:\\gis\\(加密)a.dwg".toList (by decide) (by decide)

end SecProGIS
