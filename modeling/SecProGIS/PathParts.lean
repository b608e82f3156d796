import SecProGIS.ArchiveDlg
import SecProGIS.Lib.Parts

/-! The names and extensions `OnReadFile` takes from the paths of a selection.
The scan of a path goes past a dot, so it ends with the extension behind the
first dot of the name, and a name without a dot keeps the extension before it. -/

namespace SecProGIS

open Parts (afterFirst afterLast)

/-- A path from a drive, or from a server. -/
def Absolute (path : CString) : Prop :=
  (∃ drive rest, path = drive :: ':' :: '\\' :: rest) ∨ ∃ rest, path = '\\' :: '\\' :: rest

def nameOf (path : CString) : CString := afterLast '\\' path

def extOf (name : CString) : CString := if '.' ∈ name then afterLast '.' name else []

theorem Absolute.exists_dir {path : CString} (h : Absolute path) :
    ∃ dir, dir ≠ [] ∧ path = dir ++ '\\' :: nameOf path := by
  obtain ⟨c, d, rest, rfl, hmem⟩ : ∃ c d rest, path = c :: d :: rest ∧ '\\' ∈ d :: rest := by
    rcases h with ⟨drive, rest, rfl⟩ | ⟨rest, rfl⟩
    · exact ⟨drive, ':', '\\' :: rest, rfl, by simp⟩
    · exact ⟨'\\', '\\', rest, rfl, by simp⟩
  obtain ⟨u, v, hcut, hv⟩ : ∃ u v, d :: rest = u ++ '\\' :: v ∧ '\\' ∉ v := by
    obtain ⟨u, hu⟩ := Parts.eq_append_afterLast hmem
    exact ⟨u, _, hu, Parts.not_mem_afterLast _⟩
  have hname : nameOf (c :: d :: rest) = v := by
    rw [nameOf, hcut, ← List.cons_append, Parts.afterLast_append _ hv]
  exact ⟨c :: u, List.cons_ne_nil _ _, by rw [hname, hcut]; rfl⟩

namespace ArchiveDlg

section

variable {dir name : CString}

theorem splitPath_name (hdir : dir ≠ []) (hname : '\\' ∉ name) (s : CString × CString) {k : Nat}
    (hk : k ≤ name.length) : splitPath (dir ++ '\\' :: name) (dir.length + k) s =
      (name, if '.' ∈ name.take k then afterFirst '.' name else s.2) := by
  induction k generalizing s with
  | zero =>
    obtain ⟨m, hm⟩ : ∃ m, dir.length = m + 1 :=
      Nat.exists_eq_succ_of_ne_zero (List.length_pos_iff.mpr hdir).ne'
    have hstop : (dir ++ '\\' :: name)[m + 1]? = some '\\' := by
      rw [← hm, List.getElem?_append_right le_rfl]
      simp
    have hright : (dir ++ '\\' :: name).drop (m + 2) = name := by
      rw [show m + 2 = dir.length + 1 by omega, List.drop_append]
      simp
    rw [Nat.add_zero, hm, splitPath, hstop, if_neg (by decide), if_pos rfl, hright]
    simp
  | succ k ih =>
    have hlt : k < name.length := hk
    have hchar : (dir ++ '\\' :: name)[dir.length + k + 1]? = some name[k] := by
      rw [List.getElem?_append_right (by omega)]
      simp [show dir.length + k + 1 - dir.length = k + 1 by omega, hlt]
    have hright : (dir ++ '\\' :: name).drop (dir.length + k + 2) = name.drop (k + 1) := by
      rw [List.drop_append, List.drop_of_length_le (by omega),
        show dir.length + k + 2 - dir.length = k + 2 by omega]
      rfl
    have htake : name.take (k + 1) = name.take k ++ [name[k]] := (List.take_append_getElem hlt).symm
    rw [← Nat.add_assoc, splitPath, hchar]
    by_cases hdot : name[k] = '.'
    · have hmem : '.' ∈ name.take (k + 1) := by rw [htake, hdot]; simp
      rw [if_pos (by rw [hdot]), ih _ (by omega), hright, if_pos hmem]
      by_cases hbefore : '.' ∈ name.take k
      · rw [if_pos hbefore]
      · have hcut : name = name.take k ++ '.' :: name.drop (k + 1) := by
          rw [← hdot, ← List.drop_eq_getElem_cons hlt, List.take_append_drop]
        have hfirst := Parts.afterFirst_append hbefore (name.drop (k + 1))
        rw [← hcut] at hfirst
        rw [if_neg hbefore, hfirst]
    · have hback : name[k] ≠ '\\' := fun he => hname (he ▸ List.getElem_mem hlt)
      have hiff : '.' ∈ name.take (k + 1) ↔ '.' ∈ name.take k := by
        rw [htake, List.mem_append, List.mem_singleton, or_iff_left (Ne.symm hdot)]
      rw [if_neg (by simpa using hdot), if_neg (by simpa using hback), ih _ (by omega)]
      simp only [hiff]

theorem splitPath_eq (hdir : dir ≠ []) (hname : '\\' ∉ name) (s : CString × CString) :
    splitPath (dir ++ '\\' :: name) ((dir ++ '\\' :: name).length - 1) s =
    (name, if '.' ∈ name then afterFirst '.' name else s.2) := by
  have hlen : (dir ++ '\\' :: name).length - 1 = dir.length + name.length := by
    rw [List.length_append, List.length_cons]
    omega
  rw [hlen, splitPath_name hdir hname s le_rfl, List.take_length]

end

def scans (s : CString × CString) : List CString → List (CString × CString)
  | [] => []
  | path :: paths =>
    let s := splitPath path (path.length - 1) s
    s :: scans s paths

@[simp] theorem scans_length (s : CString × CString) (paths : List CString) :
    (scans s paths).length = paths.length := by
  induction paths generalizing s with
  | nil => rfl
  | cons path paths ih => simp [scans, ih]

theorem addPaths_eq (d : ArchiveDlg) (s : CString × CString) (paths : List CString) :
    d.addPaths s paths =
      { d with
        plainPathAry := d.plainPathAry ++ paths
        plainNameAry := d.plainNameAry ++ (scans s paths).map Prod.fst
        plainExtAry := d.plainExtAry ++ (scans s paths).map Prod.snd } := by
  induction paths generalizing d s with
  | nil => simp [addPaths, scans]
  | cons path paths ih =>
    rw [addPaths, ih]
    simp [scans]

theorem onReadFile_scans (d : ArchiveDlg) (combo1 : CString) (selection : Option (List CString)) :
    d.onReadFile combo1 selection =
      { d with
        orgName := combo1
        remark := "无".toList
        plainPathAry := selection.getD []
        plainNameAry := (scans ([], []) (selection.getD [])).map Prod.fst
        plainExtAry := (scans ([], []) (selection.getD [])).map Prod.snd
        cipherPathAry := []
        selFileNum := (selection.getD []).length } := by
  simp only [onReadFile, addPaths_eq]
  rfl

def carriedExts (ext : CString) : List CString → List CString
  | [] => []
  | name :: names =>
    let ext := if '.' ∈ name then afterFirst '.' name else ext
    ext :: carriedExts ext names

theorem scans_eq (s : CString × CString) {paths : List CString}
    (h : ∀ path ∈ paths, Absolute path) :
    (scans s paths).map Prod.fst = paths.map nameOf ∧
      (scans s paths).map Prod.snd = carriedExts s.2 (paths.map nameOf) := by
  induction paths generalizing s with
  | nil => exact ⟨rfl, rfl⟩
  | cons path paths ih =>
    rw [List.forall_mem_cons] at h
    obtain ⟨dir, hdir, hpath⟩ := h.1.exists_dir
    have hscan := splitPath_eq hdir (Parts.not_mem_afterLast path) s
    rw [← nameOf, ← hpath] at hscan
    have hrest := ih (nameOf path, if '.' ∈ nameOf path then afterFirst '.' (nameOf path) else s.2)
      h.2
    rw [scans, hscan]
    exact ⟨congrArg (nameOf path :: ·) hrest.1, congrArg (_ :: ·) hrest.2⟩

theorem onReadFile_eq (d : ArchiveDlg) (combo1 : CString) {paths : List CString}
    (h : ∀ path ∈ paths, Absolute path) : d.onReadFile combo1 (some paths) =
      { d with
        orgName := combo1
        remark := "无".toList
        plainPathAry := paths
        plainNameAry := paths.map nameOf
        plainExtAry := carriedExts [] (paths.map nameOf)
        cipherPathAry := []
        selFileNum := paths.length } := by
  rw [onReadFile_scans, Option.getD_some, (scans_eq _ h).1, (scans_eq _ h).2]

theorem carriedExts_eq_iff (ext : CString) (names : List CString) :
    carriedExts ext names = names.map extOf ↔
      (∀ name ∈ names, name.count '.' ≤ 1) ∧
      (∀ name ∈ names.head?, '.' ∉ name → ext = []) ∧
      names.IsChain fun before name => '.' ∉ name → extOf before = [] := by
  induction names generalizing ext with
  | nil => simp [carriedExts]
  | cons name names ih =>
    have hscan : (if '.' ∈ name then afterFirst '.' name else ext) = extOf name ↔
        name.count '.' ≤ 1 ∧ ('.' ∉ name → ext = []) := by
      rw [extOf]
      by_cases hdot : '.' ∈ name
      · have hpos := List.count_pos_iff.mpr hdot
        rw [if_pos hdot, if_pos hdot, Parts.afterFirst_eq_afterLast_iff hdot]
        constructor
        · exact fun h => ⟨h.le, fun hno => absurd hdot hno⟩
        · exact fun h => le_antisymm h.1 hpos
      · simp [hdot, List.count_eq_zero_of_not_mem hdot]
    have hhead : (∀ x ∈ (name :: names).head?, '.' ∉ x → ext = []) ↔ ('.' ∉ name → ext = []) := by
      simp
    rw [carriedExts, List.map_cons, List.cons.injEq, List.forall_mem_cons, hhead,
      List.isChain_cons]
    constructor
    · rintro ⟨hfirst, hrest⟩
      rw [hfirst, ih] at hrest
      exact ⟨⟨(hscan.mp hfirst).1, hrest.1⟩, (hscan.mp hfirst).2, hrest.2⟩
    · rintro ⟨⟨hone, hones⟩, hnone, hchain⟩
      have hfirst := hscan.mpr ⟨hone, hnone⟩
      rw [hfirst, ih]
      exact ⟨rfl, hones, hchain⟩

end ArchiveDlg

/-- The paths and names of a selection are kept one by one. The extensions are
so exactly when no name has a second dot, and a name without a dot comes first
or after one with an empty extension. -/
theorem path_parts_iff (d : ArchiveDlg) (combo1 : CString) (paths : List CString)
    (h : ∀ path ∈ paths, Absolute path) :
    let d' := d.onReadFile combo1 (some paths)
    let names := paths.map nameOf
    (d'.plainPathAry = paths ∧ d'.plainNameAry = names) ∧
    (d'.plainExtAry = names.map extOf ↔ (∀ name ∈ names, name.count '.' ≤ 1) ∧
      names.IsChain fun before name => '.' ∉ name → extOf before = []) := by
  intro d' names
  have hread := d.onReadFile_eq combo1 h
  have hexts := ArchiveDlg.carriedExts_eq_iff [] names
  refine ⟨⟨by simp only [d', hread], by simp only [d', hread, names]⟩, ?_⟩
  simp only [d', hread]
  rw [hexts]
  simp

def sampleDlg : ArchiveDlg where
  plainLen := 0
  orgID := 0
  adminID := 1
  ifEncFlag := 0
  contentKey := Vector.replicate 16 0
  mDate64t := -1
  currentDate64t := 0
  remark := []
  orgName := []
  plainPathAry := []
  plainNameAry := []
  plainExtAry := []
  cipherPathAry := []
  selFileNum := 0

theorem absolute_drive (drive : Char) (rest : CString) : Absolute (drive :: ':' :: '\\' :: rest) :=
  .inl ⟨drive, rest, rfl⟩

theorem path_parts_two :
    let d' := sampleDlg.onReadFile [] (some ["C:\\a.dwg".toList, "C:\\b.shp".toList])
    d'.plainNameAry = ["a.dwg".toList, "b.shp".toList] ∧
      d'.plainExtAry = ["dwg".toList, "shp".toList] := by
  have hpaths : ∀ path ∈ ["C:\\a.dwg".toList, "C:\\b.shp".toList], Absolute path := by
    refine List.forall_mem_cons.mpr ⟨absolute_drive 'C' "a.dwg".toList, ?_⟩
    exact List.forall_mem_singleton.mpr (absolute_drive 'C' "b.shp".toList)
  have h := path_parts_iff sampleDlg [] ["C:\\a.dwg".toList, "C:\\b.shp".toList] hpaths
  exact ⟨h.1.2.trans (by decide), (h.2.mpr (by decide)).trans (by decide)⟩

/-- The second dot is passed over, and a name without a dot gets the extension
of the file before. -/
theorem path_parts_wrong :
    let paths := ["C:\\a.b.dwg".toList, "C:\\c".toList]
    (sampleDlg.onReadFile [] (some paths)).plainExtAry ≠ (paths.map nameOf).map extOf ∧
    (sampleDlg.onReadFile [] (some paths)).plainExtAry = ["b.dwg".toList, "b.dwg".toList] := by
  decide

end SecProGIS
