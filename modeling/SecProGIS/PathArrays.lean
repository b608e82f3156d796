import SecProGIS.Deadline
import SecProGIS.OutputPaths

/-! The four arrays of paths and names over a run of the dialog, against a
record of the last selection and of the save dialog after it. -/

namespace SecProGIS

/-- The constructor: it sets the strings, the arrays start empty, and the other
members keep what memory held. -/
def ArchiveDlg.constructed (d : ArchiveDlg) : ArchiveDlg :=
  { d with
    remark := [], orgName := [], plainPathAry := [], plainNameAry := [], plainExtAry := []
    cipherPathAry := [] }

def Session.initial (s : Session) : Session := Session.opened { s with dlg := s.dlg.constructed }

/-- The last selection, none before the first, and how the save dialog ended
last since then. -/
structure Chosen where
  picked : Option (List CString)
  saved : Option (Option CString)

namespace Chosen

def track (c : Chosen) (_ : Session) : Message → Chosen
  | .readFile _ selection => ⟨some (selection.getD []), none⟩
  | .savePath choice => { c with saved := some choice }
  | _ => c

variable (c : Chosen)

def paths : List CString := c.picked.getD []

def names : List CString := (ArchiveDlg.scans ([], []) c.paths).map Prod.fst

def outputs : List CString :=
  if c.paths = [] then [] else c.saved.elim [] (ArchiveDlg.savePaths c.names)

def entries (d : ArchiveDlg) : Nat := c.picked.elim 0 fun _ => d.selFileNum

structure Tracks (d : ArchiveDlg) : Prop where
  path_eq : d.plainPathAry = c.paths
  name_eq : d.plainNameAry = c.names
  ext_eq : d.plainExtAry = (ArchiveDlg.scans ([], []) c.paths).map Prod.snd
  cipher_eq : d.cipherPathAry = c.outputs
  selFileNum_eq : ∀ paths ∈ c.picked, d.selFileNum = paths.length

/-- The arrays go together, and the paths to save to belong to the selection. -/
structure Aligned (d : ArchiveDlg) : Prop where
  path_length : d.plainPathAry.length = c.entries d
  name_length : d.plainNameAry.length = c.entries d
  ext_length : d.plainExtAry.length = c.entries d
  cipher_length : d.cipherPathAry.length = 0 ∨ d.cipherPathAry.length = c.entries d
  cipher_eq : d.cipherPathAry = c.outputs

end Chosen

theorem ArchiveDlg.savePaths_length (names : List CString) (choice : Option CString) :
    (savePaths names choice).length = 0 ∨ (savePaths names choice).length = names.length := by
  rw [savePaths]
  split
  · rename_i hone
    cases choice with
    | none => exact .inl rfl
    | some path => exact .inr hone.symm
  · exact .inr (List.length_map _)

namespace Chosen

variable {c : Chosen} {d d' : ArchiveDlg}

@[simp] theorem names_length : c.names.length = c.paths.length := by
  rw [names, List.length_map, ArchiveDlg.scans_length]

theorem outputs_length : c.outputs.length = 0 ∨ c.outputs.length = c.paths.length := by
  rw [outputs]
  split
  · exact .inl rfl
  · cases c.saved with
    | none => exact .inl rfl
    | some choice =>
      rw [← names_length]
      exact ArchiveDlg.savePaths_length _ _

theorem Tracks.paths_length (h : c.Tracks d) : c.paths.length = c.entries d := by
  rw [paths, entries]
  cases hpicked : c.picked with
  | none => rfl
  | some picked => exact (h.selFileNum_eq picked hpicked).symm

theorem Tracks.aligned (h : c.Tracks d) : c.Aligned d where
  path_length := by rw [h.path_eq, h.paths_length]
  name_length := by rw [h.name_eq, names_length, h.paths_length]
  ext_length := by
    rw [h.ext_eq, List.length_map, ArchiveDlg.scans_length, h.paths_length]
  cipher_length := by
    rw [h.cipher_eq, ← h.paths_length]
    exact outputs_length
  cipher_eq := h.cipher_eq

theorem Tracks.of_arrays (h : c.Tracks d) (hsame : d'.arrays = d.arrays) : c.Tracks d' := by
  simp only [ArchiveDlg.arrays, Prod.mk.injEq] at hsame
  obtain ⟨hpath, hname, hext, hcipher, hnum⟩ := hsame
  exact
    { path_eq := hpath.trans h.path_eq
      name_eq := hname.trans h.name_eq
      ext_eq := hext.trans h.ext_eq
      cipher_eq := hcipher.trans h.cipher_eq
      selFileNum_eq := fun paths hpaths => hnum.trans (h.selFileNum_eq paths hpaths) }

theorem tracks_constructed (s : Session) : (⟨none, none⟩ : Chosen).Tracks s.initial.dlg :=
  ⟨rfl, rfl, rfl, rfl, fun _ h => by cases h⟩

theorem tracks_onReadFile (d : ArchiveDlg) (combo1 : CString) (selection : Option (List CString)) :
    (⟨some (selection.getD []), none⟩ : Chosen).Tracks (d.onReadFile combo1 selection) := by
  rw [d.onReadFile_scans combo1 selection]
  exact ⟨rfl, rfl, rfl, (ite_self _).symm, fun paths h => by cases h; rfl⟩

theorem Tracks.onSavePath (h : c.Tracks d) (choice : Option CString) :
    ({ c with saved := some choice } : Chosen).Tracks (d.onSavePath choice) := by
  by_cases hnil : c.paths = []
  · have hd : d.onSavePath choice = d := by
      rw [ArchiveDlg.onSavePath, h.path_eq, hnil]
      rfl
    have hcipher : c.outputs = [] := if_pos hnil
    rw [hd]
    exact ⟨h.path_eq, h.name_eq, h.ext_eq, h.cipher_eq.trans (hcipher.trans (if_pos hnil).symm),
      h.selFileNum_eq⟩
  · have hpicked : c.entries d = d.selFileNum := by
      rw [entries]
      cases hsome : c.picked with
      | none => exact absurd (by rw [paths, hsome]; rfl) hnil
      | some picked => rfl
    have hname : d.plainNameAry.length = d.selFileNum := h.aligned.name_length.trans hpicked
    rw [ArchiveDlg.onSavePath_eq d choice hname (by rwa [h.path_eq])]
    exact ⟨h.path_eq, h.name_eq, h.ext_eq, by rw [h.name_eq]; exact (if_neg hnil).symm,
      h.selFileNum_eq⟩

section

variable (rng : Rng) (acp : CString → Bytes)

theorem onEncryptFile_arrays (env : Nat → FileEnv) (s : Session) (combo1 : CString)
    (q : ArchiveDlg.OrgQuery) :
    (onEncryptFile rng acp s combo1 q env).1.dlg.arrays = s.dlg.arrays := by
  have hjudged := judged_arrays acp s combo1 q
  rw [onEncryptFile_fst]
  split
  · exact EventLoop.loop_invariant (I := fun t : Session => t.dlg.arrays = s.dlg.arrays)
      (fun t findex ht => (encryptFile_arrays rng acp env t findex).trans ht) hjudged _
  · exact hjudged

theorem tracks_handle {s : Session} (h : c.Tracks s.dlg) (e : Message) :
    (c.track s e).Tracks (s.handle rng acp e).1.dlg := by
  cases e with
  | readFile combo1 selection => exact tracks_onReadFile s.dlg combo1 selection
  | savePath choice => exact h.onSavePath choice
  | datetimechange date now => exact h.of_arrays rfl
  | cbnSelchange entry q =>
    simp only [Session.handle]
    cases horg : s.dlg.onCbnSelchange acp entry q with
    | none => exact h
    | some d =>
      refine h.of_arrays ?_
      simp only [ArchiveDlg.onCbnSelchange] at horg
      split_ifs at horg <;> cases horg <;> rfl
  | enChangeEdit3 controls => exact h.of_arrays rfl
  | encryptFile combo1 q env now =>
    exact h.of_arrays (onEncryptFile_arrays rng acp env s combo1 q)

end

end Chosen

/-- Every index the loop of an encryption gets to is one of the arrays it reads. -/
def InRange (rng : Rng) (acp : CString → Bytes) (s : Session) : Message → Prop
  | .encryptFile combo1 q env _ => AtTurns rng acp s combo1 q env fun s findex =>
      findex < s.dlg.plainPathAry.length ∧ findex < s.dlg.plainNameAry.length ∧
        findex < s.dlg.cipherPathAry.length
  | _ => True

namespace Chosen

variable {c : Chosen}

theorem Tracks.lt_lengths {d : ArchiveDlg} (h : c.Tracks d) (hplain : d.plainPathAry ≠ [])
    (hcipher : d.cipherPathAry ≠ []) {findex : Nat} (hi : findex < d.selFileNum) :
    findex < d.plainPathAry.length ∧ findex < d.plainNameAry.length ∧
      findex < d.cipherPathAry.length := by
  have hnum : c.entries d = d.selFileNum := by
    rw [entries]
    cases hpicked : c.picked with
    | none => exact absurd (h.path_eq.trans (by rw [paths, hpicked]; rfl)) hplain
    | some picked => rfl
  have hpath := h.aligned.path_length
  have hname := h.aligned.name_length
  have hlen := h.aligned.cipher_length.resolve_left (mt List.length_eq_zero_iff.mp hcipher)
  omega

theorem Tracks.inRange {s : Session} (h : c.Tracks s.dlg) (rng : Rng) (acp : CString → Bytes)
    (e : Message) : InRange rng acp s e := by
  cases e with
  | encryptFile combo1 q env now =>
    intro hjudge
    have hready := ((judgeBeforeEncrypt_eq_true acp s.dlg combo1 q).mp hjudge).1
    let n := (s.judged acp combo1 q).dlg.selFileNum
    have hrange : EventLoop.Along (encryptFile rng acp env) (fun _ findex => findex < n)
        (s.judged acp combo1 q) (List.range n) :=
      EventLoop.along_of_forall_mem (fun findex => List.mem_range.mp) _
    have harrays : EventLoop.Along (encryptFile rng acp env)
        (fun t _ => t.dlg.arrays = s.dlg.arrays) (s.judged acp combo1 q) (List.range n) :=
      EventLoop.along_invariant (I := fun t : Session => t.dlg.arrays = s.dlg.arrays)
        (fun t findex ht => (encryptFile_arrays rng acp env t findex).trans ht)
        (judged_arrays acp s combo1 q) _
    refine (hrange.and harrays).imp fun t findex ht => ?_
    have hturn := h.of_arrays ht.2
    have hn : n = s.dlg.selFileNum := congrArg (·.2.2.2.2) (judged_arrays acp s combo1 q)
    have hsame := ht.2
    simp only [ArchiveDlg.arrays, Prod.mk.injEq] at hsame
    obtain ⟨hpath, _, _, hcipher, hnum⟩ := hsame
    refine hturn.lt_lengths ?_ ?_ ?_
    · rw [hpath]
      exact hready.1
    · rw [hcipher]
      exact hready.2.2.2.2.2.2
    · rw [hnum, ← hn]
      exact ht.1
  | _ => trivial

end Chosen

/-- In every run of the dialog the arrays stay aligned, and the indices of the
encryptions are in range. -/
theorem arrays_aligned (rng : Rng) (acp : CString → Bytes) (s : Session) (run : List Message) :
    (∀ p ∈ EventLoop.visited (EventLoop.watched (Session.handle rng acp) Chosen.track)
      (s.initial, ⟨none, none⟩) run, p.2.Aligned p.1.dlg) ∧
    EventLoop.Along (Session.handle rng acp) (InRange rng acp) s.initial run := by
  have hstep : ∀ (p : Session × Chosen) (e : Message), p.2.Tracks p.1.dlg →
      (EventLoop.watched (Session.handle rng acp) Chosen.track p e).1.2.Tracks
        (EventLoop.watched (Session.handle rng acp) Chosen.track p e).1.1.dlg :=
    fun _ e hp => Chosen.tracks_handle rng acp hp e
  have hstart := Chosen.tracks_constructed s
  constructor
  · intro p hp
    exact (EventLoop.visited_invariant (I := fun p : Session × Chosen => p.2.Tracks p.1.dlg)
      hstep hstart run p hp).aligned
  · rw [← EventLoop.along_watched Chosen.track s.initial ⟨none, none⟩ run]
    exact (EventLoop.along_invariant (I := fun p : Session × Chosen => p.2.Tracks p.1.dlg)
      hstep hstart run).imp fun p e hp => hp.inRange rng acp e

end SecProGIS
