import SecProGIS.EncryptFile

/-! The completion message of `OnEncryptFile`: a turn ends the handler on a
failed store, but of the codes of its last statement on -3 alone. -/

namespace SecProGIS

theorem nameSql_length (acp : CString → Bytes) (plainName remark : CString) {md5 : Bytes}
    (h : md5.length = 32) : (nameSql acp plainName remark md5).length =
      122 + (cstr (acp plainName)).length + (cstr (acp remark)).length := by
  have hlits : (ascii "update service set fname = '").length = 28 ∧
      (ascii "', rmrk = '").length = 11 ∧ (ascii "' where md5_c = '").length = 17 ∧
      (ascii "';").length = 2 := by decide
  have hdigits : (cstr (hexBuf md5).toList).length = 64 := by
    rw [cstr_hexBuf h, Hex.text_length, h]
  simp only [nameSql, List.length_append, hlits, hdigits]
  omega

/-- What a turn needs not to end the handler: its row is stored, and the last
statement has a file name, fits its buffer and does not return -3. -/
def Passes (acp : CString → Bytes) (s : Session) (e : FileEnv) (findex : Nat) : Prop :=
  Stores s e findex ∧
    (∃ plainName, s.dlg.plainNameAry[findex]? = some plainName ∧
      122 + (cstr (acp plainName)).length + (cstr (acp e.controls.edit3)).length < 300) ∧
    e.name.code ≠ -3

section

variable (rng : Rng) (acp : CString → Bytes)

theorem recordFile_snd_eq_none (e : FileEnv) (findex : Nat) (s : Session) {x : Sealed}
    (hmd5 : x.cipherMd5.length = 32) : (recordFile acp e findex s x).2 = none ↔
      (x.serv.store s.kmConf (hexWord x.cipherMd5) e.storeNow e.sel e.wr s.db).1 = 0 ∧
      (∃ plainName, s.dlg.plainNameAry[findex]? = some plainName ∧
        122 + (cstr (acp plainName)).length + (cstr (acp e.controls.edit3)).length < 300) ∧
      e.name.code ≠ -3 := by
  have hfail : (x.serv.store s.kmConf (hexWord x.cipherMd5) e.storeNow e.sel e.wr s.db).1 = -1 ↔
      ¬ (x.serv.store s.kmConf (hexWord x.cipherMd5) e.storeNow e.sel e.wr s.db).1 = 0 := by
    rw [KmServ.store_fst]
    split <;> simp
  simp only [recordFile, Session.stamped, Session.withDb, Session.shown, ArchiveDlg.updateData,
    nameSql_length acp _ _ hmd5, hfail, execQueryText]
  by_cases hzero : (x.serv.store s.kmConf (hexWord x.cipherMd5) e.storeNow e.sel e.wr s.db).1 = 0
  · rw [if_neg (not_not.mpr hzero)]
    cases hname : s.dlg.plainNameAry[findex]? with
    | none => simp
    | some plainName =>
      by_cases hfit : 122 + (cstr (acp plainName)).length +
        (cstr (acp e.controls.edit3)).length < 300
      · simp only [not_le.mpr hfit, if_false]
        by_cases hcode : e.name.code = -3 <;> simp [hcode, hzero, hfit]
      · simp [not_lt.mp hfit, hfit]
  · simp [hzero]

theorem encryptFile_snd_eq_none (env : Nat → FileEnv) (s : Session) (findex : Nat) :
    (encryptFile rng acp env s findex).2 = none ↔ Passes acp s (env findex) findex := by
  by_cases h : ∃ plain path, Sealable s (env findex) findex plain path
  · obtain ⟨plain, path, hs⟩ := h
    let x := s.sealed rng (env findex) plain
    let s' := s.written rng (env findex) plain path
    have hstore : (x.serv.store s'.kmConf (hexWord x.cipherMd5) (env findex).storeNow
        (env findex).sel (env findex).wr s'.db).1 = 0 ↔ Stores s (env findex) findex := by
      rw [← storeOf_eq_zero rng]
      simp [storeOf, hs.sealFile_eq rng, x, s']
    have hrecord := recordFile_snd_eq_none acp (env findex) findex s' (x := x)
      (writeDigest_length _)
    rw [hstore] at hrecord
    rw [hs.encryptFile_eq rng acp]
    exact hrecord
  · have hnone : (sealFile rng (env findex) findex s).2 = none :=
      sealFile_eq_none rng fun plain path hs => h ⟨plain, path, hs⟩
    have hexc : (encryptFile rng acp env s findex).2 = some .exception := by
      rcases hseal : sealFile rng (env findex) findex s with ⟨s', o⟩
      rw [hseal] at hnone
      obtain rfl : o = none := hnone
      simp only [encryptFile, hseal]
    simp [hexc, Passes, Stores, h]

def Saved (env : Nat → FileEnv) (s : Session) (findex : Nat) : Prop :=
  (∃ r, storeOf rng (env findex) findex s = some r ∧ r.1 = 0) ∧ (env findex).name.code = 0

theorem onEncryptFile_eq_done (s : Session) (combo1 : CString) (q : ArchiveDlg.OrgQuery)
    (env : Nat → FileEnv) : (onEncryptFile rng acp s combo1 q env).2 = .done ↔
      (s.dlg.judgeBeforeEncrypt acp combo1 q).1 = some true ∧
        AtTurns rng acp s combo1 q env fun s findex => Passes acp s (env findex) findex := by
  match hjudge : (s.dlg.judgeBeforeEncrypt acp combo1 q).1 with
  | none => simp [onEncryptFile, hjudge]
  | some false => simp [onEncryptFile, hjudge]
  | some true =>
    let files := List.range (s.judged acp combo1 q).dlg.selFileNum
    have hloop : (onEncryptFile rng acp s combo1 q env).2 = .done ↔
        (EventLoop.loop (encryptFile rng acp env) (s.judged acp combo1 q) files).2 = none := by
      simp only [onEncryptFile, hjudge]
      rcases EventLoop.loop (encryptFile rng acp env) (s.judged acp combo1 q) files with ⟨s', o⟩
      cases o <;> simp
    rw [hloop, EventLoop.loop_snd_eq_none,
      EventLoop.along_congr (encryptFile_snd_eq_none rng acp env)]
    simp [AtTurns, hjudge, files]

theorem saved_iff (env : Nat → FileEnv) (s : Session) (findex : Nat) :
    Saved rng env s findex ↔ Stores s (env findex) findex ∧ (env findex).name.code = 0 :=
  and_congr_left fun _ => storeOf_eq_zero rng

/-- The completion message means that all is saved exactly when no run that
comes to it has a last statement with a code other than 0. -/
theorem done_saved_iff (s : Session) (combo1 : CString) (q : ArchiveDlg.OrgQuery)
    (env : Nat → FileEnv) :
    ((onEncryptFile rng acp s combo1 q env).2 = .done →
      AtTurns rng acp s combo1 q env (Saved rng env)) ↔
    ((s.dlg.judgeBeforeEncrypt acp combo1 q).1 = some true →
      (AtTurns rng acp s combo1 q env fun s findex => Passes acp s (env findex) findex) →
        ∀ findex < (s.judged acp combo1 q).dlg.selFileNum, (env findex).name.code = 0) := by
  rw [onEncryptFile_eq_done, and_imp]
  refine forall_congr' fun hjudge => forall_congr' fun hpass => ?_
  have halong := hpass hjudge
  have hend := (EventLoop.along_congr (encryptFile_snd_eq_none rng acp env) _ _).mpr halong
  have hcodes := EventLoop.along_const_iff (C := fun findex => (env findex).name.code = 0) hend
  simp only [List.mem_range] at hcodes
  rw [← hcodes]
  constructor
  · exact fun h => (h hjudge).imp fun s findex hsaved => hsaved.2
  · intro h _
    exact (halong.and h).imp fun s findex hboth =>
      (saved_iff rng env s findex).mpr ⟨hboth.1.1, hboth.2⟩

end

/-- The server refuses the last statement of the only file: the run ends with
the completion message, and the row has no file name. -/
theorem done_not_saved :
    let env := sampleEnv 1699990000 refused
    (onEncryptFile (fun _ _ => 0) latin sampleSession "org".toList sampleOrg env).2 =
      .done ∧
    ¬ AtTurns (fun _ _ => 0) latin sampleSession "org".toList sampleOrg env
      (Saved (fun _ _ => 0) env) := by
  intro env
  have hpass : Passes latin sampleJudged (env 0) 0 :=
    ⟨sampleJudged_stores 1699990000 refused, ⟨"a.dwg".toList, rfl, by decide⟩, by decide⟩
  constructor
  · rw [onEncryptFile_eq_done]
    exact ⟨sample_judge, fun _ => ⟨hpass, fun _ => trivial⟩⟩
  · intro h
    exact absurd (h sample_judge).1.2 (by decide)

end SecProGIS
