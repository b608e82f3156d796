import SecProGIS.EncryptFile

/-! The key a file is encrypted with and the key in its row. `get_skey` leaves
`ContentKey` as it is once the deadline is past, and the turn goes on. -/

namespace SecProGIS

section

variable (rng : Rng) {s : Session} {e : FileEnv} {findex : Nat} {plain : Bytes} {path : CString}

def FileEnv.newKey (e : FileEnv) (rng : Rng) : Bytes := keyText (rng (BitVec.ofInt 32 e.genNow)) 16

theorem sealed_skey (s : Session) (rng : Rng) (e : FileEnv) (plain : Bytes) :
    (s.sealed rng e plain).serv.skey.Holds (e.newKey rng) := generate_holds rng e.genNow (by decide)

/-- `ContentKey` after `get_skey`: the new key in time, else the old one. -/
theorem keyed_contentKey : (s.keyed rng e plain).dlg.contentKey.toList =
    if s.dlg.mDate64t ≠ 0 ∧ e.verifyNow ≤ s.dlg.mDate64t then e.newKey rng
      else s.dlg.contentKey.toList := by
  have hkey : (s.keyed rng e plain).dlg.contentKey =
      ((s.sealed rng e plain).serv.getSkey e.verifyNow s.dlg.contentKey).2 := rfl
  have hget := (sealed_skey s rng e plain).getContTo_eq (keyText_length _ 16) s.dlg.contentKey
  have hverify : (s.sealed rng e plain).serv.verify e.verifyNow = 0 ↔
      s.dlg.mDate64t ≠ 0 ∧ e.verifyNow ≤ s.dlg.mDate64t := by
    have hexp : (s.sealed rng e plain).serv.expireT = s.dlg.mDate64t := rfl
    rw [KmServ.verify, hexp]
    by_cases hdate : s.dlg.mDate64t = 0
    · simp [hdate]
    · by_cases hpast : s.dlg.mDate64t - e.verifyNow < 0
      · simp [hdate, hpast, Int.lt_of_sub_neg hpast]
      · simp [hdate, hpast, Int.sub_nonneg.mp (not_lt.mp hpast)]
  rw [hkey, KmServ.getSkey]
  by_cases hv : (s.sealed rng e plain).serv.verify e.verifyNow = 0
  · rw [if_neg (not_not.mpr hv), if_pos (hverify.mp hv)]
    simp only [hget.1, ne_eq, not_true, if_false]
    exact hget.2
  · rw [if_pos hv, if_neg (hv ∘ hverify.mpr)]

theorem Sealable.storeOf_row (h : Sealable s e findex plain path) (hs : Stores s e findex) :
    ∃ r row, storeOf rng e findex s = some r ∧ r.1 = 0 ∧
      (Rows.select [(.md5C, Hex.text (s.sealed rng e plain).cipherMd5)]
        (r.2.2 (cstr (s.written rng e plain path).kmConf.skTable))).getLast? = some row ∧
      row .skey = some (e.newKey rng) := by
  obtain ⟨r, hr, hzero⟩ := (storeOf_eq_zero rng).mpr hs
  have hstore := hr
  simp only [storeOf, h.sealFile_eq rng, Option.map_some, Option.some.injEq] at hstore
  let x := s.sealed rng e plain
  let conf := (s.written rng e plain path).kmConf
  let serv := x.serv.withCipher (hexWord x.cipherMd5) e.storeNow
  have hdigest : serv.md5Cipher.text = Hex.text x.cipherMd5 := by
    have hlen : x.cipherMd5.length = 32 := writeDigest_length _
    have hword := hexWord_holds hlen
    have hcopy : serv.md5Cipher = (hexWord x.cipherMd5).copy := rfl
    rw [hcopy, hword.copy_eq]
    exact hword.text_eq fun _ => Hex.ne_zero_of_mem
  have hdb : r.2.2 (cstr conf.skTable) =
      serv.rowsAfter conf e.sel (s.written rng e plain path).db := by
    rw [← hstore, KmServ.store_db, if_pos]
    · exact Function.update_self _ _ _
    · rw [← KmServ.store_fst_eq_zero, hstore]
      exact hzero
  obtain ⟨row, hlast, hrow⟩ :=
    KmServ.rowsAfter_last conf serv e.sel (s.written rng e plain path).db
  have hskey : (serv.stored conf).lookup .skey = some (e.newKey rng) :=
    congrArg some ((sealed_skey s rng e plain).text_eq fun _ => keyText_ne_zero)
  rw [KmServ.existing, hdigest, ← hdb] at hlast
  exact ⟨r, row, hr, hzero, hlast, hrow _ _ hskey⟩

end

/-- When `store` returns 0 in a turn, the ciphertext in the file that is left is
that of the plaintext under `ContentKey`, and the row stored for the digest in
the file has `ContentKey` in its key column. -/
def KeyAgrees (rng : Rng) (acp : CString → Bytes) (env : Nat → FileEnv) (s : Session)
    (findex : Nat) : Prop :=
  ∀ r, storeOf rng (env findex) findex s = some r → r.1 = 0 →
    let s' := (encryptFile rng acp env s findex).1
    ∃ plain path file row, s.openPlain (env findex) findex = some plain ∧
      s.openCipher (env findex) findex = some path ∧ s'.disk path = some file ∧
      file.drop 44 = smCryptEcb16 (sm4SetkeyEnc s'.dlg.contentKey) plain ∧
      (Rows.select [(.md5C, Hex.text ((file.drop 12).take 32))]
        (r.2.2 (cstr s'.kmConf.skTable))).getLast? = some row ∧
      row .skey = some s'.dlg.contentKey.toList

section

variable (rng : Rng) (acp : CString → Bytes) (env : Nat → FileEnv) {s : Session} {findex : Nat}

theorem Sealable.keyAgrees_iff {plain : Bytes} {path : CString}
    (hs : Sealable s (env findex) findex plain path) (hstores : Stores s (env findex) findex) :
    KeyAgrees rng acp env s findex ↔
      (env findex).newKey rng = (s.keyed rng (env findex) plain).dlg.contentKey.toList := by
  obtain ⟨r, row, hr, hzero, hlast, hrow⟩ := hs.storeOf_row rng hstores
  obtain ⟨hdisk, hconf, hkey⟩ := hs.encryptFile_left rng acp
  have hparts := container_parts (s.keyed rng (env findex) plain).dlg.contentKey
    s.dlg.mDate64t hs.ne_nil
  rw [hkey] at hdisk
  constructor
  · intro h
    obtain ⟨plain', path', file, row', hplain, hpath, hfile, _, hrows, hskey⟩ := h r hr hzero
    obtain rfl : plain = plain' := Option.some.inj (hs.plain_eq.symm.trans hplain)
    obtain rfl : path = path' := Option.some.inj (hs.path_eq.symm.trans hpath)
    rw [hdisk, Option.some.injEq] at hfile
    rw [← hfile, hparts.1, hconf] at hrows
    have hsame : row = row' := Option.some.inj (hlast.symm.trans hrows)
    rw [← hsame, hrow, hkey] at hskey
    exact Option.some.inj hskey
  · intro h r' hr' _
    obtain rfl : r = r' := Option.some.inj (hr.symm.trans hr')
    refine ⟨plain, path, container (s.keyed rng (env findex) plain).dlg.contentKey
      s.dlg.mDate64t plain, row, hs.plain_eq, hs.path_eq, hdisk, ?_, ?_, ?_⟩
    · rw [hkey, hparts.2]
    · rw [hparts.1, hconf]
      exact hlast
    · rw [hkey, ← h, hrow]

theorem keyAgrees_iff (s : Session) (findex : Nat) :
    KeyAgrees rng acp env s findex ↔ (Stores s (env findex) findex →
      (env findex).verifyNow ≤ s.dlg.mDate64t ∨
        s.dlg.contentKey.toList = (env findex).newKey rng) := by
  by_cases hstores : Stores s (env findex) findex
  · obtain ⟨⟨plain, path, hs⟩, hdate, _⟩ := id hstores
    rw [hs.keyAgrees_iff rng acp env hstores, keyed_contentKey rng]
    by_cases hnow : (env findex).verifyNow ≤ s.dlg.mDate64t
    · simp [hnow, hdate]
    · simp [hnow, hstores, eq_comm]
  · have hnone : ∀ r, storeOf rng (env findex) findex s = some r → ¬ r.1 = 0 :=
      fun r hr h => hstores ((storeOf_eq_zero rng).mp ⟨r, hr, h⟩)
    simp only [hstores, false_imp_iff, iff_true]
    exact fun r hr h => absurd h (hnone r hr)

end

/-- In every run the keys agree at all its turns exactly when at each of them
that stores its row the key comes in time or was there before. -/
theorem stored_key_used_iff (rng : Rng) (acp : CString → Bytes) (s : Session) (combo1 : CString)
    (q : ArchiveDlg.OrgQuery) (env : Nat → FileEnv) :
    AtTurns rng acp s combo1 q env (KeyAgrees rng acp env) ↔
      AtTurns rng acp s combo1 q env fun s findex => Stores s (env findex) findex →
        (env findex).verifyNow ≤ s.dlg.mDate64t ∨
          s.dlg.contentKey.toList = (env findex).newKey rng :=
  imp_congr_right fun _ => EventLoop.along_congr (keyAgrees_iff rng acp env) _ _

def lateEnv : Nat → FileEnv := sampleEnv 1700000001 answered

/-- The file is encrypted under sixteen zero bytes, and its row gets the key
`0000000000000000`. -/
theorem stored_key_not_used :
    (sampleSession.dlg.judgeBeforeEncrypt latin "org".toList sampleOrg).1 = some true ∧
    (∃ r row file, storeOf (fun _ _ => 0) (lateEnv 0) 0 sampleJudged = some r ∧ r.1 = 0 ∧
      (encryptFile (fun _ _ => 0) latin lateEnv sampleJudged 0).1.disk
        "C:\\b.dwg".toList = some file ∧
      (Rows.select [(.md5C, Hex.text ((file.drop 12).take 32))]
        (r.2.2 (ascii "service"))).getLast? = some row ∧
      row .skey = some (ascii "0000000000000000") ∧
      file.drop 44 ≠ smCryptEcb16 (sm4SetkeyEnc (Vector.replicate 16 0x30)) samplePlain) ∧
    ¬ AtTurns (fun _ _ => 0) latin sampleSession "org".toList sampleOrg lateEnv
      (KeyAgrees (fun _ _ => 0) latin lateEnv) := by
  have hs : Sealable sampleJudged (lateEnv 0) 0 samplePlain "C:\\b.dwg".toList :=
    sampleJudged_sealable 1700000001 answered
  have hstores : Stores sampleJudged (lateEnv 0) 0 := sampleJudged_stores 1700000001 answered
  refine ⟨sample_judge, ?_, fun h => ?_⟩
  · obtain ⟨r, row, hr, hzero, hlast, hrow⟩ := hs.storeOf_row (fun _ _ => 0) hstores
    have hkey : (sampleJudged.keyed (fun _ _ => 0) (lateEnv 0) samplePlain).dlg.contentKey =
        Vector.replicate 16 0 := rfl
    have hne : samplePlain ≠ [] := by decide
    have hparts := container_parts (Vector.replicate 16 0) sampleJudged.dlg.mDate64t hne
    have hdisk := (hs.encryptFile_left (fun _ _ => 0) latin).1
    rw [(hs.encryptFile_left (fun _ _ => 0) latin).2.2, hkey] at hdisk
    refine ⟨r, row, _, hr, hzero, hdisk, ?_, hrow, ?_⟩
    · rw [hparts.1, ← hkey]
      exact hlast
    · rw [hparts.2, smCryptEcb16_block _ rfl, smCryptEcb16_block _ rfl]
      decide +kernel
  · have hturn := (keyAgrees_iff _ _ _ _ _).mp (h sample_judge).1 hstores
    exact absurd hturn (by decide)

end SecProGIS
