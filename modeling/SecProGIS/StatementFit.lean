import SecProGIS.Completion
import SecProGIS.SqlShape

/-! The buffers the texts of the statements are formatted into. `sprintf_s` ends
the program when a text and its terminator do not fit. -/

namespace SecProGIS

theorem adminSql_length (cAdmin : Bytes) : (adminSql cAdmin).length = 35 + cAdmin.length := by
  have hlits : (ascii "select * from admin where acc = '").length = 33 ∧
      (ascii "';").length = 2 := by decide
  simp only [adminSql, List.length_append, hlits]
  omega

theorem orgSql_length (name : Bytes) : (ArchiveDlg.orgSql name).length = 34 + name.length := by
  have hlits : (ascii "select * from org where name = '").length = 32 ∧
      (ascii "';").length = 2 := by decide
  simp only [ArchiveDlg.orgSql, List.length_append, hlits]
  omega

/-- The texts fit for names up to 64 and 65 bytes in the code page, and for a
file name and a remark of 177 bytes together. -/
theorem user_sql_fits_iff (acp : CString → Bytes) (adm orgName plainName remark : CString)
    (c : Bytes) :
    ((adminSql (cstr (acp adm))).length + 1 ≤ 100 ↔ (cstr (acp adm)).length ≤ 64) ∧
    ((ArchiveDlg.orgSql (cstr (acp orgName))).length + 1 ≤ 100 ↔
      (cstr (acp orgName)).length ≤ 65) ∧
    ((nameSql acp plainName remark (sm3 c)).length + 1 ≤ 300 ↔
      (cstr (acp plainName)).length + (cstr (acp remark)).length ≤ 177) := by
  rw [adminSql_length, orgSql_length, nameSql_length acp plainName remark (sm3_length c)]
  omega

/-- A file name of 178 characters without a remark. -/
theorem user_sql_too_long :
    ¬ ((adminSql (cstr (latin "admin".toList))).length + 1 ≤ 100 ∧
      (ArchiveDlg.orgSql (cstr (latin "org".toList))).length + 1 ≤ 100 ∧
      (nameSql latin (List.replicate 178 'a') [] (sm3 [])).length + 1 ≤ 300) := by
  rintro ⟨-, -, hname⟩
  rw [nameSql_length latin _ _ (sm3_length [])] at hname
  have hlen : (cstr (latin (List.replicate 178 'a'))).length = 178 := by
    have hbytes : latin (List.replicate 178 'a') = List.replicate 178 0x61 := List.map_replicate
    rw [hbytes, cstr_eq fun b hb => by rw [List.eq_of_mem_replicate hb]; decide,
      List.length_replicate]
  omega

namespace KmServ

variable (conf : KmConf) (s : KmServ)

theorem selectSql_length : (s.selectSql conf).length =
    32 + (cstr conf.skTable).length + s.md5Cipher.text.length := by
  have hlits : (ascii "select * from ").length = 14 ∧ (ascii " where md5_c = '").length = 16 ∧
      (ascii "';").length = 2 := by decide
  simp only [selectSql, List.length_append, hlits]
  omega

/-- Both other texts have the same seven values in them. -/
def valuesLength : Nat :=
  (Decimal.intText s.orgnization).length + s.md5Plaint.text.length + s.md5Cipher.text.length +
    s.skey.text.length + (Decimal.intText s.expireT).length +
    (Decimal.intText conf.admin).length + (Decimal.intText s.encT).length

theorem insertSql_length : (s.insertSql conf).length =
    92 + (cstr conf.skTable).length + s.valuesLength conf := by
  have hlits : (ascii "insert into ").length = 12 ∧
      (ascii " (org, md5_p, md5_c, skey, expire, admin, enc_tm").length = 48 ∧
      (ascii ") values ('").length = 11 ∧ (ascii "','").length = 3 ∧ (ascii "'").length = 1 ∧
      (ascii ");").length = 2 := by decide
  unfold insertSql valuesLength
  simp only [List.length_append, hlits]
  omega

theorem updateSql_length : (s.updateSql conf).length =
    99 + (cstr conf.skTable).length + s.valuesLength conf := by
  have hlits : (ascii "update ").length = 7 ∧ (ascii " set org = '").length = 12 ∧
      (ascii "', md5_p = '").length = 12 ∧ (ascii "', skey = '").length = 11 ∧
      (ascii "'").length = 1 ∧ (ascii ", expire = '").length = 12 ∧
      (ascii "', admin = '").length = 12 ∧ (ascii "', enc_tm = '").length = 13 ∧
      (ascii "' where md5_c = '").length = 17 ∧ (ascii "';").length = 2 := by decide
  unfold updateSql valuesLength
  simp only [List.length_append, hlits]
  omega

/-- The texts of `store()` fit; the update takes up to 295 of its 300 bytes. -/
theorem store_sql_fits (htable : conf.skTable = ascii "service")
    (horg : -2 ^ 31 ≤ s.orgnization ∧ s.orgnization < 2 ^ 31)
    (hadmin : -2 ^ 31 ≤ conf.admin ∧ conf.admin < 2 ^ 31)
    (hplain : s.md5Plaint.text.length = 64) (hcipher : s.md5Cipher.text.length = 64)
    (hkey : s.skey.text.length = 16) (hexp : 0 ≤ s.expireT ∧ s.expireT ≤ 32535215999)
    (henc : 0 ≤ s.encT ∧ s.encT ≤ 32535215999) :
    (s.selectSql conf).length + 1 ≤ 200 ∧ (s.insertSql conf).length + 1 ≤ 300 ∧
      (s.updateSql conf).length + 1 ≤ 300 := by
  have htab : (cstr conf.skTable).length = 7 := by
    rw [htable]
    decide
  have h1 := Decimal.intText_length (i := s.orgnization) (k := 11) (by decide) (by omega) (by omega)
  have h2 := Decimal.intText_length (i := conf.admin) (k := 11) (by decide) (by omega) (by omega)
  have h3 := Decimal.intText_length (i := s.expireT) (k := 11) (by decide) (by omega) (by omega)
  have h4 := Decimal.intText_length (i := s.encT) (k := 11) (by decide) (by omega) (by omega)
  have hvalues : s.valuesLength conf ≤ 188 := by
    rw [valuesLength]
    omega
  rw [selectSql_length, insertSql_length, updateSql_length]
  omega

theorem store_sql_fits_extreme :
    let conf : KmConf := ⟨ascii "service", -2 ^ 31⟩
    let s : KmServ := { sampleServ (-2 ^ 31) with
      md5Cipher := sampleDigest, expireT := 32535215999, encT := 32535215999 }
    (s.selectSql conf).length + 1 ≤ 200 ∧ (s.insertSql conf).length + 1 ≤ 300 ∧
      (s.updateSql conf).length + 1 ≤ 300 :=
  store_sql_fits ⟨ascii "service", -2 ^ 31⟩
    { sampleServ (-2 ^ 31) with
      md5Cipher := sampleDigest, expireT := 32535215999, encT := 32535215999 }
    rfl (by decide) (by decide) (by decide) (by decide) (by decide) (by decide) (by decide)

end KmServ

end SecProGIS
