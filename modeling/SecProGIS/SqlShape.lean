import SecProGIS.EncryptFile
import SecProGIS.LoginDlg
import SecProGIS.Lib.SqlText

/-! The texts of the statements with strings of the user in them: whether the
server reads them as the statements they are meant to be. -/

namespace SecProGIS

open SqlText

def adminStatement (cAdmin : Bytes) : Statement Bytes :=
  .select (ascii "admin") [(ascii "acc", cAdmin)]

def orgStatement (name : Bytes) : Statement Bytes :=
  .select (ascii "org") [(ascii "name", name)]

section

variable (cs : Charset)

theorem lex_lookup_iff {p : Bytes} (hp : quote ∉ p) (v : Bytes) :
    lex cs (p ++ [quote] ++ v ++ ascii "';") = some (outside p ++ [.literal v, .symbol 0x3B]) ↔
      plain cs v = true := by
  have hclose : ascii "';" = quote :: ascii ";" := by decide
  have htext : p ++ [quote] ++ v ++ ascii "';" = p ++ fill [(v, ascii ";")] := by
    rw [hclose]
    simp [fill]
  have htokens : fillTokens [(v, ascii ";")] = [.literal v, .symbol 0x3B] := by
    have hend : outside (ascii ";") = [.symbol 0x3B] := by decide
    rw [fillTokens, hend]
    rfl
  have htight : Tight ([(v, ascii ";")].map Prod.snd) := show Tight [ascii ";"] by decide
  rw [htext, ← htokens, lex_fill_iff hp htight]
  simp

theorem lex_adminSql_iff (cAdmin : Bytes) :
    lex cs (adminSql cAdmin) = some ((adminStatement cAdmin).tokens id) ↔
      plain cs cAdmin = true := by
  have hopen : ascii "select * from admin where acc = '" =
      ascii "select * from admin where acc = " ++ [quote] := by decide
  have htokens : outside (ascii "select * from admin where acc = ") =
      [.word (ascii "select"), .symbol 0x2A, .word (ascii "from"), .word (ascii "admin"),
        .word (ascii "where"), .word (ascii "acc"), .symbol 0x3D] := by decide
  have hlookup := lex_lookup_iff cs
    (by decide : quote ∉ ascii "select * from admin where acc = ") cAdmin
  rw [htokens] at hlookup
  rw [adminSql, hopen]
  exact hlookup

theorem lex_orgSql_iff (name : Bytes) :
    lex cs (ArchiveDlg.orgSql name) = some ((orgStatement name).tokens id) ↔
      plain cs name = true := by
  have hopen : ascii "select * from org where name = '" =
      ascii "select * from org where name = " ++ [quote] := by decide
  have htokens : outside (ascii "select * from org where name = ") =
      [.word (ascii "select"), .symbol 0x2A, .word (ascii "from"), .word (ascii "org"),
        .word (ascii "where"), .word (ascii "name"), .symbol 0x3D] := by decide
  have hlookup := lex_lookup_iff cs
    (by decide : quote ∉ ascii "select * from org where name = ") name
  rw [htokens] at hlookup
  rw [ArchiveDlg.orgSql, hopen]
  exact hlookup

theorem plain_hexText (b : Bytes) : plain cs (Hex.text b) = true := by
  have hdigits : ∀ d < 16, Hex.digit d ≠ quote ∧ Hex.digit d ≠ backslash := by decide
  apply plain_of_forall
  intro c hc
  obtain ⟨d, hd, rfl⟩ := Hex.exists_digit_of_mem hc
  exact hdigits d hd

theorem lex_nameSql_iff (acp : CString → Bytes) (plainName remark : CString) {md5 : Bytes}
    (h : md5.length = 32) :
    lex cs (nameSql acp plainName remark md5) =
        some ((nameStatement acp plainName remark md5).tokens Column.name) ↔
      plain cs (cstr (acp plainName)) = true ∧ plain cs (cstr (acp remark)) = true := by
  let f := cstr (acp plainName)
  let r := cstr (acp remark)
  let parts := [(f, ascii ", rmrk = "), (r, ascii " where md5_c = "), (Hex.text md5, ascii ";")]
  have htext : nameSql acp plainName remark md5 =
      ascii "update service set fname = " ++ fill parts := by
    have h0 : ascii "update service set fname = '" =
        ascii "update service set fname = " ++ [quote] := by decide
    have h1 : ascii "', rmrk = '" = quote :: ascii ", rmrk = " ++ [quote] := by decide
    have h2 : ascii "' where md5_c = '" = quote :: ascii " where md5_c = " ++ [quote] := by decide
    have h3 : ascii "';" = quote :: ascii ";" := by decide
    rw [nameSql, cstr_hexBuf h]
    simp only [h0, h1, h2, h3]
    simp [fill, parts, f, r]
  have htokens : (nameStatement acp plainName remark md5).tokens Column.name =
      outside (ascii "update service set fname = ") ++ fillTokens parts := by
    have h0 : outside (ascii "update service set fname = ") = [.word (ascii "update"),
      .word (ascii "service"), .word (ascii "set"), .word (ascii "fname"), .symbol 0x3D] := by
      decide
    have h1 : outside (ascii ", rmrk = ") =
      [.symbol 0x2C, .word (ascii "rmrk"), .symbol 0x3D] := by decide
    have h2 : outside (ascii " where md5_c = ") =
      [.word (ascii "where"), .word (ascii "md5_c"), .symbol 0x3D] := by decide
    have h3 : outside (ascii ";") = [.symbol 0x3B] := by decide
    rw [nameStatement, cstr_hexBuf h]
    simp only [parts, fillTokens, h0, h1, h2, h3]
    rfl
  have htight : Tight (parts.map Prod.snd) :=
    show Tight [ascii ", rmrk = ", ascii " where md5_c = ", ascii ";"] by decide
  rw [htext, htokens, lex_fill_iff (by decide) htight]
  simp [parts, plain_hexText, f, r]

end

/-- The file name and the remark are read as they stand. -/
def PlainText (acp : CString → Bytes) (server : Server) (plainName remark : CString) : Prop :=
  plain server.charset (cstr (acp plainName)) = true ∧
    plain server.charset (cstr (acp remark)) = true

/-- The text of a turn, when it has a file name, is the statement it is meant to be. -/
def PlainTurn (acp : CString → Bytes) (s : Session) (e : FileEnv) (findex : Nat) : Prop :=
  ∀ plainName, s.dlg.plainNameAry[findex]? = some plainName →
    PlainText acp e.server plainName e.controls.edit3

theorem PlainTurn.congr {acp : CString → Bytes} {s s' : Session} {e : FileEnv} {findex : Nat}
    (h : PlainTurn acp s e findex) (hnames : s'.dlg.plainNameAry = s.dlg.plainNameAry) :
    PlainTurn acp s' e findex := fun plainName hname => h plainName (hnames ▸ hname)

theorem execQueryText_nameSql {acp : CString → Bytes} {server : Server} {plainName remark : CString}
    (h : PlainText acp server plainName remark) {md5 : Bytes} (hmd5 : md5.length = 32) (c : Call)
    (db : Db Column) : execQueryText server c (nameSql acp plainName remark md5) db =
      execQueryMysql c (nameStatement acp plainName remark md5) db := by
  have hst : (nameStatement acp plainName remark md5).Full := by
    simp [Statement.Full, nameStatement]
  exact execQueryText_eq hst ((lex_nameSql_iff _ acp plainName remark hmd5).mpr h) c db

namespace KmServ

variable (conf : KmConf) (s : KmServ)

def selectSql : Bytes :=
  ascii "select * from " ++ cstr conf.skTable ++ ascii " where md5_c = '" ++ s.md5Cipher.text ++
    ascii "';"

def insertSql : Bytes :=
  ascii "insert into " ++ cstr conf.skTable ++
    ascii " (org, md5_p, md5_c, skey, expire, admin, enc_tm" ++ ascii ") values ('" ++
    Decimal.intText s.orgnization ++ ascii "','" ++ s.md5Plaint.text ++ ascii "','" ++
    s.md5Cipher.text ++ ascii "','" ++ s.skey.text ++ ascii "','" ++
    Decimal.intText s.expireT ++ ascii "','" ++ Decimal.intText conf.admin ++ ascii "','" ++
    Decimal.intText s.encT ++ ascii "'" ++ ascii ");"

def updateSql : Bytes :=
  ascii "update " ++ cstr conf.skTable ++ ascii " set org = '" ++
    Decimal.intText s.orgnization ++ ascii "', md5_p = '" ++ s.md5Plaint.text ++
    ascii "', skey = '" ++ s.skey.text ++ ascii "'" ++ ascii ", expire = '" ++
    Decimal.intText s.expireT ++ ascii "', admin = '" ++ Decimal.intText conf.admin ++
    ascii "', enc_tm = '" ++ Decimal.intText s.encT ++ ascii "' where md5_c = '" ++
    s.md5Cipher.text ++ ascii "';"

variable (cs : Charset)

theorem plain_intText (n : Int) : plain cs (Decimal.intText n) = true := by
  have hdigits : ∀ d < 10, Decimal.digit d ≠ quote ∧ Decimal.digit d ≠ backslash := by decide
  apply plain_of_forall
  intro c hc
  rcases Decimal.mem_intText hc with rfl | ⟨d, hd, rfl⟩
  · decide
  · exact hdigits d hd

theorem cstr_skTable {conf : KmConf} (htable : conf.skTable = ascii "service") :
    cstr conf.skTable = ascii "service" := by
  rw [htable]
  decide

theorem lex_selectSql (htable : conf.skTable = ascii "service")
    (hcipher : plain cs s.md5Cipher.text = true) : lex cs (s.selectSql conf) =
      some ((Statement.select (cstr conf.skTable) s.existing).tokens Column.name) := by
  have hopen : ascii "select * from " ++ ascii "service" ++ ascii " where md5_c = '" =
      ascii "select * from service where md5_c = " ++ [quote] := by decide
  have htokens : outside (ascii "select * from service where md5_c = ") =
      [.word (ascii "select"), .symbol 0x2A, .word (ascii "from"), .word (ascii "service"),
        .word (ascii "where"), .word (ascii "md5_c"), .symbol 0x3D] := by decide
  have hlookup := (lex_lookup_iff cs
    (by decide : quote ∉ ascii "select * from service where md5_c = ") s.md5Cipher.text).mpr hcipher
  rw [htokens] at hlookup
  rw [selectSql, cstr_skTable htable, hopen, hlookup]
  rfl

/-- The values of the insert, each with what stands behind it. -/
def insertParts : List (Bytes × Bytes) :=
  [(Decimal.intText s.orgnization, ascii ","), (s.md5Plaint.text, ascii ","),
    (s.md5Cipher.text, ascii ","), (s.skey.text, ascii ","),
    (Decimal.intText s.expireT, ascii ","), (Decimal.intText conf.admin, ascii ","),
    (Decimal.intText s.encT, ascii ");")]

def updateParts : List (Bytes × Bytes) :=
  [(Decimal.intText s.orgnization, ascii ", md5_p = "),
    (s.md5Plaint.text, ascii ", skey = "), (s.skey.text, ascii ", expire = "),
    (Decimal.intText s.expireT, ascii ", admin = "),
    (Decimal.intText conf.admin, ascii ", enc_tm = "),
    (Decimal.intText s.encT, ascii " where md5_c = "), (s.md5Cipher.text, ascii ";")]

section

variable {conf : KmConf} {s : KmServ} (htable : conf.skTable = ascii "service")

include htable

theorem insertSql_eq : s.insertSql conf =
    ascii "insert into service (org, md5_p, md5_c, skey, expire, admin, enc_tm) values (" ++
      fill (insertParts conf s) := by
  have h0 : ascii "insert into " ++ ascii "service" ++
      ascii " (org, md5_p, md5_c, skey, expire, admin, enc_tm" ++ ascii ") values ('" =
      ascii "insert into service (org, md5_p, md5_c, skey, expire, admin, enc_tm) values (" ++
        [quote] := by decide
  have h1 : ascii "','" = quote :: ascii "," ++ [quote] := by decide
  have h2 : ascii "'" = [quote] := by decide
  unfold insertSql
  rw [cstr_skTable htable]
  simp only [h0, h1, h2]
  simp [fill, insertParts]

theorem insert_tokens {table : Table} (hempty : table.getSize < 1) :
    (s.writing conf table).tokens Column.name = outside (ascii
      "insert into service (org, md5_p, md5_c, skey, expire, admin, enc_tm) values (") ++
        fillTokens (insertParts conf s) := by
  have h0 : outside (ascii
      "insert into service (org, md5_p, md5_c, skey, expire, admin, enc_tm) values (") =
    [.word (ascii "insert"), .word (ascii "into"), .word (ascii "service"),
      .symbol 0x28, .word (ascii "org"), .symbol 0x2C, .word (ascii "md5_p"), .symbol 0x2C,
      .word (ascii "md5_c"), .symbol 0x2C, .word (ascii "skey"), .symbol 0x2C,
      .word (ascii "expire"), .symbol 0x2C, .word (ascii "admin"), .symbol 0x2C,
      .word (ascii "enc_tm"), .symbol 0x29, .word (ascii "values"), .symbol 0x28] := by decide
  have h1 : outside (ascii ",") = [.symbol 0x2C] := by decide
  have h2 : outside (ascii ");") = [.symbol 0x29, .symbol 0x3B] := by decide
  rw [writing, if_pos hempty, cstr_skTable htable]
  simp only [insertParts, fillTokens, h0, h1, h2]
  rfl

theorem updateSql_eq : s.updateSql conf =
    ascii "update service set org = " ++ fill (updateParts conf s) := by
  have h0 : ascii "update " ++ ascii "service" ++ ascii " set org = '" =
    ascii "update service set org = " ++ [quote] := by decide
  have h1 : ascii "', md5_p = '" = quote :: ascii ", md5_p = " ++ [quote] := by decide
  have h2 : ascii "', skey = '" = quote :: ascii ", skey = " ++ [quote] := by decide
  have h3 : ascii ", expire = '" = ascii ", expire = " ++ [quote] := by decide
  have h4 : ascii "', admin = '" = quote :: ascii ", admin = " ++ [quote] := by decide
  have h5 : ascii "', enc_tm = '" = quote :: ascii ", enc_tm = " ++ [quote] := by decide
  have h6 : ascii "' where md5_c = '" = quote :: ascii " where md5_c = " ++ [quote] := by decide
  have h7 : ascii "';" = quote :: ascii ";" := by decide
  have h8 : ascii "'" = [quote] := by decide
  unfold updateSql
  rw [cstr_skTable htable]
  simp only [h0, h1, h2, h3, h4, h5, h6, h7, h8]
  simp [fill, updateParts]

theorem update_tokens {table : Table} (hfull : ¬ table.getSize < 1) :
    (s.writing conf table).tokens Column.name =
      outside (ascii "update service set org = ") ++ fillTokens (updateParts conf s) := by
  have h0 : outside (ascii "update service set org = ") =
    [.word (ascii "update"), .word (ascii "service"), .word (ascii "set"),
      .word (ascii "org"), .symbol 0x3D] := by decide
  have h1 : outside (ascii ", md5_p = ") =
    [.symbol 0x2C, .word (ascii "md5_p"), .symbol 0x3D] := by decide
  have h2 : outside (ascii ", skey = ") =
    [.symbol 0x2C, .word (ascii "skey"), .symbol 0x3D] := by decide
  have h3 : outside (ascii ", expire = ") =
    [.symbol 0x2C, .word (ascii "expire"), .symbol 0x3D] := by decide
  have h4 : outside (ascii ", admin = ") =
    [.symbol 0x2C, .word (ascii "admin"), .symbol 0x3D] := by decide
  have h5 : outside (ascii ", enc_tm = ") =
    [.symbol 0x2C, .word (ascii "enc_tm"), .symbol 0x3D] := by decide
  have h6 : outside (ascii " where md5_c = ") =
    [.word (ascii "where"), .word (ascii "md5_c"), .symbol 0x3D] := by decide
  have h7 : outside (ascii ";") = [.symbol 0x3B] := by decide
  rw [writing, if_neg hfull, cstr_skTable htable]
  simp only [updateParts, fillTokens, h0, h1, h2, h3, h4, h5, h6, h7]
  rfl

end

theorem lex_insertSql (htable : conf.skTable = ascii "service")
    (hplain : plain cs s.md5Plaint.text = true) (hcipher : plain cs s.md5Cipher.text = true)
    (hkey : plain cs s.skey.text = true) {table : Table} (hempty : table.getSize < 1) :
    lex cs (s.insertSql conf) = some ((s.writing conf table).tokens Column.name) := by
  have hpieces : ∀ q ∈ (insertParts conf s).map Prod.snd, quote ∉ q ∧ q ≠ [] :=
    show ∀ q ∈ [ascii ",", ascii ",", ascii ",", ascii ",", ascii ",", ascii ",", ascii ");"],
      quote ∉ q ∧ q ≠ [] by decide
  have hvalues : ∀ x ∈ insertParts conf s, plain cs x.1 = true := by
    simp [insertParts, plain_intText, hplain, hcipher, hkey]
  have hopen : quote ∉ ascii
      "insert into service (org, md5_p, md5_c, skey, expire, admin, enc_tm) values (" := by decide
  rw [insertSql_eq htable, insert_tokens htable hempty]
  exact lex_fill_plain hopen hvalues hpieces

theorem lex_updateSql (htable : conf.skTable = ascii "service")
    (hplain : plain cs s.md5Plaint.text = true) (hcipher : plain cs s.md5Cipher.text = true)
    (hkey : plain cs s.skey.text = true) {table : Table} (hfull : ¬ table.getSize < 1) :
    lex cs (s.updateSql conf) = some ((s.writing conf table).tokens Column.name) := by
  have hpieces : ∀ q ∈ (updateParts conf s).map Prod.snd, quote ∉ q ∧ q ≠ [] :=
    show ∀ q ∈ [ascii ", md5_p = ", ascii ", skey = ", ascii ", expire = ", ascii ", admin = ",
      ascii ", enc_tm = ", ascii " where md5_c = ", ascii ";"], quote ∉ q ∧ q ≠ [] by decide
  have hvalues : ∀ x ∈ updateParts conf s, plain cs x.1 = true := by
    simp [updateParts, plain_intText, hplain, hcipher, hkey]
  have hopen : quote ∉ ascii "update service set org = " := by decide
  rw [updateSql_eq htable, update_tokens htable hfull]
  exact lex_fill_plain hopen hvalues hpieces

theorem lex_store (table : Table) (htable : conf.skTable = ascii "service")
    (hplain : plain cs s.md5Plaint.text = true) (hcipher : plain cs s.md5Cipher.text = true)
    (hkey : plain cs s.skey.text = true) :
    lex cs (s.selectSql conf) =
      some ((Statement.select (cstr conf.skTable) s.existing).tokens Column.name) ∧
    lex cs (if table.getSize < 1 then s.insertSql conf else s.updateSql conf) =
      some ((s.writing conf table).tokens Column.name) := by
  refine ⟨lex_selectSql conf s cs htable hcipher, ?_⟩
  split
  · rename_i hempty
    exact lex_insertSql conf s cs htable hplain hcipher hkey hempty
  · rename_i hfull
    exact lex_updateSql conf s cs htable hplain hcipher hkey hfull

/-- The texts of a service hold the strings that are filled in as they stand. -/
structure PlainTexts (cs : Charset) (s : KmServ) : Prop where
  md5Plaint : plain cs s.md5Plaint.text = true
  md5Cipher : plain cs s.md5Cipher.text = true
  skey : plain cs s.skey.text = true

end KmServ

/-- The server reads each text as the statement it is meant to be, with the
strings that were filled in, exactly when these are plain. -/
theorem sql_shape_iff (cs : Charset) (acp : CString → Bytes)
    (adm orgName plainName remark : CString) (c : Bytes) :
    (lex cs (adminSql (cstr (acp adm))) = some ((adminStatement (cstr (acp adm))).tokens id) ↔
      plain cs (cstr (acp adm)) = true) ∧
    (lex cs (ArchiveDlg.orgSql (cstr (acp orgName))) =
        some ((orgStatement (cstr (acp orgName))).tokens id) ↔
      plain cs (cstr (acp orgName)) = true) ∧
    (lex cs (nameSql acp plainName remark (sm3 c)) =
        some ((nameStatement acp plainName remark (sm3 c)).tokens Column.name) ↔
      plain cs (cstr (acp plainName)) = true ∧ plain cs (cstr (acp remark)) = true) :=
  ⟨lex_adminSql_iff cs _, lex_orgSql_iff cs _,
    lex_nameSql_iff cs acp plainName remark (sm3_length c)⟩

/-- The apostrophe of a file name ends its literal. -/
theorem sql_shape_apostrophe :
    lex .gbk (nameSql latin "O'Brien.dwg".toList [] (sm3 [])) ≠
      some ((nameStatement latin "O'Brien.dwg".toList [] (sm3 [])).tokens Column.name) := by
  intro h
  have hplain := (lex_nameSql_iff .gbk latin _ _ (sm3_length [])).mp h
  exact absurd hplain.1 (by decide)

end SecProGIS
