import SecProGIS.INTmysql

/-! `LinkDataBase` of `LoginDlg.cpp` and `set_conf` of `INTmysql.cpp`: the values
of `conf.txt` pass through buffers of 15 characters, their terminator included. -/

namespace SecProGIS

abbrev WChar := BitVec 16

/-- A code page of Windows: it converts in order, and the characters below 128
as they are. -/
structure CodePage where
  toBytes : List WChar → Bytes
  toBytes_ascii : ∀ c < 128, ∀ s, toBytes (c :: s) = c.setWidth 8 :: toBytes s

inductive ConfKey where
  | ip | user | password | dbname

/-- The section `DBConfigure`; a key may be missing. -/
abbrev Profile := ConfKey → Option (List WChar)

/-- At most `n - 1` characters of the value and a terminator. -/
def getPrivateProfileString (value : Option (List WChar)) (buf : List WChar) (n : Nat) :
    List WChar :=
  let s := (value.getD []).take (n - 1)
  s ++ 0 :: buf.drop (s.length + 1)

/-- A value in bytes: all 15 characters of the buffer are converted, and a
terminator stands behind them. -/
def readConf (acp : CodePage) (conf : Profile) (mem : ConfKey → Vector WChar 15) (key : ConfKey) :
    Bytes :=
  acp.toBytes (getPrivateProfileString (conf key) (mem key).toList 15) ++ [0]

/-- `strcpy_s` into an array of 20 bytes; a longer text ends the program. -/
def strcpyS (dst src : Bytes) : Option Bytes :=
  let s := cstr src
  if 20 ≤ s.length then none else some (s ++ 0 :: dst.drop (s.length + 1))

namespace DbConf

def setConf (c : DbConf) (ip : Option Bytes) (port : Int) (usr pwd db : Option Bytes) :
    Option (Int × DbConf) :=
  match ip, usr, pwd, db with
  | some ip, some usr, some pwd, some db => do
    let dbUsr ← strcpyS c.dbUsr usr
    let dbPwd ← strcpyS c.dbPwd pwd
    let dbIp ← strcpyS c.dbIp ip
    let db ← strcpyS c.db db
    return (1, ⟨dbIp, port, dbUsr, dbPwd, db⟩)
  | _, _, _, _ => some (-1, c)

end DbConf

def linkDataBase (acp : CodePage) (conf : Profile) (mem : ConfKey → Vector WChar 15) (c : DbConf) :
    Option DbConf :=
  let value := readConf acp conf mem
  (c.setConf (some (value .ip)) 3306 (some (value .user)) (some (value .password))
    (some (value .dbname))).map Prod.snd

def IsAscii (s : List WChar) : Prop := ∀ c ∈ s, c ≠ 0 ∧ c < 128

def IsDigits (s : List WChar) : Prop := ∀ c ∈ s, 48 ≤ c ∧ c ≤ 57

def IsOctet (s : List WChar) : Prop := s ≠ [] ∧ s.length ≤ 3 ∧ IsDigits s

def IsDottedQuad (s : List WChar) : Prop :=
  ∃ a b c d, IsOctet a ∧ IsOctet b ∧ IsOctet c ∧ IsOctet d ∧
    s = a ++ 46 :: (b ++ 46 :: (c ++ 46 :: d))

def IsShort (s : List WChar) : Prop := s ≠ [] ∧ s.length ≤ 14 ∧ IsAscii s

instance (s : List WChar) : Decidable (IsAscii s) := List.decidableBAll _ _

instance (s : List WChar) : Decidable (IsDigits s) := List.decidableBAll _ _

instance (s : List WChar) : Decidable (IsOctet s) := inferInstanceAs (Decidable (_ ∧ _ ∧ _))

instance (s : List WChar) : Decidable (IsShort s) := inferInstanceAs (Decidable (_ ∧ _ ∧ _))

structure ConfTxt where
  ip : List WChar
  user : List WChar
  password : List WChar
  dbname : List WChar
  ip_quad : IsDottedQuad ip
  user_short : IsShort user
  password_short : IsShort password
  dbname_short : IsShort dbname

def ConfTxt.profile (conf : ConfTxt) : Profile
  | .ip => some conf.ip
  | .user => some conf.user
  | .password => some conf.password
  | .dbname => some conf.dbname

def narrow (s : List WChar) : Bytes := s.map fun c => c.setWidth 8

structure Carried (conf : ConfTxt) (c : DbConf) : Prop where
  ip_eq : cstr c.dbIp = narrow conf.ip
  user_eq : cstr c.dbUsr = narrow conf.user
  password_eq : cstr c.dbPwd = narrow conf.password
  dbname_eq : cstr c.db = narrow conf.dbname
  configured : c.configured = true

theorem IsOctet.isAscii {s : List WChar} (h : IsOctet s) : IsAscii s := by
  intro c hc
  obtain ⟨hlow, hhigh⟩ := h.2.2 c hc
  exact ⟨by bv_omega, by bv_omega⟩

theorem IsAscii.append_dot {s t : List WChar} (hs : IsAscii s) (ht : IsAscii t) :
    IsAscii (s ++ 46 :: t) := by
  intro c hc
  rw [List.mem_append, List.mem_cons] at hc
  rcases hc with hc | rfl | hc
  · exact hs c hc
  · decide
  · exact ht c hc

theorem IsDottedQuad.isAscii {s : List WChar} (h : IsDottedQuad s) : IsAscii s := by
  obtain ⟨a, b, c, d, ha, hb, hc, hd, rfl⟩ := h
  exact ha.isAscii.append_dot (hb.isAscii.append_dot (hc.isAscii.append_dot hd.isAscii))

theorem IsDottedQuad.ne_nil {s : List WChar} (h : IsDottedQuad s) : s ≠ [] := by
  obtain ⟨a, b, c, d, ha, hb, hc, hd, rfl⟩ := h
  exact List.append_ne_nil_of_left_ne_nil ha.1 _

theorem narrow_ne_zero {s : List WChar} (h : IsAscii s) : ∀ c ∈ narrow s, c ≠ 0 := by
  intro c hc
  obtain ⟨x, hx, rfl⟩ := List.mem_map.mp hc
  obtain ⟨hzero, hlt⟩ := h x hx
  bv_omega

theorem CodePage.toBytes_append (acp : CodePage) {s : List WChar} (h : IsAscii s)
    (t : List WChar) : acp.toBytes (s ++ t) = narrow s ++ acp.toBytes t := by
  induction s with
  | nil => rfl
  | cons c s ih =>
    rw [IsAscii, List.forall_mem_cons] at h
    rw [List.cons_append, acp.toBytes_ascii c h.1.2, ih h.2]
    rfl

theorem cstr_readConf (acp : CodePage) (conf : Profile) (mem : ConfKey → Vector WChar 15)
    {key : ConfKey} {s : List WChar} (hs : conf key = some s) (h : IsAscii s) :
    cstr (readConf acp conf mem key) = narrow (s.take 14) := by
  have htake : IsAscii (s.take 14) := fun c hc => h c (List.mem_of_mem_take hc)
  have hzero := acp.toBytes_ascii 0 (by decide)
  rw [readConf, getPrivateProfileString, hs]
  simp only [Option.getD_some]
  rw [acp.toBytes_append htake, hzero, List.append_assoc, List.cons_append]
  exact cstr_append_zero (narrow_ne_zero htake) _

theorem narrow_take_eq_iff (s : List WChar) : narrow (s.take 14) = narrow s ↔ s.length ≤ 14 := by
  constructor
  · intro h
    have hlen := congrArg List.length h
    rw [narrow, narrow, List.length_map, List.length_map, List.length_take] at hlen
    omega
  · exact fun h => by rw [List.take_of_length_le h]

theorem strcpyS_of_lt {src : Bytes} (h : (cstr src).length < 20) (dst : Bytes) :
    ∃ b, strcpyS dst src = some b ∧ cstr b = cstr src := by
  refine ⟨_, if_neg (not_le.mpr h), cstr_append_zero (fun c hc => ?_) _⟩
  simpa using List.mem_takeWhile_imp hc

theorem exists_strcpyS (acp : CodePage) (conf : Profile) (mem : ConfKey → Vector WChar 15)
    {key : ConfKey} {s : List WChar} (hs : conf key = some s) (h : IsAscii s) (dst : Bytes) :
    ∃ b, strcpyS dst (readConf acp conf mem key) = some b ∧ cstr b = narrow (s.take 14) := by
  have hvalue := cstr_readConf acp conf mem hs h
  have hlen : (cstr (readConf acp conf mem key)).length < 20 := by
    rw [hvalue, narrow, List.length_map, List.length_take]
    omega
  obtain ⟨b, hb, hcstr⟩ := strcpyS_of_lt hlen dst
  exact ⟨b, hb, hcstr.trans hvalue⟩

theorem linkDataBase_eq (acp : CodePage) (conf : ConfTxt) (mem : ConfKey → Vector WChar 15)
    (c : DbConf) : ∃ c', linkDataBase acp conf.profile mem c = some c' ∧
      cstr c'.dbIp = narrow (conf.ip.take 14) ∧ cstr c'.dbUsr = narrow conf.user ∧
      cstr c'.dbPwd = narrow conf.password ∧ cstr c'.db = narrow conf.dbname ∧
      c'.dbPort = 3306 := by
  obtain ⟨ip, hip, hip'⟩ := exists_strcpyS acp conf.profile mem
    (rfl : conf.profile .ip = some conf.ip) conf.ip_quad.isAscii c.dbIp
  obtain ⟨usr, husr, husr'⟩ := exists_strcpyS acp conf.profile mem
    (rfl : conf.profile .user = some conf.user) conf.user_short.2.2 c.dbUsr
  obtain ⟨pwd, hpwd, hpwd'⟩ := exists_strcpyS acp conf.profile mem
    (rfl : conf.profile .password = some conf.password) conf.password_short.2.2 c.dbPwd
  obtain ⟨db, hdb, hdb'⟩ := exists_strcpyS acp conf.profile mem
    (rfl : conf.profile .dbname = some conf.dbname) conf.dbname_short.2.2 c.db
  refine ⟨⟨ip, 3306, usr, pwd, db⟩, ?_, hip', ?_, ?_, ?_, rfl⟩
  · simp [linkDataBase, DbConf.setConf, hip, husr, hpwd, hdb]
  · rw [husr', (narrow_take_eq_iff _).mpr conf.user_short.2.1]
  · rw [hpwd', (narrow_take_eq_iff _).mpr conf.password_short.2.1]
  · rw [hdb', (narrow_take_eq_iff _).mpr conf.dbname_short.2.1]

/-- The configuration is carried over exactly when the address has at most 14
characters. -/
theorem conf_carried_iff (acp : CodePage) (conf : ConfTxt) (mem : ConfKey → Vector WChar 15)
    (c : DbConf) :
    (∃ c', linkDataBase acp conf.profile mem c = some c' ∧ Carried conf c') ↔
      conf.ip.length ≤ 14 := by
  obtain ⟨c', hc', hip, husr, hpwd, hdb, hport⟩ := linkDataBase_eq acp conf mem c
  simp only [hc', Option.some.injEq, exists_eq_left']
  constructor
  · intro h
    exact (narrow_take_eq_iff _).mp (hip.symm.trans h.ip_eq)
  · intro h
    have hip' : cstr c'.dbIp = narrow conf.ip := hip.trans ((narrow_take_eq_iff _).mpr h)
    refine ⟨hip', husr, hpwd, hdb, ?_⟩
    simp [DbConf.configured, hip', husr, hpwd, hdb, hport, narrow, conf.ip_quad.ne_nil,
      conf.user_short.1, conf.password_short.1, conf.dbname_short.1]

def CodePage.low : CodePage := ⟨narrow, fun _ _ _ => rfl⟩

def wide (s : String) : List WChar := s.toList.map fun c => BitVec.ofNat 16 c.toNat

theorem sample_octet : IsOctet (wide "192") ∧ IsOctet (wide "168") ∧ IsOctet (wide "100") := by
  decide

theorem sample_short : IsShort (wide "gis") := by decide

def sampleConf : ConfTxt where
  ip := wide "192" ++ 46 :: (wide "168" ++ 46 :: (wide "100" ++ 46 :: wide "100"))
  user := wide "gis"
  password := wide "gis"
  dbname := wide "gis"
  ip_quad := ⟨_, _, _, _, sample_octet.1, sample_octet.2.1, sample_octet.2.2, sample_octet.2.2, rfl⟩
  user_short := sample_short
  password_short := sample_short
  dbname_short := sample_short

def DbConf.initial : DbConf :=
  ⟨List.replicate 20 0, -1, List.replicate 20 0, List.replicate 20 0, List.replicate 20 0⟩

/-- The last digit of an address of 15 characters is lost. -/
theorem conf_not_carried :
    (linkDataBase .low sampleConf.profile (fun _ => Vector.replicate 15 0) .initial).map
      (fun c => cstr c.dbIp) = some (ascii "192.168.100.10") ∧
    ¬ ∃ c', linkDataBase .low sampleConf.profile (fun _ => Vector.replicate 15 0) .initial =
      some c' ∧ Carried sampleConf c' := by
  have hip : (linkDataBase .low sampleConf.profile (fun _ => Vector.replicate 15 0) .initial).map
      (fun c => cstr c.dbIp) = some (ascii "192.168.100.10") := by decide
  refine ⟨hip, ?_⟩
  rintro ⟨c', hc', h⟩
  rw [hc', Option.map_some, h.ip_eq] at hip
  exact absurd hip (by decide)

end SecProGIS
