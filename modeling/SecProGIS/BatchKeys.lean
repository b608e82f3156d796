import SecProGIS.Completion
import SecProGIS.StoredKey

/-! The keys of the files of one encryption. Each is drawn after `srand` with
the clock in seconds, so files of one second get the same key. -/

namespace SecProGIS

/-- The C library's `rand()`: one stream, which `srand` enters at a point of its
period, and which gives no two keys of 16 characters alike from there on. -/
structure RandStream where
  stream : Nat → Int
  period : Nat
  start : u32 → Nat
  start_lt : ∀ seed, start seed < period
  key_injective : ∀ p < period, ∀ q < period,
    keyText (fun n => stream (p + n)) 16 = keyText (fun n => stream (q + n)) 16 → p = q

def RandStream.rng (c : RandStream) : Rng := fun seed n => c.stream (c.start seed + n)

def RandStream.entry (c : RandStream) (now : Int) : Nat := c.start (BitVec.ofInt 32 now)

/-- The key of a turn, when the turn comes to `gen_key`. -/
def drawnKey (rng : Rng) (e : FileEnv) (findex : Nat) (s : Session) : Option Bytes := do
  let s := s.shown e
  let plain ← s.openPlain e findex
  let s := s.measured plain
  if s.dlg.plainLen < 0 then none else some (s.fileServ rng e plain).skey.text

abbrev Draws := List (Bytes × Int)

def seeDraw (rng : Rng) (env : Nat → FileEnv) (w : Draws) (s : Session) (findex : Nat) : Draws :=
  w ++ ((drawnKey rng (env findex) findex s).map fun key => (key, (env findex).genNow)).toList

def draws (rng : Rng) (acp : CString → Bytes) (s : Session) (combo1 : CString)
    (q : ArchiveDlg.OrgQuery) (env : Nat → FileEnv) : Draws :=
  if (s.dlg.judgeBeforeEncrypt acp combo1 q).1 = some true then
    let s := s.judged acp combo1 q
    (EventLoop.loop (EventLoop.watched (encryptFile rng acp env) (seeDraw rng env)) (s, [])
      (List.range s.dlg.selFileNum)).1.2
  else []

section

variable (rng : Rng) (acp : CString → Bytes)

theorem drawnKey_eq {e : FileEnv} {findex : Nat} {s : Session} {key : Bytes}
    (h : drawnKey rng e findex s = some key) : key = e.newKey rng := by
  rw [drawnKey, Option.bind_eq_bind, Option.bind_eq_some_iff] at h
  obtain ⟨plain, _, h⟩ := h
  simp only at h
  split_ifs at h
  have hskey := generate_holds rng e.genNow (by decide : 0 < 16)
  rw [← Option.some.inj h]
  exact hskey.text_eq fun _ hc => keyText_ne_zero hc

theorem drawnKey_of_openPlain {e : FileEnv} {findex : Nat} {s : Session} {plain : Bytes}
    (h : s.openPlain e findex = some plain) (hlen : 0 ≤ toInt32 plain.length) :
    drawnKey rng e findex s = some (e.newKey rng) := by
  have hopen : (s.shown e).openPlain e findex = some plain := h
  have hnonneg : ¬ ((s.shown e).measured plain).dlg.plainLen < 0 := not_lt.mpr hlen
  have hskey := generate_holds rng e.genNow (by decide : 0 < 16)
  simp only [drawnKey, hopen, Option.bind_eq_bind, Option.bind_some, if_neg hnonneg]
  exact congrArg some (hskey.text_eq fun _ hc => keyText_ne_zero hc)

theorem draws_key (s : Session) (combo1 : CString) (q : ArchiveDlg.OrgQuery) (env : Nat → FileEnv) :
    ∀ r ∈ draws rng acp s combo1 q env, r.1 = keyText (rng (BitVec.ofInt 32 r.2)) 16 := by
  let I := fun p : Session × Draws => ∀ r ∈ p.2, r.1 = keyText (rng (BitVec.ofInt 32 r.2)) 16
  have hstep : ∀ p findex, I p →
      I (EventLoop.watched (encryptFile rng acp env) (seeDraw rng env) p findex).1 := by
    intro p findex hp r hr
    rw [EventLoop.watched, seeDraw, List.mem_append] at hr
    rcases hr with hr | hr
    · exact hp r hr
    · rw [Option.mem_toList, Option.map_eq_some_iff] at hr
      obtain ⟨key, hkey, rfl⟩ := hr
      exact drawnKey_eq rng hkey
  intro r hr
  rw [draws] at hr
  split at hr
  · exact EventLoop.loop_invariant hstep (fun _ h => by cases h) _ r hr
  · cases hr

end

/-- The keys of the files differ exactly when the readings of the clock they are
drawn after lead to different points of the stream. -/
theorem batch_keys_iff (c : RandStream) (acp : CString → Bytes) (s : Session) (combo1 : CString)
    (q : ArchiveDlg.OrgQuery) (env : Nat → FileEnv) :
    ((draws c.rng acp s combo1 q env).map Prod.fst).Nodup ↔
      ((draws c.rng acp s combo1 q env).map fun r => c.entry r.2).Nodup := by
  let key := fun p => keyText (fun n => c.stream (p + n)) 16
  have hkeys : (draws c.rng acp s combo1 q env).map Prod.fst =
      ((draws c.rng acp s combo1 q env).map fun r => c.entry r.2).map key := by
    rw [List.map_map]
    exact List.map_congr_left (draws_key c.rng acp s combo1 q env)
  rw [hkeys]
  refine ⟨List.Nodup.of_map key, List.Nodup.map_on ?_⟩
  intro p hp p' hp' he
  obtain ⟨r, _, rfl⟩ := List.mem_map.mp hp
  obtain ⟨r', _, rfl⟩ := List.mem_map.mp hp'
  exact c.key_injective _ (c.start_lt _) _ (c.start_lt _) he

def countingStream : RandStream where
  stream n := n
  period := 10
  start seed := seed.toNat % 10
  start_lt seed := Nat.mod_lt _ (by decide)
  key_injective := by decide

def sampleBatch : Session where
  dlg :=
    { sampleSession.dlg with
      plainPathAry := ["C:\\a.dwg".toList, "C:\\c.dwg".toList]
      plainNameAry := ["a.dwg".toList, "c.dwg".toList]
      plainExtAry := ["dwg".toList, "dwg".toList]
      cipherPathAry := ["C:\\b.dwg".toList, "C:\\d.dwg".toList]
      selFileNum := 2 }
  disk := fun p =>
    if p = "C:\\a.dwg".toList ∨ p = "C:\\c.dwg".toList then some samplePlain else none
  db := fun _ => []
  kmConf := ⟨[], 0⟩

def batchEnv : Nat → FileEnv := sampleEnv 1699990000 answered

def batchJudged : Session := sampleBatch.judged latin "org".toList sampleOrg

theorem batchJudged_sealable : Sealable batchJudged (batchEnv 0) 0 samplePlain "C:\\b.dwg".toList :=
  ⟨rfl, rfl, by decide, by decide⟩

theorem batchJudged_passes : Passes latin batchJudged (batchEnv 0) 0 :=
  ⟨⟨⟨_, _, batchJudged_sealable⟩, by decide, (by decide : answered.code = 0)⟩,
    ⟨"a.dwg".toList, rfl, by decide⟩, (by decide : answered.code ≠ -3)⟩

theorem openPlain_of_arrays {s t : Session} (harrays : t.dlg.arrays = s.dlg.arrays) {findex : Nat}
    (hdisk : ∀ p ∈ s.dlg.plainPathAry[findex]?, t.disk p = s.disk p) (e : FileEnv) :
    t.openPlain e findex = s.openPlain e findex := by
  simp only [ArchiveDlg.arrays, Prod.mk.injEq] at harrays
  rw [Session.openPlain, Session.openPlain, harrays.1]
  cases hpath : s.dlg.plainPathAry[findex]? with
  | none => rfl
  | some p => rw [Option.bind_some, Option.bind_some, hdisk p hpath]

theorem batch_second_openPlain (rng : Rng) :
    (encryptFile rng latin batchEnv batchJudged 0).1.openPlain (batchEnv 1) 1 =
      some samplePlain := by
  have hpath : batchJudged.dlg.plainPathAry[1]? = some "C:\\c.dwg".toList := rfl
  have hopen : batchJudged.openPlain (batchEnv 1) 1 = some samplePlain := rfl
  refine (openPlain_of_arrays (encryptFile_arrays rng latin batchEnv batchJudged 0)
    (fun p hp => ?_) (batchEnv 1)).trans hopen
  rw [hpath] at hp
  cases hp
  exact batchJudged_sealable.encryptFile_disk rng latin (by decide)

theorem draws_two (rng : Rng) (acp : CString → Bytes) {s : Session} {combo1 : CString}
    {q : ArchiveDlg.OrgQuery} {env : Nat → FileEnv}
    (hjudge : (s.dlg.judgeBeforeEncrypt acp combo1 q).1 = some true)
    (hnum : (s.judged acp combo1 q).dlg.selFileNum = 2)
    (hnext : (encryptFile rng acp env (s.judged acp combo1 q) 0).2 = none) {key key' : Bytes}
    (hfirst : drawnKey rng (env 0) 0 (s.judged acp combo1 q) = some key)
    (hsecond : drawnKey rng (env 1) 1
      (encryptFile rng acp env (s.judged acp combo1 q) 0).1 = some key') :
    draws rng acp s combo1 q env = [(key, (env 0).genNow), (key', (env 1).genNow)] := by
  have hwatched : (EventLoop.watched (encryptFile rng acp env) (seeDraw rng env)
      (s.judged acp combo1 q, []) 0).2 = none := hnext
  have hfiles : List.range 2 = [0, 1] := rfl
  rw [draws, if_pos hjudge]
  simp only [hnum, hfiles]
  rw [EventLoop.loop_cons_next hwatched, EventLoop.loop_watched_singleton]
  simp [EventLoop.watched, seeDraw, hfirst, hsecond]

theorem batch_keys_same :
    (batchEnv 0).genNow = (batchEnv 1).genNow ∧
    ¬ ((draws countingStream.rng latin sampleBatch "org".toList sampleOrg batchEnv).map
      Prod.fst).Nodup := by
  have hjudge : (sampleBatch.dlg.judgeBeforeEncrypt latin "org".toList sampleOrg).1 =
      some true := by decide
  have hnum : batchJudged.dlg.selFileNum = 2 := by decide
  have hnext := (encryptFile_snd_eq_none countingStream.rng latin batchEnv batchJudged
    0).mpr batchJudged_passes
  have hfirst := drawnKey_of_openPlain countingStream.rng batchJudged_sealable.plain_eq
    batchJudged_sealable.length_nonneg
  have hsecond := drawnKey_of_openPlain countingStream.rng
    (batch_second_openPlain countingStream.rng) (by decide)
  rw [draws_two countingStream.rng latin hjudge hnum hnext hfirst hsecond]
  simp [FileEnv.newKey, batchEnv, sampleEnv]

end SecProGIS
