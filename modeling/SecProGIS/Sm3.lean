import SecProGIS.Bytes
import SecProGIS.Lib.SeekFile

/-! The SM3 routines of `sm3.cpp`: the compression of one block, the update
that may be given a message in pieces, the padding, and the digest of a
buffer or of a file. -/

namespace SecProGIS

structure Sm3Context where
  total : Vector u32 2
  state : Vector u32 8
  buffer : Vector u8 64
  ipad : Vector u8 64
  opad : Vector u8 64

/-- What a context on the stack holds before `sm3_starts` is of no account. -/
instance : Inhabited Sm3Context :=
  ⟨⟨Vector.replicate 2 0, Vector.replicate 8 0, Vector.replicate 64 0, Vector.replicate 64 0,
    Vector.replicate 64 0⟩⟩

def sm3IV : Vector u32 8 :=
  #v[0x7380166F, 0x4914B2B9, 0x172442D7, 0xDA8A0600, 0xA96F30BC, 0x163138AA, 0xE38DEE4D,
    0xB0FB0E4E]

def sm3Starts (ctx : Sm3Context) : Sm3Context := { ctx with total := #v[0, 0], state := sm3IV }

def ff0 (x y z : u32) : u32 := x ^^^ y ^^^ z

def ff1 (x y z : u32) : u32 := (x &&& y) ||| (x &&& z) ||| (y &&& z)

def gg0 (x y z : u32) : u32 := x ^^^ y ^^^ z

def gg1 (x y z : u32) : u32 := (x &&& y) ||| (~~~x &&& z)

def p0 (x : u32) : u32 := x ^^^ rotl x 9 ^^^ rotl x 17

def p1 (x : u32) : u32 := x ^^^ rotl x 15 ^^^ rotl x 23

def sm3T : Vector u32 64 := Vector.ofFn fun j => if j.val < 16 then 0x79CC4519 else 0x7A879D8A

/-- `W[0]` to `W[15]`, the words of the block. -/
def sm3Load (data : Bytes) : Vector u32 68 :=
  Nat.fold 16 (fun i _ W => W.set i (getUlongBE data (4 * i))) (Vector.replicate 68 0)

/-- `W[16]` to `W[67]`; the loop counter `j` of the source is `i + 16`. -/
def sm3Expand (W : Vector u32 68) : Vector u32 68 :=
  Nat.fold 52 (fun i _ W =>
    let temp1 := W[i] ^^^ W[i + 7]
    let temp2 := rotl W[i + 13] 15
    let temp3 := temp1 ^^^ temp2
    let temp4 := p1 temp3
    let temp5 := rotl W[i + 3] 7 ^^^ W[i + 10]
    W.set (i + 16) (temp4 ^^^ temp5)) W

structure Sm3Regs where
  a : u32
  b : u32
  c : u32
  d : u32
  e : u32
  f : u32
  g : u32
  h : u32

/-- One turn of either round loop, with the boolean functions of that loop. -/
def sm3Round (ff gg : u32 → u32 → u32 → u32) (j : Nat) (t w w1 : u32) (r : Sm3Regs) : Sm3Regs :=
  let ss1 := rotl (rotl r.a 12 + r.e + rotl t j) 7
  let ss2 := ss1 ^^^ rotl r.a 12
  let tt1 := ff r.a r.b r.c + r.d + ss2 + w1
  let tt2 := gg r.e r.f r.g + r.h + ss1 + w
  ⟨tt1, r.a, rotl r.b 9, r.c, p0 tt2, r.e, rotl r.f 19, r.g⟩

def sm3Process (state : Vector u32 8) (data : Bytes) : Vector u32 8 :=
  let W := sm3Expand (sm3Load data)
  let W1 : Vector u32 64 := Vector.ofFn fun j => W[j.val] ^^^ W[j.val + 4]
  let r : Sm3Regs :=
    ⟨state[0], state[1], state[2], state[3], state[4], state[5], state[6], state[7]⟩
  let r := Nat.fold 16 (fun j _ r => sm3Round ff0 gg0 j sm3T[j] W[j] W1[j] r) r
  let r := Nat.fold 48 (fun i _ r =>
    sm3Round ff1 gg1 (i + 16) sm3T[i + 16] W[i + 16] W1[i + 16] r) r
  #v[state[0] ^^^ r.a, state[1] ^^^ r.b, state[2] ^^^ r.c, state[3] ^^^ r.d, state[4] ^^^ r.e,
    state[5] ^^^ r.f, state[6] ^^^ r.g, state[7] ^^^ r.h]

/-- The `while( ilen >= 64 )` loop of `sm3_update` and the copy of what is left. -/
def sm3Blocks (ctx : Sm3Context) (left : Nat) (input : Bytes) : Sm3Context :=
  if _h : 64 ≤ input.length then
    sm3Blocks { ctx with state := sm3Process ctx.state (input.take 64) } left (input.drop 64)
  else if 0 < input.length then { ctx with buffer := blit ctx.buffer left input }
  else ctx
termination_by input.length
decreasing_by simp only [List.length_drop]; omega

/-- `ilen` is the length of `input`, below `2^31` as an `int`. -/
def sm3Update (ctx : Sm3Context) (input : Bytes) : Sm3Context :=
  if input.length ≤ 0 then ctx
  else
    let left := (ctx.total[0] &&& 0x3F).toNat
    let fill := 64 - left
    let ilen := BitVec.ofNat 32 input.length
    let total0 := (ctx.total[0] + ilen) &&& 0xFFFFFFFF
    let total1 := if total0 < ilen then ctx.total[1] + 1 else ctx.total[1]
    let ctx := { ctx with total := #v[total0, total1] }
    if left ≠ 0 ∧ fill ≤ input.length then
      let ctx := { ctx with buffer := blit ctx.buffer left (input.take fill) }
      sm3Blocks { ctx with state := sm3Process ctx.state ctx.buffer.toList } 0 (input.drop fill)
    else sm3Blocks ctx left input

def sm3Count (total : Vector u32 2) : Nat := total[0].toNat + 2 ^ 32 * total[1].toNat

def sm3Padding : Bytes := 0x80 :: List.replicate 63 0

def sm3Output (state : Vector u32 8) : Bytes := state.toList.flatMap putUlongBE

def sm3Finish (ctx : Sm3Context) : Sm3Context × Bytes :=
  let high := (ctx.total[0] >>> 29) ||| (ctx.total[1] <<< 3)
  let low := ctx.total[0] <<< 3
  let msglen := putUlongBE high ++ putUlongBE low
  let last := (ctx.total[0] &&& 0x3F).toNat
  let padn := if last < 56 then 56 - last else 120 - last
  let ctx := sm3Update ctx (sm3Padding.take padn)
  let ctx := sm3Update ctx msglen
  (ctx, sm3Output ctx.state)

def sm3 (input : Bytes) : Bytes := (sm3Finish (sm3Update (sm3Starts default) input)).2

def sm3FileLoop (ctx : Sm3Context) (f : SeekFile u8) : Sm3Context :=
  if _h : 0 < (f.read 1024).1.length then
    sm3FileLoop (sm3Update ctx (f.read 1024).1) (f.read 1024).2
  else ctx
termination_by f.ahead.length
decreasing_by
  rw [SeekFile.read_ahead, List.length_drop]
  simp only [SeekFile.read_fst, List.length_take] at _h
  omega

/-- `sm3_file` on a file that cannot be opened, or on the bytes `fread` gets
from it and whether `ferror` reports an error afterwards. -/
def sm3File (file : Option (Bytes × Bool)) : Int × Option Bytes :=
  match file with
  | none => (1, none)
  | some (content, ferror) =>
    let ctx := sm3FileLoop (sm3Starts default) (SeekFile.opened content)
    (if ferror then 2 else 0, some (sm3Finish ctx).2)

end SecProGIS
