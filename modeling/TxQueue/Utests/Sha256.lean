import TxQueue.Library.Hex
import TxQueue.Library.While

/-!
# The streaming hash of the unit tests

`qcstudio::sha256`: the status with its partial block, `update`, `to_digest` and `process_block`.
The host is little-endian. A store to `curr_block` outside its 64 bytes is a fault.
-/

namespace TxQueue.Sha256

open Library

/-- `status_t`. Nothing initialises `curr_block`. -/
structure Status where
  currBlock : Vector UInt8 64
  totalNumBits : UInt64 := 0
  h : Vector UInt32 8 :=
    #v[0x6A09E667, 0xBB67AE85, 0x3C6EF372, 0xA54FF53A, 0x510E527F, 0x9B05688C, 0x1F83D9AB,
      0x5BE0CD19]
  cur : UInt64 := 0

/-- `digest_t`. -/
structure Digest where
  a : UInt64
  b : UInt64
  c : UInt64
  d : UInt64
  deriving DecidableEq

/-- `k`. -/
def k : Vector UInt32 64 :=
  #v[0x428A2F98, 0x71374491, 0xB5C0FBCF, 0xE9B5DBA5, 0x3956C25B, 0x59F111F1, 0x923F82A4, 0xAB1C5ED5,
    0xD807AA98, 0x12835B01, 0x243185BE, 0x550C7DC3, 0x72BE5D74, 0x80DEB1FE, 0x9BDC06A7, 0xC19BF174,
    0xE49B69C1, 0xEFBE4786, 0x0FC19DC6, 0x240CA1CC, 0x2DE92C6F, 0x4A7484AA, 0x5CB0A9DC, 0x76F988DA,
    0x983E5152, 0xA831C66D, 0xB00327C8, 0xBF597FC7, 0xC6E00BF3, 0xD5A79147, 0x06CA6351, 0x14292967,
    0x27B70A85, 0x2E1B2138, 0x4D2C6DFC, 0x53380D13, 0x650A7354, 0x766A0ABB, 0x81C2C92E, 0x92722C85,
    0xA2BFE8A1, 0xA81A664B, 0xC24B8B70, 0xC76C51A3, 0xD192E819, 0xD6990624, 0xF40E3585, 0x106AA070,
    0x19A4C116, 0x1E376C08, 0x2748774C, 0x34B0BCB5, 0x391C0CB3, 0x4ED8AA4A, 0x5B9CCA4F, 0x682E6FF3,
    0x748F82EE, 0x78A5636F, 0x84C87814, 0x8CC70208, 0x90BEFFFA, 0xA4506CEB, 0xBEF9A3F7, 0xC67178F2]

/-! ## `process_block` -/

def rotr (x n : UInt32) : UInt32 := x >>> n ||| x <<< (32 - n)

def sigma0 (x : UInt32) : UInt32 := rotr x 2 ^^^ rotr x 13 ^^^ rotr x 22

def sigma1 (x : UInt32) : UInt32 := rotr x 6 ^^^ rotr x 11 ^^^ rotr x 25

def sigma0_256 (x : UInt32) : UInt32 := rotr x 7 ^^^ rotr x 18 ^^^ x >>> 3

def sigma1_256 (x : UInt32) : UInt32 := rotr x 17 ^^^ rotr x 19 ^^^ x >>> 10

def ch (x y z : UInt32) : UInt32 := (x &&& y) ^^^ (~~~x &&& z)

def maj (x y z : UInt32) : UInt32 := (x &&& y) ^^^ (x &&& z) ^^^ (y &&& z)

/-- The variables `a` to `h` of `process_block`. -/
structure Vars where
  a : UInt32
  b : UInt32
  c : UInt32
  d : UInt32
  e : UInt32
  f : UInt32
  g : UInt32
  h : UInt32

/-- The word that the first loop assigns to `w[j]`. -/
def loadWord (block : Vector UInt8 64) (j : Fin 16) : UInt32 :=
  block[j.val * 4 + 0].toUInt32 <<< 24 ||| block[j.val * 4 + 1].toUInt32 <<< 16 |||
    block[j.val * 4 + 2].toUInt32 <<< 8 ||| block[j.val * 4 + 3].toUInt32

/-- The words that the second loop assigns from `w[16]` on. The array holds what is assigned so
far. -/
def extendWords (w : Array UInt32) : Array UInt32 :=
  (List.range' 16 48).foldl (fun w j => w.push
    (sigma1_256 (w.getD (j - 2) 0) + w.getD (j - 7) 0 + sigma0_256 (w.getD (j - 15) 0) +
      w.getD (j - 16) 0)) w

/-- One iteration of the third loop. -/
def round (w : Array UInt32) (v : Vars) (j : Fin 64) : Vars :=
  let temp1 := v.h + sigma1 v.e + ch v.e v.f v.g + k.get j + w.getD j 0
  let temp2 := sigma0 v.a + maj v.a v.b v.c
  { h := v.g, g := v.f, f := v.e, e := v.d + temp1, d := v.c, c := v.b, b := v.a,
    a := temp1 + temp2 }

/-- The variables as the hash value initialises them. -/
def Status.vars (status : Status) : Vars where
  a := status.h[0]
  b := status.h[1]
  c := status.h[2]
  d := status.h[3]
  e := status.h[4]
  f := status.h[5]
  g := status.h[6]
  h := status.h[7]

/-- `process_block`. -/
def processBlock (status : Status) : Status :=
  let w := extendWords (Array.ofFn (loadWord status.currBlock))
  let v := (List.finRange 64).foldl (round w) status.vars
  { status with
    h := #v[status.h[0] + v.a, status.h[1] + v.b, status.h[2] + v.c, status.h[3] + v.d,
      status.h[4] + v.e, status.h[5] + v.f, status.h[6] + v.g, status.h[7] + v.h] }

/-! ## `update` and `to_digest` -/

/-- A store of some bytes to `curr_block` from the index `start` on. -/
def store (block : Vector UInt8 64) (start : UInt64) (bs : List UInt8) :
    Option (Vector UInt8 64) :=
  if start.toNat + bs.length ≤ 64 then
    some (Vector.ofFn fun i => if start.toNat ≤ i ∧ i < start.toNat + bs.length
      then bs.getD (i - start.toNat) 0 else block[i])
  else none

/-- `memset(curr_block + start, 0, count)`. -/
def clear (block : Vector UInt8 64) (start count : UInt64) : Option (Vector UInt8 64) :=
  store block start (List.replicate count.toNat 0)

/-- The variables of `update`: the status, and the bytes from `pc` to `eob`. -/
structure UpdateState where
  status : Status
  pc : List UInt8

/-- The loop of `update`. -/
def updateLoop : Loop UpdateState where
  guard s := !s.pc.isEmpty
  body s :=
    let available := 64 - s.status.cur
    let bytesToCopy := min available (UInt64.ofNat s.pc.length)
    (store s.status.currBlock s.status.cur (s.pc.take bytesToCopy.toNat)).map fun block =>
      let status : Status := { s.status with
        currBlock := block
        cur := s.status.cur + bytesToCopy
        totalNumBits := s.status.totalNumBits + bytesToCopy * 8 }
      ⟨if status.cur ≥ 64 then { processBlock status with cur := 0 } else status,
        s.pc.drop bytesToCopy.toNat⟩

/-- `update(status, buffer, size)` on all bytes of a buffer. `none` is a call that has not returned
after an iteration for every byte, or a fault. -/
def update (status : Status) (buffer : List UInt8) : Option Status :=
  (updateLoop.exitWithin (buffer.length + 1) ⟨status, buffer⟩).map UpdateState.status

/-- `update(status, buffer, size)` returns and leaves `status'`. -/
def Updates (status : Status) (buffer : List UInt8) (status' : Status) : Prop :=
  ∃ pc, updateLoop.Exits ⟨status, buffer⟩ ⟨status', pc⟩

/-- Consecutive calls of `update` return and leave `status'`. -/
def UpdatesAll : Status → List (List UInt8) → Status → Prop
  | status, [], status' => status' = status
  | status, buffer :: rest, status' =>
      ∃ next, Updates status buffer next ∧ UpdatesAll next rest status'

/-- `portable_bswap64`, which reverses the bytes of its argument. -/
def portableBswap64 (value : UInt64) : UInt64 := ofLe64 (le64 value).reverse

/-- The padding of `to_digest`, behind the end tag. -/
def padZeros (status : Status) : Option Status :=
  let afterEndZeros := ((55 - status.totalNumBits / 8) % 64 + 64) % 64
  if afterEndZeros ≠ 0 then
    let remainingInBlock := 64 - status.cur
    if afterEndZeros > remainingInBlock then do
      let block ← clear status.currBlock status.cur remainingInBlock
      let status := processBlock { status with currBlock := block }
      let block ← clear status.currBlock 0 (afterEndZeros - remainingInBlock)
      return { status with currBlock := block, cur := afterEndZeros - remainingInBlock }
    else do
      let block ← clear status.currBlock status.cur afterEndZeros
      return { status with currBlock := block, cur := status.cur + afterEndZeros }
  else return status

/-- The `digest_t` that `to_digest` returns for a hash value. -/
def Status.digest (status : Status) : Digest where
  a := status.h[0].toUInt64 <<< 32 ||| status.h[1].toUInt64
  b := status.h[2].toUInt64 <<< 32 ||| status.h[3].toUInt64
  c := status.h[4].toUInt64 <<< 32 ||| status.h[5].toUInt64
  d := status.h[6].toUInt64 <<< 32 ||| status.h[7].toUInt64

/-- `to_digest`. -/
def toDigest (status : Status) : Option Digest := do
  -- the end tag
  let block ← store status.currBlock status.cur [0x80]
  let status ← padZeros { status with currBlock := block, cur := status.cur + 1 }
  -- the length
  let block ← store status.currBlock status.cur (le64 (portableBswap64 status.totalNumBits))
  return (processBlock { status with currBlock := block }).digest

/-- `to_string`. -/
def toString (digest : Digest) : String :=
  String.ofList (paddedHex 16 digest.a.toNat ++ paddedHex 16 digest.b.toNat ++
    paddedHex 16 digest.c.toNat ++ paddedHex 16 digest.d.toNat)

end TxQueue.Sha256
