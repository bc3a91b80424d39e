import Genoh.Hmac
import Genoh.FirmwareE2E

/-!
# Firmware secure onboard communication

The node's side of SecOC, function by function from `secoc.c`: SHA-256 as a
streaming context over a 64-byte buffer, HMAC, and the encoder and decoder of the
freshness and MAC trailer. The tick counter is read by the caller and passed in.
-/
namespace Genoh.FirmwareSecOC

open Genoh.Bytes
open Genoh.FirmwareE2E (putBe16)
open Genoh.Sha256 (Word Work)

/-! ## SHA-256 -/

def rotr (x : Word) (n : Nat) : Word := (x >>> n) ||| (x <<< (32 - n))
def ch (x y z : Word) : Word := (x &&& y) ^^^ (~~~x &&& z)
def maj (x y z : Word) : Word := (x &&& y) ^^^ (x &&& z) ^^^ (y &&& z)
def ep0 (x : Word) : Word := rotr x 2 ^^^ rotr x 13 ^^^ rotr x 22
def ep1 (x : Word) : Word := rotr x 6 ^^^ rotr x 11 ^^^ rotr x 25
def sig0 (x : Word) : Word := rotr x 7 ^^^ rotr x 18 ^^^ (x >>> 3)
def sig1 (x : Word) : Word := rotr x 17 ^^^ rotr x 19 ^^^ (x >>> 10)

/-- The constant table `K`. -/
def k : List Word := [
  0x428a2f98, 0x71374491, 0xb5c0fbcf, 0xe9b5dba5, 0x3956c25b, 0x59f111f1, 0x923f82a4, 0xab1c5ed5,
  0xd807aa98, 0x12835b01, 0x243185be, 0x550c7dc3, 0x72be5d74, 0x80deb1fe, 0x9bdc06a7, 0xc19bf174,
  0xe49b69c1, 0xefbe4786, 0x0fc19dc6, 0x240ca1cc, 0x2de92c6f, 0x4a7484aa, 0x5cb0a9dc, 0x76f988da,
  0x983e5152, 0xa831c66d, 0xb00327c8, 0xbf597fc7, 0xc6e00bf3, 0xd5a79147, 0x06ca6351, 0x14292967,
  0x27b70a85, 0x2e1b2138, 0x4d2c6dfc, 0x53380d13, 0x650a7354, 0x766a0abb, 0x81c2c92e, 0x92722c85,
  0xa2bfe8a1, 0xa81a664b, 0xc24b8b70, 0xc76c51a3, 0xd192e819, 0xd6990624, 0xf40e3585, 0x106aa070,
  0x19a4c116, 0x1e376c08, 0x2748774c, 0x34b0bcb5, 0x391c0cb3, 0x4ed8aa4a, 0x5b9cca4f, 0x682e6ff3,
  0x748f82ee, 0x78a5636f, 0x84c87814, 0x8cc70208, 0x90befffa, 0xa4506ceb, 0xbef9a3f7, 0xc67178f2]

/-- `sha256_ctx_t`. The buffer is full only inside `sha256_update`, so `bufLen` stays below 64. -/
structure Sha256Ctx where
  state : Work
  buf : List Byte
  totalLen : BitVec 64
  bufLen : Fin 64

/-- A context on the stack before `sha256_init`; its contents are never read. -/
def Sha256Ctx.stack : Sha256Ctx := ⟨⟨0, 0, 0, 0, 0, 0, 0, 0⟩, List.replicate 64 0, 0, 0⟩

/-- `sha256_init` leaves the buffer as it was. -/
def sha256Init (ctx : Sha256Ctx) : Sha256Ctx :=
  { ctx with
    state := ⟨0x6a09e667, 0xbb67ae85, 0x3c6ef372, 0xa54ff53a,
      0x510e527f, 0x9b05688c, 0x1f83d9ab, 0x5be0cd19⟩
    totalLen := 0
    bufLen := 0 }

/-- One of the first sixteen schedule words. -/
def loadWord (block : List Byte) (i : Nat) : Word :=
  ((block.getD (i * 4) 0).setWidth 32 <<< 24) ||| ((block.getD (i * 4 + 1) 0).setWidth 32 <<< 16) |||
    ((block.getD (i * 4 + 2) 0).setWidth 32 <<< 8) ||| (block.getD (i * 4 + 3) 0).setWidth 32

/-- The array `w` after the second loop has run up to, not including, index `16 + n`. -/
def extendSchedule (block : List Byte) (n : Nat) : List Word :=
  (List.range' 16 n).foldl
    (fun w i => w ++ [sig1 (w.getD (i - 2) 0) + w.getD (i - 7) 0 + sig0 (w.getD (i - 15) 0) +
      w.getD (i - 16) 0])
    ((List.range 16).map (loadWord block))

def transformRound (ki wi : Word) (s : Work) : Work :=
  let t1 := s.h + ep1 s.e + ch s.e s.f s.g + ki + wi
  let t2 := ep0 s.a + maj s.a s.b s.c
  { h := s.g, g := s.f, f := s.e, e := s.d + t1, d := s.c, c := s.b, b := s.a, a := t1 + t2 }

def sha256Transform (s : Work) (block : List Byte) : Work :=
  let w := extendSchedule block 48
  let r := (List.range 64).foldl (fun r i => transformRound (k.getD i 0) (w.getD i 0) r) s
  ⟨s.a + r.a, s.b + r.b, s.c + r.c, s.d + r.d, s.e + r.e, s.f + r.f, s.g + r.g, s.h + r.h⟩

/-- `memcpy(dst + off, src, n)` with `src` cut to the `n` bytes copied. -/
def memcpy (dst : List Byte) (off : Nat) (src : List Byte) : List Byte :=
  dst.take off ++ src ++ dst.drop (off + src.length)

/-- The bytes `sha256_update` copies next: all that are left, or what still fits. -/
def fillChunk (ctx : Sha256Ctx) (len : Nat) : Nat :=
  if len < 64 - ctx.bufLen.val then len else 64 - ctx.bufLen.val

theorem fillChunk_fits (ctx : Sha256Ctx) (len : Nat) : ctx.bufLen.val + fillChunk ctx len ≤ 64 := by
  have hlen := ctx.bufLen.isLt
  unfold fillChunk
  split <;> omega

theorem fillChunk_le (ctx : Sha256Ctx) (len : Nat) : fillChunk ctx len ≤ len := by
  unfold fillChunk
  split <;> omega

theorem fillChunk_pos (ctx : Sha256Ctx) (len : Nat) (h : 0 < len) : 0 < fillChunk ctx len := by
  have hlen := ctx.bufLen.isLt
  unfold fillChunk
  split <;> omega

/-- The loop of `sha256_update`: fill the buffer, transform it when full, go on with the rest. -/
def sha256Fill (ctx : Sha256Ctx) (data : List Byte) : Sha256Ctx :=
  if hdata : data = [] then ctx
  else
    let buf := memcpy ctx.buf ctx.bufLen.val (data.take (fillChunk ctx data.length))
    if hfull : ctx.bufLen.val + fillChunk ctx data.length = 64 then
      sha256Fill { ctx with state := sha256Transform ctx.state buf, buf, bufLen := 0 }
        (data.drop (fillChunk ctx data.length))
    else
      have hfits := fillChunk_fits ctx data.length
      sha256Fill { ctx with buf, bufLen := ⟨ctx.bufLen.val + fillChunk ctx data.length, by omega⟩ }
        (data.drop (fillChunk ctx data.length))
termination_by data.length
decreasing_by
  all_goals
    have hpos := List.length_pos_iff.mpr hdata
    have hchunk := fillChunk_pos ctx data.length hpos
    rw [List.length_drop]
    omega

def sha256Update (ctx : Sha256Ctx) (data : List Byte) : Sha256Ctx :=
  sha256Fill { ctx with totalLen := ctx.totalLen + BitVec.ofNat 64 data.length } data

/-- The buffer holds what is left over after whole blocks. -/
theorem sha256Fill_bufLen (ctx : Sha256Ctx) (data : List Byte) :
    (sha256Fill ctx data).bufLen.val = (ctx.bufLen.val + data.length) % 64 := by
  fun_induction sha256Fill ctx data with
  | case1 ctx =>
    have hlen := ctx.bufLen.isLt
    simp
    omega
  | case2 ctx data hdata buf hfull ih =>
    have hchunk := fillChunk_le ctx data.length
    rw [ih, List.length_drop]
    simp only [Fin.val_zero]
    omega
  | case3 ctx data hdata buf hfull hfits ih =>
    have hchunk := fillChunk_le ctx data.length
    rw [ih, List.length_drop]
    simp only
    omega

theorem sha256Update_bufLen (ctx : Sha256Ctx) (data : List Byte) :
    (sha256Update ctx data).bufLen.val = (ctx.bufLen.val + data.length) % 64 :=
  sha256Fill_bufLen _ data

/-- The padding loop of `sha256_final`. -/
def sha256PadZeros (ctx : Sha256Ctx) : Sha256Ctx :=
  if ctx.bufLen.val ≠ 56 then sha256PadZeros (sha256Update ctx [0]) else ctx
termination_by (120 - ctx.bufLen.val) % 64
decreasing_by
  have hlen := ctx.bufLen.isLt
  rw [sha256Update_bufLen, List.length_singleton]
  omega

/-- The big-endian length bytes, filled from the last one. -/
def lenBe : Nat → BitVec 64 → List Byte
  | 0, _ => []
  | n + 1, bitLen => lenBe n (bitLen >>> 8) ++ [bitLen.setWidth 8]

def sha256Final (ctx : Sha256Ctx) : List Byte :=
  let bitLen := ctx.totalLen * 8
  let ctx := sha256PadZeros (sha256Update ctx [0x80])
  let ctx := sha256Update ctx (lenBe 8 bitLen)
  let s := ctx.state
  [s.a, s.b, s.c, s.d, s.e, s.f, s.g, s.h].flatMap FirmwareE2E.putBe32

def sha256 (data : List Byte) : List Byte :=
  sha256Final (sha256Update (sha256Init Sha256Ctx.stack) data)

/-! ## HMAC -/

/-- The loop that adds the key into the front of `k_pad`. -/
def xorKey (kPad key : List Byte) : List Byte :=
  List.zipWith (· ^^^ ·) (kPad.take key.length) key ++ kPad.drop key.length

def hmacSha256 (key data : List Byte) : List Byte :=
  let key := if key.length > 64 then sha256 key else key
  let kPad := xorKey (List.replicate 64 0x36) key
  let inner := sha256Final
    (sha256Update (sha256Update (sha256Init Sha256Ctx.stack) kPad) data)
  let kPad := xorKey (List.replicate 64 0x5C) key
  sha256Final (sha256Update (sha256Update (sha256Init Sha256Ctx.stack) kPad) inner)

/-! ## Encode and decode -/

def secocFreshnessSize : Nat := 8
def secocMacSize : Nat := 16
def secocOverhead : Nat := secocFreshnessSize + secocMacSize
def secocReplayWindowMs : Int := 5000

/-- `hmac_input` holds the message and its freshness value. -/
def hmacInputSize : Nat := 600

/-- `SECOC_KEY_SIZE` is 32: every key is an array of that many bytes. -/
abbrev Key := { key : List Byte // key.length = 32 }

/-- `SECOC_TEST_KEY`, the bytes 0x00 to 0x1F. -/
def secocTestKey : Key := ⟨(List.range 32).map (BitVec.ofNat 8), by simp⟩

/-- `secoc_freshness_t`. -/
structure SecocFreshness where
  counter : BitVec 16
  deriving DecidableEq, Repr

def putBe48 (v : BitVec 64) : List Byte :=
  [(v >>> 40).setWidth 8, (v >>> 32).setWidth 8, (v >>> 24).setWidth 8, (v >>> 16).setWidth 8,
    (v >>> 8).setWidth 8, v.setWidth 8]

/-- `get_tick_ms`: the 32-bit tick count, one tick a millisecond. -/
def getTickMs (tickCount : BitVec 32) : BitVec 64 := tickCount.setWidth 64

/-- `secoc_encode` after the clock reading `ts`: the bytes written, none for the return value 0. -/
def secocEncodeAt (e2eMsg : List Byte) (key : Key) (freshness : SecocFreshness)
    (ts : BitVec 64) (outBufSize : Nat) : Option (List Byte) × SecocFreshness :=
  let total := e2eMsg.length + secocOverhead
  if outBufSize < total then (none, freshness)
  else
    let fv := putBe48 ts ++ putBe16 freshness.counter
    let freshness : SecocFreshness := ⟨freshness.counter + 1⟩
    if e2eMsg.length + secocFreshnessSize > hmacInputSize then (none, freshness)
    else
      let fullMac := hmacSha256 key.val (e2eMsg ++ fv)
      (some (e2eMsg ++ fv ++ fullMac.take secocMacSize), freshness)

def secocEncode (e2eMsg : List Byte) (key : Key) (freshness : SecocFreshness)
    (tickCount : BitVec 32) (outBufSize : Nat) : Option (List Byte) × SecocFreshness :=
  secocEncodeAt e2eMsg key freshness (getTickMs tickCount) outBufSize

/-- Six bytes shifted in one after the other. -/
def getFreshnessTs (fv : List Byte) : BitVec 64 :=
  (fv.take 6).foldl (fun ts b => (ts <<< 8) ||| b.setWidth 64) 0

def getFreshnessCounter (fv : List Byte) : BitVec 16 :=
  ((fv.getD 6 0).setWidth 16 <<< 8) ||| (fv.getD 7 0).setWidth 16

/-- `secoc_decode_result_t`. -/
structure SecocDecodeResult where
  macValid : Bool
  freshnessValid : Bool
  freshnessTs : BitVec 64
  freshnessCounter : BitVec 16
  deriving DecidableEq, Repr

/-- The accumulated difference of the constant-time comparison. -/
def macDiff (computedMac mac : List Byte) : Byte :=
  ((List.range secocMacSize).map fun i => computedMac.getD i 0 ^^^ mac.getD i 0).foldl (· ||| ·) 0

/-- `secoc_decode_ex`: the return value, `*e2e_len_out` if written, and the result. -/
def secocDecodeEx (buf : List Byte) (key : Key) (tickCount : BitVec 32) :
    Bool × Option Nat × SecocDecodeResult :=
  let result : SecocDecodeResult := ⟨false, false, 0, 0⟩
  if buf.length < secocOverhead then (false, none, result)
  else
    let e2eLen := buf.length - secocOverhead
    let freshness := (buf.drop e2eLen).take secocFreshnessSize
    let mac := buf.drop (e2eLen + secocFreshnessSize)
    let result := { result with
      freshnessTs := getFreshnessTs freshness
      freshnessCounter := getFreshnessCounter freshness }
    if e2eLen + secocFreshnessSize > hmacInputSize then (false, none, result)
    else
      let computedMac := hmacSha256 key.val (buf.take e2eLen ++ freshness)
      let result := { result with macValid := macDiff computedMac mac == 0 }
      if result.macValid = false then (false, none, result)
      else
        let localTick := getTickMs tickCount
        let delta := result.freshnessTs.toInt - localTick.toInt
        let delta := if delta < 0 then -delta else delta
        let result := { result with freshnessValid := decide (delta ≤ secocReplayWindowMs) }
        (result.macValid, some e2eLen, result)

end Genoh.FirmwareSecOC
