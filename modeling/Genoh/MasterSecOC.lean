import Genoh.Hmac
import Genoh.MasterE2E

/-!
# Master secure onboard communication

The master's side of SecOC, function by function from `master/secoc.py`. The
library HMAC is the standard one; `time.time()` is read by the caller and passed
in as `nowMs`, the milliseconds since the epoch.
-/
namespace Genoh.MasterSecOC

open Genoh.Bytes
open Genoh.MasterE2E (PyError)

def freshnessSize : Nat := 8
def macSize : Nat := 16
def secocOverhead : Nat := freshnessSize + macSize

/-- `FRESHNESS_WINDOW_MS`. -/
def freshnessWindowMs : Nat := 5000

structure FreshnessValue where
  timestampMs : Nat
  counter : Nat := 0
  deriving DecidableEq, Repr

/-- `int.to_bytes` with big-endian byte order. -/
def intToBytes (v n : Nat) : Except PyError (List Byte) :=
  if v < 256 ^ n then .ok (beBytes n v) else .error .overflowError

def FreshnessValue.toBytes (fv : FreshnessValue) : Except PyError (List Byte) := do
  let tsBytes ← intToBytes fv.timestampMs 6
  let cntBytes ← intToBytes fv.counter 2
  return tsBytes ++ cntBytes

def FreshnessValue.fromBytes (data : List Byte) : Except PyError FreshnessValue :=
  if data.length < freshnessSize then
    .error (.valueError ("Freshness value requires " ++ toString freshnessSize ++ " bytes"))
  else .ok ⟨field data 0 6, field data 6 2⟩

/-- `FreshnessValue.__le__`. -/
def FreshnessValue.le (a b : FreshnessValue) : Bool :=
  if a.timestampMs < b.timestampMs then true
  else if a.timestampMs = b.timestampMs then decide (a.counter ≤ b.counter)
  else false

structure FreshnessCounter where
  lastTsMs : Nat := 0
  counter : Nat := 0
  deriving DecidableEq, Repr

def FreshnessCounter.next (c : FreshnessCounter) (nowMs : Nat) :
    FreshnessValue × FreshnessCounter :=
  let c : FreshnessCounter :=
    if nowMs = c.lastTsMs then { c with counter := (c.counter + 1) % 65536 } else ⟨nowMs, 0⟩
  (⟨nowMs, c.counter⟩, c)

def computeMac (key data : List Byte) (freshness : FreshnessValue) : Except PyError (List Byte) := do
  let fvBytes ← freshness.toBytes
  return (Hmac.hmacSha256 key (data ++ fvBytes)).take macSize

/-- `secoc_encode` once the freshness value is drawn. -/
def secocSeal (key data : List Byte) (fv : FreshnessValue) : Except PyError (List Byte) := do
  let mac ← computeMac key data fv
  let fvBytes ← fv.toBytes
  return data ++ fvBytes ++ mac

/-- `secoc_encode`: the message or the exception, and the freshness counter after the call. -/
def secocEncode (key data : List Byte) (freshnessCounter : FreshnessCounter) (nowMs : Nat) :
    Except PyError (List Byte) × FreshnessCounter :=
  let (fv, freshnessCounter) := freshnessCounter.next nowMs
  (secocSeal key data fv, freshnessCounter)

/-- `raw[:-24]`. -/
def dataPart (raw : List Byte) : List Byte := raw.take (raw.length - secocOverhead)

/-- `raw[-24:-16]`. -/
def freshnessPart (raw : List Byte) : List Byte :=
  (raw.drop (raw.length - secocOverhead)).take freshnessSize

/-- `raw[-16:]`. -/
def macPart (raw : List Byte) : List Byte := raw.drop (raw.length - macSize)

/-- The parsed freshness value and the result of `hmac.compare_digest`. -/
def compareMac (key raw : List Byte) : Except PyError (FreshnessValue × Bool) := do
  let fv ← FreshnessValue.fromBytes (freshnessPart raw)
  let macExpected ← computeMac key (dataPart raw) fv
  return (fv, macPart raw == macExpected)

/-- `secoc_decode`: data, freshness value and validity. -/
def secocDecode (key raw : List Byte) (lastFreshness : Option FreshnessValue) (windowMs nowMs : Nat) :
    Except PyError (List Byte × FreshnessValue × Bool) :=
  if raw.length < secocOverhead then .ok ([], ⟨0, 0⟩, false)
  else do
    let (fv, macValid) ← compareMac key raw
    if !macValid then return (dataPart raw, fv, false)
    if lastFreshness.any (fun last => fv.le last) then return (dataPart raw, fv, false)
    if ((fv.timestampMs : Int) - nowMs).natAbs > windowMs then return (dataPart raw, fv, false)
    return (dataPart raw, fv, true)

end Genoh.MasterSecOC
