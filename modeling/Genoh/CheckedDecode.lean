import Genoh.CheckedHash
import Genoh.FirmwareKey

/-!
# The firmware's decoders in checked memory

`e2e_crc32`, `secoc_decode_ex` and `e2e_decode` access by access, on a received message of any
length. An output parameter is none until the function writes it.
-/
namespace Genoh.CheckedDecode

open Genoh.Bytes Genoh.Checked Genoh.CheckedMemory
open Genoh.CheckedHash (Uninit HashLocals hmacSha256 hmacSha256_ok)
open Genoh.FirmwareE2E (Crc32Static crc32Turn crc32Lookup E2eStatus E2eHeader e2eHeaderSize crcInputSize
  parseHeader)
open Genoh.FirmwareSecOC (Key SecocDecodeResult secocFreshnessSize secocMacSize secocOverhead
  secocReplayWindowMs hmacInputSize getTickMs)

/-- The local arrays of the decoders. -/
structure DecodeLocals extends HashLocals where
  hmacInput : Uninit Byte hmacInputSize
  computedMac : Uninit Byte 32
  crcInput : Uninit Byte crcInputSize

variable (locals : DecodeLocals)

/-! ## CRC-32 -/

/-- The static variables of the CRC, the table with its 256 words. -/
structure CrcStatic extends Crc32Static where
  size : table.length = 256

def crc32InitTable (table : List (BitVec 32)) : Checked Fault (List (BitVec 32)) :=
  (List.range' 0 256).foldlM (fun table i => store table i (crc32Turn^[8] (BitVec.ofNat 32 i))) table

/-- One byte through the table. -/
def crcStep (table : List (BitVec 32)) (data : List Byte) (crc : BitVec 32) (i : Nat) :
    Checked Fault (BitVec 32) := do
  let b ← load data i
  let t ← load table ((crc ^^^ b.setWidth 32) &&& 0xFF).toNat
  return t ^^^ (crc >>> 8)

/-- The table is filled on the first call only. -/
def prepare (static : CrcStatic) : Checked Fault (List (BitVec 32)) :=
  if static.ready then .ok static.table else crc32InitTable static.table

def e2eCrc32 (static : CrcStatic) (data : List Byte) (len : Nat) : Checked Fault (BitVec 32) := do
  let table ← prepare static
  let crc ← (List.range len).foldlM (crcStep table data) 0xFFFFFFFF
  return crc ^^^ 0xFFFFFFFF

/-! ## SecOC -/

/-- `get_freshness_ts` on the freshness value at `fv`. -/
def getFreshnessTs (buf : List Byte) (fv : Nat) : Checked Fault (BitVec 64) :=
  (List.range 6).foldlM (fun ts i => do
    let b ← load buf (fv + i)
    return (ts <<< 8) ||| b.setWidth 64) 0

def getFreshnessCounter (buf : List Byte) (fv : Nat) : Checked Fault (BitVec 16) := do
  let b6 ← load buf (fv + 6)
  let b7 ← load buf (fv + 7)
  return (b6.setWidth 16 <<< 8) ||| b7.setWidth 16

/-- The comparison of the computed MAC with the one at `mac`. -/
def macDiff (computedMac buf : List Byte) (mac : Nat) : Checked Fault Byte :=
  (List.range secocMacSize).foldlM (fun diff i => do
    let c ← load computedMac i
    let m ← load buf (mac + i)
    return diff ||| (c ^^^ m)) 0

def secocDecodeEx (buf : List Byte) (key : Key) (tickCount : BitVec 32) :
    Checked Fault (Bool × Option Nat × SecocDecodeResult) := do
  let result : SecocDecodeResult := ⟨false, false, 0, 0⟩
  if buf.length < secocOverhead then return (false, none, result)
  else
    let e2eLen ← minus buf.length secocOverhead
    let freshness := e2eLen
    let mac := e2eLen + secocFreshnessSize
    let ts ← getFreshnessTs buf freshness
    let counter ← getFreshnessCounter buf freshness
    let result := { result with freshnessTs := ts, freshnessCounter := counter }
    if e2eLen + secocFreshnessSize > hmacInputSize then return (false, none, result)
    else
      let hmacInput ← copy locals.hmacInput.val 0 buf 0 e2eLen
      let hmacInput ← copy hmacInput e2eLen buf freshness secocFreshnessSize
      let computedMac ← hmacSha256 locals.toHashLocals key.val 32 hmacInput
        (e2eLen + secocFreshnessSize) locals.computedMac.val
      let diff ← macDiff computedMac buf mac
      let result := { result with macValid := diff == 0 }
      if result.macValid = false then return (false, none, result)
      else
        let localTick := getTickMs tickCount
        let delta := result.freshnessTs.toInt - localTick.toInt
        let delta := if delta < 0 then -delta else delta
        let result := { result with freshnessValid := decide (delta ≤ secocReplayWindowMs) }
        return (result.macValid, some e2eLen, result)

/-! ## E2E -/

def getBe16 (buf : List Byte) (p : Nat) : Checked Fault (BitVec 16) := do
  let b0 ← load buf p
  let b1 ← load buf (p + 1)
  return (b0.setWidth 16 <<< 8) ||| b1.setWidth 16

def getBe32 (buf : List Byte) (p : Nat) : Checked Fault (BitVec 32) := do
  let b0 ← load buf p
  let b1 ← load buf (p + 1)
  let b2 ← load buf (p + 2)
  let b3 ← load buf (p + 3)
  return (b0.setWidth 32 <<< 24) ||| (b1.setWidth 32 <<< 16) ||| (b2.setWidth 32 <<< 8) |||
    b3.setWidth 32

/-- The header fields as `e2e_decode` reads them. -/
def readHeader (buf : List Byte) : Checked Fault E2eHeader := do
  let dataId ← getBe16 buf 0
  let sequenceCounter ← getBe16 buf 2
  let aliveCounter ← load buf 4
  let length ← getBe16 buf 5
  let crc32 ← getBe32 buf 7
  return ⟨dataId, sequenceCounter, aliveCounter, length, crc32⟩

/-- `e2e_decode` on the first `len` bytes: status, header, and the place and length of the
payload. -/
def e2eDecode (static : CrcStatic) (buf : List Byte) (len : Nat) (header : Option E2eHeader) :
    Checked Fault (E2eStatus × Option E2eHeader × Option (Nat × Nat)) := do
  if len < e2eHeaderSize then return (.errTooShort, header, none)
  else
    let header ← readHeader buf
    if e2eHeaderSize + header.length.toNat ≠ len then return (.errLengthMismatch, some header, none)
    else if 7 + header.length.toNat > crcInputSize then return (.errTooShort, some header, none)
    else
      let crcInput ← copy locals.crcInput.val 0 buf 0 7
      let crcInput ← copy crcInput 7 buf e2eHeaderSize header.length.toNat
      let computedCrc ← e2eCrc32 static crcInput (7 + header.length.toNat)
      if computedCrc ≠ header.crc32 then return (.errCrc, some header, none)
      else return (.ok, some header, some (e2eHeaderSize, header.length.toNat))

/-! ## The CRC in bounds -/

theorem crc32InitTable_ok (table : List (BitVec 32)) (h : table.length = 256) :
    crc32InitTable table = .ok FirmwareE2E.crc32InitTable := by
  obtain ⟨hloop, hfull⟩ := foldlM_filled 1
    (f := fun table i => store table i (crc32Turn^[8] (BitVec.ofNat 32 i)))
    (g := fun _ i => [crc32Turn^[8] (BitVec.ofNat 32 i)]) table 0 256 [] rfl (by
      intro front i _ hi hfront
      rw [Nat.one_mul] at hfront
      rw [← hfront, store_filled _ _ _ (by omega)]
      exact ⟨rfl, rfl⟩)
  rw [filled_nil] at hloop
  rw [crc32InitTable, hloop, filled_full _ _ (by omega), ← List.flatMap_eq_foldl,
    ← List.map_eq_flatMap, FirmwareE2E.crc32InitTable, List.range_eq_range']

theorem crcStep_ok (table : List (BitVec 32)) (data : List Byte) (crc : BitVec 32) (i : Nat)
    (htable : table.length = 256) (hi : i < data.length) :
    crcStep table data crc i = .ok (crc32Lookup table crc (data.getD i 0)) := by
  have hlow : ((crc ^^^ (data.getD i 0).setWidth 32) &&& 0xFF).toNat < 256 := by
    rw [BitVec.toNat_and]
    exact Nat.lt_of_le_of_lt Nat.and_le_right (by decide)
  rw [crcStep, load_ok data i 0 hi, ok_bind, load_ok table _ 0 (by omega), ok_bind, crc32Lookup]
  rfl

/-- A loop over the indices of a buffer is a loop over its elements. -/
theorem foldl_getD {σ : Type} (f : σ → Byte → σ) (s : σ) (data : List Byte) (n : Nat)
    (h : n ≤ data.length) :
    (List.range n).foldl (fun s i => f s (data.getD i 0)) s = (data.take n).foldl f s := by
  induction n with
  | zero => rfl
  | succ n ih =>
    rw [List.range_succ, List.foldl_append, ih (by omega),
      List.take_succ_eq_append_getElem (by omega), List.foldl_append, List.foldl_cons, List.foldl_nil,
      List.foldl_cons, List.foldl_nil, List.getD_eq_getElem]

theorem e2eCrc32_ok (static : CrcStatic) (data : List Byte) (len : Nat) (h : len ≤ data.length) :
    e2eCrc32 static data len = .ok (FirmwareE2E.e2eCrc32 (data.take len)) := by
  have htable : prepare static = .ok static.prepare.table := by
    rw [prepare, Crc32Static.prepare]
    split
    · rfl
    · exact crc32InitTable_ok _ static.size
  have hsize : static.prepare.table.length = 256 := by
    rw [Crc32Static.prepare]
    split
    · exact static.size
    · simp only [FirmwareE2E.crc32InitTable, List.length_map, List.length_range]
  obtain ⟨hloop, -⟩ := foldlM_ok (f := crcStep static.prepare.table data)
    (g := fun crc i => crc32Lookup static.prepare.table crc (data.getD i 0)) (P := fun _ => True)
    (List.range len) 0xFFFFFFFF trivial (by
      intro crc _ i hi
      have hi := List.mem_range.mp hi
      exact ⟨crcStep_ok _ data crc i hsize (by omega), trivial⟩)
  rw [e2eCrc32, htable, ok_bind, hloop, ok_bind, foldl_getD _ _ data len h, FirmwareE2E.e2eCrc32_eq,
    ← FirmwareE2E.e2eCrc32Call_value static.toCrc32Static]
  rfl

/-! ## SecOC in bounds -/

/-- An element of a window of the buffer. -/
theorem window_getD (buf : List Byte) (off n i : Nat) (h : i < n) :
    ((buf.drop off).take n).getD i 0 = buf.getD (off + i) 0 := by
  rw [List.getD_eq_getElem?_getD, List.getElem?_take_of_lt h, List.getElem?_drop,
    ← List.getD_eq_getElem?_getD]

theorem drop_getD (buf : List Byte) (len p i : Nat) (h : p + i < len) :
    ((buf.take len).drop p).getD i 0 = buf.getD (p + i) 0 := by
  rw [List.getD_eq_getElem?_getD, List.getElem?_drop, List.getElem?_take_of_lt h,
    ← List.getD_eq_getElem?_getD]

section SecOC

variable (buf : List Byte) (fv : Nat)

theorem getFreshnessTs_ok (h : fv + secocFreshnessSize ≤ buf.length) :
    getFreshnessTs buf fv =
      .ok (FirmwareSecOC.getFreshnessTs ((buf.drop fv).take secocFreshnessSize)) := by
  have hsize : secocFreshnessSize = 8 := rfl
  have hlen : ((buf.drop fv).take secocFreshnessSize).length = 8 := by
    rw [List.length_take, List.length_drop]
    omega
  obtain ⟨hloop, -⟩ := foldlM_ok (f := fun (ts : BitVec 64) i => do
      let b ← load buf (fv + i)
      return (ts <<< 8) ||| b.setWidth 64)
    (g := fun ts i =>
      (ts <<< 8) ||| (((buf.drop fv).take secocFreshnessSize).getD i 0).setWidth 64)
    (P := fun _ => True) (List.range 6) 0 trivial (by
      intro ts _ i hi
      have hi := List.mem_range.mp hi
      rw [load_ok buf (fv + i) 0 (by omega), ok_bind, window_getD _ _ _ _ (by omega)]
      exact ⟨rfl, trivial⟩)
  rw [getFreshnessTs, hloop, FirmwareSecOC.getFreshnessTs]
  exact congrArg Except.ok (foldl_getD (fun (ts : BitVec 64) (b : Byte) =>
    (ts <<< 8) ||| b.setWidth 64) 0 _ 6 (by omega))

theorem getFreshnessCounter_ok (h : fv + secocFreshnessSize ≤ buf.length) :
    getFreshnessCounter buf fv =
      .ok (FirmwareSecOC.getFreshnessCounter ((buf.drop fv).take secocFreshnessSize)) := by
  have hsize : secocFreshnessSize = 8 := rfl
  rw [getFreshnessCounter, load_ok buf (fv + 6) 0 (by omega), ok_bind,
    load_ok buf (fv + 7) 0 (by omega), ok_bind, FirmwareSecOC.getFreshnessCounter,
    window_getD _ _ _ _ (by omega), window_getD _ _ _ _ (by omega)]
  rfl

theorem macDiff_ok (computedMac : List Byte) (mac : Nat) (hcomputed : computedMac.length = 32)
    (h : mac + secocMacSize ≤ buf.length) :
    macDiff computedMac buf mac = .ok (FirmwareSecOC.macDiff computedMac (buf.drop mac)) := by
  have hsize : secocMacSize = 16 := rfl
  obtain ⟨hloop, -⟩ := foldlM_ok (f := fun (diff : Byte) i => do
      let c ← load computedMac i
      let m ← load buf (mac + i)
      return diff ||| (c ^^^ m))
    (g := fun diff i => diff ||| (computedMac.getD i 0 ^^^ (buf.drop mac).getD i 0))
    (P := fun _ => True) (List.range secocMacSize) 0 trivial (by
      intro diff _ i hi
      have hi := List.mem_range.mp hi
      have hget : (buf.drop mac).getD i 0 = buf.getD (mac + i) 0 := by
        rw [List.getD_eq_getElem?_getD, List.getElem?_drop, ← List.getD_eq_getElem?_getD]
      rw [load_ok computedMac i 0 (by omega), ok_bind, load_ok buf (mac + i) 0 (by omega), ok_bind,
        hget]
      exact ⟨rfl, trivial⟩)
  rw [macDiff, hloop, FirmwareSecOC.macDiff, List.foldl_map]

end SecOC

/-- Whatever arrives, the SecOC decoder stays in its buffers. -/
theorem secocDecodeEx_ok (buf : List Byte) (key : Key) (tickCount : BitVec 32) :
    secocDecodeEx locals buf key tickCount =
      .ok (FirmwareSecOC.secocDecodeEx buf key tickCount) := by
  have hfresh : secocFreshnessSize = 8 := rfl
  have hmac : secocMacSize = 16 := rfl
  have hover : secocOverhead = 24 := rfl
  have hbound : hmacInputSize = 600 := rfl
  unfold secocDecodeEx FirmwareSecOC.secocDecodeEx
  by_cases hshort : buf.length < secocOverhead
  · simp only [if_pos hshort]
    rfl
  · simp only [if_neg hshort]
    rw [minus_ok _ _ (not_lt.mp hshort), ok_bind, getFreshnessTs_ok buf _ (by omega), ok_bind,
      getFreshnessCounter_ok buf _ (by omega), ok_bind]
    by_cases hlong : buf.length - secocOverhead + secocFreshnessSize > hmacInputSize
    · simp only [if_pos hlong]
      rfl
    · simp only [if_neg hlong]
      have hfront : (buf.take (buf.length - secocOverhead)).length = buf.length - secocOverhead := by
        rw [List.length_take]
        omega
      have hwindow : ((buf.drop (buf.length - secocOverhead)).take secocFreshnessSize).length =
          secocFreshnessSize := by
        rw [List.length_take, List.length_drop]
        omega
      have hsize := locals.hmacInput.property
      have hsecond := copy_filled locals.hmacInput.val (buf.take (buf.length - secocOverhead)) buf
        (buf.length - secocOverhead) secocFreshnessSize (by omega) (by omega)
      rw [hfront] at hsecond
      have hinput := filled_take locals.hmacInput.val (buf.take (buf.length - secocOverhead) ++
        (buf.drop (buf.length - secocOverhead)).take secocFreshnessSize)
      rw [List.length_append, hfront, hwindow] at hinput
      have hmessage : (filled locals.hmacInput.val (buf.take (buf.length - secocOverhead) ++
          (buf.drop (buf.length - secocOverhead)).take secocFreshnessSize)).length = hmacInputSize := by
        rw [filled_length _ _ (by rw [List.length_append, hfront, hwindow]; omega), hsize]
      rw [copy_front _ _ _ (by omega) (by omega), ok_bind, hsecond, ok_bind,
        hmacSha256_ok locals.toHashLocals key.val 32 _ _ _ (Nat.le_of_eq key.property.symm)
          (by omega) locals.computedMac.property, ok_bind, hinput,
        List.take_of_length_le (Nat.le_of_eq key.property),
        macDiff_ok buf _ _ (FirmwareKey.hmac_length _ _) (by omega), ok_bind]
      split
      · rfl
      · rfl

/-! ## E2E in bounds -/

section E2E

variable (buf : List Byte) (len : Nat)

theorem getBe16_ok (p : Nat) (h : p + 2 ≤ len) (hlen : len ≤ buf.length) :
    getBe16 buf p = .ok (FirmwareE2E.getBe16 ((buf.take len).drop p)) := by
  rw [getBe16, load_ok buf p 0 (by omega), ok_bind, load_ok buf (p + 1) 0 (by omega), ok_bind,
    FirmwareE2E.getBe16, drop_getD _ _ _ _ (by omega), drop_getD _ _ _ _ (by omega)]
  rfl

theorem getBe32_ok (p : Nat) (h : p + 4 ≤ len) (hlen : len ≤ buf.length) :
    getBe32 buf p = .ok (FirmwareE2E.getBe32 ((buf.take len).drop p)) := by
  rw [getBe32, load_ok buf p 0 (by omega), ok_bind, load_ok buf (p + 1) 0 (by omega), ok_bind,
    load_ok buf (p + 2) 0 (by omega), ok_bind, load_ok buf (p + 3) 0 (by omega), ok_bind,
    FirmwareE2E.getBe32, drop_getD _ _ _ _ (by omega), drop_getD _ _ _ _ (by omega),
    drop_getD _ _ _ _ (by omega), drop_getD _ _ _ _ (by omega)]
  rfl

theorem readHeader_ok (h : e2eHeaderSize ≤ len) (hlen : len ≤ buf.length) :
    readHeader buf = .ok (parseHeader (buf.take len)) := by
  have hsize : e2eHeaderSize = 11 := rfl
  have halive : (buf.take len).getD 4 0 = buf.getD 4 0 := by
    have hget := drop_getD buf len 0 4 (by omega)
    rwa [List.drop_zero, Nat.zero_add] at hget
  rw [readHeader, getBe16_ok buf len 0 (by omega) hlen, ok_bind, getBe16_ok buf len 2 (by omega) hlen,
    ok_bind, load_ok buf 4 0 (by omega), ok_bind, getBe16_ok buf len 5 (by omega) hlen, ok_bind,
    getBe32_ok buf len 7 (by omega) hlen, ok_bind, parseHeader, halive]
  rfl

/-- What the CRC goes over: seven header bytes and the payload. -/
def crcBytes (buf : List Byte) (n : Nat) : List Byte :=
  buf.take 7 ++ (buf.drop e2eHeaderSize).take n

section CrcInput

variable {n : Nat} (hpayload : e2eHeaderSize + n ≤ buf.length)
include hpayload

theorem crcBytes_length : (crcBytes buf n).length = 7 + n := by
  have hsize : e2eHeaderSize = 11 := rfl
  rw [crcBytes, List.length_append, List.length_take, List.length_take, List.length_drop]
  omega

theorem copyPayload_ok (hroom : 7 + n ≤ crcInputSize) :
    copy (filled locals.crcInput.val (buf.take 7)) 7 buf e2eHeaderSize n =
      .ok (filled locals.crcInput.val (crcBytes buf n)) := by
  have hsize : e2eHeaderSize = 11 := rfl
  have hcrcInput := locals.crcInput.property
  have hfields : (buf.take 7).length = 7 := by
    rw [List.length_take]
    omega
  have hcopy := copy_filled locals.crcInput.val (buf.take 7) buf e2eHeaderSize n (by omega)
    hpayload
  rwa [hfields] at hcopy

theorem crcInput_ok (static : CrcStatic) (hroom : 7 + n ≤ crcInputSize) :
    e2eCrc32 static (filled locals.crcInput.val (crcBytes buf n)) (7 + n) =
      .ok (FirmwareE2E.e2eCrc32 (crcBytes buf n)) := by
  have hcrcInput := locals.crcInput.property
  have hlen := crcBytes_length buf hpayload
  have hfits : 7 + n ≤ (filled locals.crcInput.val (crcBytes buf n)).length := by
    rw [filled_length _ _ (by omega)]
    omega
  have hinput := filled_take locals.crcInput.val (crcBytes buf n)
  rw [hlen] at hinput
  rw [e2eCrc32_ok static _ _ hfits, hinput]

end CrcInput

/-- With room for a header the E2E decoder stays in its buffers and sets the header on every
path. -/
theorem e2eDecode_ok (static : CrcStatic) (header : Option E2eHeader) (hdr : E2eHeader)
    (h : e2eHeaderSize ≤ len) (hlen : len ≤ buf.length) :
    ∃ payload, e2eDecode locals static buf len header =
        .ok ((FirmwareE2E.e2eDecode (buf.take len) hdr).1,
          some (FirmwareE2E.e2eDecode (buf.take len) hdr).2.1, payload) ∧
      ((FirmwareE2E.e2eDecode (buf.take len) hdr).1 = .ok →
        ∃ n, payload = some (e2eHeaderSize, n) ∧ e2eHeaderSize + n = len ∧
          (buf.drop e2eHeaderSize).take n = (FirmwareE2E.e2eDecode (buf.take len) hdr).2.2) := by
  have hsize : e2eHeaderSize = 11 := rfl
  have hbound : crcInputSize = 519 := rfl
  have htake : (buf.take len).length = len := by rw [List.length_take, Nat.min_eq_left hlen]
  rw [e2eDecode, FirmwareE2E.e2eDecode, if_neg (by omega), if_neg (by omega),
    readHeader_ok buf len h hlen, ok_bind]
  dsimp only
  generalize parseHeader (buf.take len) = header'
  rw [htake]
  by_cases hmismatch : e2eHeaderSize + header'.length.toNat ≠ len
  · simp only [if_pos hmismatch]
    exact ⟨none, rfl, E2eStatus.noConfusion⟩
  · by_cases hlong : 7 + header'.length.toNat > crcInputSize
    · simp only [if_neg hmismatch, if_pos hlong]
      exact ⟨none, rfl, E2eStatus.noConfusion⟩
    · simp only [if_neg hmismatch, if_neg hlong]
      have hcrcInput := locals.crcInput.property
      have hinside : e2eHeaderSize + header'.length.toNat ≤ buf.length := by omega
      have hroom : 7 + header'.length.toNat ≤ crcInputSize := by omega
      have hpayload : ((buf.take len).drop e2eHeaderSize).take header'.length.toNat =
          (buf.drop e2eHeaderSize).take header'.length.toNat := by
        rw [List.drop_take, List.take_take, Nat.min_eq_left (by omega)]
      have hbytes : (buf.take len).take 7 ++ (buf.drop e2eHeaderSize).take header'.length.toNat =
          crcBytes buf header'.length.toNat := by
        rw [crcBytes, List.take_take, Nat.min_eq_left (by omega)]
      rw [copy_front _ _ _ (by omega) (by omega), ok_bind,
        copyPayload_ok locals buf hinside hroom, ok_bind,
        crcInput_ok locals buf hinside static hroom, ok_bind, hpayload, hbytes]
      split
      · exact ⟨none, rfl, E2eStatus.noConfusion⟩
      · exact ⟨_, rfl, fun _ => ⟨_, rfl, not_not.mp hmismatch, rfl⟩⟩

end E2E

end Genoh.CheckedDecode
