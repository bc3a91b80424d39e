import Genoh.Crc

/-!
# Master end-to-end protection

The master's side of the E2E layer, function by function from
`common/e2e_protection.py`: header packing, CRC, transmit counters, the sequence
checker, the data-id map and the encoder and decoder. A function that may raise
returns `Except`; one that updates an object returns the object as well.
-/
namespace Genoh.MasterE2E

open Genoh.Bytes

/-- The exceptions the modelled functions raise. -/
inductive PyError where
  | valueError (message : String)
  | structError
  | overflowError
  deriving DecidableEq, Repr

/-! ## Packing -/

/-- `struct.pack` with a big-endian format of unsigned fields, given as (size, value). -/
def structPack : List (Nat × Nat) → Except PyError (List Byte)
  | [] => .ok []
  | (n, v) :: rest =>
    if v < 256 ^ n then (structPack rest).map (beBytes n v ++ ·) else .error .structError

/-- `binascii.crc32`. -/
def binasciiCrc32 (data : List Byte) : Nat := (Crc.crc32 data).toNat

/-! ## Header -/

def e2eHeaderSize : Nat := 11

structure E2EHeader where
  dataId : Nat
  sequenceCounter : Nat
  aliveCounter : Nat
  length : Nat
  crc32 : Nat
  deriving DecidableEq, Repr

def E2EHeader.toBytes (h : E2EHeader) : Except PyError (List Byte) :=
  structPack [(2, h.dataId), (2, h.sequenceCounter), (1, h.aliveCounter), (2, h.length), (4, h.crc32)]

def E2EHeader.fromBytes (data : List Byte) : Except PyError E2EHeader :=
  if data.length < e2eHeaderSize then
    .error (.valueError ("E2E header requires " ++ toString e2eHeaderSize ++ " bytes, got " ++
      toString data.length))
  else
    let head := data.take e2eHeaderSize
    .ok {
      dataId := field head 0 2
      sequenceCounter := field head 2 2
      aliveCounter := field head 4 1
      length := field head 5 2
      crc32 := field head 7 4 }

def computeE2eCrc (dataId seq alive length : Nat) (payload : List Byte) : Except PyError Nat :=
  (structPack [(2, dataId), (2, seq), (1, alive), (2, length)]).map fun headerBytes =>
    binasciiCrc32 (headerBytes ++ payload) &&& 0xFFFFFFFF

/-! ## Counters -/

structure SequenceCounterState where
  currentSeq : Nat := 0
  aliveCounter : Nat := 0
  deriving DecidableEq, Repr

/-- The pair to send, and the counters for the next message. -/
def SequenceCounterState.next (c : SequenceCounterState) : (Nat × Nat) × SequenceCounterState :=
  ((c.currentSeq, c.aliveCounter), ⟨(c.currentSeq + 1) % 65536, (c.aliveCounter + 1) % 256⟩)

/-- The verdicts of `SequenceChecker.check`. -/
inductive SeqVerdict where
  | init | ok | okSomeLost | repeated | error
  deriving DecidableEq, Repr

structure SequenceChecker where
  maxGap : Nat := 3
  lastSeq : Option Nat := none
  validCount : Nat := 0
  initCount : Nat := 3
  deriving DecidableEq, Repr

def SequenceChecker.check (c : SequenceChecker) (seq : Nat) : SeqVerdict × SequenceChecker :=
  match c.lastSeq with
  | none => (.init, { c with lastSeq := some seq, validCount := 1 })
  | some last =>
    let delta := ((seq : Int) - last) % 65536
    if delta = 0 then (.repeated, c)
    else if delta = 1 then
      let c := { c with lastSeq := some seq, validCount := c.validCount + 1 }
      if c.validCount < c.initCount then (.init, c) else (.ok, c)
    else if 2 ≤ delta ∧ delta ≤ c.maxGap then (.okSomeLost, { c with lastSeq := some seq })
    else (.error, { c with lastSeq := some seq })

/-! ## Data ids -/

/-- `DATA_ID_MAP`. -/
def dataIdMap : List (String × Nat) := [
  ("vehicle/*/sensor/temperature", 0x1001),
  ("vehicle/*/sensor/pressure", 0x1002),
  ("vehicle/*/sensor/proximity", 0x1003),
  ("vehicle/*/sensor/light", 0x1004),
  ("vehicle/*/sensor/battery", 0x1005),
  ("vehicle/*/actuator/led", 0x2001),
  ("vehicle/*/actuator/motor", 0x2002),
  ("vehicle/*/actuator/relay", 0x2003),
  ("vehicle/*/actuator/buzzer", 0x2004),
  ("vehicle/*/actuator/lock", 0x2005),
  ("vehicle/*/status", 0x3000),
  ("vehicle/master/heartbeat", 0x3F01),
  ("vehicle/master/diagnostics", 0x3F02)]

/-- `str.split("/")`. -/
def splitSlash (s : String) : List String := (s.toList.splitOn '/').map String.ofList

/-- The data id of a key expression: a direct match, then the patterns with zone and node
removed, from the longest to the shortest. -/
def resolveDataId (keyExpr : String) : Except PyError Nat :=
  let parts := splitSlash keyExpr
  let part := fun i => parts.getD i ""
  let whenLong := fun n (pattern : String) =>
    if n ≤ parts.length ∧ part 0 = "vehicle" then dataIdMap.lookup pattern else none
  let found := (dataIdMap.lookup keyExpr)
    <|> whenLong 5 ("vehicle/*/" ++ part 3 ++ "/" ++ part 4)
    <|> whenLong 4 ("vehicle/*/" ++ part 3)
    <|> whenLong 3 ("vehicle/" ++ part 1 ++ "/" ++ part 2)
  match found with
  | some id => .ok id
  | none => .error (.valueError ("No Data ID mapping for key expression: " ++ keyExpr))

theorem dataIdMap_lt {key : String} {dataId : Nat} (h : dataIdMap.lookup key = some dataId) :
    dataId < 65536 := by
  have hall : ∀ pair ∈ dataIdMap, pair.2 < 65536 := by decide
  obtain ⟨front, back, hmap, -⟩ := List.lookup_eq_some_iff.mp h
  exact hall (key, dataId) (by rw [hmap]; simp)

/-- Every data id fits its header field. -/
theorem resolveDataId_lt {keyExpr : String} {dataId : Nat} (h : resolveDataId keyExpr = .ok dataId) :
    dataId < 65536 := by
  have hguard : ∀ {p : Prop} [Decidable p] {key : String},
      (if p then dataIdMap.lookup key else none) = some dataId → dataId < 65536 := by
    intro p _ key hkey
    split at hkey
    · exact dataIdMap_lt hkey
    · cases hkey
  simp only [resolveDataId] at h
  split at h
  · rename_i found hfound
    cases h
    simp only [Option.orElse_eq_orElse, Option.orElse_eq_or, Option.or_eq_some_iff] at hfound
    obtain hdirect | ⟨-, hfive | ⟨-, hfour | ⟨-, hthree⟩⟩⟩ := hfound
    · exact dataIdMap_lt hdirect
    · exact hguard hfive
    · exact hguard hfour
    · exact hguard hthree
  · cases h

/-! ## Encoder and decoder -/

/-- `e2e_encode`: the message or the exception, and the counters, which have moved either way. -/
def e2eEncode (dataId : Nat) (payload : List Byte) (counter : SequenceCounterState) :
    Except PyError (List Byte) × SequenceCounterState :=
  let ((seq, alive), counter) := counter.next
  let length := payload.length
  let message := do
    let crc ← computeE2eCrc dataId seq alive length payload
    let header : E2EHeader := ⟨dataId, seq, alive, length, crc⟩
    let bytes ← header.toBytes
    return bytes ++ payload
  (message, counter)

def e2eDecode (raw : List Byte) : Except PyError (E2EHeader × List Byte) :=
  (E2EHeader.fromBytes raw).map fun header => (header, raw.drop e2eHeaderSize)

def e2eVerify (header : E2EHeader) (payload : List Byte) : Except PyError Bool :=
  (computeE2eCrc header.dataId header.sequenceCounter header.aliveCounter header.length payload).map
    fun expectedCrc => header.crc32 == expectedCrc

end Genoh.MasterE2E
