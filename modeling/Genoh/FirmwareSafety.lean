import Genoh.FirmwareE2E
import Genoh.FirmwareSecOC

/-!
# Firmware safety manager

The ASIL-D state machine of `safety_manager.c`. The two LED pins stand for the actuators
that `safety_execute_safe_action` turns off; a function that reads the tick counter takes
its value as an argument.
-/
namespace Genoh.FirmwareSafety

open Genoh.Bytes Genoh.FirmwareE2E Genoh.FirmwareSecOC

/-- `safety_state_t`. -/
inductive SafetyState where
  | normal | degraded | safeState | failSilent
  deriving DecidableEq, Repr

/-- `fault_type_t`. -/
inductive FaultType where
  | crcFailure | seqError | macFailure | replay | flood | flow | timeout | watchdog | selfTest
  deriving DecidableEq, Repr

def FaultType.index : FaultType → Fin 9
  | .crcFailure => 0
  | .seqError => 1
  | .macFailure => 2
  | .replay => 3
  | .flood => 4
  | .flow => 5
  | .timeout => 6
  | .watchdog => 7
  | .selfTest => 8

/-- `FAULT_TYPE_COUNT`. -/
def faultTypeCount : Nat := 9

def asildDegradedTimeout : BitVec 32 := 30000
def asildRecoveryCount : BitVec 32 := 10

/-- `safety_manager_t`. -/
structure SafetyManager where
  state : SafetyState
  faultCounts : Vector (BitVec 32) faultTypeCount
  totalFaults : BitVec 32
  consecutiveOk : BitVec 32
  degradedEnterTick : BitVec 32
  selfTestPassed : Bool
  deriving DecidableEq, Repr

/-- The actuator outputs: on is true. -/
structure Leds where
  led1 : Bool
  led2 : Bool
  deriving DecidableEq, Repr

def safetyInit : SafetyManager := ⟨.normal, Vector.replicate faultTypeCount 0, 0, 0, 0, false⟩

def safetyExecuteSafeAction : Leds := ⟨false, false⟩

/-- The nine digits of the CRC check, as the self-tests write them. -/
def crcTestData : List Byte := [0x31, 0x32, 0x33, 0x34, 0x35, 0x36, 0x37, 0x38, 0x39]

/-- `{"test":1}`. -/
def selfTestPayload : List Byte := [0x7B, 0x22, 0x74, 0x65, 0x73, 0x74, 0x22, 0x3A, 0x31, 0x7D]

/-- The CRC known-answer test, run at boot and periodically. -/
@[irreducible] def crcTest : Bool := decide (e2eCrc32 crcTestData = 0xCBF43926)

/-- The encoder call of the boot self-test, on fresh counters and a buffer of 64 bytes. -/
def selfTestEncoded : Option (List Byte) × E2eCounterState :=
  e2eEncode selfTestPayload 0xFFFF ⟨0, 0⟩ 64

/-- The round-trip test. The message is decoded only when its length is right. -/
@[irreducible] def roundTripTest : Bool :=
  match selfTestEncoded.1 with
  | none => false
  | some buf =>
    decide (buf.length = e2eHeaderSize + 10) && decide ((e2eDecode buf ⟨0, 0, 0, 0, 0⟩).1 = .ok)

@[irreducible] def counterTest : Bool :=
  decide (selfTestEncoded.2.seq = 1) && decide (selfTestEncoded.2.alive = 1)

/-- `safety_self_test`. -/
def safetySelfTest (sm : SafetyManager) : SafetyManager × Bool :=
  let pass := crcTest && roundTripTest && counterTest
  if pass then ({ sm with selfTestPassed := true }, true)
  else ({ sm with selfTestPassed := false, state := .safeState }, false)

/-- `safety_report_fault`. A fault in SAFE_STATE silences the node for good. -/
def safetyReportFault (sm : SafetyManager) (leds : Leds) (fault : FaultType)
    (tickCount : BitVec 32) : SafetyManager × Leds :=
  if sm.state = .failSilent then (sm, leds)
  else
    let sm := { sm with
      faultCounts := sm.faultCounts.set fault.index (sm.faultCounts[fault.index] + 1)
      totalFaults := sm.totalFaults + 1
      consecutiveOk := 0 }
    match sm.state with
    | .normal => ({ sm with state := .degraded, degradedEnterTick := tickCount }, leds)
    | .degraded =>
      if sm.totalFaults ≥ 4 then ({ sm with state := .safeState }, safetyExecuteSafeAction)
      else (sm, leds)
    | .safeState => ({ sm with state := .failSilent }, safetyExecuteSafeAction)
    | .failSilent => (sm, leds)

/-- `safety_report_ok`. -/
def safetyReportOk (sm : SafetyManager) : SafetyManager :=
  if sm.state = .degraded then
    let sm := { sm with consecutiveOk := sm.consecutiveOk + 1 }
    if sm.consecutiveOk ≥ asildRecoveryCount then { sm with state := .normal, consecutiveOk := 0 }
    else sm
  else sm

/-- `safety_tick`. -/
def safetyTick (sm : SafetyManager) (leds : Leds) (currentTick : BitVec 32) :
    SafetyManager × Leds :=
  if sm.state = .degraded then
    let elapsed := currentTick - sm.degradedEnterTick
    if elapsed ≥ asildDegradedTimeout then
      ({ sm with state := .safeState }, safetyExecuteSafeAction)
    else (sm, leds)
  else (sm, leds)

/-- `safety_actuator_allowed`. -/
def safetyActuatorAllowed (sm : SafetyManager) : Bool :=
  sm.state = .normal || sm.state = .degraded

/-- "Jefe" and "what do ya want for nothing?". -/
def hmacTestKey : List Byte := [0x4A, 0x65, 0x66, 0x65]
def hmacTestData : List Byte :=
  [0x77, 0x68, 0x61, 0x74, 0x20, 0x64, 0x6F, 0x20, 0x79, 0x61, 0x20, 0x77, 0x61, 0x6E,
   0x74, 0x20, 0x66, 0x6F, 0x72, 0x20, 0x6E, 0x6F, 0x74, 0x68, 0x69, 0x6E, 0x67, 0x3F]

def hmacExpected : List Byte :=
  [0x5B, 0xDC, 0xC1, 0x46, 0xBF, 0x60, 0x75, 0x4E, 0x6A, 0x04, 0x24, 0x26, 0x08, 0x95, 0x75, 0xC7,
   0x5A, 0x00, 0x3F, 0x08, 0x9D, 0x27, 0x39, 0x83, 0x9D, 0xEC, 0x58, 0xB9, 0x64, 0xEC, 0x38, 0x43]

/-- The HMAC known-answer test. -/
@[irreducible] def hmacTest : Bool := decide (hmacSha256 hmacTestKey hmacTestData = hmacExpected)

/-- What the two volatile reads of the RAM pattern test return. -/
structure RamReads where
  first : BitVec 32
  second : BitVec 32
  deriving DecidableEq, Repr

def RamReads.test (ram : RamReads) : Bool :=
  decide (ram.first = 0xAA55AA55) && decide (ram.second = 0x55AA55AA)

/-- `safety_periodic_test`. -/
def safetyPeriodicTest (sm : SafetyManager) (leds : Leds) (ram : RamReads)
    (tickCount : BitVec 32) : (SafetyManager × Leds) × Bool :=
  let pass := crcTest && hmacTest && ram.test
  if pass then ((sm, leds), true)
  else (safetyReportFault sm leds .selfTest tickCount, false)

/-! ## The state and the total after each call -/

@[simp] theorem safetyReportFault_failSilent (sm : SafetyManager) (leds : Leds) (fault : FaultType)
    (tickCount : BitVec 32) (h : sm.state = .failSilent) :
    safetyReportFault sm leds fault tickCount = (sm, leds) := by
  rw [safetyReportFault, if_pos h]

/-- A fault moves every state down; DEGRADED is left once the total reaches four. -/
theorem safetyReportFault_state (sm : SafetyManager) (leds : Leds) (fault : FaultType)
    (tickCount : BitVec 32) :
    (safetyReportFault sm leds fault tickCount).1.state = match sm.state with
      | .normal => .degraded
      | .degraded => if sm.totalFaults + 1 ≥ 4 then .safeState else .degraded
      | .safeState | .failSilent => .failSilent := by
  unfold safetyReportFault
  cases hs : sm.state with
  | normal | safeState | failSilent => simp [hs]
  | degraded =>
    simp only [reduceCtorEq, if_false]
    split <;> simp

/-- The safe action is taken on the way into SAFE_STATE and into FAIL_SILENT. -/
theorem safetyReportFault_leds (sm : SafetyManager) (leds : Leds) (fault : FaultType)
    (tickCount : BitVec 32) :
    (safetyReportFault sm leds fault tickCount).2 = match sm.state with
      | .normal | .failSilent => leds
      | .degraded => if sm.totalFaults + 1 ≥ 4 then safetyExecuteSafeAction else leds
      | .safeState => safetyExecuteSafeAction := by
  unfold safetyReportFault
  cases hs : sm.state with
  | normal | safeState | failSilent => rfl
  | degraded =>
    simp only [reduceCtorEq, if_false]
    split <;> rfl

/-- Except in FAIL_SILENT every fault is counted, and takes back all progress towards NORMAL. -/
theorem safetyReportFault_counters (sm : SafetyManager) (leds : Leds) (fault : FaultType)
    (tickCount : BitVec 32) (h : sm.state ≠ .failSilent) :
    (safetyReportFault sm leds fault tickCount).1.totalFaults = sm.totalFaults + 1 ∧
      (safetyReportFault sm leds fault tickCount).1.consecutiveOk = 0 := by
  rw [safetyReportFault, if_neg h]
  cases hs : sm.state with
  | normal | safeState | failSilent => exact ⟨rfl, rfl⟩
  | degraded =>
    dsimp only
    split <;> exact ⟨rfl, rfl⟩

theorem safetyReportFault_consecutiveOk (sm : SafetyManager) (leds : Leds) (fault : FaultType)
    (tickCount : BitVec 32) :
    (safetyReportFault sm leds fault tickCount).1.consecutiveOk ≤ sm.consecutiveOk := by
  by_cases h : sm.state = .failSilent
  · rw [safetyReportFault_failSilent sm leds fault tickCount h]
    exact BitVec.le_refl sm.consecutiveOk
  · rw [(safetyReportFault_counters sm leds fault tickCount h).2]
    exact BitVec.le_def.mpr (Nat.zero_le _)

/-- Only DEGRADED reacts to a good message, and only by going back to NORMAL. -/
theorem safetyReportOk_state (sm : SafetyManager) :
    (safetyReportOk sm).state = sm.state ∨
      sm.state = .degraded ∧ (safetyReportOk sm).state = .normal := by
  unfold safetyReportOk
  by_cases h : sm.state = .degraded
  · rw [if_pos h]
    dsimp only
    split
    · exact .inr ⟨h, rfl⟩
    · exact .inl rfl
  · rw [if_neg h]
    exact .inl rfl

@[simp] theorem safetyReportOk_total (sm : SafetyManager) :
    (safetyReportOk sm).totalFaults = sm.totalFaults := by
  unfold safetyReportOk
  split
  · dsimp only
    split <;> rfl
  · rfl

/-- The tick either does nothing or ends DEGRADED with the safe action. -/
theorem safetyTick_cases (sm : SafetyManager) (leds : Leds) (currentTick : BitVec 32) :
    safetyTick sm leds currentTick = (sm, leds) ∨
      sm.state = .degraded ∧ safetyTick sm leds currentTick =
        ({ sm with state := .safeState }, safetyExecuteSafeAction) := by
  unfold safetyTick
  by_cases h : sm.state = .degraded
  · rw [if_pos h]
    dsimp only
    split
    · exact .inr ⟨h, rfl⟩
    · exact .inl rfl
  · rw [if_neg h]
    exact .inl rfl

/-- The self-test only records its result, and refuses NORMAL when it fails. -/
theorem safetySelfTest_cases (sm : SafetyManager) :
    safetySelfTest sm = ({ sm with selfTestPassed := true }, true) ∨
      safetySelfTest sm = ({ sm with selfTestPassed := false, state := .safeState }, false) := by
  unfold safetySelfTest
  by_cases hpass : (crcTest && roundTripTest && counterTest) = true
  · exact .inl (if_pos hpass)
  · exact .inr (if_neg hpass)

/-- The periodic test either changes nothing or reports a fault. -/
theorem safetyPeriodicTest_cases (sm : SafetyManager) (leds : Leds) (ram : RamReads)
    (tickCount : BitVec 32) :
    safetyPeriodicTest sm leds ram tickCount = ((sm, leds), true) ∨
      safetyPeriodicTest sm leds ram tickCount =
        (safetyReportFault sm leds .selfTest tickCount, false) := by
  unfold safetyPeriodicTest
  by_cases hpass : (crcTest && hmacTest && ram.test) = true
  · exact .inl (if_pos hpass)
  · exact .inr (if_neg hpass)

end Genoh.FirmwareSafety
