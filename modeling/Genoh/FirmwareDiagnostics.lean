import Mathlib.Data.BitVec

/-!
# Firmware diagnostics

The trouble-code ring of `dtc_manager.c` and the checkpoint and deadline monitor of
`flow_monitor.c`.
-/
namespace Genoh.FirmwareDiagnostics

/-! ## Trouble codes -/

def dtcCrcFailure : BitVec 16 := 0xE001
def dtcSeqError : BitVec 16 := 0xE002
def dtcMacFailure : BitVec 16 := 0xE003
def dtcReplay : BitVec 16 := 0xE004
def dtcFlood : BitVec 16 := 0xE005
def dtcFlowError : BitVec 16 := 0xE007

def dtcMaxEntries : Nat := 16

/-- `dtc_freeze_frame_t`. -/
structure DtcFreezeFrame where
  tick : BitVec 32
  lastSeq : BitVec 16
  safetyState : BitVec 8
  faultCount : BitVec 8
  deriving DecidableEq, Repr

/-- `dtc_entry_t`. -/
structure DtcEntry where
  code : BitVec 16
  occurrenceCount : BitVec 8
  freeze : DtcFreezeFrame
  deriving DecidableEq, Repr

/-- `dtc_manager_t`: the stored entries are the first `count` of the array. -/
structure DtcManager where
  entries : Vector DtcEntry dtcMaxEntries
  count : Fin (dtcMaxEntries + 1)
  writeIdx : Fin dtcMaxEntries
  totalDtcs : BitVec 32
  deriving DecidableEq, Repr

def dtcInit : DtcManager :=
  ⟨Vector.replicate dtcMaxEntries ⟨0, 0, ⟨0, 0, 0, 0⟩⟩, 0, ⟨0, by decide⟩, 0⟩

/-- The first stored entry with the code. -/
def findCode (dm : DtcManager) (code : BitVec 16) : Option (Fin dtcMaxEntries) :=
  (List.finRange dtcMaxEntries).find? fun i => decide (i.val < dm.count.val) &&
    dm.entries[i].code == code

/-- `dtc_record`. A stored code counts up to 255 and takes the new freeze frame. -/
def dtcRecord (dm : DtcManager) (code : BitVec 16) (freeze : DtcFreezeFrame) : DtcManager :=
  match findCode dm code with
  | some i =>
    let e := dm.entries[i]
    let seen := if e.occurrenceCount < 255 then e.occurrenceCount + 1 else e.occurrenceCount
    { dm with
      entries := dm.entries.set i { e with occurrenceCount := seen, freeze := freeze }
      totalDtcs := dm.totalDtcs + 1 }
  | none =>
    { entries := dm.entries.set dm.writeIdx ⟨code, 1, freeze⟩
      writeIdx := ⟨(dm.writeIdx.val + 1) % dtcMaxEntries, Nat.mod_lt _ (by decide)⟩
      count := if h : dm.count.val < dtcMaxEntries then ⟨dm.count.val + 1, by omega⟩ else dm.count
      totalDtcs := dm.totalDtcs + 1 }

/-- `dtc_get_entry`: nothing for an index out of range. -/
def dtcGetEntry (dm : DtcManager) (index : Fin dtcMaxEntries) : Option DtcEntry :=
  if index.val ≥ dm.count.val then none else some dm.entries[index]

/-- `dtc_clear`. The lifetime count stays. -/
def dtcClear (dm : DtcManager) : DtcManager := { dtcInit with totalDtcs := dm.totalDtcs }

/-! ## Control flow -/

/-- `flow_checkpoint_t`. -/
inductive FlowCheckpoint where
  | sensorRead | e2eEncode | secocEncode | publish
  deriving DecidableEq, Repr

def FlowCheckpoint.toNat : FlowCheckpoint → Nat
  | .sensorRead => 0
  | .e2eEncode => 1
  | .secocEncode => 2
  | .publish => 3

/-- `CP_COUNT`. -/
def cpCount : Nat := 4

/-- `flow_monitor_t`. -/
structure FlowMonitor where
  checkpointsHit : BitVec 8
  lastActuatorTick : BitVec 32
  totalFlowErrors : BitVec 32
  totalDeadlineMisses : BitVec 32
  deadlineActive : Bool
  deriving DecidableEq, Repr

def flowInit : FlowMonitor := ⟨0, 0, 0, 0, false⟩

def flowCheckpoint (fm : FlowMonitor) (cp : FlowCheckpoint) : FlowMonitor :=
  { fm with checkpointsHit := fm.checkpointsHit ||| 1#8 <<< cp.toNat }

/-- `flow_checkpoint` on any value of its argument type. What is no checkpoint is not recorded. -/
def flowCheckpointValue (fm : FlowMonitor) (cp : BitVec 32) : FlowMonitor :=
  if cp.toNat < cpCount then { fm with checkpointsHit := fm.checkpointsHit ||| 1#8 <<< cp.toNat }
  else fm

/-- `flow_verify_cycle`. -/
def flowVerifyCycle (fm : FlowMonitor) : Bool × FlowMonitor :=
  let expected := 1#8 <<< cpCount - 1
  let ok := fm.checkpointsHit == expected
  let fm := if ok then fm else { fm with totalFlowErrors := fm.totalFlowErrors + 1 }
  (ok, { fm with checkpointsHit := 0 })

def flowActuatorReceived (fm : FlowMonitor) (tick : BitVec 32) : FlowMonitor :=
  { fm with lastActuatorTick := tick, deadlineActive := true }

/-- `FLOW_ACTUATOR_DEADLINE_MS`. -/
def flowActuatorDeadlineMs : BitVec 32 := 10000

/-- `flow_check_deadline`; no deadline until the first message. -/
def flowCheckDeadline (fm : FlowMonitor) (currentTick : BitVec 32) : Bool × FlowMonitor :=
  if fm.deadlineActive = false then (true, fm)
  else if currentTick - fm.lastActuatorTick > flowActuatorDeadlineMs then
    (false, { fm with totalDeadlineMisses := fm.totalDeadlineMisses + 1 })
  else (true, fm)

end Genoh.FirmwareDiagnostics
