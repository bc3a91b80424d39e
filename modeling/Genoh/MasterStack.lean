import Genoh.MasterCalls
import Genoh.MasterDtc
import Genoh.MasterFaults
import Genoh.SupervisorLock

/-!
# The safety stack

The wiring of `_init_safety_stack`: the E2E supervisor reports to the safety manager, and both
set codes in one DTC manager. A run interleaves calls of the supervisor's methods with faults,
recoveries, expiries and resets that reach the safety manager by other ways.
-/
namespace Genoh.MasterStack

open Genoh.Bytes Genoh.Run Genoh.OrderedDict Genoh.Monitor Genoh.MasterE2E Genoh.MasterSafety
open Genoh.MasterSafety.SafetyManager Genoh.MasterCalls Genoh.MasterDtc Genoh.SupervisorLock
open Genoh.MasterSupervisor (E2EStatus E2ESupervisor reportFault)

/-! ## The wiring -/

structure Stack (Thread : Type) where
  supervisor : Object Thread E2ESupervisor
  safetyManager : SafetyManager
  dtcManager : DTCManager Details

section Wiring

variable {Thread : Type}

/-- The manager after a method, and the DTC store after the codes that the method set. The
wall clock stands still during an event. -/
def manage (nowMs : Nat) (s : Stack Thread) (sm : SafetyManager) : Stack Thread :=
  { s with
    safetyManager := sm
    dtcManager := ((newCalls s.safetyManager sm).filterMap dtcOp).foldl
      (fun dtcs op => (setDtc dtcs op.1 op.2 none nowMs).2) s.dtcManager }

/-- A call of the supervisor to another object. -/
def deliver (nowMs : Nat) (s : Stack Thread) : MasterSupervisor.Call → Stack Thread
  | .notifyFault faultType source details =>
    manage nowMs s (s.safetyManager.notifyFault faultType source details).1
  | .setDtc code description =>
    { s with dtcManager := (setDtc s.dtcManager code description none nowMs).2 }
  | .logEvent _ _ _ _ => s

def deliverAll (nowMs : Nat) (s : Stack Thread) (calls : List MasterSupervisor.Call) : Stack Thread :=
  calls.foldl (deliver nowMs) s

inductive Event (Thread : Type) where
  | supervisor (t : Thread) (call : Invocation) (nowMs : Nat)
  | safety (e : MasterFaults.Event) (nowMs : Nat)

variable [DecidableEq Thread]

/-- The calls that the supervisor makes. -/
def callsOf (s : Stack Thread) (t : Thread) (call : Invocation) : List MasterSupervisor.Call :=
  ((call.method.run t s.supervisor).2.1)

def step (s : Stack Thread) : Event Thread → Stack Thread
  | .supervisor t call nowMs =>
    deliverAll nowMs { s with supervisor := (call.method.run t s.supervisor).2.2 } (callsOf s t call)
  | .safety e nowMs => manage nowMs s (MasterFaults.step s.safetyManager e)

/-- The stack once its objects are built; the DTC store is the one found on disk. -/
def start (totalNodes : Int) (dtcs : DTCManager Details) : Stack Thread :=
  ⟨idle, SafetyManager.init totalNodes, dtcs⟩

end Wiring

/-! ## The calls of the supervisor -/

section Calls

variable {Thread : Type}

theorem free_monitor {s : Stack Thread} (h : s.supervisor.holder = none) :
    s.supervisor = ⟨none, s.supervisor.state⟩ := by rw [← h]

theorem deliverAll_append (nowMs : Nat) (s : Stack Thread) (front back : List MasterSupervisor.Call) :
    deliverAll nowMs s (front ++ back) = deliverAll nowMs (deliverAll nowMs s front) back :=
  List.foldl_append

variable [DecidableEq Thread]

theorem callsOf_held {s : Stack Thread} {holder : Thread} (h : s.supervisor.holder = some holder)
    (t : Thread) (call : Invocation) : callsOf s t call = [] := by
  have hmonitor : s.supervisor = ⟨some holder, s.supervisor.state⟩ := by rw [← h]
  rw [callsOf, hmonitor, method_held]

theorem callsOf_message {s : Stack Thread} (h : s.supervisor.holder = none) (t : Thread)
    (header : E2EHeader) (payload : List Byte) (now : ℚ) :
    callsOf s t (.onMessageReceived header payload now) =
      (MasterSupervisor.onMessageReceived s.supervisor.state header payload now).2.1 := by
  rw [callsOf, free_monitor h]
  simp only [Invocation.method, Method.run_bind, onMessageReceived_free]
  rcases MasterSupervisor.onMessageReceived s.supervisor.state header payload now with
    ⟨sup, calls, outcome⟩
  cases outcome with
  | returned | raised | deadlock => simp [settle, Method.continueWith]

theorem callsOf_checkTimeouts {s : Stack Thread} (h : s.supervisor.holder = none) (t : Thread)
    (now : ℚ) : callsOf s t (.checkTimeouts now) =
      (MasterSupervisor.checkTimeouts s.supervisor.state now).2.1 := by
  rw [callsOf, free_monitor h]
  simp [Invocation.method, checkTimeouts_free, Method.continueWith]

theorem callsOf_registerChannel {s : Stack Thread} (h : s.supervisor.holder = none) (t : Thread)
    (dataId : Nat) (deadlineMs : Int) (maxSeqGap : Nat) (now : ℚ) :
    callsOf s t (.registerChannel dataId deadlineMs maxSeqGap now) = [] := by
  rw [callsOf, free_monitor h]
  simp [Invocation.method, registerChannel_free, Method.continueWith]

theorem callsOf_getChannelStatus {s : Stack Thread} (h : s.supervisor.holder = none) (t : Thread)
    (dataId : Nat) : callsOf s t (.getChannelStatus dataId) = [] := by
  rw [callsOf, free_monitor h]
  simp [Invocation.method, getChannelStatus_free, Method.continueWith]

end Calls

/-! ## Codes of reported faults -/

section Codes

variable {Thread : Type}

theorem manage_dtcManager {nowMs : Nat} {s : Stack Thread} {sm : SafetyManager}
    {ops : List (Nat × String)} (h : Did dtcOp s.safetyManager sm ops) :
    (manage nowMs s sm).dtcManager =
      ops.foldl (fun dtcs op => (setDtc dtcs op.1 op.2 none nowMs).2) s.dtcManager := by
  rw [manage, h.newCalls]

/-- The two maps from faults to codes agree where the supervisor's has a code. -/
theorem dtcCode_agree {faultType : FaultType} {code : Nat}
    (h : MasterSupervisor.dtcCode faultType = some code) :
    faultType ≠ .nodeOffline ∧ SafetyManager.dtcCode faultType = code := by
  cases faultType with
  | crcFailure | seqError | timeout =>
    cases h
    exact ⟨by decide, rfl⟩
  | nodeOffline | plcaBeaconLost | flowError | watchdogExpired | sensorPlausibility => cases h

/-- A report sets its code twice: the safety manager does, and the supervisor itself. -/
theorem reportFault_dtcManager (nowMs : Nat) (s : Stack Thread) {faultType : FaultType}
    (dataId : Nat) (detail : String) {code : Nat}
    (h : MasterSupervisor.dtcCode faultType = some code) :
    (deliverAll nowMs s (reportFault faultType dataId detail)).dtcManager =
      (setDtc (setDtc s.dtcManager code faultType.value none nowMs).2 code faultType.value none
        nowMs).2 := by
  obtain ⟨hnode, hcode⟩ := dtcCode_agree h
  have hdid := notifyFault_dtc s.safetyManager faultType (MasterSupervisor.sourceName dataId)
    [("detail", detail)] hnode
  rw [hcode] at hdid
  simp only [reportFault, h, Option.toList_some, List.map_cons, List.map_nil, deliverAll,
    List.foldl_cons, List.foldl_nil, deliver, manage_dtcManager hdid]

variable [DecidableEq Thread]

/-- What holds of the DTC store before and after each fault that a call of the supervisor
reports, whatever the call does before and after the report. -/
def EachReport (P : Nat → DTCManager Details → DTCManager Details → Prop) (s : Stack Thread)
    (e : Event Thread) : Prop :=
  ∀ t call nowMs, e = .supervisor t call nowMs →
    ∀ front faultType dataId detail back code,
      callsOf s t call = front ++ reportFault faultType dataId detail ++ back →
      MasterSupervisor.dtcCode faultType = some code →
      P code (deliverAll nowMs s front).dtcManager
        (deliverAll nowMs s (front ++ reportFault faultType dataId detail)).dtcManager

/-- One occurrence more; a new code is pending and not confirmed. -/
def CountedOnce (code : Nat) (before after : DTCManager Details) : Prop :=
  occurrences after code = occurrences before code + 1 ∧
    (before.dtcs.get? code = none → ∀ entry, after.dtcs.get? code = some entry →
      entry.isPending = true ∧ entry.isConfirmed = false)

/-- Not one occurrence more; a new code is confirmed at once. -/
def Miscounted (code : Nat) (before after : DTCManager Details) : Prop :=
  occurrences after code ≠ occurrences before code + 1 ∧
    (before.dtcs.get? code = none → ∀ entry, after.dtcs.get? code = some entry →
      entry.isConfirmed = true)

theorem report_miscounted (s : Stack Thread) (e : Event Thread) : EachReport Miscounted s e := by
  rintro t call nowMs - front faultType dataId detail back code - hcode
  have hafter := reportFault_dtcManager nowMs (deliverAll nowMs s front) dataId detail hcode
  obtain ⟨hcount, hconfirmed⟩ := setDtc_twice (deliverAll nowMs s front).dtcManager code
    faultType.value none nowMs faultType.value none nowMs
  rw [← hafter, ← deliverAll_append] at hcount hconfirmed
  refine ⟨?_, hconfirmed⟩
  obtain hcount | ⟨-, hcount⟩ := hcount <;> rw [hcount] <;> omega

/-- In every run no reported fault counts as one occurrence of its code, and every code that a
single fault creates is confirmed. -/
theorem reports_miscounted (totalNodes : Int) (dtcs : DTCManager Details)
    (events : List (Event Thread)) :
    Always step (start totalNodes dtcs) (EachReport Miscounted) events :=
  fun _ e _ _ => report_miscounted _ e

/-- One message with a wrong CRC on a fresh stack. -/
theorem corrupted_message_counted_twice :
    ¬ Always step (start 8 DTCManager.empty) (EachReport CountedOnce)
      [.supervisor (0 : Nat) (.registerChannel 0x1001 5000 3 0) 0,
        .supervisor 0 (.onMessageReceived ⟨0x1001, 0, 0, 0, 0⟩ [] 1) 1000] := by
  intro h
  have hcalls : callsOf (run step (start 8 DTCManager.empty)
      [.supervisor (0 : Nat) (.registerChannel 0x1001 5000 3 0) 0]) 0
      (.onMessageReceived ⟨0x1001, 0, 0, 0, 0⟩ [] 1) =
        [] ++ reportFault .crcFailure 0x1001 "CRC mismatch" ++ [] := by
    decide +kernel
  have honce := h _ _ [] rfl 0 _ 1000 rfl [] .crcFailure 0x1001 "CRC mismatch" [] 0xC11029 hcalls rfl
  have hnot := report_miscounted _ _ 0 _ 1000 rfl [] .crcFailure 0x1001 "CRC mismatch" [] 0xC11029
    hcalls rfl
  exact hnot.1 honce.1

end Codes

/-! ## Timeouts of an ASIL-D channel -/

section Timeouts

variable {Thread : Type}

/-- The data id of the proximity sensor. -/
def proximityId : Nat := 0x1003

/-- SAFE_STATE or beyond. -/
def Safe (state : SafetyState) : Prop := state = .safeState ∨ state = .failSilent

instance (state : SafetyState) : Decidable (Safe state) := inferInstanceAs (Decidable (_ ∨ _))

theorem mem_timedOut (sup : E2ESupervisor) (now : ℚ) (dataId : Nat) :
    dataId ∈ (MasterSupervisor.checkTimeouts sup now).2.2 ↔
      ∃ ch, sup.channels.get? dataId = some ch ∧ MasterSupervisor.Overdue now ch := by
  simp [MasterSupervisor.checkTimeouts, ← Dict.mem_pairs_iff]

/-- A timeout without an ASIL degrades NORMAL and changes no other state. -/
theorem timeout_state (sm : SafetyManager) (source detail : String) :
    (sm.notifyFault .timeout source [("detail", detail)]).1.state =
      if sm.state = .normal then .degraded else sm.state := by
  have hasil : (([("detail", detail)] : Details).lookup "asil").getD "" ≠ "ASIL-D" :=
    (by decide : "" ≠ "ASIL-D")
  simp only [notifyFault, reduceCtorEq, if_false, handleFault, handleTimeout, if_neg hasil]
  split
  · rename_i hnormal
    change (sm.transitionTo .degraded .timeout source _).state = _
    rw [transitionTo_state, hnormal]
    rfl
  · rfl

/-- Reports of timeouts neither reach nor leave the safe states: they carry a detail only. -/
theorem reportTimeouts_safe (nowMs : Nat) (s : Stack Thread) (dataIds : List Nat) (detail : String) :
    Safe (deliverAll nowMs s (dataIds.flatMap fun dataId =>
      reportFault .timeout dataId detail)).safetyManager.state ↔ Safe s.safetyManager.state := by
  induction dataIds generalizing s with
  | nil => rfl
  | cons dataId dataIds ih =>
    rw [List.flatMap_cons, deliverAll_append, ih]
    have hstate := timeout_state s.safetyManager (MasterSupervisor.sourceName dataId) detail
    change Safe (s.safetyManager.notifyFault .timeout (MasterSupervisor.sourceName dataId)
      [("detail", detail)]).1.state ↔ _
    rw [hstate]
    cases s.safetyManager.state <;> simp [Safe]

variable [DecidableEq Thread]

/-- A check that reports the timeout of the proximity channel leaves the manager safe. -/
def TimeoutHandled (s : Stack Thread) (e : Event Thread) : Prop :=
  ∀ t now nowMs timedOut, e = .supervisor t (.checkTimeouts now) nowMs →
    ending s.supervisor (t, .checkTimeouts now) = .returned (.timedOut timedOut) →
    proximityId ∈ timedOut → Safe (step s e).safetyManager.state

/-- A check that finds the proximity channel overdue finds the manager safe already. -/
def SafeBefore (s : Stack Thread) (e : Event Thread) : Prop :=
  ∀ t now nowMs, e = .supervisor t (.checkTimeouts now) nowMs → s.supervisor.holder = none →
    (∃ ch, s.supervisor.state.channels.get? proximityId = some ch ∧ MasterSupervisor.Overdue now ch) →
    Safe s.safetyManager.state

theorem checkTimeouts_safe (s : Stack Thread) (t : Thread) (now : ℚ) (nowMs : Nat) :
    Safe (step s (.supervisor t (.checkTimeouts now) nowMs)).safetyManager.state ↔
      Safe s.safetyManager.state := by
  cases hholder : s.supervisor.holder with
  | some holder => rw [step, callsOf_held hholder]; rfl
  | none =>
    rw [step, callsOf_checkTimeouts hholder]
    exact reportTimeouts_safe nowMs _ _ _

/-- What a check returns: the channels that it finds overdue. -/
theorem checkTimeouts_ending (s : Stack Thread) (t : Thread) (now : ℚ) :
    (∃ timedOut, ending s.supervisor (t, .checkTimeouts now) = .returned (.timedOut timedOut) ∧
        proximityId ∈ timedOut) ↔
      s.supervisor.holder = none ∧ ∃ ch, s.supervisor.state.channels.get? proximityId = some ch ∧
        MasterSupervisor.Overdue now ch := by
  rw [← mem_timedOut]
  cases hholder : s.supervisor.holder with
  | some holder =>
    have hmonitor : s.supervisor = ⟨some holder, s.supervisor.state⟩ := by rw [← hholder]
    rw [ending, hmonitor, method_held]
    by_cases hown : holder = t <;> simp [hown]
  | none =>
    rw [ending, free_monitor hholder]
    simp [Invocation.method, checkTimeouts_free, Method.continueWith]

theorem timeoutHandled_iff (s : Stack Thread) (e : Event Thread) :
    TimeoutHandled s e ↔ SafeBefore s e := by
  constructor
  · rintro hhandled t now nowMs rfl hfree hoverdue
    obtain ⟨timedOut, hending, hmem⟩ := (checkTimeouts_ending s t now).mpr ⟨hfree, hoverdue⟩
    exact (checkTimeouts_safe s t now nowMs).mp (hhandled t now nowMs timedOut rfl hending hmem)
  · rintro hbefore t now nowMs timedOut rfl hending hmem
    obtain ⟨hfree, hoverdue⟩ := (checkTimeouts_ending s t now).mp ⟨timedOut, hending, hmem⟩
    exact (checkTimeouts_safe s t now nowMs).mpr (hbefore t now nowMs rfl hfree hoverdue)

/-- In every run the reported timeouts of the proximity channel leave the manager in a safe state
exactly when they all find it in one. -/
theorem proximity_timeouts_iff (totalNodes : Int) (dtcs : DTCManager Details)
    (events : List (Event Thread)) :
    Always step (start totalNodes dtcs) TimeoutHandled events ↔
      Always step (start totalNodes dtcs) SafeBefore events :=
  always_congr (I := fun _ => True) trivial (fun _ _ _ => trivial)
    (fun s e _ => timeoutHandled_iff s e) events

/-- A silent proximity sensor only degrades a fresh stack. -/
theorem proximity_timeout_degrades :
    ¬ Always step (start 8 DTCManager.empty) TimeoutHandled
      [.supervisor (0 : Nat) (.registerChannel 0x1003 500 3 0) 0,
        .supervisor 0 (.checkTimeouts 1) 1000] := by
  intro h
  have hsafe := h [.supervisor (0 : Nat) (.registerChannel 0x1003 500 3 0) 0]
    (.supervisor 0 (.checkTimeouts 1) 1000) [] rfl 0 1 1000 [0x1003] rfl (by decide +kernel)
    (by decide)
  rw [checkTimeouts_safe] at hsafe
  revert hsafe
  decide

end Timeouts

end Genoh.MasterStack
