import Mathlib.Data.Finset.Card
import Mathlib.Data.List.AList
import Mathlib.Data.Rat.Defs

/-!
# Master safety manager

The safety state machine of `master/safety_manager.py`, method by method. The attached
log, DTC manager, callback, logger and timers are seen through the calls the manager makes
to them. The entry time of SAFE_STATE is stored but never read, and is left out.
-/
namespace Genoh.MasterSafety

inductive SafetyState where
  | normal | degraded | safeState | failSilent
  deriving DecidableEq, Repr

inductive FaultType where
  | crcFailure | seqError | timeout | nodeOffline | plcaBeaconLost | flowError | watchdogExpired
  | sensorPlausibility
  deriving DecidableEq, Repr

def FaultType.value : FaultType → String
  | .crcFailure => "CRC_FAILURE"
  | .seqError => "SEQ_ERROR"
  | .timeout => "TIMEOUT"
  | .nodeOffline => "NODE_OFFLINE"
  | .plcaBeaconLost => "PLCA_BEACON_LOST"
  | .flowError => "FLOW_ERROR"
  | .watchdogExpired => "WATCHDOG_EXPIRED"
  | .sensorPlausibility => "SENSOR_PLAUSIBILITY"

inductive SafetyLogSeverity where
  | safetyCritical | safetyWarning | safetyInfo
  deriving DecidableEq, Repr

/-- The `details` dictionary of a fault. -/
abbrev Details := List (String × String)

/-- A call to one of the objects the manager works with. -/
inductive Call where
  | warning (old new : SafetyState) (faultType : FaultType) (source : String)
  | stateChange (old new : SafetyState)
  | logEvent (severity : SafetyLogSeverity) (event source : String) (details : Details)
      (safetyState : SafetyState)
  | setDtc (code : Nat) (description : String)
  | startTimer (id : Nat)
  | cancelTimer (id : Nat)
  deriving DecidableEq, Repr

def crcFailureThreshold : Nat := 3
def offlinePercentThreshold : ℚ := 50

/-- A timer is named by its number among the timers started so far. -/
structure SafetyManager where
  state : SafetyState
  totalNodes : Int
  offlineNodes : Finset String
  crcFailureCounts : AList fun _ : String => Nat
  safeStateTimer : Option Nat
  timersStarted : Nat
  calls : List Call

/-- `SafetyManager(total_nodes=...)`. -/
def SafetyManager.init (totalNodes : Int) : SafetyManager := ⟨.normal, totalNodes, ∅, ∅, none, 0, []⟩

namespace SafetyManager

def call (sm : SafetyManager) (c : Call) : SafetyManager := { sm with calls := sm.calls ++ [c] }

/-! ## Transitions -/

/-- `valid_transitions`. -/
def validTransitions : SafetyState → List SafetyState
  | .normal => [.degraded]
  | .degraded => [.normal, .safeState]
  | .safeState => [.normal, .failSilent]
  | .failSilent => [.normal]

/-- `_is_valid_transition`. -/
def isValidTransition (old new : SafetyState) : Bool :=
  if old = new then false else (validTransitions old).contains new

/-- `_state_to_event_type`. -/
def stateToEventType : SafetyState → String
  | .normal => "NORMAL_RESTORED"
  | .degraded => "DEGRADED_ENTER"
  | .safeState => "SAFE_STATE_ENTER"
  | .failSilent => "FAIL_SILENT_ENTER"

/-- `_cancel_safe_state_timer`. -/
def cancelSafeStateTimer (sm : SafetyManager) : SafetyManager :=
  match sm.safeStateTimer with
  | none => sm
  | some id => { sm with safeStateTimer := none }.call (.cancelTimer id)

/-- `_start_safe_state_timer`. -/
def startSafeStateTimer (sm : SafetyManager) : SafetyManager :=
  let sm := sm.cancelSafeStateTimer
  { sm with
    safeStateTimer := some sm.timersStarted
    timersStarted := sm.timersStarted + 1 }.call (.startTimer sm.timersStarted)

/-- `_transition_to`; an invalid transition is dropped without a word. -/
def transitionTo (sm : SafetyManager) (new : SafetyState) (faultType : FaultType)
    (source : String) (details : Details) : SafetyManager :=
  let old := sm.state
  if isValidTransition old new = false then sm
  else
    let sm := { sm with state := new }
    let sm := if new = .safeState then sm.startSafeStateTimer else sm
    if old ≠ new then
      let severity := if new = .safeState ∨ new = .failSilent then SafetyLogSeverity.safetyCritical
        else .safetyWarning
      ((sm.call (.warning old new faultType source)).call (.stateChange old new)).call
        (.logEvent severity (stateToEventType new) source details new)
    else sm

/-! ## Faults -/

/-- The percentage of nodes offline; none where the division by zero raises. The quotient
is exact here: rounding does not carry a float across the threshold. -/
def offlinePct (sm : SafetyManager) : Option ℚ :=
  if sm.totalNodes = 0 then none else some ((sm.offlineNodes.card : ℚ) / sm.totalNodes * 100)

/-- `_handle_node_fault`. -/
def handleNodeFault (sm : SafetyManager) (source : String) (details : Details) :
    Option SafetyManager :=
  match sm.offlinePct with
  | none => none
  | some pct =>
    let sm := if sm.state = .normal then sm.transitionTo .degraded .nodeOffline source details
      else sm
    some (if pct ≥ offlinePercentThreshold then
      sm.transitionTo .safeState .nodeOffline source details else sm)

/-- `_handle_crc_failure`. -/
def handleCrcFailure (sm : SafetyManager) (source : String) (details : Details) : SafetyManager :=
  let count := (sm.crcFailureCounts.lookup source).getD 0 + 1
  let sm := { sm with crcFailureCounts := sm.crcFailureCounts.insert source count }
  if count ≥ crcFailureThreshold ∧ sm.state = .normal then
    sm.transitionTo .degraded .crcFailure source details
  else sm

/-- `_handle_timeout`. -/
def handleTimeout (sm : SafetyManager) (source : String) (details : Details) : SafetyManager :=
  let asil := (details.lookup "asil").getD ""
  if asil = "ASIL-D" then sm.transitionTo .safeState .timeout source details
  else if sm.state = .normal then sm.transitionTo .degraded .timeout source details
  else sm

/-- `_handle_sensor_plausibility`. -/
def handleSensorPlausibility (sm : SafetyManager) (source : String) (details : Details) :
    SafetyManager :=
  if sm.state = .normal then sm.transitionTo .degraded .sensorPlausibility source details else sm

/-- `_log_fault`. -/
def logFault (sm : SafetyManager) (faultType : FaultType) (source : String) (details : Details) :
    SafetyManager :=
  sm.call (.logEvent .safetyWarning faultType.value source details sm.state)

/-- `dtc_map` of `_set_dtc_for_fault`; it covers every fault type. -/
def dtcCode : FaultType → Nat
  | .crcFailure => 0xC11029
  | .seqError => 0xC11129
  | .timeout => 0xC11231
  | .nodeOffline => 0xC14031
  | .plcaBeaconLost => 0xC10000
  | .watchdogExpired => 0xC12049
  | .sensorPlausibility => 0xC13064
  | .flowError => 0xC12049

/-- `_set_dtc_for_fault`. -/
def setDtcForFault (sm : SafetyManager) (faultType : FaultType) : SafetyManager :=
  sm.call (.setDtc (dtcCode faultType) faultType.value)

/-- The handler `notify_fault` chooses; none where it raises. -/
def handleFault (sm : SafetyManager) (faultType : FaultType) (source : String) (details : Details) :
    Option SafetyManager :=
  match faultType with
  | .nodeOffline => sm.handleNodeFault source details
  | .crcFailure => some (sm.handleCrcFailure source details)
  | .timeout => some (sm.handleTimeout source details)
  | .plcaBeaconLost => some (sm.transitionTo .degraded .plcaBeaconLost source details)
  | .flowError => some (sm.transitionTo .safeState .flowError source details)
  | .watchdogExpired => some (sm.transitionTo .safeState .watchdogExpired source details)
  | .sensorPlausibility => some (sm.handleSensorPlausibility source details)
  | .seqError => some (sm.transitionTo .degraded .seqError source details)

/-- `notify_fault`: the manager afterwards, and the state it returns unless it raises. -/
def notifyFault (sm : SafetyManager) (faultType : FaultType) (source : String) (details : Details) :
    SafetyManager × Option SafetyState :=
  let sm := if faultType = .nodeOffline then
    { sm with offlineNodes := insert source sm.offlineNodes } else sm
  match sm.handleFault faultType source details with
  | none => (sm, none)
  | some sm =>
    let sm := (sm.logFault faultType source details).setDtcForFault faultType
    (sm, some sm.state)

/-! ## Recovery and restart -/

/-- `notify_recovery`. -/
def notifyRecovery (sm : SafetyManager) (source : String) : SafetyManager × SafetyState :=
  let sm := { sm with
    offlineNodes := sm.offlineNodes.erase source
    crcFailureCounts := sm.crcFailureCounts.erase source }
  let sm :=
    if sm.state = .degraded then
      if sm.offlineNodes = ∅ ∧ sm.crcFailureCounts.keys = [] then
        sm.transitionTo .normal .nodeOffline source [("action", "recovery")]
      else sm
    else if sm.state = .safeState then
      if sm.offlineNodes = ∅ then
        sm.cancelSafeStateTimer.transitionTo .normal .nodeOffline source
          [("action", "full_recovery")]
      else sm
    else sm
  let sm := sm.call (.logEvent .safetyInfo "NODE_ONLINE" source [] sm.state)
  (sm, sm.state)

/-- `reset`. -/
def reset (sm : SafetyManager) : SafetyManager :=
  let old := sm.state
  let sm := sm.cancelSafeStateTimer
  let sm := { sm with state := .normal, offlineNodes := ∅, crcFailureCounts := ∅ }
  if old ≠ .normal then sm.call (.stateChange old .normal) else sm

/-- `_safe_state_timeout_handler`. -/
def safeStateTimeoutHandler (sm : SafetyManager) : SafetyManager :=
  if sm.state = .safeState then
    sm.transitionTo .failSilent .timeout "safety_manager"
      [("reason", "no_recovery_within_timeout")]
  else sm

/-! ## The state and the bookkeeping after each method -/

section Fields

variable (sm : SafetyManager)

@[simp] theorem call_state (c : Call) : (sm.call c).state = sm.state := rfl
@[simp] theorem call_offlineNodes (c : Call) : (sm.call c).offlineNodes = sm.offlineNodes := rfl
@[simp] theorem call_crcFailureCounts (c : Call) :
    (sm.call c).crcFailureCounts = sm.crcFailureCounts := rfl

/-- Cancelling forgets the timer and tells it so. -/
theorem cancel_eq :
    ∃ calls, sm.cancelSafeStateTimer = { sm with safeStateTimer := none, calls := calls } := by
  cases htimer : sm.safeStateTimer with
  | none =>
    refine ⟨sm.calls, ?_⟩
    simp only [cancelSafeStateTimer, htimer]
    rw [← htimer]
  | some id => exact ⟨sm.calls ++ [.cancelTimer id], by rw [cancelSafeStateTimer, htimer]; rfl⟩

@[simp] theorem cancel_state : sm.cancelSafeStateTimer.state = sm.state := by
  obtain ⟨calls, h⟩ := sm.cancel_eq
  rw [h]

@[simp] theorem cancel_totalNodes : sm.cancelSafeStateTimer.totalNodes = sm.totalNodes := by
  obtain ⟨calls, h⟩ := sm.cancel_eq
  rw [h]

@[simp] theorem cancel_offlineNodes : sm.cancelSafeStateTimer.offlineNodes = sm.offlineNodes := by
  obtain ⟨calls, h⟩ := sm.cancel_eq
  rw [h]

@[simp] theorem cancel_crcFailureCounts :
    sm.cancelSafeStateTimer.crcFailureCounts = sm.crcFailureCounts := by
  obtain ⟨calls, h⟩ := sm.cancel_eq
  rw [h]

variable (new : SafetyState) (faultType : FaultType) (source : String) (details : Details)

/-- All that a transition can change: the state, if the table of transitions has it, the
timer and the calls. -/
theorem transitionTo_eq : ∃ timer started calls,
    sm.transitionTo new faultType source details =
      { sm with
        state := if isValidTransition sm.state new then new else sm.state
        safeStateTimer := timer
        timersStarted := started
        calls := calls } := by
  unfold transitionTo
  dsimp only
  split
  · rename_i hinvalid
    rw [hinvalid]
    exact ⟨_, _, _, rfl⟩
  · rename_i hvalid
    rw [Bool.not_eq_false] at hvalid
    rw [hvalid, if_pos rfl]
    by_cases hsafe : new = .safeState
    · obtain ⟨calls, hcancel⟩ := cancel_eq { sm with state := new }
      rw [if_pos hsafe, startSafeStateTimer, hcancel]
      split <;> exact ⟨_, _, _, rfl⟩
    · rw [if_neg hsafe]
      split <;> exact ⟨_, _, _, rfl⟩

/-- The transition table decides, whatever the fault. -/
theorem transitionTo_state : (sm.transitionTo new faultType source details).state =
    if isValidTransition sm.state new then new else sm.state := by
  obtain ⟨timer, started, calls, h⟩ := sm.transitionTo_eq new faultType source details
  rw [h]

@[simp] theorem transitionTo_offlineNodes :
    (sm.transitionTo new faultType source details).offlineNodes = sm.offlineNodes := by
  obtain ⟨timer, started, calls, h⟩ := sm.transitionTo_eq new faultType source details
  rw [h]

@[simp] theorem transitionTo_crcFailureCounts :
    (sm.transitionTo new faultType source details).crcFailureCounts = sm.crcFailureCounts := by
  obtain ⟨timer, started, calls, h⟩ := sm.transitionTo_eq new faultType source details
  rw [h]

end Fields

/-! ## The handlers -/

/-- One more CRC failure of a source. -/
def bump (counts : AList fun _ : String => Nat) (source : String) : AList fun _ : String => Nat :=
  counts.insert source ((counts.lookup source).getD 0 + 1)

/-- Requests for DEGRADED and SAFE_STATE, one after the other. -/
inductive Requests (source : String) (details : Details) : SafetyManager → SafetyManager → Prop where
  | none (sm : SafetyManager) : Requests source details sm sm
  | more {sm sm' : SafetyManager} (new : SafetyState) (faultType : FaultType)
      (hnew : new = .degraded ∨ new = .safeState)
      (rest : Requests source details (sm.transitionTo new faultType source details) sm') :
      Requests source details sm sm'

section Handlers

variable {source : String} {details : Details}

theorem Requests.one (sm : SafetyManager) (new : SafetyState) (faultType : FaultType)
    (hnew : new = .degraded ∨ new = .safeState) :
    Requests source details sm (sm.transitionTo new faultType source details) :=
  .more new faultType hnew (.none _)

theorem Requests.trans {a b c : SafetyManager} (h : Requests source details a b)
    (h' : Requests source details b c) : Requests source details a c := by
  induction h with
  | none sm => exact h'
  | more new faultType hnew _ ih => exact .more new faultType hnew (ih h')

theorem requests_if {p : Prop} [Decidable p] {sm a b : SafetyManager}
    (h : Requests source details sm a) (h' : Requests source details sm b) :
    Requests source details sm (if p then a else b) := by
  split
  · exact h
  · exact h'

/-- Only the division by zero raises. -/
theorem handleFault_none {sm : SafetyManager} {faultType : FaultType}
    (h : sm.handleFault faultType source details = none) : faultType = .nodeOffline := by
  cases faultType with
  | nodeOffline => rfl
  | crcFailure | timeout | plcaBeaconLost | flowError | watchdogExpired | sensorPlausibility
  | seqError => cases h

/-- A handler books a CRC failure and then only requests transitions. -/
theorem handleFault_requests {sm sm' : SafetyManager} {faultType : FaultType}
    (h : sm.handleFault faultType source details = some sm') :
    Requests source details { sm with crcFailureCounts :=
      if faultType = .crcFailure then bump sm.crcFailureCounts source
      else sm.crcFailureCounts } sm' := by
  cases faultType with
  | nodeOffline =>
    simp only [handleFault, handleNodeFault] at h
    split at h
    · cases h
    · cases h
      have hfirst : Requests source details sm (if sm.state = .normal then
          sm.transitionTo .degraded .nodeOffline source details else sm) :=
        requests_if (.one sm .degraded .nodeOffline (.inl rfl)) (.none sm)
      exact hfirst.trans (requests_if (.one _ .safeState .nodeOffline (.inr rfl)) (.none _))
  | crcFailure =>
    cases h
    exact requests_if (.one _ .degraded .crcFailure (.inl rfl)) (.none _)
  | timeout =>
    cases h
    exact requests_if (.one sm .safeState .timeout (.inr rfl))
      (requests_if (.one sm .degraded .timeout (.inl rfl)) (.none sm))
  | sensorPlausibility =>
    cases h
    exact requests_if (.one sm .degraded .sensorPlausibility (.inl rfl)) (.none sm)
  | plcaBeaconLost | seqError =>
    cases h
    exact .one sm .degraded _ (.inl rfl)
  | flowError | watchdogExpired =>
    cases h
    exact .one sm .safeState _ (.inr rfl)

end Handlers

end SafetyManager

end Genoh.MasterSafety
