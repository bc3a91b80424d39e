import Genoh.MasterStack

/-!
# CRC failures, counted

The safety manager degrades on the third CRC failure of a source since its last recovery. The
supervisor tells it about wrong messages only, so the failures need not be consecutive.
-/
namespace Genoh.MasterCrcFailures

open Genoh.Bytes Genoh.Run Genoh.OrderedDict Genoh.Monitor Genoh.MasterE2E Genoh.MasterSafety
open Genoh.MasterSafety.SafetyManager Genoh.MasterDtc Genoh.MasterStack
open Genoh.SupervisorLock (Invocation)
open Genoh.MasterFaults (notifyFault_books notifyRecovery_books reset_books
  timeoutHandler_books)
open Genoh.MasterSupervisor (E2ESupervisor E2EChannelState reportFault sourceName receiveOn)

/-! ## What reaches the manager's counts -/

/-- The source of a reported CRC failure. -/
def crcSource : MasterSupervisor.Call → Option String
  | .notifyFault .crcFailure source _ => some source
  | _ => none

theorem reportFault_crcSource (faultType : FaultType) (dataId : Nat) (detail : String) :
    (reportFault faultType dataId detail).filterMap crcSource =
      if faultType = .crcFailure then [sourceName dataId] else [] := by
  cases faultType <;> rfl

/-- The data id and the CRC verdict of a message on a channel; the verdict is that of the CRC
alone. -/
def verdictOf (header : E2EHeader) (payload : List Byte) : Option (Nat × Bool) :=
  match e2eVerify header payload with
  | .ok valid => some (header.dataId, valid)
  | .error _ => none

theorem receiveOn_crcSource (ch : E2EChannelState) (header : E2EHeader) (payload : List Byte)
    (now : ℚ) : (receiveOn ch header payload now).2.1.filterMap crcSource =
      if verdictOf header payload = some (header.dataId, false) then [sourceName header.dataId]
      else [] := by
  rw [receiveOn, verdictOf]
  cases hverify : e2eVerify header payload with
  | error error => rfl
  | ok valid =>
    cases valid with
    | false => simp [reportFault_crcSource]
    | true =>
      rcases ch.seqChecker.check header.sequenceCounter with ⟨verdict, checker⟩
      cases verdict with
      | error => simp [MasterSupervisor.applyVerdict, reportFault_crcSource]
      | init | ok | okSomeLost | repeated =>
        simp [MasterSupervisor.applyVerdict, MasterSupervisor.logWarning, crcSource]

section Thread

variable {Thread : Type}

theorem deliver_crcFailureCounts (nowMs : Nat) (s : Stack Thread) (c : MasterSupervisor.Call) :
    (deliver nowMs s c).safetyManager.crcFailureCounts =
      (crcSource c).elim s.safetyManager.crcFailureCounts
        (bump s.safetyManager.crcFailureCounts) := by
  cases c with
  | notifyFault faultType source details =>
    change (s.safetyManager.notifyFault faultType source details).1.crcFailureCounts = _
    rw [(notifyFault_books s.safetyManager faultType source details).2]
    cases faultType <;> rfl
  | setDtc | logEvent => rfl

theorem deliverAll_crcFailureCounts (nowMs : Nat) (s : Stack Thread)
    (calls : List MasterSupervisor.Call) :
    (deliverAll nowMs s calls).safetyManager.crcFailureCounts =
      (calls.filterMap crcSource).foldl bump s.safetyManager.crcFailureCounts := by
  induction calls generalizing s with
  | nil => rfl
  | cons c calls ih =>
    have hstep := deliver_crcFailureCounts nowMs s c
    change (deliverAll nowMs (deliver nowMs s c) calls).safetyManager.crcFailureCounts = _
    rw [ih, hstep]
    cases hc : crcSource c with
    | none => simp [hc]
    | some source => simp [hc]

/-! ## Messages of a channel -/

variable [DecidableEq Thread]

/-- The message that a channel receives in an event, by its CRC verdict. -/
def received (s : Stack Thread) : Event Thread → Option (Nat × Bool)
  | .supervisor _ (.onMessageReceived header payload _) _ =>
    if s.supervisor.holder = none ∧
        (s.supervisor.state.channels.get? header.dataId).isSome = true then
      verdictOf header payload
    else none
  | _ => none

/-- The source whose CRC failure an event books. -/
def crcFault (s : Stack Thread) (e : Event Thread) : Option String :=
  match e with
  | .safety (.fault .crcFailure source _) _ => some source
  | e =>
    match received s e with
    | some (dataId, false) => some (sourceName dataId)
    | _ => none

theorem callsOf_crcSource (s : Stack Thread) (t : Thread) (call : Invocation) (nowMs : Nat) :
    (callsOf s t call).filterMap crcSource = (crcFault s (.supervisor t call nowMs)).toList := by
  cases hholder : s.supervisor.holder with
  | some holder =>
    rw [callsOf_held hholder]
    cases call with
    | registerChannel | onMessageReceived | checkTimeouts | getChannelStatus =>
      simp [crcFault, received, hholder]
  | none =>
    cases call with
    | registerChannel dataId deadlineMs maxSeqGap now =>
      rw [callsOf_registerChannel hholder]
      rfl
    | getChannelStatus dataId =>
      rw [callsOf_getChannelStatus hholder]
      rfl
    | checkTimeouts now =>
      rw [callsOf_checkTimeouts hholder]
      simp [MasterSupervisor.checkTimeouts, List.filterMap_flatMap, reportFault_crcSource, crcFault,
        received]
    | onMessageReceived header payload now =>
      rw [callsOf_message hholder]
      cases hch : s.supervisor.state.channels.get? header.dataId with
      | none => simp [MasterSupervisor.onMessageReceived, crcFault, received, hholder, hch]
      | some ch =>
        have hcalls := receiveOn_crcSource ch header payload now
        simp only [MasterSupervisor.onMessageReceived, hch, hcalls, crcFault, received, hholder,
          Option.isSome_some, and_self, if_true]
        rw [verdictOf]
        cases e2eVerify header payload with
        | error error => simp
        | ok valid => cases valid <;> simp

/-! ## What the channels have heard -/

/-- The stack, the CRC failures of each source since its last recovery, and the CRC verdicts of
each channel's messages, the last one first. -/
structure Watched (Thread : Type) where
  stack : Stack Thread
  failures : String → Nat
  verdicts : Nat → List Bool

/-- The failures after an event. -/
def countFailures (s : Stack Thread) (failures : String → Nat) (e : Event Thread) : String → Nat :=
  match e with
  | .safety (.recovery source) _ => Function.update failures source 0
  | .safety .reset _ => fun _ => 0
  | e => (crcFault s e).elim failures fun source =>
    Function.update failures source (failures source + 1)

def watch (w : Watched Thread) (e : Event Thread) : Watched Thread where
  stack := step w.stack e
  failures := countFailures w.stack w.failures e
  verdicts := (received w.stack e).elim w.verdicts fun (dataId, valid) =>
    Function.update w.verdicts dataId (valid :: w.verdicts dataId)

def watched (totalNodes : Int) (dtcs : DTCManager Details) : Watched Thread :=
  ⟨start totalNodes dtcs, fun _ => 0, fun _ => []⟩

/-- The manager's counts are the failures since the last recovery. -/
def Counted (w : Watched Thread) : Prop :=
  ∀ source, (w.stack.safetyManager.crcFailureCounts.lookup source).getD 0 = w.failures source

theorem bump_lookup (counts : AList fun _ : String => Nat) (source s : String) :
    ((bump counts source).lookup s).getD 0 =
      if s = source then (counts.lookup source).getD 0 + 1 else (counts.lookup s).getD 0 := by
  rw [bump]
  by_cases hs : s = source
  · subst hs
    simp
  · simp [AList.lookup_insert_ne hs, hs]

theorem watch_counted (w : Watched Thread) (e : Event Thread) (h : Counted w) :
    Counted (watch w e) := by
  intro s
  have hbump : ∀ source, ((bump w.stack.safetyManager.crcFailureCounts source).lookup s).getD 0 =
      Function.update w.failures source (w.failures source + 1) s := by
    intro source
    rw [bump_lookup, h, h, Function.update_apply]
  cases e with
  | supervisor t call nowMs =>
    change ((deliverAll nowMs _ (callsOf w.stack t call)).safetyManager.crcFailureCounts.lookup
      s).getD 0 = ((crcFault w.stack (.supervisor t call nowMs)).elim w.failures fun source =>
        Function.update w.failures source (w.failures source + 1)) s
    rw [deliverAll_crcFailureCounts, callsOf_crcSource w.stack t call nowMs]
    cases crcFault w.stack (.supervisor t call nowMs) with
    | none => exact h s
    | some source => exact hbump source
  | safety e nowMs =>
    cases e with
    | fault faultType source details =>
      change ((w.stack.safetyManager.notifyFault faultType source
        details).1.crcFailureCounts.lookup s).getD 0 = _
      rw [(notifyFault_books w.stack.safetyManager faultType source details).2]
      cases faultType with
      | crcFailure => exact hbump source
      | seqError | timeout | nodeOffline | plcaBeaconLost | flowError | watchdogExpired
      | sensorPlausibility => exact h s
    | recovery source =>
      change ((w.stack.safetyManager.notifyRecovery source).1.crcFailureCounts.lookup s).getD 0 =
        Function.update w.failures source 0 s
      rw [(notifyRecovery_books w.stack.safetyManager source).2, Function.update_apply]
      split
      · rename_i hs
        rw [hs, AList.lookup_erase]
        rfl
      · rename_i hs
        rw [AList.lookup_erase_ne hs]
        exact h s
    | timerExpired =>
      change (w.stack.safetyManager.safeStateTimeoutHandler.crcFailureCounts.lookup s).getD 0 = _
      rw [(timeoutHandler_books w.stack.safetyManager).2]
      exact h s
    | reset =>
      change (w.stack.safetyManager.reset.crcFailureCounts.lookup s).getD 0 = _
      rw [(reset_books w.stack.safetyManager).2]
      rfl

/-! ## The transition -/

/-- A CRC failure in NORMAL degrades exactly when it is at least the third of its source. -/
theorem crcFailure_state (sm : SafetyManager) (source : String) (details : Details)
    (h : sm.state = .normal) :
    (sm.notifyFault .crcFailure source details).1.state = .degraded ↔
      2 ≤ (sm.crcFailureCounts.lookup source).getD 0 := by
  have hstate : (sm.notifyFault .crcFailure source details).1.state =
      (sm.handleCrcFailure source details).state := rfl
  rw [hstate, handleCrcFailure]
  dsimp only
  rw [crcFailureThreshold]
  split
  · rename_i hthird
    rw [transitionTo_state, h]
    exact iff_of_true rfl (Nat.le_of_succ_le_succ hthird.1)
  · rename_i hfew
    change sm.state = .degraded ↔ _
    rw [h]
    refine iff_of_false (by decide) fun hthird => hfew ⟨Nat.succ_le_succ hthird, h⟩

/-- A message with a wrong CRC reaches the manager as one fault of its source. -/
theorem received_state {s : Stack Thread} {e : Event Thread} {dataId : Nat}
    (h : received s e = some (dataId, false)) :
    (step s e).safetyManager =
      (s.safetyManager.notifyFault .crcFailure (sourceName dataId)
        [("detail", "CRC mismatch")]).1 := by
  cases e with
  | safety e nowMs => cases h
  | supervisor t call nowMs =>
    cases call with
    | registerChannel | checkTimeouts | getChannelStatus => cases h
    | onMessageReceived header payload now =>
      rw [received] at h
      split at h
      · rename_i hchannel
        obtain ⟨hfree, hsome⟩ := hchannel
        obtain ⟨ch, hch⟩ := Option.isSome_iff_exists.mp hsome
        obtain ⟨rfl, hverify⟩ : header.dataId = dataId ∧ e2eVerify header payload = .ok false := by
          rw [verdictOf] at h
          cases hverify : e2eVerify header payload with
          | error error => simp [hverify] at h
          | ok valid => simpa [hverify] using h
        have hcalls : callsOf s t (.onMessageReceived header payload now) =
            reportFault .crcFailure header.dataId "CRC mismatch" := by
          rw [callsOf_message hfree]
          simp only [MasterSupervisor.onMessageReceived, hch, receiveOn, hverify]
        change (deliverAll nowMs _ (callsOf s t _)).safetyManager = _
        rw [hcalls]
        rfl
      · cases h

/-- A wrong CRC moves NORMAL to DEGRADED only if the two messages before it on its channel had
wrong CRCs too. -/
def Consecutive (w : Watched Thread) (e : Event Thread) : Prop :=
  ∀ dataId, received w.stack e = some (dataId, false) →
    w.stack.safetyManager.state = .normal → (step w.stack e).safetyManager.state = .degraded →
    ∃ earlier, w.verdicts dataId = false :: false :: earlier

/-- A wrong CRC in NORMAL is at most the second one of its source since the last recovery, or the
two messages before it on its channel had wrong CRCs too. -/
def FewOrConsecutive (w : Watched Thread) (e : Event Thread) : Prop :=
  ∀ dataId, received w.stack e = some (dataId, false) →
    w.stack.safetyManager.state = .normal →
    w.failures (sourceName dataId) < 2 ∨ ∃ earlier, w.verdicts dataId = false :: false :: earlier

theorem consecutive_iff (w : Watched Thread) (e : Event Thread) (h : Counted w) :
    Consecutive w e ↔ FewOrConsecutive w e := by
  unfold Consecutive FewOrConsecutive
  refine forall_congr' fun dataId => forall_congr' fun hreceived => forall_congr' fun hnormal => ?_
  rw [received_state hreceived, crcFailure_state _ _ _ hnormal, h, imp_iff_not_or, not_le]

/-- In every run of messages, timeout checks, faults, recoveries, expiries and resets each CRC
failure that degrades the manager is the third in a row on its channel exactly when no channel
fails a third time since the last recovery without having failed three times in a row. -/
theorem crc_degradation_iff (totalNodes : Int) (dtcs : DTCManager Details)
    (events : List (Event Thread)) :
    Always watch (watched totalNodes dtcs) Consecutive events ↔
      Always watch (watched totalNodes dtcs) FewOrConsecutive events :=
  always_congr (fun _ => rfl) watch_counted consecutive_iff events

/-- Two wrong messages, each with a right one after it. -/
def interrupted : List (Event Nat) :=
  [.supervisor 0 (.registerChannel 0x1001 5000 3 0) 0,
    .supervisor 0 (.onMessageReceived ⟨0x1001, 0, 0, 0, 0⟩ [] 1) 1000,
    .supervisor 0 (.onMessageReceived ⟨0x1001, 0, 0, 0, 837718037⟩ [] 2) 2000,
    .supervisor 0 (.onMessageReceived ⟨0x1001, 1, 1, 0, 0⟩ [] 3) 3000,
    .supervisor 0 (.onMessageReceived ⟨0x1001, 1, 1, 0, 2291178823⟩ [] 4) 4000]

/-- The third wrong message degrades the manager all the same. -/
theorem crc_degradation_interrupted :
    ¬ Always watch (watched 8 DTCManager.empty) Consecutive
      (interrupted ++ [.supervisor 0 (.onMessageReceived ⟨0x1001, 2, 2, 0, 0⟩ [] 5) 5000]) := by
  intro h
  obtain ⟨earlier, hverdicts⟩ := h interrupted
    (.supervisor 0 (.onMessageReceived ⟨0x1001, 2, 2, 0, 0⟩ [] 5) 5000) [] rfl 0x1001
    (by decide +kernel) (by decide +kernel) (by decide +kernel)
  have hheard : (run watch (watched 8 DTCManager.empty) interrupted).verdicts 0x1001 =
      [true, false, true, false] := by
    decide +kernel
  rw [hheard] at hverdicts
  cases hverdicts

end Thread

end Genoh.MasterCrcFailures
