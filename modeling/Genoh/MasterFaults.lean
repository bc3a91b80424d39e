import Genoh.MasterSafety
import Genoh.Run

/-!
# Faults and recoveries of the master

Runs of the safety manager from construction: faults of every type from any source,
recoveries, expiries of the escalation timer and resets, in any order. A fault asks for
a transition that the table of valid transitions may refuse, and a recovery consults two
of the books only, the offline nodes and the CRC failures.
-/
namespace Genoh.MasterFaults

open Genoh.Run Genoh.MasterSafety Genoh.MasterSafety.SafetyManager

inductive Event where
  | fault (faultType : FaultType) (source : String) (details : Details)
  | recovery (source : String)
  | timerExpired
  | reset
  deriving DecidableEq, Repr

def step (sm : SafetyManager) : Event → SafetyManager
  | .fault faultType source details => (sm.notifyFault faultType source details).1
  | .recovery source => (sm.notifyRecovery source).1
  | .timerExpired => sm.safeStateTimeoutHandler
  | .reset => sm.reset

/-! ## Critical faults -/

/-- The faults that call for the safe state at once. -/
def Critical (faultType : FaultType) (details : Details) : Prop :=
  faultType = .flowError ∨ faultType = .watchdogExpired ∨
    faultType = .timeout ∧ (details.lookup "asil").getD "" = "ASIL-D"

/-- All of them ask for the same transition. -/
theorem critical_handleFault (sm : SafetyManager) (faultType : FaultType) (source : String)
    (details : Details) (h : Critical faultType details) :
    sm.handleFault faultType source details =
      some (sm.transitionTo .safeState faultType source details) := by
  obtain rfl | rfl | ⟨rfl, hasil⟩ := h
  · rfl
  · rfl
  · simp only [handleFault, handleTimeout, hasil, if_true]

theorem critical_state (sm : SafetyManager) (faultType : FaultType) (source : String)
    (details : Details) (h : Critical faultType details) :
    (sm.notifyFault faultType source details).1.state =
      if isValidTransition sm.state .safeState then .safeState else sm.state := by
  have hnode : faultType ≠ .nodeOffline := by
    obtain rfl | rfl | ⟨rfl, -⟩ := h <;> decide
  simp only [notifyFault, if_neg hnode, critical_handleFault sm faultType source details h]
  exact transitionTo_state sm .safeState faultType source details

/-- After every run a critical fault leads to the safe state or finds it reached, except
that NORMAL refuses the transition. -/
theorem critical_fault_iff (totalNodes : Int) (events : List Event) (faultType : FaultType)
    (source : String) (details : Details) (h : Critical faultType details) :
    let sm := run step (SafetyManager.init totalNodes) events
    let after := (sm.notifyFault faultType source details).1.state
    (after = .safeState ∨ after = .failSilent) ↔ sm.state ≠ .normal := by
  intro sm after
  have hafter : after = if isValidTransition sm.state .safeState then .safeState else sm.state :=
    critical_state sm faultType source details h
  rw [hafter]
  cases sm.state <;> decide

theorem critical_fault_iff_flow :
    let sm := run step (SafetyManager.init 8) [.fault .nodeOffline "n1" []]
    let after := (sm.notifyFault .flowError "flow_monitor" []).1.state
    (after = .safeState ∨ after = .failSilent) ↔ sm.state ≠ .normal :=
  critical_fault_iff 8 [.fault .nodeOffline "n1" []] .flowError "flow_monitor" [] (.inl rfl)

/-- A watchdog expiry in NORMAL changes nothing. -/
theorem watchdog_dropped :
    ¬ (let after := ((run step (SafetyManager.init 8) []).notifyFault .watchdogExpired
        "watchdog" []).1.state
      after = .safeState ∨ after = .failSilent) := by
  decide

/-! ## What the books record -/

/-- The manager, the faults with no later recovery of their source and no later reset, and
the sources with a fault since the state last left NORMAL and no later recovery. -/
structure Watched where
  sm : SafetyManager
  pending : Finset (FaultType × String)
  outstanding : Finset String

def watch (w : Watched) (e : Event) : Watched :=
  let sm := step w.sm e
  match e with
  | .fault faultType source _ =>
    let left := w.sm.state = .normal ∧ sm.state ≠ .normal
    ⟨sm, insert (faultType, source) w.pending,
      if left then {source} else insert source w.outstanding⟩
  | .recovery source =>
    ⟨sm, w.pending.filter (·.2 ≠ source), w.outstanding.erase source⟩
  | .timerExpired => ⟨sm, w.pending, w.outstanding⟩
  | .reset => ⟨sm, ∅, ∅⟩

def start (totalNodes : Int) : Watched := ⟨SafetyManager.init totalNodes, ∅, ∅⟩

/-- The books hold the pending faults of their two types, whatever the state. -/
structure Booked (w : Watched) : Prop where
  offline : ∀ source, source ∈ w.sm.offlineNodes ↔ (FaultType.nodeOffline, source) ∈ w.pending
  crc : ∀ source, source ∈ w.sm.crcFailureCounts ↔ (FaultType.crcFailure, source) ∈ w.pending

section Books

variable (sm : SafetyManager) (faultType : FaultType) (source : String) (details : Details)

/-- The offline nodes are booked before the handler runs, the CRC failures by it. -/
theorem handleFault_books (sm' : SafetyManager)
    (h : sm.handleFault faultType source details = some sm') :
    sm'.offlineNodes = sm.offlineNodes ∧ sm'.crcFailureCounts =
      if faultType = .crcFailure then bump sm.crcFailureCounts source else sm.crcFailureCounts := by
  have hkeep : ∀ {before after : SafetyManager}, Requests source details before after →
      after.offlineNodes = before.offlineNodes ∧
        after.crcFailureCounts = before.crcFailureCounts := by
    intro before after hrequests
    induction hrequests with
    | none => exact ⟨rfl, rfl⟩
    | more new faultType hnew rest ih => simpa using ih
  exact hkeep (handleFault_requests h)

theorem notifyFault_books :
    (sm.notifyFault faultType source details).1.offlineNodes =
        (if faultType = .nodeOffline then insert source sm.offlineNodes else sm.offlineNodes) ∧
      (sm.notifyFault faultType source details).1.crcFailureCounts =
        if faultType = .crcFailure then bump sm.crcFailureCounts source
        else sm.crcFailureCounts := by
  have hmark : (if faultType = .nodeOffline then
      { sm with offlineNodes := insert source sm.offlineNodes } else sm).offlineNodes =
      if faultType = .nodeOffline then insert source sm.offlineNodes else sm.offlineNodes := by
    split <;> rfl
  have hcrc : (if faultType = .nodeOffline then
      { sm with offlineNodes := insert source sm.offlineNodes } else sm).crcFailureCounts =
      sm.crcFailureCounts := by
    split <;> rfl
  simp only [notifyFault]
  generalize (if faultType = .nodeOffline then
    { sm with offlineNodes := insert source sm.offlineNodes } else sm) = marked at hmark hcrc ⊢
  cases hhandle : marked.handleFault faultType source details with
  | none =>
    -- an offline node is booked before the division
    refine ⟨hmark, ?_⟩
    simpa [handleFault_none hhandle] using hcrc
  | some sm' =>
    obtain ⟨hoffline, hbooked⟩ := handleFault_books marked faultType source details sm' hhandle
    rw [hcrc] at hbooked
    exact ⟨hoffline.trans hmark, hbooked⟩

theorem notifyRecovery_books :
    (sm.notifyRecovery source).1.offlineNodes = sm.offlineNodes.erase source ∧
      (sm.notifyRecovery source).1.crcFailureCounts = sm.crcFailureCounts.erase source := by
  unfold notifyRecovery
  dsimp only
  split
  · split <;> simp
  · split
    · split <;> simp
    · simp

/-- Whether a recovery restores NORMAL is read off the books of the other sources. -/
theorem notifyRecovery_state :
    (sm.notifyRecovery source).1.state =
      if sm.state = .degraded then
        if sm.offlineNodes.erase source = ∅ ∧ (sm.crcFailureCounts.erase source).keys = [] then
          .normal
        else .degraded
      else if sm.state = .safeState then
        if sm.offlineNodes.erase source = ∅ then .normal else .safeState
      else sm.state := by
  unfold notifyRecovery
  dsimp only
  by_cases hdegraded : sm.state = .degraded
  · rw [if_pos hdegraded, if_pos hdegraded]
    split
    · rw [call_state, transitionTo_state, hdegraded]
      rfl
    · exact hdegraded
  · rw [if_neg hdegraded, if_neg hdegraded]
    by_cases hsafe : sm.state = .safeState
    · rw [if_pos hsafe, if_pos hsafe]
      split
      · rw [call_state, transitionTo_state, cancel_state, hsafe]
        rfl
      · exact hsafe
    · rw [if_neg hsafe, if_neg hsafe]
      rfl

theorem reset_books : sm.reset.offlineNodes = ∅ ∧ sm.reset.crcFailureCounts = ∅ := by
  unfold SafetyManager.reset
  dsimp only
  split <;> simp

theorem timeoutHandler_books :
    sm.safeStateTimeoutHandler.offlineNodes = sm.offlineNodes ∧
      sm.safeStateTimeoutHandler.crcFailureCounts = sm.crcFailureCounts := by
  unfold safeStateTimeoutHandler
  split <;> simp

end Books

theorem start_booked (totalNodes : Int) : Booked (start totalNodes) :=
  ⟨by simp [start, SafetyManager.init], by simp [start, SafetyManager.init]⟩

theorem watch_booked (w : Watched) (e : Event) (h : Booked w) : Booked (watch w e) := by
  cases e with
  | fault faultType source details =>
    obtain ⟨hoffline, hcrc⟩ := notifyFault_books w.sm faultType source details
    have hsm : (watch w (.fault faultType source details)).sm =
        (w.sm.notifyFault faultType source details).1 := rfl
    have hpending : (watch w (.fault faultType source details)).pending =
        insert (faultType, source) w.pending := rfl
    refine ⟨fun s => ?_, fun s => ?_⟩
    · rw [hsm, hpending, hoffline, Finset.mem_insert, Prod.mk.injEq,
        eq_comm (a := FaultType.nodeOffline), ← h.offline]
      split <;> simp [*]
    · rw [hsm, hpending, hcrc, Finset.mem_insert, Prod.mk.injEq,
        eq_comm (a := FaultType.crcFailure), ← h.crc]
      split <;> simp [bump, *]
  | recovery source =>
    obtain ⟨hoffline, hcrc⟩ := notifyRecovery_books w.sm source
    have hsm : (watch w (.recovery source)).sm = (w.sm.notifyRecovery source).1 := rfl
    have hpending : (watch w (.recovery source)).pending =
        w.pending.filter fun p => p.2 ≠ source := rfl
    refine ⟨fun s => ?_, fun s => ?_⟩
    · rw [hsm, hpending, hoffline, Finset.mem_erase, h.offline, Finset.mem_filter, and_comm]
    · rw [hsm, hpending, hcrc, AList.mem_erase, h.crc, Finset.mem_filter, and_comm]
  | timerExpired =>
    obtain ⟨hoffline, hcrc⟩ := timeoutHandler_books w.sm
    exact ⟨fun s => by rw [watch, step, hoffline]; exact h.offline s,
      fun s => by rw [watch, step, hcrc]; exact h.crc s⟩
  | reset =>
    obtain ⟨hoffline, hcrc⟩ := reset_books w.sm
    exact ⟨fun s => by simp [watch, step, hoffline], fun s => by simp [watch, step, hcrc]⟩

/-! ## Recoveries -/

/-- A recovery restores NORMAL only when no source with a fault since the state left NORMAL
still waits for its own recovery. -/
def RecoveryComplete (w : Watched) (e : Event) : Prop :=
  ∀ source, e = .recovery source → w.sm.state ≠ .normal → (watch w e).sm.state = .normal →
    (watch w e).outstanding = ∅

/-- Before the recovery the state is final or NORMAL, or only the recovering source has an
outstanding fault, or another source holds the state back: one that went offline, or in
DEGRADED one with a CRC failure. -/
def HeldBack (w : Watched) (e : Event) : Prop :=
  ∀ source, e = .recovery source →
    w.sm.state = .normal ∨ w.sm.state = .failSilent ∨ (∀ s ∈ w.outstanding, s = source) ∨
    (∃ s, s ≠ source ∧ (FaultType.nodeOffline, s) ∈ w.pending) ∨
    w.sm.state = .degraded ∧ ∃ s, s ≠ source ∧ (FaultType.crcFailure, s) ∈ w.pending

theorem erase_offline_iff (w : Watched) (h : Booked w) (source : String) :
    w.sm.offlineNodes.erase source = ∅ ↔
      ¬ ∃ s, s ≠ source ∧ (FaultType.nodeOffline, s) ∈ w.pending := by
  rw [Finset.eq_empty_iff_forall_notMem, not_exists]
  simp only [Finset.mem_erase, h.offline]

theorem erase_crc_iff (w : Watched) (h : Booked w) (source : String) :
    (w.sm.crcFailureCounts.erase source).keys = [] ↔
      ¬ ∃ s, s ≠ source ∧ (FaultType.crcFailure, s) ∈ w.pending := by
  rw [List.eq_nil_iff_forall_not_mem, not_exists]
  simp only [← AList.mem_keys, AList.mem_erase, h.crc]

/-- A recovery outside NORMAL restores it exactly when no book holds it back. -/
theorem recovery_normal_iff (w : Watched) (h : Booked w) (source : String)
    (hstate : w.sm.state ≠ .normal) :
    (watch w (.recovery source)).sm.state = .normal ↔
      w.sm.state ≠ .failSilent ∧
      (¬ ∃ s, s ≠ source ∧ (FaultType.nodeOffline, s) ∈ w.pending) ∧
      (w.sm.state = .degraded → ¬ ∃ s, s ≠ source ∧ (FaultType.crcFailure, s) ∈ w.pending) := by
  have hsm : (watch w (.recovery source)).sm.state = (w.sm.notifyRecovery source).1.state := rfl
  rw [hsm, notifyRecovery_state, ← erase_offline_iff w h, ← erase_crc_iff w h]
  cases hs : w.sm.state with
  | normal => exact absurd hs hstate
  | degraded =>
    simp only [if_true]
    split <;> simp_all
  | safeState =>
    simp only [reduceCtorEq, if_false, if_true]
    split <;> simp_all
  | failSilent => simp

theorem outstanding_empty_iff (w : Watched) (source : String) :
    (watch w (.recovery source)).outstanding = ∅ ↔ ∀ s ∈ w.outstanding, s = source := by
  have hout : (watch w (.recovery source)).outstanding = w.outstanding.erase source := rfl
  rw [hout, Finset.eq_empty_iff_forall_notMem]
  constructor
  · intro h s hs
    by_contra hne
    exact h s (Finset.mem_erase.mpr ⟨hne, hs⟩)
  · intro h s hs
    obtain ⟨hne, hs⟩ := Finset.mem_erase.mp hs
    exact hne (h s hs)

theorem recoveryComplete_iff (w : Watched) (e : Event) (h : Booked w) :
    RecoveryComplete w e ↔ HeldBack w e := by
  unfold RecoveryComplete HeldBack
  refine forall_congr' fun source => forall_congr' fun he => ?_
  subst he
  by_cases hnormal : w.sm.state = .normal
  · simp [hnormal]
  · rw [recovery_normal_iff w h source hnormal, outstanding_empty_iff]
    generalize (∃ s, s ≠ source ∧ (FaultType.nodeOffline, s) ∈ w.pending) = offline
    generalize (∃ s, s ≠ source ∧ (FaultType.crcFailure, s) ∈ w.pending) = crc
    generalize (∀ s ∈ w.outstanding, s = source) = only
    tauto

/-- Every recovery of a run that restores NORMAL is complete exactly when each recovery of
the run meets one of the conditions that hold it back or leave nothing outstanding. -/
theorem recovery_complete_iff (totalNodes : Int) (events : List Event) :
    Always watch (start totalNodes) RecoveryComplete events ↔
      Always watch (start totalNodes) HeldBack events :=
  always_congr (start_booked totalNodes) watch_booked recoveryComplete_iff events

/-- A timeout of one source is forgotten when another one recovers. -/
theorem recovery_forgets_timeout :
    ¬ Always watch (start 8) RecoveryComplete
      [.fault .timeout "data_id=0x1001" [], .recovery "n2"] := by
  intro h
  have hstep := h [.fault .timeout "data_id=0x1001" []] (.recovery "n2") [] rfl "n2" rfl
  revert hstep
  decide

end Genoh.MasterFaults
