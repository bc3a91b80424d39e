import Mathlib.Algebra.Order.Field.Rat
import Mathlib.Tactic.Linarith
import Genoh.MasterCalls
import Genoh.MasterFaults

/-!
# What holds of the safety manager in every reachable state

Runs of faults, recoveries, resets and expiries of the escalation timer as atomic steps,
together with the timers that are pending. The state is bounded below by the offline nodes,
and the escalation timer is armed exactly in the safe state.
-/
namespace Genoh.MasterInvariants

open Genoh.Run Genoh.MasterSafety Genoh.MasterSafety.SafetyManager Genoh.MasterCalls

/-! ## The manager with its timers -/

structure Timed where
  sm : SafetyManager
  pending : List Nat

inductive Event where
  | fault (faultType : FaultType) (source : String) (details : Details)
  | recovery (source : String)
  | expiry (id : Nat)
  | reset

/-- A started timer is pending until it is cancelled. -/
def applyOp (pending : List Nat) : TimerOp → List Nat
  | .start id => pending ++ [id]
  | .cancel id => pending.erase id

/-- The manager after a method, and the timers after what the method asked of them. -/
def perform (w : Timed) (sm : SafetyManager) : Timed :=
  ⟨sm, ((newCalls w.sm sm).filterMap timerOp).foldl applyOp w.pending⟩

/-- Only a pending timer expires. -/
def step (w : Timed) : Event → Timed
  | .fault faultType source details => perform w (w.sm.notifyFault faultType source details).1
  | .recovery source => perform w (w.sm.notifyRecovery source).1
  | .expiry id =>
    if id ∈ w.pending then
      perform { w with pending := w.pending.erase id } w.sm.safeStateTimeoutHandler
    else w
  | .reset => perform w w.sm.reset

def start (totalNodes : Int) : Timed := ⟨SafetyManager.init totalNodes, []⟩

theorem perform_pending {w : Timed} {sm : SafetyManager} {ops : List TimerOp}
    (h : Did timerOp w.sm sm ops) : (perform w sm).pending = ops.foldl applyOp w.pending := by
  rw [perform, h.newCalls]

/-! ## The timer -/

/-- The timer is armed exactly in the safe state, and forgotten below it. -/
structure Armed (w : Timed) : Prop where
  safe : w.sm.state = .safeState → ∃ id, w.sm.safeStateTimer = some id ∧ w.pending = [id]
  other : w.sm.state ≠ .safeState → w.pending = []
  below : w.sm.state = .normal ∨ w.sm.state = .degraded → w.sm.safeStateTimer = none

theorem quiet_armed {w : Timed} {sm : SafetyManager} (h : Armed w) (hquiet : Quiet w.sm sm)
    (hsafe : sm.state = .safeState ↔ w.sm.state = .safeState)
    (hbelow : sm.state = .normal ∨ sm.state = .degraded →
      w.sm.state = .normal ∨ w.sm.state = .degraded) : Armed (perform w sm) := by
  have hpending : (perform w sm).pending = w.pending := perform_pending hquiet.did
  refine ⟨fun hs => ?_, fun hs => ?_, fun hs => ?_⟩
  · obtain ⟨id, htimer, hid⟩ := h.safe (hsafe.mp hs)
    exact ⟨id, hquiet.timer.trans htimer, hpending.trans hid⟩
  · exact hpending.trans (h.other fun hold => hs (hsafe.mpr hold))
  · exact hquiet.timer.trans (h.below (hbelow hs))

/-- After cancelling no timer is pending. -/
theorem cancel_pending {w : Timed} (h : Armed w) :
    (cancelOps w.sm).foldl applyOp w.pending = [] := by
  by_cases hsafe : w.sm.state = .safeState
  · obtain ⟨id, htimer, hpending⟩ := h.safe hsafe
    simp [cancelOps, htimer, hpending, applyOp]
  · rw [h.other hsafe, cancelOps]
    cases w.sm.safeStateTimer <;> rfl

theorem restarted_armed {w : Timed} {sm : SafetyManager} (h : Armed w)
    (hrestarted : Restarted w.sm sm) (hstate : sm.state = .safeState) : Armed (perform w sm) := by
  have hpending : (perform w sm).pending = [w.sm.timersStarted] := by
    rw [perform_pending hrestarted.did, List.foldl_append, cancel_pending h]
    rfl
  refine ⟨fun _ => ⟨w.sm.timersStarted, hrestarted.timer, hpending⟩, fun hs => absurd hstate hs,
    fun hs => ?_⟩
  have hs : sm.state = .normal ∨ sm.state = .degraded := hs
  rw [hstate] at hs
  obtain hs | hs := hs <;> cases hs

theorem cancelled_armed {w : Timed} {sm : SafetyManager} (h : Armed w)
    (hcancelled : Cancelled w.sm sm) (hstate : sm.state = .normal) : Armed (perform w sm) := by
  have hpending : (perform w sm).pending = [] := by
    rw [perform_pending hcancelled.did, cancel_pending h]
  refine ⟨fun hs => ?_, fun _ => hpending, fun _ => hcancelled.timer⟩
  have hs : sm.state = .safeState := hs
  rw [hstate] at hs
  cases hs

theorem start_armed (totalNodes : Int) : Armed (start totalNodes) where
  safe := nofun
  other _ := rfl
  below _ := rfl

theorem changed_armed {w : Timed} {sm : SafetyManager} (h : Armed w) (hchanged : Changed w.sm sm) :
    Armed (perform w sm) := by
  cases hchanged with
  | quietly quiet safe below => exact quiet_armed h quiet safe below
  | entering restarted old new => exact restarted_armed h restarted new
  | restoring cancelled new => exact cancelled_armed h cancelled new

theorem step_armed (w : Timed) (e : Event) (h : Armed w) : Armed (step w e) := by
  cases e with
  | fault faultType source details =>
    exact changed_armed h (notifyFault_changed w.sm faultType source details)
  | recovery source => exact changed_armed h (notifyRecovery_changed w.sm source)
  | expiry id =>
    rw [step]
    split
    · rename_i hid
      -- a pending timer: the state is the safe state, and the handler leaves it
      have hsafe : w.sm.state = .safeState := by
        by_contra hs
        rw [h.other hs] at hid
        cases hid
      obtain ⟨id', htimer, hpending⟩ := h.safe hsafe
      obtain ⟨hquiet, hstate⟩ := timeoutHandler_quiet w.sm
      rw [if_pos hsafe] at hstate
      rw [hpending, List.mem_singleton] at hid
      have hnone : (perform { w with pending := w.pending.erase id }
          w.sm.safeStateTimeoutHandler).pending = [] := by
        rw [perform_pending (w := { w with pending := w.pending.erase id }) hquiet.did, hpending, hid]
        simp
      refine ⟨fun hs => ?_, fun _ => hnone, fun hs => ?_⟩
      · have hs : w.sm.safeStateTimeoutHandler.state = .safeState := hs
        rw [hstate] at hs
        cases hs
      · have hs : w.sm.safeStateTimeoutHandler.state = .normal ∨
          w.sm.safeStateTimeoutHandler.state = .degraded := hs
        rw [hstate] at hs
        obtain hs | hs := hs <;> cases hs
    · exact h
  | reset => exact changed_armed h (reset_changed w.sm)

/-! ## The offline nodes -/

/-- With offline nodes the state is not NORMAL, and with half of the nodes offline it is the
safe state or beyond. -/
structure Bounded (totalNodes : Int) (sm : SafetyManager) : Prop where
  total : sm.totalNodes = totalNodes
  normal : sm.state = .normal → sm.offlineNodes = ∅
  half : sm.state = .normal ∨ sm.state = .degraded → 2 * (sm.offlineNodes.card : Int) < totalNodes

/-- The threshold on the percentage, on the counts. -/
theorem threshold_iff (sm : SafetyManager) (h : 0 < sm.totalNodes) :
    ∃ pct, sm.offlinePct = some pct ∧
      (pct ≥ offlinePercentThreshold ↔ sm.totalNodes ≤ 2 * (sm.offlineNodes.card : Int)) := by
  refine ⟨_, by rw [offlinePct, if_neg h.ne'], ?_⟩
  have hpos : (0 : ℚ) < sm.totalNodes := by exact_mod_cast h
  rw [offlinePercentThreshold, ge_iff_le, div_mul_eq_mul_div, le_div_iff₀ hpos]
  constructor
  · intro hle
    have : (sm.totalNodes : ℚ) ≤ 2 * (sm.offlineNodes.card : ℚ) := by linarith
    exact_mod_cast this
  · intro hle
    have : (sm.totalNodes : ℚ) ≤ 2 * (sm.offlineNodes.card : ℚ) := by exact_mod_cast hle
    linarith

/-- The state after a node went offline. -/
theorem offline_state (sm : SafetyManager) (source : String) (details : Details)
    (h : 0 < sm.totalNodes) :
    (sm.notifyFault .nodeOffline source details).1.state =
      if sm.totalNodes ≤ 2 * ((insert source sm.offlineNodes).card : Int) then
        if sm.state = .failSilent then .failSilent else .safeState
      else if sm.state = .normal then .degraded else sm.state := by
  obtain ⟨pct, hpct, hthreshold⟩ := threshold_iff
    { sm with offlineNodes := insert source sm.offlineNodes } h
  simp only [notifyFault, if_true, handleFault, handleNodeFault, hpct, hthreshold]
  change (if _ then _ else _ : SafetyManager).state = _
  cases hs : sm.state with
  | normal | degraded | safeState | failSilent =>
    simp only [reduceCtorEq, if_true, if_false]
    split
    · rw [transitionTo_state]
      simp only [transitionTo_state]
      decide
    · simp [transitionTo_state, isValidTransition, validTransitions]

theorem start_bounded (totalNodes : Int) (h : 0 < totalNodes) :
    Bounded totalNodes (start totalNodes).sm where
  total := rfl
  normal _ := rfl
  half _ := h

/-- The bounds survive a step that adds no offline node and leaves no state below them. -/
theorem Bounded.above {totalNodes : Int} {sm sm' : SafetyManager} (h : Bounded totalNodes sm)
    (htotal : sm'.totalNodes = sm.totalNodes) (hoffline : sm'.offlineNodes ⊆ sm.offlineNodes)
    (hnormal : sm'.state = .normal → sm.state = .normal)
    (hbelow : sm'.state = .normal ∨ sm'.state = .degraded →
      sm.state = .normal ∨ sm.state = .degraded) : Bounded totalNodes sm' where
  total := htotal.trans h.total
  normal hs := Finset.subset_empty.mp (h.normal (hnormal hs) ▸ hoffline)
  half hs := by
    have hcard := Finset.card_le_card hoffline
    have hhalf := h.half (hbelow hs)
    omega

theorem notifyFault_bounded {totalNodes : Int} {sm : SafetyManager} (hpos : 0 < totalNodes)
    (h : Bounded totalNodes sm) (faultType : FaultType) (source : String) (details : Details) :
    Bounded totalNodes (sm.notifyFault faultType source details).1 := by
  have hfaulted := notifyFault_faulted sm faultType source details
  have hoffline := (MasterFaults.notifyFault_books sm faultType source details).1
  by_cases hnode : faultType = .nodeOffline
  · subst hnode
    rw [if_pos rfl] at hoffline
    have hstate := offline_state sm source details (h.total ▸ hpos)
    rw [h.total] at hstate
    refine ⟨hfaulted.total.trans h.total, fun hs => ?_, fun hs => ?_⟩
    · rw [hstate] at hs
      exfalso
      revert hs
      split
      · split <;> decide
      · cases sm.state <;> decide
    · rw [hoffline]
      by_contra hhalf
      rw [hstate, if_pos (not_lt.mp hhalf)] at hs
      revert hs
      split <;> decide
  · rw [if_neg hnode] at hoffline
    refine h.above hfaulted.total hoffline.le ?_ ?_
    · intro hs
      cases hfaulted with
      | stays _ same => exact same ▸ hs
      | degrades _ old _ => exact old
      | escalates _ _ new =>
        rw [new] at hs
        cases hs
    · intro hs
      cases hfaulted with
      | stays _ same => exact same ▸ hs
      | degrades _ old _ => exact .inl old
      | escalates _ old _ => exact old

/-- A recovery restores NORMAL only without offline nodes. -/
theorem notifyRecovery_bounded {totalNodes : Int} {sm : SafetyManager} (hpos : 0 < totalNodes)
    (h : Bounded totalNodes sm) (source : String) :
    Bounded totalNodes (sm.notifyRecovery source).1 := by
  have hrecovered := notifyRecovery_recovered sm source
  have hoffline : (sm.notifyRecovery source).1.offlineNodes = sm.offlineNodes.erase source :=
    (MasterFaults.notifyRecovery_books sm source).1
  have hsubset : (sm.notifyRecovery source).1.offlineNodes ⊆ sm.offlineNodes :=
    hoffline ▸ Finset.erase_subset _ _
  by_cases hsame : (sm.notifyRecovery source).1.state = sm.state
  · exact h.above hrecovered.total hsubset (by rw [hsame]; exact id) (by rw [hsame]; exact id)
  · have hempty : (sm.notifyRecovery source).1.offlineNodes = ∅ := by
      rw [hoffline]
      by_contra hnone
      refine hsame ?_
      rw [MasterFaults.notifyRecovery_state]
      simp only [hnone, false_and, if_false]
      split
      · rename_i hs
        exact hs.symm
      · split
        · rename_i hs
          exact hs.symm
        · rfl
    refine ⟨hrecovered.total.trans h.total, fun _ => hempty, fun _ => ?_⟩
    rw [hempty]
    exact hpos

theorem step_bounded {totalNodes : Int} (hpos : 0 < totalNodes) (w : Timed) (e : Event)
    (h : Bounded totalNodes w.sm) : Bounded totalNodes (step w e).sm := by
  cases e with
  | fault faultType source details => exact notifyFault_bounded hpos h faultType source details
  | recovery source => exact notifyRecovery_bounded hpos h source
  | expiry id =>
    rw [step]
    split
    · obtain ⟨hquiet, hstate⟩ := timeoutHandler_quiet w.sm
      have hoffline := (MasterFaults.timeoutHandler_books w.sm).1
      refine h.above hquiet.total hoffline.le ?_ ?_
      · change w.sm.safeStateTimeoutHandler.state = .normal → _
        rw [hstate]
        split
        · nofun
        · exact fun hs => hs
      · change w.sm.safeStateTimeoutHandler.state = .normal ∨
          w.sm.safeStateTimeoutHandler.state = .degraded → _
        rw [hstate]
        split
        · nofun
        · exact fun hs => hs
    · exact h
  | reset =>
    obtain ⟨hcancelled, -⟩ := reset_cancelled w.sm
    have hempty : w.sm.reset.offlineNodes = ∅ := (MasterFaults.reset_books w.sm).1
    refine ⟨hcancelled.total.trans h.total, fun _ => hempty, fun _ => ?_⟩
    change 2 * (w.sm.reset.offlineNodes.card : Int) < totalNodes
    rw [hempty]
    exact hpos

/-! ## The order of states -/

/-- The states in order of severity. -/
def severity : SafetyState → Nat
  | .normal => 0
  | .degraded => 1
  | .safeState => 2
  | .failSilent => 3

theorem faulted_severity {before after : SafetyManager} (h : Faulted before after) :
    severity before.state ≤ severity after.state := by
  cases h with
  | stays _ same => rw [same]
  | degrades _ old new =>
    rw [old, new]
    decide
  | escalates _ old new =>
    rw [new]
    obtain old | old := old <;> rw [old] <;> decide

theorem failSilent_step (w : Timed) (e : Event) (h : w.sm.state = .failSilent) (he : e ≠ .reset) :
    (step w e).sm.state = .failSilent := by
  cases e with
  | fault faultType source details =>
    have hfaulted := notifyFault_faulted w.sm faultType source details
    cases hfaulted with
    | stays _ same => exact same.trans h
    | degrades _ old _ =>
      rw [h] at old
      cases old
    | escalates _ old _ =>
      rw [h] at old
      obtain old | old := old <;> cases old
  | recovery source =>
    have hstate := MasterFaults.notifyRecovery_state w.sm source
    rw [h] at hstate
    exact hstate
  | expiry id =>
    rw [step]
    split
    · obtain ⟨-, hstate⟩ := timeoutHandler_quiet w.sm
      rw [h] at hstate
      exact hstate
    · exact h
  | reset => exact absurd rfl he

/-! ## All together -/

/-- Offline nodes are seen in the state, faults never lower it, only a restart leaves
FAIL_SILENT, and exactly one timer is pending in the safe state and none elsewhere. -/
structure Sound (totalNodes : Int) (w : Timed) : Prop where
  offline : w.sm.offlineNodes.Nonempty → w.sm.state ≠ .normal
  half : totalNodes ≤ 2 * (w.sm.offlineNodes.card : Int) →
    w.sm.state = .safeState ∨ w.sm.state = .failSilent
  fault : ∀ faultType source details,
    severity w.sm.state ≤ severity (step w (.fault faultType source details)).sm.state
  final : w.sm.state = .failSilent → ∀ e, e ≠ .reset → (step w e).sm.state = .failSilent
  timer : w.sm.state = .safeState → ∃ id, w.pending = [id]
  idle : w.sm.state ≠ .safeState → w.pending = []

/-- Every reachable state is sound. -/
theorem reachable_sound (totalNodes : Int) (hpos : 0 < totalNodes) (events : List Event) :
    Sound totalNodes (run step (start totalNodes) events) := by
  have hbounded := run_invariant (I := fun w => Bounded totalNodes w.sm)
    (start_bounded totalNodes hpos) (fun w e => step_bounded hpos w e) events
  have harmed := run_invariant (start_armed totalNodes) step_armed events
  generalize run step (start totalNodes) events = w at hbounded harmed
  refine ⟨fun hsome hs => ?_, fun hhalf => ?_, fun faultType source details => ?_,
    fun hs e he => failSilent_step w e hs he, fun hs => ?_, harmed.other⟩
  · rw [hbounded.normal hs] at hsome
    exact Finset.not_nonempty_empty hsome
  · have hnot : ¬ (w.sm.state = .normal ∨ w.sm.state = .degraded) :=
      fun hs => absurd (hbounded.half hs) (not_lt.mpr hhalf)
    revert hnot
    cases w.sm.state <;> decide
  · exact faulted_severity (notifyFault_faulted w.sm faultType source details)
  · obtain ⟨id, -, hpending⟩ := harmed.safe hs
    exact ⟨id, hpending⟩

theorem reachable_sound_eight :
    Sound 8 (run step (start 8) [.fault .nodeOffline "n1" [], .fault .flowError "monitor" [],
      .expiry 0, .reset]) :=
  reachable_sound 8 (by decide) _

end Genoh.MasterInvariants
