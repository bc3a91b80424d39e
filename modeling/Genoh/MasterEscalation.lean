import Mathlib.Algebra.Order.Field.Rat
import Mathlib.Algebra.Order.Ring.NNRat
import Genoh.MasterCalls
import Genoh.Run

/-!
# Escalation to FAIL_SILENT

The escalation timers of the safety manager as threads: a timer that is due fires, and its
handler then waits for the manager's lock while other threads may run. Cancelling a timer that
has fired does nothing. Time is counted in seconds.
-/
namespace Genoh.MasterEscalation

open Genoh.Run Genoh.MasterSafety Genoh.MasterSafety.SafetyManager Genoh.MasterCalls

/-- `SAFE_STATE_TIMEOUT_SEC`. -/
def safeStateTimeoutSec : ℚ≥0 := 60

structure Timer where
  id : Nat
  startedAt : ℚ≥0
  deriving DecidableEq

/-- The manager, the clock, the timers that run and those whose handlers wait for the lock, and
the instant of the latest entry into the safe state. -/
structure Runtime where
  sm : SafetyManager
  now : ℚ≥0
  running : List Timer
  fired : List Timer
  entered : ℚ≥0

inductive Event where
  | elapse (seconds : ℚ≥0)
  | fire (timer : Timer)
  | handle (timer : Timer)
  | fault (faultType : FaultType) (source : String) (details : Details)
  | recovery (source : String)
  | reset

def applyOp (now : ℚ≥0) (running : List Timer) : TimerOp → List Timer
  | .start id => running ++ [⟨id, now⟩]
  | .cancel id => running.filter (·.id ≠ id)

/-- The runtime after a method that ran under the lock. -/
def perform (r : Runtime) (sm : SafetyManager) : Runtime :=
  { r with
    sm := sm
    running := ((newCalls r.sm sm).filterMap timerOp).foldl (applyOp r.now) r.running
    entered := if r.sm.state ≠ .safeState ∧ sm.state = .safeState then r.now else r.entered }

/-- A timer fires at some time after it is due. -/
def step (r : Runtime) : Event → Runtime
  | .elapse seconds => { r with now := r.now + seconds }
  | .fire timer =>
    if timer ∈ r.running ∧ timer.startedAt + safeStateTimeoutSec ≤ r.now then
      { r with running := r.running.erase timer, fired := r.fired ++ [timer] }
    else r
  | .handle timer =>
    if timer ∈ r.fired then
      perform { r with fired := r.fired.erase timer } r.sm.safeStateTimeoutHandler
    else r
  | .fault faultType source details => perform r (r.sm.notifyFault faultType source details).1
  | .recovery source => perform r (r.sm.notifyRecovery source).1
  | .reset => perform r r.sm.reset

def start (totalNodes : Int) : Runtime := ⟨SafetyManager.init totalNodes, 0, [], [], 0⟩

/-- A handler moves the manager to FAIL_SILENT only from an episode of the safe state that has
lasted for the timeout. -/
def OwnEpisode (r : Runtime) (e : Event) : Prop :=
  ∀ timer, e = .handle timer → r.sm.state ≠ .failSilent → (step r e).sm.state = .failSilent →
    r.sm.state = .safeState ∧ r.entered + safeStateTimeoutSec ≤ r.now

/-- A handler that gets the lock in the safe state is that of the timer which the manager still
holds, or the episode is old enough by itself. -/
def CurrentTimer (r : Runtime) (e : Event) : Prop :=
  ∀ timer, e = .handle timer → timer ∈ r.fired → r.sm.state = .safeState →
    r.sm.safeStateTimer = some timer.id ∨ r.entered + safeStateTimeoutSec ≤ r.now

/-- Timers have distinct numbers, those that fired were due, and the manager's own timer is as
old as the episode. -/
structure Timely (r : Runtime) : Prop where
  numbered : ∀ t, t ∈ r.running ∨ t ∈ r.fired → t.id < r.sm.timersStarted
  due : ∀ t ∈ r.fired, t.startedAt + safeStateTimeoutSec ≤ r.now
  current : r.sm.state = .safeState → ∀ t, t ∈ r.running ∨ t ∈ r.fired →
    r.sm.safeStateTimer = some t.id → t.startedAt = r.entered

theorem perform_running {r : Runtime} {sm : SafetyManager} {ops : List TimerOp}
    (h : Did timerOp r.sm sm ops) : (perform r sm).running = ops.foldl (applyOp r.now) r.running := by
  rw [perform, h.newCalls]

theorem quiet_timely {r : Runtime} {sm : SafetyManager} (h : Timely r) (hquiet : Quiet r.sm sm)
    (hsafe : sm.state = .safeState → r.sm.state = .safeState) : Timely (perform r sm) := by
  have hrunning : (perform r sm).running = r.running := perform_running hquiet.did
  refine ⟨fun t ht => ?_, h.due, fun hs t ht htimer => ?_⟩
  · rw [hrunning] at ht
    exact lt_of_lt_of_eq (h.numbered t ht) hquiet.started.symm
  · rw [hrunning] at ht
    have hold := hsafe hs
    have hentered : (perform r sm).entered = r.entered := if_neg fun hnew => hnew.1 hold
    rw [hentered]
    exact h.current hold t ht (hquiet.timer.symm.trans htimer)

theorem cancelOps_sublist (r : Runtime) :
    ((cancelOps r.sm).foldl (applyOp r.now) r.running).Sublist r.running := by
  rw [cancelOps]
  cases r.sm.safeStateTimer with
  | none => exact List.Sublist.refl _
  | some id => exact List.filter_sublist

theorem restarted_timely {r : Runtime} {sm : SafetyManager} (h : Timely r)
    (hrestarted : Restarted r.sm sm) (hold : r.sm.state ≠ .safeState)
    (hnew : sm.state = .safeState) : Timely (perform r sm) := by
  have hrunning := perform_running hrestarted.did
  rw [List.foldl_append] at hrunning
  have hmem : ∀ t, t ∈ (perform r sm).running ∨ t ∈ r.fired →
      (t ∈ r.running ∨ t ∈ r.fired) ∨ t = ⟨r.sm.timersStarted, r.now⟩ := by
    intro t ht
    rw [hrunning] at ht
    obtain ht | ht := ht
    · obtain ht | ht := List.mem_append.mp ht
      · exact .inl (.inl ((cancelOps_sublist r).mem ht))
      · exact .inr (List.mem_singleton.mp ht)
    · exact .inl (.inr ht)
  refine ⟨fun t ht => ?_, h.due, fun _ t ht htimer => ?_⟩
  · change t.id < sm.timersStarted
    rw [hrestarted.started]
    obtain hin | rfl := hmem t ht
    · exact Nat.lt_succ_of_lt (h.numbered t hin)
    · exact Nat.lt_succ_self _
  · have hentered : (perform r sm).entered = r.now := if_pos ⟨hold, hnew⟩
    have htimer : sm.safeStateTimer = some t.id := htimer
    rw [hrestarted.timer, Option.some.injEq] at htimer
    rw [hentered]
    obtain hin | rfl := hmem t ht
    · -- an older timer has a smaller number
      exact absurd htimer (h.numbered t hin).ne'
    · rfl

theorem cancelled_timely {r : Runtime} {sm : SafetyManager} (h : Timely r)
    (hcancelled : Cancelled r.sm sm) (hnew : sm.state = .normal) : Timely (perform r sm) := by
  have hrunning := perform_running hcancelled.did
  refine ⟨fun t ht => ?_, h.due, fun hs => ?_⟩
  · rw [hrunning] at ht
    refine lt_of_lt_of_eq (h.numbered t ?_) hcancelled.started.symm
    exact ht.imp_left (cancelOps_sublist r).mem
  · have hs : sm.state = .safeState := hs
    rw [hnew] at hs
    cases hs

theorem start_timely (totalNodes : Int) : Timely (start totalNodes) :=
  ⟨nofun, nofun, nofun⟩

theorem changed_timely {r : Runtime} {sm : SafetyManager} (h : Timely r)
    (hchanged : Changed r.sm sm) : Timely (perform r sm) := by
  cases hchanged with
  | quietly quiet safe below => exact quiet_timely h quiet safe.mp
  | entering restarted old new =>
    refine restarted_timely h restarted ?_ new
    obtain old | old := old <;> rw [old] <;> decide
  | restoring cancelled new => exact cancelled_timely h cancelled new

theorem step_timely (r : Runtime) (e : Event) (h : Timely r) : Timely (step r e) := by
  cases e with
  | elapse seconds => exact ⟨h.numbered, fun t ht => (h.due t ht).trans le_self_add, h.current⟩
  | fire timer =>
    rw [step]
    split
    · rename_i hfires
      obtain ⟨hrunning, hdue⟩ := hfires
      have hmem : ∀ t, t ∈ r.running.erase timer ∨ t ∈ r.fired ++ [timer] →
          t ∈ r.running ∨ t ∈ r.fired := by
        intro t ht
        obtain ht | ht := ht
        · exact .inl (List.mem_of_mem_erase ht)
        · obtain ht | ht := List.mem_append.mp ht
          · exact .inr ht
          · exact .inl (List.mem_singleton.mp ht ▸ hrunning)
      refine ⟨fun t ht => h.numbered t (hmem t ht), fun t ht => ?_,
        fun hs t ht => h.current hs t (hmem t ht)⟩
      obtain ht | ht := List.mem_append.mp ht
      · exact h.due t ht
      · exact List.mem_singleton.mp ht ▸ hdue
    · exact h
  | handle timer =>
    rw [step]
    split
    · have hmem : ∀ t, t ∈ r.fired.erase timer → t ∈ r.fired := fun t => List.mem_of_mem_erase
      have htaken : Timely { r with fired := r.fired.erase timer } :=
        ⟨fun t ht => h.numbered t (ht.imp_right (hmem t)), fun t ht => h.due t (hmem t ht),
          fun hs t ht => h.current hs t (ht.imp_right (hmem t))⟩
      obtain ⟨hquiet, hstate⟩ := timeoutHandler_quiet r.sm
      refine quiet_timely htaken hquiet fun hs => ?_
      rw [hstate] at hs
      split at hs
      · cases hs
      · exact hs
    · exact h
  | fault faultType source details =>
    exact changed_timely h (notifyFault_changed r.sm faultType source details)
  | recovery source => exact changed_timely h (notifyRecovery_changed r.sm source)
  | reset => exact changed_timely h (reset_changed r.sm)

/-- What the handler does once it has the lock. -/
theorem handle_state (r : Runtime) (timer : Timer) (h : timer ∈ r.fired) :
    (step r (.handle timer)).sm.state =
      if r.sm.state = .safeState then .failSilent else r.sm.state := by
  rw [step, if_pos h]
  exact (timeoutHandler_quiet r.sm).2

theorem ownEpisode_iff (r : Runtime) (e : Event) (h : Timely r) :
    OwnEpisode r e ↔ CurrentTimer r e := by
  constructor
  · rintro hown timer rfl hfired hsafe
    have hstate := handle_state r timer hfired
    rw [if_pos hsafe] at hstate
    exact .inr (hown timer rfl (by rw [hsafe]; decide) hstate).2
  · rintro hcurrent timer rfl hnot hsilent
    have hfired : timer ∈ r.fired := by
      by_contra hnone
      rw [step, if_neg hnone] at hsilent
      exact hnot hsilent
    rw [handle_state r timer hfired] at hsilent
    have hsafe : r.sm.state = .safeState := by
      by_contra hother
      rw [if_neg hother] at hsilent
      exact hnot hsilent
    refine ⟨hsafe, ?_⟩
    obtain htimer | hold := hcurrent timer rfl hfired hsafe
    · rw [← h.current hsafe timer (.inr hfired) htimer]
      exact h.due timer hfired
    · exact hold

/-- In every interleaving each escalation ends an episode of its own length exactly when each
handler that gets the lock in the safe state belongs to the current timer, or finds an episode
that is old enough anyway. -/
theorem escalation_own_episode_iff (totalNodes : Int) (events : List Event) :
    Always step (start totalNodes) OwnEpisode events ↔
      Always step (start totalNodes) CurrentTimer events :=
  always_congr (start_timely totalNodes) step_timely ownEpisode_iff events

/-- A handler that fired in one episode, and got the lock at the start of the next. -/
theorem escalation_late_handler :
    ¬ Always step (start 8) OwnEpisode
      [.fault .plcaBeaconLost "bus" [], .fault .flowError "monitor" [], .elapse 60, .fire ⟨0, 0⟩,
        .recovery "bus", .fault .plcaBeaconLost "bus" [], .fault .flowError "monitor" [],
        .handle ⟨0, 0⟩] := by
  intro h
  have hown := h [.fault .plcaBeaconLost "bus" [], .fault .flowError "monitor" [], .elapse 60,
    .fire ⟨0, 0⟩, .recovery "bus", .fault .plcaBeaconLost "bus" [], .fault .flowError "monitor" []]
    (.handle ⟨0, 0⟩) [] rfl ⟨0, 0⟩ rfl (by decide +kernel) (by decide +kernel)
  revert hown
  decide +kernel

end Genoh.MasterEscalation
