import Genoh.FirmwareSafety
import Genoh.Run

/-!
# Runs of the firmware safety manager

Reports and ticks drive the state machine in any order from `safety_init`. The faults
counted in `total_faults` are those of the whole run, not those of the current stay in
DEGRADED, and this decides how many additional faults an episode tolerates.
-/
namespace Genoh.FirmwareBudget

open Genoh.FirmwareSafety Genoh.Run

/-- One call into the safety manager, with the tick it reads or is given. -/
inductive Event where
  | fault (type : FaultType) (tickCount : BitVec 32)
  | ok
  | tick (currentTick : BitVec 32)
  deriving DecidableEq, Repr

def Event.isFault : Event → Bool
  | .fault _ _ => true
  | _ => false

/-- The safety manager with its outputs, the number of faults reported in the run so far
and the number reported after the latest entry into DEGRADED. -/
structure Watched where
  sm : SafetyManager
  leds : Leds
  reported : Nat
  sinceEntry : Nat
  deriving DecidableEq, Repr

/-- The call itself. -/
def call (sm : SafetyManager) (leds : Leds) : Event → SafetyManager × Leds
  | .fault type tickCount => safetyReportFault sm leds type tickCount
  | .ok => (safetyReportOk sm, leds)
  | .tick currentTick => safetyTick sm leds currentTick

def step (w : Watched) (e : Event) : Watched :=
  let next := call w.sm w.leds e
  let entered := w.sm.state ≠ .degraded ∧ next.1.state = .degraded
  { sm := next.1
    leds := next.2
    reported := w.reported + e.isFault.toNat
    sinceEntry := if entered then 0 else w.sinceEntry + e.isFault.toNat }

/-- After `safety_init`, with the pins as the board left them. -/
def start (leds : Leds) : Watched := ⟨safetyInit, leds, 0, 0⟩

@[simp] theorem step_sm (w : Watched) (e : Event) : (step w e).sm = (call w.sm w.leds e).1 := rfl

@[simp] theorem step_reported (w : Watched) (e : Event) :
    (step w e).reported = w.reported + e.isFault.toNat := rfl

/-! ## The total counts the whole run -/

/-- Until the node falls silent `total_faults` is the number of reports, modulo 2^32. -/
def TotalCounts (w : Watched) : Prop :=
  w.sm.state ≠ .failSilent → w.sm.totalFaults = BitVec.ofNat 32 w.reported

theorem start_totalCounts (leds : Leds) : TotalCounts (start leds) := fun _ => rfl

/-- FAIL_SILENT is final, so a state that still counts comes from one that did. -/
theorem call_failSilent (sm : SafetyManager) (leds : Leds) (e : Event)
    (h : sm.state = .failSilent) : (call sm leds e).1.state = .failSilent := by
  cases e with
  | fault type tickCount => simp [call, h]
  | ok =>
    obtain hsame | ⟨hdeg, _⟩ := safetyReportOk_state sm
    · rw [call, hsame, h]
    · rw [h] at hdeg
      cases hdeg
  | tick currentTick =>
    obtain hsame | ⟨hdeg, _⟩ := safetyTick_cases sm leds currentTick
    · rw [call, hsame, h]
    · rw [h] at hdeg
      cases hdeg

theorem call_total (sm : SafetyManager) (leds : Leds) (e : Event) (h : sm.state ≠ .failSilent) :
    (call sm leds e).1.totalFaults = sm.totalFaults + BitVec.ofNat 32 e.isFault.toNat := by
  cases e with
  | fault type tickCount => exact (safetyReportFault_counters sm leds type tickCount h).1
  | ok => simp [call, Event.isFault]
  | tick currentTick =>
    obtain hsame | ⟨_, hsafe⟩ := safetyTick_cases sm leds currentTick
    · simp [call, hsame, Event.isFault]
    · simp [call, hsafe, Event.isFault]

theorem step_totalCounts (w : Watched) (e : Event) (hw : TotalCounts w) :
    TotalCounts (step w e) := by
  intro hrun
  have hbefore : w.sm.state ≠ .failSilent :=
    fun hsilent => hrun (call_failSilent w.sm w.leds e hsilent)
  rw [step_sm, step_reported, call_total w.sm w.leds e hbefore, hw hbefore, BitVec.ofNat_add]

/-! ## How many additional faults an episode tolerates -/

/-- A fault that moves DEGRADED to SAFE_STATE is at least the third since the entry. -/
def BudgetKept (w : Watched) (e : Event) : Prop :=
  e.isFault → w.sm.state = .degraded → (step w e).sm.state = .safeState →
    3 ≤ (step w e).sinceEntry

/-- A fault in DEGRADED is at least the third since the entry, or at most the third of the
whole run (counted modulo 2^32). -/
def EarlyOrThird (w : Watched) (e : Event) : Prop :=
  e.isFault → w.sm.state = .degraded → 3 ≤ w.sinceEntry + 1 ∨ (w.reported + 1) % 2 ^ 32 ≤ 3

/-- In DEGRADED the decision rests on the faults of the whole run. -/
theorem degraded_fault_safe (w : Watched) (hw : TotalCounts w) (type : FaultType)
    (tickCount : BitVec 32) (h : w.sm.state = .degraded) :
    (step w (.fault type tickCount)).sm.state = .safeState ↔ 4 ≤ (w.reported + 1) % 2 ^ 32 := by
  have htotal : w.sm.totalFaults = BitVec.ofNat 32 w.reported := hw (by simp [h])
  have hcompare : w.sm.totalFaults + 1 ≥ 4 ↔ 4 ≤ (w.reported + 1) % 2 ^ 32 := by
    rw [htotal, ge_iff_le, BitVec.le_def]
    simp [BitVec.toNat_add, Nat.add_mod]
  rw [step_sm, call, safetyReportFault_state, h, ← hcompare]
  dsimp only
  split <;> simp_all

theorem degraded_fault_sinceEntry (w : Watched) (type : FaultType) (tickCount : BitVec 32)
    (h : w.sm.state = .degraded) :
    (step w (.fault type tickCount)).sinceEntry = w.sinceEntry + 1 := by
  simp [step, h, Event.isFault]

theorem budgetKept_iff (w : Watched) (e : Event) (hw : TotalCounts w) :
    BudgetKept w e ↔ EarlyOrThird w e := by
  cases e with
  | ok | tick _ => simp [BudgetKept, EarlyOrThird, Event.isFault]
  | fault type tickCount =>
    unfold BudgetKept EarlyOrThird
    refine forall_congr' fun _ => forall_congr' fun hdeg => ?_
    rw [degraded_fault_safe w hw type tickCount hdeg, degraded_fault_sinceEntry w type tickCount hdeg]
    omega

/-- Every episode of a run has its three additional faults exactly when no episode meets its
first or second additional fault as the fourth or a later fault of the run. -/
theorem budget_restarts_iff (leds : Leds) (events : List Event) :
    Always step (start leds) BudgetKept events ↔ Always step (start leds) EarlyOrThird events :=
  always_congr (start_totalCounts leds) step_totalCounts budgetKept_iff events

/-- A fault, a full recovery and a second episode. -/
def secondEpisode : List Event :=
  .fault .crcFailure 0 :: List.replicate 10 .ok ++ [.fault .crcFailure 0, .fault .crcFailure 0]

/-- The second additional fault of the second episode already ends it. -/
theorem second_episode_short :
    ¬ Always step (start ⟨false, false⟩) BudgetKept (secondEpisode ++ [.fault .crcFailure 0]) := by
  intro h
  have hstep := h secondEpisode (.fault .crcFailure 0) [] rfl rfl
  revert hstep
  decide

end Genoh.FirmwareBudget
