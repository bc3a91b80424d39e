import Genoh.FirmwareClock
import Genoh.FirmwareSafety
import Genoh.Run

/-!
# The timeout of DEGRADED

The main loop reads the tick count into `now` in one statement and hands it to `safety_tick` in
the next; a subscriber handler may run in between and reads the tick count itself.
-/
namespace Genoh.DegradedTimeout

open Genoh.FirmwareClock Genoh.FirmwareSafety Genoh.Run

/-- Time passes, the loop takes the next of its two statements, or a report is made. -/
inductive Event where
  | wait (ms : Nat)
  | loop
  | fault (type : FaultType)
  | ok
  deriving DecidableEq, Repr

/-- The safety manager with its outputs, the real time, when the loop read the `now` it holds,
and when DEGRADED was last entered. -/
structure Watched where
  sm : SafetyManager
  leds : Leds
  clock : Nat
  held : Option Nat
  enteredAt : Nat
  deriving DecidableEq, Repr

def step (w : Watched) : Event → Watched
  | .wait ms => { w with clock := w.clock + ms }
  | .loop =>
    match w.held with
    | none => { w with held := some w.clock }
    | some now =>
      let ticked := safetyTick w.sm w.leds (tickAt now)
      { w with sm := ticked.1, leds := ticked.2, held := none }
  | .fault type =>
    let reported := safetyReportFault w.sm w.leds type (tickAt w.clock)
    let entered := w.sm.state ≠ .degraded ∧ reported.1.state = .degraded
    { w with
      sm := reported.1
      leds := reported.2
      enteredAt := if entered then w.clock else w.enteredAt }
  | .ok => { w with sm := safetyReportOk w.sm }

/-- After `safety_init`, at any time. -/
def start (leds : Leds) (clock : Nat) : Watched := ⟨safetyInit, leds, clock, none, 0⟩

/-- 30000 ms. -/
def timeoutMs : Nat := 30000

/-- When the loop moves DEGRADED to SAFE_STATE, the timeout has really passed since the entry. -/
def NotEarly (w : Watched) (e : Event) : Prop :=
  e = .loop → w.sm.state = .degraded → (step w e).sm.state = .safeState →
    w.enteredAt + timeoutMs ≤ w.clock

/-- The loop is about to hand over a `now` from before the entry into DEGRADED, which is less than
the timeout ago, and the difference does not come around to less than the timeout. -/
def StaleNow (w : Watched) (e : Event) : Prop :=
  e = .loop ∧ w.sm.state = .degraded ∧ w.clock < w.enteredAt + timeoutMs ∧
    ∃ now, w.held = some now ∧ now < w.enteredAt ∧ 1 ≤ (w.enteredAt - now) % 4294967296 ∧
      (w.enteredAt - now) % 4294967296 + timeoutMs ≤ 4294967296

/-! ## The elapsed time -/

/-- The loop leaves DEGRADED exactly when the difference reaches the timeout. -/
theorem safetyTick_safe_iff (sm : SafetyManager) (leds : Leds) (currentTick : BitVec 32)
    (h : sm.state = .degraded) :
    (safetyTick sm leds currentTick).1.state = .safeState ↔
      timeoutMs ≤ (currentTick - sm.degradedEnterTick).toNat := by
  have hcompare : currentTick - sm.degradedEnterTick ≥ asildDegradedTimeout ↔
      timeoutMs ≤ (currentTick - sm.degradedEnterTick).toNat := by
    rw [ge_iff_le, BitVec.le_def]
    rfl
  rw [← hcompare, safetyTick, if_pos h]
  dsimp only
  split
  · rename_i hover
    exact iff_of_true rfl hover
  · rename_i hover
    exact iff_of_false (by rw [h]; decide) hover

/-! ## The entry tick -/

/-- The tick stored in DEGRADED is that of the entry, and no time recorded is ahead of the clock. -/
structure Timed (w : Watched) : Prop where
  entry : w.sm.state = .degraded → w.sm.degradedEnterTick = tickAt w.enteredAt
  entered : w.enteredAt ≤ w.clock
  held : ∀ now, w.held = some now → now ≤ w.clock

theorem start_timed (leds : Leds) (clock : Nat) : Timed (start leds clock) where
  entry h := by cases h
  entered := Nat.zero_le clock
  held now h := by cases h

/-- DEGRADED is entered with the tick of the fault, and a further fault leaves it alone. -/
theorem safetyReportFault_enterTick (sm : SafetyManager) (leds : Leds) (type : FaultType)
    (tickCount : BitVec 32) (h : (safetyReportFault sm leds type tickCount).1.state = .degraded) :
    (safetyReportFault sm leds type tickCount).1.degradedEnterTick =
      if sm.state = .degraded then sm.degradedEnterTick else tickCount := by
  unfold safetyReportFault at h ⊢
  cases hs : sm.state with
  | normal => rfl
  | degraded =>
    simp only [hs, reduceCtorEq, if_false, if_true] at h ⊢
    split <;> rfl
  | safeState => simp [hs] at h
  | failSilent => simp [hs] at h

theorem safetyReportOk_enterTick (sm : SafetyManager) :
    (safetyReportOk sm).degradedEnterTick = sm.degradedEnterTick := by
  unfold safetyReportOk
  split
  · dsimp only
    split <;> rfl
  · rfl

/-- The first of the two statements. -/
theorem step_loop_read (w : Watched) (h : w.held = none) :
    step w .loop = { w with held := some w.clock } := by
  simp only [step, h]

/-- The second. -/
theorem step_loop_tick (w : Watched) {now : Nat} (h : w.held = some now) :
    step w .loop = { w with
      sm := (safetyTick w.sm w.leds (tickAt now)).1
      leds := (safetyTick w.sm w.leds (tickAt now)).2
      held := none } := by
  simp only [step, h]

/-- The entry tick and the time of the entry are set together. -/
theorem step_fault_entry (w : Watched) (type : FaultType)
    (hafter : (step w (.fault type)).sm.state = .degraded) :
    ((step w (.fault type)).sm.degradedEnterTick =
        if w.sm.state = .degraded then w.sm.degradedEnterTick else tickAt w.clock) ∧
      (step w (.fault type)).enteredAt =
        if w.sm.state = .degraded then w.enteredAt else w.clock := by
  constructor
  · exact safetyReportFault_enterTick w.sm w.leds type (tickAt w.clock) hafter
  · change (safetyReportFault w.sm w.leds type (tickAt w.clock)).1.state = .degraded at hafter
    by_cases h : w.sm.state = .degraded
    · simp [step, h]
    · simp [step, h, hafter]

theorem step_timed (w : Watched) (e : Event) (hw : Timed w) : Timed (step w e) := by
  obtain ⟨hentry, hentered, hheld⟩ := hw
  cases e with
  | wait ms =>
    constructor
    · exact hentry
    · exact Nat.le_trans hentered (Nat.le_add_right _ _)
    · intro now hnow
      exact Nat.le_trans (hheld now hnow) (Nat.le_add_right _ _)
  | loop =>
    cases hnow : w.held with
    | none =>
      rw [step_loop_read w hnow]
      constructor
      · exact hentry
      · exact hentered
      · intro now hread
        exact Nat.le_of_eq (Option.some.inj hread).symm
    | some now =>
      rw [step_loop_tick w hnow]
      constructor
      · intro hafter
        obtain hsame | ⟨-, hsafe⟩ := safetyTick_cases w.sm w.leds (tickAt now)
        · rw [hsame] at hafter ⊢
          exact hentry hafter
        · rw [hsafe] at hafter
          cases hafter
      · exact hentered
      · intro later hlater
        cases hlater
  | fault type =>
    constructor
    · intro hafter
      obtain ⟨htick, hat⟩ := step_fault_entry w type hafter
      rw [htick, hat]
      by_cases h : w.sm.state = .degraded
      · rw [if_pos h, if_pos h]
        exact hentry h
      · rw [if_neg h, if_neg h]
    · change (if _ then w.clock else w.enteredAt) ≤ w.clock
      split
      · exact Nat.le_refl _
      · exact hentered
    · exact hheld
  | ok =>
    constructor
    · intro hafter
      have hbefore : w.sm.state = .degraded := by
        obtain hsame | ⟨hdeg, -⟩ := safetyReportOk_state w.sm
        · exact hsame.symm.trans hafter
        · exact hdeg
      change (safetyReportOk w.sm).degradedEnterTick = tickAt w.enteredAt
      rw [safetyReportOk_enterTick]
      exact hentry hbefore
    · exact hentered
    · exact hheld

/-! ## When the timeout is early -/

theorem notEarly_iff (w : Watched) (e : Event) (hw : Timed w) : NotEarly w e ↔ ¬ StaleNow w e := by
  obtain ⟨hentry, hentered, hheld⟩ := hw
  by_cases hloop : e = .loop ∧ w.sm.state = .degraded
  · obtain ⟨rfl, hdeg⟩ := hloop
    simp only [NotEarly, StaleNow, hdeg, true_and, forall_const]
    cases hnow : w.held with
    | none =>
      have hstays : (step w .loop).sm.state ≠ .safeState := by
        rw [step_loop_read w hnow]
        simp [hdeg]
      exact iff_of_true (fun h => absurd h hstays) (by simp)
    | some now =>
      have hfires : (step w .loop).sm.state = .safeState ↔
          timeoutMs ≤ (tickAt now - tickAt w.enteredAt).toNat := by
        rw [← hentry hdeg, ← safetyTick_safe_iff w.sm w.leds (tickAt now) hdeg,
          step_loop_tick w hnow]
      have hsub := tickAt_sub now w.enteredAt
      have hpast := hheld now hnow
      rw [hfires]
      simp only [Option.some.injEq, exists_eq_left', timeoutMs]
      -- A `now` from before the entry makes the difference wrap; a later one is less than the clock.
      constructor
      · rintro hsound ⟨hearly, hbefore, hpos, haround⟩
        have := hsound (by omega)
        omega
      · intro hfresh hover
        by_contra hearly
        exact hfresh (by omega)
  · constructor
    · rintro - ⟨hloop', hdeg, -⟩
      exact hloop ⟨hloop', hdeg⟩
    · intro _ hloop' hdeg
      exact absurd ⟨hloop', hdeg⟩ hloop

/-- The timeout of DEGRADED, over every interleaving: it is never early exactly when the loop never
hands over a `now` from before an entry that is less than the timeout ago. -/
theorem timeout_never_early_iff (leds : Leds) (clock : Nat) (events : List Event) :
    Always step (start leds clock) NotEarly events ↔
      Always step (start leds clock) (fun w e => ¬ StaleNow w e) events :=
  always_congr (start_timed leds clock) step_timed notEarly_iff events

/-- A handler that reports a fault one tick after `now` was read: SAFE_STATE in the millisecond of
the entry. -/
theorem handler_between_early :
    ¬ Always step (start ⟨true, true⟩ 0) NotEarly [.loop, .wait 1, .fault .macFailure, .loop] := by
  intro h
  have hstep := h [.loop, .wait 1, .fault .macFailure] .loop [] rfl rfl
  revert hstep
  decide

end Genoh.DegradedTimeout
