import Mathlib.Data.List.DropRight
import Genoh.FirmwareBudget

/-!
# The way back to NORMAL

The reports of an episode of DEGRADED, and the counter that is to say how many of the last
ones were good. Reports of other states do not reach it: the fault that begins an episode
sets it to zero.
-/
namespace Genoh.RecoveryRuns

open Genoh.FirmwareSafety Genoh.Run
open Genoh.FirmwareBudget (Event call)

/-- What a call reports, if it is a report. -/
inductive Report where
  | fault | ok
  deriving DecidableEq, Repr

def reportOf : Event → List Report
  | .fault _ _ => [.fault]
  | .ok => [.ok]
  | .tick _ => []

/-- The safety manager with its outputs and the reports since the latest entry into DEGRADED,
oldest first. -/
structure Watched where
  sm : SafetyManager
  leds : Leds
  reports : List Report

def step (w : Watched) (e : Event) : Watched :=
  let next := call w.sm w.leds e
  let entered := w.sm.state ≠ .degraded ∧ next.1.state = .degraded
  { sm := next.1
    leds := next.2
    reports := if entered then [] else w.reports ++ reportOf e }

/-- After `safety_init`, with the pins as the board left them. -/
def start (leds : Leds) : Watched := ⟨safetyInit, leds, []⟩

@[simp] theorem step_sm (w : Watched) (e : Event) : (step w e).sm = (call w.sm w.leds e).1 := rfl

theorem step_reports_entered (w : Watched) (e : Event) (h : w.sm.state ≠ .degraded)
    (h' : (step w e).sm.state = .degraded) : (step w e).reports = [] := if_pos ⟨h, h'⟩

theorem step_reports_degraded (w : Watched) (e : Event) (h : w.sm.state = .degraded) :
    (step w e).reports = w.reports ++ reportOf e := if_neg fun hentered => hentered.1 h

/-! ## The last reports -/

/-- The OK reports since the last fault. -/
def okSinceFault (reports : List Report) : Nat := (reports.rtakeWhile (· = .ok)).length

@[simp] theorem okSinceFault_nil : okSinceFault [] = 0 := rfl

@[simp] theorem okSinceFault_ok (reports : List Report) :
    okSinceFault (reports ++ [.ok]) = okSinceFault reports + 1 := by
  rw [okSinceFault, List.rtakeWhile_concat_pos _ _ _ (by decide), List.length_append]
  rfl

@[simp] theorem okSinceFault_fault (reports : List Report) :
    okSinceFault (reports ++ [.fault]) = 0 := by
  rw [okSinceFault, List.rtakeWhile_concat_neg _ _ _ (by decide)]
  rfl

/-- The last `n` reports are all OK exactly when at least `n` came since the last fault. -/
theorem replicate_ok_suffix_iff (n : Nat) (reports : List Report) :
    List.replicate n .ok <:+ reports ↔ n ≤ okSinceFault reports := by
  induction n generalizing reports with
  | zero => simp
  | succ n ih =>
    rw [List.replicate_succ']
    cases reports using List.reverseRecOn with
    | nil => simp
    | append_singleton reports report =>
      have hlast : List.replicate n .ok ++ [.ok] <:+ reports ++ [report] ↔
          report = .ok ∧ List.replicate n .ok <:+ reports := by
        simp [← List.reverse_prefix, List.cons_prefix_cons, eq_comm]
      rw [hlast]
      cases report with
      | ok => rw [okSinceFault_ok, ih, eq_self, true_and, Nat.succ_le_succ_iff]
      | fault => simp

/-! ## The counter -/

/-- While DEGRADED, the counter is the number of OK reports since the last fault, below ten. -/
def Counted (w : Watched) : Prop :=
  w.sm.state = .degraded →
    w.sm.consecutiveOk.toNat = okSinceFault w.reports ∧ okSinceFault w.reports < 10

/-- What an OK report does in DEGRADED. -/
theorem degraded_ok (w : Watched) (h : w.sm.state = .degraded) (hw : Counted w) :
    (if okSinceFault w.reports + 1 = 10 then (step w .ok).sm.state = .normal
    else (step w .ok).sm.state = .degraded ∧
      (step w .ok).sm.consecutiveOk.toNat = okSinceFault w.reports + 1) := by
  obtain ⟨hcount, hlt⟩ := hw h
  have hnext : (w.sm.consecutiveOk + 1).toNat = okSinceFault w.reports + 1 := by
    rw [BitVec.toNat_add, hcount, show (1 : BitVec 32).toNat = 1 from rfl]
    exact Nat.mod_eq_of_lt (by omega)
  have hfull : w.sm.consecutiveOk + 1 ≥ asildRecoveryCount ↔ okSinceFault w.reports + 1 = 10 := by
    rw [ge_iff_le, BitVec.le_def, hnext]
    change 10 ≤ okSinceFault w.reports + 1 ↔ _
    omega
  rw [step_sm, call, safetyReportOk, if_pos h]
  dsimp only
  split
  · rename_i hten
    rw [if_pos (hfull.mpr hten)]
  · rename_i hten
    rw [if_neg (mt hfull.mp hten)]
    exact ⟨h, hnext⟩

theorem start_counted (leds : Leds) : Counted (start leds) := fun h => by cases h

/-- Only a fault in NORMAL enters DEGRADED. -/
theorem entered_resets (w : Watched) (e : Event) (h : w.sm.state ≠ .degraded)
    (h' : (step w e).sm.state = .degraded) : (step w e).sm.consecutiveOk = 0 := by
  cases e with
  | fault type tickCount =>
    have hactive : w.sm.state ≠ .failSilent := by
      intro hsilent
      rw [step_sm, call, safetyReportFault_failSilent _ _ _ _ hsilent] at h'
      exact h h'
    exact (safetyReportFault_counters w.sm w.leds type tickCount hactive).2
  | ok =>
    rw [step_sm, call] at h'
    obtain hsame | ⟨hdeg, -⟩ := safetyReportOk_state w.sm
    · exact absurd (hsame.symm.trans h') h
    · exact absurd hdeg h
  | tick currentTick =>
    rw [step_sm, call] at h'
    obtain hsame | ⟨hdeg, -⟩ := safetyTick_cases w.sm w.leds currentTick
    · rw [hsame] at h'
      exact absurd h' h
    · exact absurd hdeg h

theorem step_counted (w : Watched) (e : Event) (hw : Counted w) : Counted (step w e) := by
  intro hafter
  by_cases h : w.sm.state = .degraded
  · rw [step_reports_degraded w e h]
    cases e with
    | fault type tickCount =>
      have hreset : (step w (.fault type tickCount)).sm.consecutiveOk = 0 :=
        (safetyReportFault_counters w.sm w.leds type tickCount (by rw [h]; decide)).2
      rw [hreset, reportOf, okSinceFault_fault]
      decide
    | ok =>
      have hok := degraded_ok w h hw
      obtain ⟨-, hlt⟩ := hw h
      split at hok
      · rw [hok] at hafter
        cases hafter
      · rw [reportOf, okSinceFault_ok]
        exact ⟨hok.2, by omega⟩
    | tick currentTick =>
      have hsame : (step w (.tick currentTick)).sm = w.sm := by
        obtain hsame | ⟨-, hsafe⟩ := safetyTick_cases w.sm w.leds currentTick
        · rw [step_sm, call, hsame]
        · rw [step_sm, call, hsafe] at hafter
          cases hafter
      rw [hsame, reportOf, List.append_nil]
      exact hw h
  · rw [step_reports_entered w e h hafter, entered_resets w e h hafter]
    decide

/-- A call leaves DEGRADED for NORMAL exactly as the tenth good report in a row. -/
theorem recovers_iff (w : Watched) (e : Event) (hw : Counted w) (h : w.sm.state = .degraded) :
    (step w e).sm.state = .normal ↔
      e = .ok ∧ List.replicate 10 .ok <:+ (step w e).reports := by
  rw [step_reports_degraded w e h]
  cases e with
  | fault type tickCount =>
    have hstate : (step w (.fault type tickCount)).sm.state ≠ .normal := by
      rw [step_sm, call, safetyReportFault_state, h]
      dsimp only
      split <;> decide
    exact iff_of_false hstate fun hok => by cases hok.1
  | tick currentTick =>
    have hstate : (step w (.tick currentTick)).sm.state ≠ .normal := by
      rw [step_sm, call]
      obtain hsame | ⟨-, hsafe⟩ := safetyTick_cases w.sm w.leds currentTick
      · rw [hsame, h]
        decide
      · rw [hsafe]
        exact SafetyState.noConfusion
    exact iff_of_false hstate fun hok => by cases hok.1
  | ok =>
    have hok := degraded_ok w h hw
    obtain ⟨-, hlt⟩ := hw h
    rw [reportOf, replicate_ok_suffix_iff, okSinceFault_ok]
    split at hok
    · rename_i hten
      exact iff_of_true hok ⟨rfl, Nat.le_of_eq hten.symm⟩
    · rename_i hten
      apply iff_of_false
      · rw [hok.1]
        decide
      · rintro ⟨-, hmany⟩
        omega

/-- After any calls, the next call moves DEGRADED to NORMAL exactly when it is an OK report and the last
ten reports since the entry were OK; and while DEGRADED the counter is the number of OK reports since
the last fault, below ten. -/
theorem recovery_counts (leds : Leds) (past : List Event) (e : Event) :
    let w := run step (start leds) past
    let w' := run step (start leds) (past ++ [e])
    (w.sm.state = .degraded ∧ w'.sm.state = .normal ↔
      w.sm.state = .degraded ∧ e = .ok ∧ List.replicate 10 .ok <:+ w'.reports) ∧
    (w.sm.state = .degraded →
      w.sm.consecutiveOk.toNat = okSinceFault w.reports ∧ w.sm.consecutiveOk.toNat < 10) := by
  have hw : Counted (run step (start leds) past) :=
    run_invariant (start_counted leds) step_counted past
  intro w w'
  constructor
  · rw [show w' = step w e from run_concat step (start leds) past e]
    exact and_congr_right fun h => recovers_iff w e hw h
  · intro h
    obtain ⟨hcount, hlt⟩ := hw h
    exact ⟨hcount, by rw [hcount]; exact hlt⟩

/-- The tenth OK after the entry ends the episode, the ninth does not. -/
example : (run step (start ⟨false, false⟩)
      (.ok :: .fault .crcFailure 0 :: List.replicate 9 .ok)).sm.state = .degraded ∧
    (run step (start ⟨false, false⟩)
      (.ok :: .fault .crcFailure 0 :: List.replicate 10 .ok)).sm.state = .normal := by decide

end Genoh.RecoveryRuns
