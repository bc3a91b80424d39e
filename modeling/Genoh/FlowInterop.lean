import Genoh.FirmwareDiagnostics
import Genoh.MasterFlow
import Genoh.Run

/-!
# Control flow on both sides

The mask of the node and the list of the master are fed the same checkpoints and verified
together.
-/
namespace Genoh.FlowInterop

open Genoh.Run
open Genoh.FirmwareDiagnostics (flowInit flowCheckpointValue flowVerifyCycle cpCount)

inductive Event where
  | checkpoint (cp : BitVec 32)
  | verify

/-- Both monitors. -/
structure Pair where
  node : FirmwareDiagnostics.FlowMonitor
  master : MasterFlow.FlowMonitor

/-- The checkpoints of the node in the order of its enumeration. -/
def expected : List (BitVec 32) := [0, 1, 2, 3]

section Mapped

-- the master's name for each checkpoint
variable (pyId : BitVec 32 → Int)

def start : Pair := ⟨flowInit, .init (some (expected.map pyId)) false⟩

def step (pair : Pair) : Event → Pair
  | .checkpoint cp => ⟨flowCheckpointValue pair.node cp, pair.master.checkpoint (pyId cp)⟩
  | .verify => ⟨(flowVerifyCycle pair.node).2, pair.master.verifyCycle.2.1⟩

end Mapped

/-- The checkpoints since the last verification. -/
def cycle (past : List Event) : List (BitVec 32) :=
  run (fun cps e => match e with
    | .checkpoint cp => cps ++ [cp]
    | .verify => []) [] past

/-- The expected checkpoints were hit exactly once each, in the expected order. -/
def InOrder (cps : List (BitVec 32)) : Prop := cps.filter (· ∈ expected) = expected

theorem expected_inOrder : InOrder expected := by
  show expected.filter (· ∈ expected) = expected
  decide

/-! ## The mask -/

def mask (cps : List (BitVec 32)) : BitVec 8 :=
  (cps.foldl flowCheckpointValue flowInit).checkpointsHit

theorem mask_concat (cps : List (BitVec 32)) (cp : BitVec 32) :
    mask (cps ++ [cp]) =
      if cp.toNat < cpCount then mask cps ||| 1#8 <<< cp.toNat else mask cps := by
  rw [mask, List.foldl_append, List.foldl_cons, List.foldl_nil, flowCheckpointValue]
  split <;> rfl

theorem mask_getLsbD (cps : List (BitVec 32)) (i : Nat) :
    (mask cps).getLsbD i = true ↔ i < cpCount ∧ ∃ cp ∈ cps, cp.toNat = i := by
  induction cps using List.reverseRecOn with
  | nil => simp [mask, flowInit]
  | append_singleton cps cp ih =>
    simp only [mask_concat, List.mem_append, List.mem_singleton, or_and_right, exists_or,
      exists_eq_left]
    split
    · rename_i hcp
      have hbit : (1#8 <<< cp.toNat).getLsbD i = true ↔ cp.toNat = i := by
        have hsize : cpCount = 4 := rfl
        rw [← BitVec.twoPow_eq, BitVec.getLsbD_twoPow]
        simp only [Bool.and_eq_true, decide_eq_true_iff]
        omega
      rw [BitVec.getLsbD_or, Bool.or_eq_true, ih, hbit]
      constructor
      · rintro (⟨hi, h⟩ | rfl)
        · exact ⟨hi, .inl h⟩
        · exact ⟨hcp, .inr rfl⟩
      · rintro ⟨hi, h | h⟩
        · exact .inl ⟨hi, h⟩
        · exact .inr h
    · rename_i hcp
      rw [ih]
      constructor
      · rintro ⟨hi, h⟩
        exact ⟨hi, .inl h⟩
      · rintro ⟨hi, h | rfl⟩
        · exact ⟨hi, h⟩
        · exact absurd hi hcp

/-- The mask is full once every expected checkpoint was hit. -/
theorem mask_full_iff (cps : List (BitVec 32)) :
    mask cps = 1#8 <<< cpCount - 1 ↔ ∀ cp ∈ expected, cp ∈ cps := by
  have hfull : ∀ i < 8, (1#8 <<< cpCount - 1).getLsbD i = decide (i < cpCount) := by decide
  have hnames : ∀ i < 4, BitVec.ofNat 32 i ∈ expected ∧ (BitVec.ofNat 32 i).toNat = i := by
    intro i hi
    match i with
    | 0 | 1 | 2 | 3 => exact ⟨by decide, rfl⟩
  constructor
  · intro hmask cp hcp
    have hlt : ∀ cp ∈ expected, cp.toNat < cpCount := by simp [expected, cpCount]
    have hbit : (mask cps).getLsbD cp.toNat = true := by
      have hcp' := hlt cp hcp
      have hsize : cpCount = 4 := rfl
      rw [hmask, hfull _ (by omega)]
      exact decide_eq_true hcp'
    obtain ⟨-, cp', hmem, heq⟩ := (mask_getLsbD cps _).mp hbit
    rwa [← BitVec.eq_of_toNat_eq heq]
  · intro hall
    refine BitVec.eq_of_getLsbD_eq fun i hi => ?_
    rw [hfull i hi, Bool.eq_iff_iff, mask_getLsbD, decide_eq_true_iff]
    constructor
    · exact fun h => h.1
    · intro hlt
      obtain ⟨hmem, hname⟩ := hnames i hlt
      exact ⟨hlt, _, hall _ hmem, hname⟩

/-! ## Runs -/

section Runs

variable (pyId : BitVec 32 → Int)

/-- Each side holds the checkpoints of the cycle in its own form. -/
structure Holds (past : List Event) (pair : Pair) : Prop where
  node : pair.node.checkpointsHit = mask (cycle past)
  master : pair.master.actual = (cycle past).map pyId
  expected : pair.master.expected = expected.map pyId

theorem cycle_checkpoint (past : List Event) (cp : BitVec 32) :
    cycle (past ++ [.checkpoint cp]) = cycle past ++ [cp] := run_concat _ _ _ _

theorem cycle_verify (past : List Event) : cycle (past ++ [.verify]) = [] := run_concat _ _ _ _

theorem holds_run (past : List Event) : Holds pyId past (run (step pyId) (start pyId) past) := by
  induction past using List.reverseRecOn with
  | nil => exact ⟨rfl, rfl, rfl⟩
  | append_singleton past e ih =>
    rw [run_concat]
    cases e with
    | checkpoint cp =>
      refine ⟨?_, ?_, ih.expected⟩
      · rw [cycle_checkpoint, mask_concat, ← ih.node, step, flowCheckpointValue]
        split <;> rfl
      · rw [cycle_checkpoint, List.map_append, ← ih.master]
        rfl
    | verify =>
      refine ⟨?_, ?_, ?_⟩
      · rw [cycle_verify]
        rfl
      · rw [cycle_verify]
        rfl
      · exact (MasterFlow.FlowMonitor.verifyCycle_expected _).trans ih.expected

theorem node_verdict {past : List Event} {pair : Pair} (h : Holds pyId past pair) :
    (flowVerifyCycle pair.node).1 = true ↔ ∀ cp ∈ expected, cp ∈ cycle past := by
  rw [← mask_full_iff, ← h.node]
  exact beq_iff_eq

theorem master_verdict (hmap : Function.Injective pyId) {past : List Event} {pair : Pair}
    (h : Holds pyId past pair) : pair.master.verifyCycle.1 = true ↔ cycle past = expected := by
  rw [MasterFlow.FlowMonitor.verifyCycle_iff, h.master, h.expected]
  exact (List.map_injective_iff.mpr hmap).eq_iff

/-- Whatever came before, both sides verify a cycle alike, and as in order, just when it is the
expected one or lacks an expected checkpoint. -/
theorem flow_monitors_agree_iff (hmap : Function.Injective pyId) (past : List Event) :
    (((flowVerifyCycle (run (step pyId) (start pyId) past).node).1 = true ↔
        (run (step pyId) (start pyId) past).master.verifyCycle.1 = true) ∧
      ((run (step pyId) (start pyId) past).master.verifyCycle.1 = true ↔ InOrder (cycle past))) ↔
      (cycle past = expected ∨ ∃ cp ∈ expected, cp ∉ cycle past) := by
  have hholds := holds_run pyId past
  rw [node_verdict pyId hholds, master_verdict pyId hmap hholds]
  constructor
  · rintro ⟨hagree, -⟩
    by_cases hall : ∀ cp ∈ expected, cp ∈ cycle past
    · exact .inl (hagree.mp hall)
    · refine .inr (by_contra fun hnone => hall fun cp hmem => ?_)
      exact by_contra fun hmissing => hnone ⟨cp, hmem, hmissing⟩
  · rintro (hexact | ⟨cp, hmem, hmissing⟩)
    · rw [hexact]
      exact ⟨iff_of_true (fun _ => id) rfl, iff_of_true rfl expected_inOrder⟩
    · have hne : cycle past ≠ expected := fun heq => hmissing (heq ▸ hmem)
      refine ⟨iff_of_false (fun hall => hmissing (hall cp hmem)) hne, iff_of_false hne ?_⟩
      intro hinorder
      rw [InOrder] at hinorder
      rw [← hinorder] at hmem
      exact hmissing (List.mem_of_mem_filter hmem)

end Runs

theorem flow_monitors_agree_iff_loop :
    Function.Injective (fun cp : BitVec 32 => (cp.toNat : Int) + 1) ∧
    (((flowVerifyCycle (run (step fun cp => cp.toNat + 1) (start fun cp => cp.toNat + 1)
          [.verify, .checkpoint 0]).node).1 = true ↔
        (run (step fun cp => cp.toNat + 1) (start fun cp => cp.toNat + 1)
          [.verify, .checkpoint 0]).master.verifyCycle.1 = true) ∧
      ((run (step fun cp => cp.toNat + 1) (start fun cp => cp.toNat + 1)
          [.verify, .checkpoint 0]).master.verifyCycle.1 = true ↔
        InOrder (cycle [.verify, .checkpoint 0]))) := by
  have hmap : Function.Injective (fun cp : BitVec 32 => (cp.toNat : Int) + 1) := by
    intro cp cp' heq
    dsimp only at heq
    exact BitVec.eq_of_toNat_eq (by omega)
  exact ⟨hmap, (flow_monitors_agree_iff _ hmap [.verify, .checkpoint 0]).mpr
    (.inr ⟨1, by decide, by decide⟩)⟩

/-- The node takes the checkpoints in any order. -/
theorem reordered_cycle_passes :
    (flowVerifyCycle (run (step fun cp => cp.toNat + 1) (start fun cp => cp.toNat + 1)
        [.checkpoint 1, .checkpoint 0, .checkpoint 2, .checkpoint 3]).node).1 = true ∧
      (run (step fun cp => cp.toNat + 1) (start fun cp => cp.toNat + 1)
        [.checkpoint 1, .checkpoint 0, .checkpoint 2, .checkpoint 3]).master.verifyCycle.1 = false := by
  decide

end Genoh.FlowInterop
