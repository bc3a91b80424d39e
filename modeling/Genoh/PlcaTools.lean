import Genoh.Run
import Mathlib.Algebra.Order.Round
import Mathlib.Data.Rat.Floor

/-!
# The simulation's PLCA tools

`sim_harness/tools/plca_tools.py`: the status and the configuration of the bus, over the module's
state. The result dictionaries are records; the JSON text around them and the timestamp are left
out. Times are exact where Python has a float.
-/
namespace Genoh.PlcaTools

open Genoh.Run

/-- `_plca_state`, as far as the tools read it. -/
structure PlcaState where
  enabled : Bool := true
  coordinator : Bool := true
  localNodeId : Int := 0
  nodeCount : Int := 8
  toTimer : Int := 0x20
  beaconActive : Bool := true
  collisionCount : Nat := 0
  cycleCount : Nat := 0
  linkStatus : String := "up"
  speedMbps : Nat := 10
  deriving DecidableEq, Repr

/-! ## Cycle times -/

def beaconBits : Int := 20

/-- The largest Ethernet frame. -/
def frameBits : Int := 1518 * 8

/-- Bits at 10 MHz, in units of which `unitsPerSec` make a second, rounded to `digits` decimals. -/
def cycleTime (totalBits : Int) (unitsPerSec : ℚ) (digits : Nat) : ℚ :=
  round ((totalBits : ℚ) / 10000000 * unitsPerSec * 10 ^ digits) / 10 ^ digits

/-- `_calculate_worst_case_ms`. -/
def calculateWorstCaseMs (nodeCount : Int) : ℚ :=
  cycleTime (beaconBits + nodeCount * frameBits) 1000 2

/-- `_calculate_min_cycle_us`. -/
def calculateMinCycleUs (nodeCount toTimer : Int) : ℚ :=
  cycleTime (beaconBits + nodeCount * toTimer) 1000000 1

-- Python rounds ties to even; a hundredth of `12144 n + 20` never is one.
example : calculateWorstCaseMs 8 = 972 / 100 := by decide +kernel

/-! ## Status -/

structure Status where
  interface : String
  plcaSupport : String := "supported"
  plcaStatus : String
  coordinator : Bool
  localNodeId : Int
  nodeCount : Int
  toTimerBitTimes : Int
  beaconActive : Bool
  linkStatus : String
  speedMbps : Nat
  collisionCount : Nat
  cycleCount : Nat
  worstCaseCycleMs : ℚ
  minCycleUs : ℚ

/-- `plca_get_status`. -/
def plcaGetStatus (s : PlcaState) (interface : Option String) : Status × PlcaState :=
  let s := { s with cycleCount := s.cycleCount + 1 }
  ({ interface := interface.getD "eth1"
     plcaStatus := if s.enabled then "enabled" else "disabled"
     coordinator := s.coordinator
     localNodeId := s.localNodeId
     nodeCount := s.nodeCount
     toTimerBitTimes := s.toTimer
     beaconActive := s.beaconActive
     linkStatus := s.linkStatus
     speedMbps := s.speedMbps
     collisionCount := s.collisionCount
     cycleCount := s.cycleCount
     worstCaseCycleMs := calculateWorstCaseMs s.nodeCount
     minCycleUs := calculateMinCycleUs s.nodeCount s.toTimer }, s)

/-! ## Configuration -/

/-- The arguments of `plca_set_config`, none where the key is missing. -/
structure ConfigArgs where
  interface : Option String := none
  enable : Option Bool := none
  nodeId : Option Int := none
  nodeCount : Option Int := none
  toTimer : Option Int := none

inductive ConfigError where
  | invalidNodeId (nid : Int)
  | invalidNodeCount (ncnt : Int)
  | nodeCountAboveRecommended (ncnt : Int)
  deriving DecidableEq, Repr

def ConfigError.text : ConfigError → String
  | .invalidNodeId nid => "Invalid node_id " ++ toString nid ++ ": must be 0-255"
  | .invalidNodeCount ncnt => "Invalid node_count " ++ toString ncnt ++ ": must be 1-255"
  | .nodeCountAboveRecommended ncnt => "Warning: node_count " ++ toString ncnt ++
      " exceeds recommended max of 8 for 10BASE-T1S"

/-- The field whose value is reported as invalid; a warning reports none. -/
def ConfigError.invalid : ConfigError → Option (PlcaState → Int)
  | .invalidNodeId _ => some PlcaState.localNodeId
  | .invalidNodeCount _ => some PlcaState.nodeCount
  | .nodeCountAboveRecommended _ => none

structure Config where
  enabled : Bool
  coordinator : Bool
  nodeId : Int
  nodeCount : Int
  toTimer : Int

inductive Reply where
  | warning (errors : List ConfigError) (applied : Bool)
  | configured (interface equivalentCommand : String) (config : Config)

def Reply.errors : Reply → List ConfigError
  | .warning errors _ => errors
  | .configured _ _ _ => []

def setEnable (s : PlcaState) (enable : Option Bool) : PlcaState :=
  { s with enabled := enable.getD s.enabled }

def setNodeId (s : PlcaState) : Option Int → List ConfigError × PlcaState
  | none => ([], s)
  | some nid =>
    if 0 ≤ nid ∧ nid ≤ 255 then ([], { s with localNodeId := nid, coordinator := nid = 0 })
    else ([.invalidNodeId nid], s)

-- The assignment stands after the checks, not in a last branch.
def setNodeCount (s : PlcaState) : Option Int → List ConfigError × PlcaState
  | none => ([], s)
  | some ncnt =>
    let errors :=
      if ¬ (1 ≤ ncnt ∧ ncnt ≤ 255) then [.invalidNodeCount ncnt]
      else if ncnt > 8 then [.nodeCountAboveRecommended ncnt]
      else []
    (errors, { s with nodeCount := min ncnt 255 })

def setToTimer (s : PlcaState) (toTimer : Option Int) : PlcaState :=
  { s with toTimer := toTimer.getD s.toTimer }

def setBeacon (s : PlcaState) : PlcaState :=
  { s with beaconActive := s.enabled && s.coordinator }

def equivalentCmd (s : PlcaState) (interface : String) : String :=
  "sudo ethtool --set-plca-cfg " ++ interface ++
    " enable " ++ (if s.enabled then "on" else "off") ++
    " node-id " ++ toString s.localNodeId ++
    " node-cnt " ++ toString s.nodeCount ++
    " to-timer " ++ toString s.toTimer

/-- `plca_set_config`. -/
def plcaSetConfig (s : PlcaState) (args : ConfigArgs) : Reply × PlcaState :=
  let iface := args.interface.getD "eth1"
  let s := setEnable s args.enable
  let (idErrors, s) := setNodeId s args.nodeId
  let (countErrors, s) := setNodeCount s args.nodeCount
  let s := setBeacon (setToTimer s args.toTimer)
  let errors := idErrors ++ countErrors
  if errors ≠ [] then (.warning errors true, s)
  else
    (.configured iface (equivalentCmd s iface)
      ⟨s.enabled, s.coordinator, s.localNodeId, s.nodeCount, s.toTimer⟩, s)

/-! ## Calls -/

inductive Call where
  | getStatus (interface : Option String)
  | setConfig (args : ConfigArgs)

def step (s : PlcaState) : Call → PlcaState
  | .getStatus interface => (plcaGetStatus s interface).2
  | .setConfig args => (plcaSetConfig s args).2

/-- What the call reports. -/
def reports (s : PlcaState) : Call → List ConfigError
  | .getStatus _ => []
  | .setConfig args => (plcaSetConfig s args).1.errors

/-- The node id and the node count in range, and the derived fields up to date. -/
structure Valid (s : PlcaState) : Prop where
  nodeId : 0 ≤ s.localNodeId ∧ s.localNodeId ≤ 255
  nodeCount : 1 ≤ s.nodeCount ∧ s.nodeCount ≤ 255
  coordinator : s.coordinator = true ↔ s.localNodeId = 0
  beaconActive : s.beaconActive = (s.enabled && s.coordinator)

/-- The call leads to a valid state, leaves alone what it reports as invalid, and takes the cycle
times of a positive node count. -/
structure Keeps (s : PlcaState) (call : Call) : Prop where
  valid : Valid (step s call)
  unchanged : ∀ error ∈ reports s call, ∀ field ∈ error.invalid, field (step s call) = field s
  positive : ∀ interface, call = .getStatus interface → 0 < (plcaGetStatus s interface).1.nodeCount

/-- A node count, where the call gives one, is in range, or so large that the largest is stored, and
that is the one in force. -/
def CountInRange (s : PlcaState) : Call → Prop
  | .getStatus _ => True
  | .setConfig args => ∀ ncnt ∈ args.nodeCount, 1 ≤ ncnt ∧ (ncnt ≤ 255 ∨ s.nodeCount = 255)

theorem valid_init : Valid {} := ⟨by decide, by decide, by decide, rfl⟩

/-! ## The parts of a configuration -/

theorem setNodeId_valid {s : PlcaState} (hid : 0 ≤ s.localNodeId ∧ s.localNodeId ≤ 255)
    (hcoordinator : s.coordinator = true ↔ s.localNodeId = 0) (nodeId : Option Int) :
    (0 ≤ (setNodeId s nodeId).2.localNodeId ∧ (setNodeId s nodeId).2.localNodeId ≤ 255) ∧
      ((setNodeId s nodeId).2.coordinator = true ↔ (setNodeId s nodeId).2.localNodeId = 0) := by
  cases nodeId with
  | none => exact ⟨hid, hcoordinator⟩
  | some nid =>
    by_cases hin : 0 ≤ nid ∧ nid ≤ 255
    · rw [setNodeId, if_pos hin]
      exact ⟨hin, decide_eq_true_iff⟩
    · rw [setNodeId, if_neg hin]
      exact ⟨hid, hcoordinator⟩

@[simp] theorem setNodeId_nodeCount (s : PlcaState) (nodeId : Option Int) :
    (setNodeId s nodeId).2.nodeCount = s.nodeCount := by
  cases nodeId with
  | none => rfl
  | some nid =>
    rw [setNodeId]
    split <;> rfl

/-- What the node id is refused for, it is left at. -/
theorem setNodeId_unchanged (s : PlcaState) (nodeId : Option Int) (error : ConfigError)
    (herror : error ∈ (setNodeId s nodeId).1) :
    (∃ nid, error = .invalidNodeId nid) ∧ (setNodeId s nodeId).2 = s := by
  cases nodeId with
  | none => cases herror
  | some nid =>
    by_cases hin : 0 ≤ nid ∧ nid ≤ 255
    · rw [setNodeId, if_pos hin] at herror
      cases herror
    · rw [setNodeId, if_neg hin] at herror ⊢
      exact ⟨⟨nid, List.mem_singleton.mp herror⟩, rfl⟩

@[simp] theorem setNodeCount_localNodeId (s : PlcaState) (nodeCount : Option Int) :
    (setNodeCount s nodeCount).2.localNodeId = s.localNodeId := by
  cases nodeCount <;> rfl

@[simp] theorem setNodeCount_coordinator (s : PlcaState) (nodeCount : Option Int) :
    (setNodeCount s nodeCount).2.coordinator = s.coordinator := by
  cases nodeCount <;> rfl

/-- A node count is reported as invalid just when it is out of range. -/
theorem setNodeCount_invalid_iff (s : PlcaState) (nodeCount : Option Int) (error : ConfigError) :
    error ∈ (setNodeCount s nodeCount).1 ∧ error.invalid ≠ none ↔
      ∃ ncnt ∈ nodeCount, ¬ (1 ≤ ncnt ∧ ncnt ≤ 255) ∧ error = .invalidNodeCount ncnt := by
  cases nodeCount with
  | none => simp [setNodeCount]
  | some ncnt =>
    simp only [setNodeCount, Option.mem_some_iff, exists_eq_left']
    by_cases hin : 1 ≤ ncnt ∧ ncnt ≤ 255
    · rw [if_neg (not_not.mpr hin)]
      by_cases habove : ncnt > 8
      · rw [if_pos habove]
        constructor
        · rintro ⟨hmem, hinvalid⟩
          rw [List.mem_singleton.mp hmem] at hinvalid
          exact absurd rfl hinvalid
        · exact fun h => absurd hin h.1
      · rw [if_neg habove]
        simp [hin]
    · rw [if_pos hin, List.mem_singleton]
      constructor
      · exact fun h => ⟨hin, h.1⟩
      · rintro ⟨-, rfl⟩
        exact ⟨rfl, Option.some_ne_none _⟩

/-! ## One call -/

theorem plcaSetConfig_state (s : PlcaState) (args : ConfigArgs) :
    (plcaSetConfig s args).2 = setBeacon (setToTimer
      (setNodeCount (setNodeId (setEnable s args.enable) args.nodeId).2 args.nodeCount).2
      args.toTimer) := by
  simp only [plcaSetConfig]
  split <;> rfl

theorem plcaSetConfig_errors (s : PlcaState) (args : ConfigArgs) :
    (plcaSetConfig s args).1.errors = (setNodeId (setEnable s args.enable) args.nodeId).1 ++
      (setNodeCount (setNodeId (setEnable s args.enable) args.nodeId).2 args.nodeCount).1 := by
  simp only [plcaSetConfig]
  split
  · rfl
  · rename_i hnone
    exact (not_not.mp hnone).symm

theorem plcaSetConfig_nodeCount (s : PlcaState) (args : ConfigArgs) :
    (plcaSetConfig s args).2.nodeCount = args.nodeCount.elim s.nodeCount (min · 255) := by
  rw [plcaSetConfig_state]
  cases args.nodeCount with
  | none => exact setNodeId_nodeCount _ _
  | some ncnt => rfl

/-- All but the node count is kept valid by every configuration. -/
theorem plcaSetConfig_valid_iff {s : PlcaState} (h : Valid s) (args : ConfigArgs) :
    Valid (plcaSetConfig s args).2 ↔ 1 ≤ (plcaSetConfig s args).2.nodeCount ∧
      (plcaSetConfig s args).2.nodeCount ≤ 255 := by
  constructor
  · exact Valid.nodeCount
  · intro hcount
    obtain ⟨hid, hcoordinator⟩ :=
      setNodeId_valid (s := setEnable s args.enable) h.nodeId h.coordinator args.nodeId
    refine ⟨?_, hcount, ?_, ?_⟩
    · rw [plcaSetConfig_state]
      simpa [setBeacon, setToTimer] using hid
    · rw [plcaSetConfig_state]
      simpa [setBeacon, setToTimer] using hcoordinator
    · rw [plcaSetConfig_state]
      rfl

/-- A node id that is refused leaves the node id in force. -/
theorem plcaSetConfig_localNodeId (s : PlcaState) (args : ConfigArgs) (error : ConfigError)
    (herror : error ∈ (setNodeId (setEnable s args.enable) args.nodeId).1) :
    (plcaSetConfig s args).2.localNodeId = s.localNodeId := by
  obtain ⟨-, hsame⟩ := setNodeId_unchanged _ _ error herror
  rw [plcaSetConfig_state, hsame]
  exact setNodeCount_localNodeId _ _

/-- What a configuration reports as invalid is left alone, unless it is the node count that is
replaced by another. -/
theorem plcaSetConfig_unchanged_iff (s : PlcaState) (args : ConfigArgs) :
    (∀ error ∈ (plcaSetConfig s args).1.errors, ∀ field ∈ error.invalid,
      field (plcaSetConfig s args).2 = field s) ↔
      ∀ ncnt ∈ args.nodeCount, ¬ (1 ≤ ncnt ∧ ncnt ≤ 255) → min ncnt 255 = s.nodeCount := by
  rw [plcaSetConfig_errors]
  constructor
  · intro h ncnt hncnt hout
    have hreport := (setNodeCount_invalid_iff (setNodeId (setEnable s args.enable) args.nodeId).2
      args.nodeCount _).mpr ⟨ncnt, hncnt, hout, rfl⟩
    have hsame := h _ (List.mem_append_right _ hreport.1) PlcaState.nodeCount rfl
    rwa [plcaSetConfig_nodeCount, Option.mem_def.mp hncnt] at hsame
  · intro h error herror field hfield
    rcases List.mem_append.mp herror with hid | hcount
    · obtain ⟨⟨nid, rfl⟩, -⟩ := setNodeId_unchanged _ _ error hid
      obtain rfl := Option.mem_some_iff.mp hfield
      exact plcaSetConfig_localNodeId s args _ hid
    · have hsome : error.invalid ≠ none := Option.ne_none_iff_exists'.mpr ⟨field, hfield⟩
      obtain ⟨ncnt, hncnt, hout, rfl⟩ := (setNodeCount_invalid_iff _ _ _).mp ⟨hcount, hsome⟩
      obtain rfl := Option.mem_some_iff.mp hfield
      rw [plcaSetConfig_nodeCount, Option.mem_def.mp hncnt]
      exact h ncnt hncnt hout

/-- From a valid state a call does as it should just when its node count is one to take. -/
theorem keeps_iff {s : PlcaState} (h : Valid s) (call : Call) :
    Keeps s call ↔ CountInRange s call := by
  cases call with
  | getStatus interface =>
    refine iff_of_true ⟨?_, ?_, ?_⟩ trivial
    · exact ⟨h.nodeId, h.nodeCount, h.coordinator, h.beaconActive⟩
    · intro error herror
      cases herror
    · intro _ _
      exact lt_of_lt_of_le zero_lt_one h.nodeCount.1
  | setConfig args =>
    have hunchanged := plcaSetConfig_unchanged_iff s args
    have hvalid := plcaSetConfig_valid_iff h args
    rw [plcaSetConfig_nodeCount] at hvalid
    have hin := h.nodeCount
    constructor
    · intro hkeeps ncnt hncnt
      have hrange := hvalid.mp hkeeps.valid
      have hsame := hunchanged.mp hkeeps.unchanged ncnt hncnt
      rw [Option.mem_def.mp hncnt, Option.elim_some] at hrange
      omega
    · intro hcall
      refine ⟨hvalid.mpr ?_, hunchanged.mpr ?_, ?_⟩
      · cases hncnt : args.nodeCount with
        | none => exact hin
        | some ncnt =>
          have hle := (hcall ncnt hncnt).1
          rw [Option.elim_some]
          omega
      · intro ncnt hncnt hout
        have hle := hcall ncnt hncnt
        omega
      · intro interface hcall
        cases hcall

/-! ## Runs -/

/-- The states stay valid, and what is reported as invalid is left alone, just as long as every node
count given is one to take. -/
theorem configuration_valid_iff (calls : List Call) :
    Valid {} ∧ Always step {} Keeps calls ↔ Always step {} CountInRange calls := by
  rw [and_iff_right valid_init]
  refine always_congr_while valid_init ?_ (fun s call h => keeps_iff h call) calls
  exact fun s call h hcall => ((keeps_iff h call).mpr hcall).valid

/-- A node count of 0 is reported as invalid, and stored. -/
theorem zero_node_count_stored :
    ¬ (Valid {} ∧ Always step {} Keeps [.setConfig { nodeCount := some 0 }]) := by
  rintro ⟨-, h⟩
  have hcount := (always_cons.mp h).1.valid.nodeCount.1
  exact absurd hcount (by decide)

end Genoh.PlcaTools
