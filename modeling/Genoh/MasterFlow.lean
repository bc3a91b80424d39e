/-!
# Master flow monitoring

`master/flow_monitor.py`: the checkpoints of a cycle as a list, compared with the expected one.
-/
namespace Genoh.MasterFlow

def cpSensor : Int := 1
def cpActuator : Int := 2
def cpQuery : Int := 3
def cpDiag : Int := 4

/-- `EXPECTED_FLOW`. -/
def expectedFlow : List Int := [cpSensor, cpActuator, cpQuery, cpDiag]

/-- `onError` says whether there is a callback. -/
structure FlowMonitor where
  expected : List Int
  actual : List Int
  onError : Bool
  cycleCount : Nat
  errorCount : Nat
  deriving DecidableEq, Repr

namespace FlowMonitor

/-- `FlowMonitor(expected_flow, on_error)`; an empty list stands for the default as well. -/
def init (flow : Option (List Int)) (onError : Bool) : FlowMonitor where
  expected := match flow with
    | none => expectedFlow
    | some [] => expectedFlow
    | some flow => flow
  actual := []
  onError := onError
  cycleCount := 0
  errorCount := 0

def checkpoint (fm : FlowMonitor) (cpId : Int) : FlowMonitor :=
  { fm with actual := fm.actual ++ [cpId] }

/-- `verify_cycle`, with whether the callback is called. -/
def verifyCycle (fm : FlowMonitor) : Bool × FlowMonitor × Bool :=
  let fm := { fm with cycleCount := fm.cycleCount + 1 }
  let ok := fm.actual == fm.expected
  let fm := if ok then fm else { fm with errorCount := fm.errorCount + 1 }
  (ok, { fm with actual := [] }, !ok && fm.onError)

@[simp] theorem verifyCycle_actual (fm : FlowMonitor) : fm.verifyCycle.2.1.actual = [] := rfl

@[simp] theorem verifyCycle_expected (fm : FlowMonitor) :
    fm.verifyCycle.2.1.expected = fm.expected := by
  simp only [verifyCycle]
  split <;> rfl

theorem verifyCycle_iff (fm : FlowMonitor) : fm.verifyCycle.1 = true ↔ fm.actual = fm.expected :=
  beq_iff_eq

end FlowMonitor

end Genoh.MasterFlow
