import Genoh.MasterLogs

/-!
# Master safety log

`master/safety_log.py` with the events of `common/safety_types.py`. The clocks are passed in.
-/
namespace Genoh.MasterSafetyLog

open Genoh.Json Genoh.Strings Genoh.TextFile Genoh.MasterLogs

def maxEvents : Nat := 10000

/-! ## Events -/

/-- `time.time()` in milliseconds and `time.monotonic_ns()`. -/
structure Clock where
  nowMs : Nat
  monotonicNs : Nat

structure SafetyEvent where
  seq : Value
  severity : Value
  event : Value
  source : Value
  details : Value
  safetyState : Value
  dtc : Value
  tsMs : Value
  monotonicNs : Value

def SafetyEvent.toDict (e : SafetyEvent) : Members := [
  (str "seq", e.seq),
  (str "ts_ms", e.tsMs),
  (str "monotonic_ns", e.monotonicNs),
  (str "severity", e.severity),
  (str "event", e.event),
  (str "source", e.source),
  (str "details", e.details),
  (str "safety_state", e.safetyState),
  (str "dtc", e.dtc)]

/-- `SafetyEvent.from_dict`; missing times are those of reading. -/
def fromDict (clock : Clock) (data : Value) : Except LogError SafetyEvent := do
  let data ← subscripted data
  let seq ← item data (str "seq")
  let severity ← item data (str "severity")
  let event ← item data (str "event")
  let source ← item data (str "source")
  return {
    seq := seq
    severity := severity
    event := event
    source := source
    details := getOr data (str "details") (.dict [])
    safetyState := getOr data (str "safety_state") (.str (str "NORMAL"))
    dtc := getOr data (str "dtc") (.str [])
    tsMs := getOr data (str "ts_ms") (.int clock.nowMs)
    monotonicNs := getOr data (str "monotonic_ns") (.int clock.monotonicNs) }

/-! ## The log -/

structure SafetyLog where
  seq : Value := .int 0

/-- `_recover_sequence`, in a new log on a file. -/
def recoverSequence (file : File) : Except LogError SafetyLog :=
  (recoverEntry file).map fun
    | none => {}
    | some data => { seq := getOr data (str "seq") (.int 0) }

/-- The arguments of `log_event`, enumerations by their values. -/
structure SafetyCall where
  severity : Str
  event : Str
  source : Str
  details : Details := some []
  safetyState : Str := str "NORMAL"
  dtc : Str := []

/-- The entry that `log_event` makes. -/
def newEntry (seq : Value) (call : SafetyCall) (details : Members) (clock : Clock) : SafetyEvent where
  seq := seq
  severity := .str call.severity
  event := .str call.event
  source := .str call.source
  details := .dict details
  safetyState := .str call.safetyState
  dtc := .str call.dtc
  tsMs := .int clock.nowMs
  monotonicNs := .int clock.monotonicNs

/-- `self._seq % 500 == 0`. -/
def rotates : Value → Bool
  | .int n => n % 500 = 0
  | _ => false

/-- What `_rotate_if_needed` writes to the file; none where it leaves the file as it is. -/
def keptText (seq : Value) (file : File) : Except LogError (Option (List Char)) :=
  if rotates seq then
    (readAllLines file).map fun lines =>
      if lines.length > maxEvents then some (lines.rtake maxEvents).flatten else none
  else .ok none

/-- `_rotate_if_needed`. That the file cannot be opened is logged only. -/
def rotateIfNeeded (seq : Value) (file : File) (disk : Rewrite) : Outcome Unit × File :=
  match keptText seq file with
  | .error error => (.raised error, file)
  | .ok none => (.returned (), file)
  | .ok (some text) => (if disk.stops then .crashed else .returned (), rewrite file text disk)

/-- `log_event`: how it ends, the log and the file. -/
def logEvent (log : SafetyLog) (file : File) (call : SafetyCall) (clock : Clock) (append : Disk)
    (rotate : Rewrite) : Outcome SafetyEvent × SafetyLog × File :=
  match increment log.seq with
  | .error error => (.raised error, log, file)
  | .ok seq =>
    let log := { log with seq := seq }
    match call.details with
    | none => (.raised .typeError, log, file)
    | some details =>
      let entry := newEntry seq call details clock
      let file := writeEntry file entry.toDict append
      match append with
      | .refuses => (.raised .osError, log, file)
      | .crashes _ => (.crashed, log, file)
      | .writes =>
        match rotateIfNeeded seq file rotate with
        | (.returned _, file) => (.returned entry, log, file)
        | (.raised error, file) => (.raised error, log, file)
        | (.crashed, file) => (.crashed, log, file)

/-! ## Events in the file -/

/-- The event that is read where this one was written. -/
def SafetyEvent.reread (e : SafetyEvent) : SafetyEvent where
  seq := Json.reread e.seq
  severity := Json.reread e.severity
  event := Json.reread e.event
  source := Json.reread e.source
  details := Json.reread e.details
  safetyState := Json.reread e.safetyState
  dtc := Json.reread e.dtc
  tsMs := Json.reread e.tsMs
  monotonicNs := Json.reread e.monotonicNs

theorem nodup_toDict (e : SafetyEvent) : (e.toDict.map Prod.fst).Nodup := by
  simp only [SafetyEvent.toDict, List.map_cons, List.map_nil]
  decide +kernel

theorem stored_toDict (e : SafetyEvent) : stored e.toDict = e.reread.toDict := by
  rw [stored, dictOf_of_nodup]
  · rfl
  · exact nodup_toDict e.reread

@[simp] theorem fromDict_toDict (e : SafetyEvent) (clock : Clock) :
    fromDict clock (.dict e.toDict) = .ok e := rfl

end Genoh.MasterSafetyLog
