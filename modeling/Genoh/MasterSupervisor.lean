import Genoh.OrderedDict
import Genoh.MasterE2E
import Genoh.MasterSafety

/-!
# Master E2E supervisor

The channel bookkeeping of `master/e2e_supervisor.py`: registration, the reception of a
decoded message and the check for timeouts. Reports to the safety manager, the DTC manager
and the log are returned as calls, in order. Clock readings are seconds of the monotonic
clock.
-/
namespace Genoh.MasterSupervisor

open Genoh.Bytes Genoh.OrderedDict Genoh.MasterE2E
open Genoh.MasterSafety (FaultType Details SafetyLogSeverity)

inductive E2EStatus where
  | init | valid | timeout | invalid | error
  deriving DecidableEq, Repr

/-- A call to one of the objects the supervisor reports to. -/
inductive Call where
  | notifyFault (faultType : FaultType) (source : String) (details : Details)
  | setDtc (code : Nat) (description : String)
  | logEvent (severity : SafetyLogSeverity) (event source : String) (details : Details)
  deriving DecidableEq, Repr

def defaultDeadlineMs : Int := 5000
def errorThreshold : Nat := 3

structure E2EChannelState where
  dataId : Nat
  status : E2EStatus := .init
  deadlineMs : Int := defaultDeadlineMs
  lastValidTime : ℚ := 0
  seqChecker : SequenceChecker := { maxGap := 3 }
  consecutiveFailures : Nat := 0
  totalReceived : Nat := 0
  totalCrcFailures : Nat := 0
  totalSeqErrors : Nat := 0
  totalTimeouts : Nat := 0

structure E2ESupervisor where
  channels : Dict Nat E2EChannelState

def E2ESupervisor.init : E2ESupervisor := ⟨Dict.empty⟩

/-- The channel state that `register_channel` creates. -/
def newChannel (dataId : Nat) (deadlineMs : Int) (maxSeqGap : Nat) (now : ℚ) : E2EChannelState where
  dataId := dataId
  deadlineMs := deadlineMs
  lastValidTime := now
  seqChecker := { maxGap := maxSeqGap }

/-- `register_channel`. -/
def registerChannel (sup : E2ESupervisor) (dataId : Nat) (deadlineMs : Int) (maxSeqGap : Nat)
    (now : ℚ) : E2ESupervisor :=
  ⟨sup.channels.set dataId (newChannel dataId deadlineMs maxSeqGap now)⟩

/-- `_update_status`. -/
def updateStatus (ch : E2EChannelState) (new : E2EStatus) : E2EChannelState :=
  { ch with status := if ch.consecutiveFailures ≥ errorThreshold then .error else new }

/-- The conversion `04X`. -/
def hex4 (n : Nat) : String :=
  let digits := (Nat.toDigits 16 n).map Char.toUpper
  String.ofList (List.replicate (4 - digits.length) '0' ++ digits)

def sourceName (dataId : Nat) : String := "data_id=0x" ++ hex4 dataId

/-- The codes of `dtc_map` in `_report_fault`. -/
def dtcCode : FaultType → Option Nat
  | .crcFailure => some 0xC11029
  | .seqError => some 0xC11129
  | .timeout => some 0xC11231
  | _ => none

/-- `_report_fault`. -/
def reportFault (faultType : FaultType) (dataId : Nat) (detail : String) : List Call :=
  .notifyFault faultType (sourceName dataId) [("detail", detail)] ::
    (dtcCode faultType).toList.map fun code => .setDtc code faultType.value

/-- `_log_warning`. -/
def logWarning (dataId : Nat) (message : String) : List Call :=
  [.logEvent .safetyWarning "SEQ_COUNTER_GAP" (sourceName dataId) [("message", message)]]

/-- How a call of `on_message_received` ends. -/
inductive Outcome where
  | returned (status : E2EStatus)
  | raised (error : PyError)
  | deadlock
  deriving DecidableEq, Repr

/-- `on_message_received` after the sequence check. -/
def applyVerdict (ch : E2EChannelState) (dataId : Nat) (now : ℚ) :
    SeqVerdict → E2EChannelState × List Call
  | .ok | .init =>
    (updateStatus { ch with consecutiveFailures := 0, lastValidTime := now } .valid, [])
  | .okSomeLost =>
    let ch := { ch with
      consecutiveFailures := 0, lastValidTime := now, totalSeqErrors := ch.totalSeqErrors + 1 }
    (updateStatus ch .valid, logWarning dataId "Sequence gap detected (result=OK_SOME_LOST)")
  | .repeated => (ch, [])
  | .error =>
    let ch := { ch with
      totalSeqErrors := ch.totalSeqErrors + 1, consecutiveFailures := ch.consecutiveFailures + 1 }
    (updateStatus ch .invalid, reportFault .seqError dataId "Seq gap exceeded")

/-- `on_message_received` on the channel of the message. -/
def receiveOn (ch : E2EChannelState) (header : E2EHeader) (payload : List Byte) (now : ℚ) :
    E2EChannelState × List Call × Outcome :=
  let ch := { ch with totalReceived := ch.totalReceived + 1 }
  match e2eVerify header payload with
  | .error error => (ch, [], .raised error)
  | .ok false =>
    let ch := { ch with
      totalCrcFailures := ch.totalCrcFailures + 1
      consecutiveFailures := ch.consecutiveFailures + 1 }
    let ch := updateStatus ch .invalid
    (ch, reportFault .crcFailure header.dataId "CRC mismatch", .returned ch.status)
  | .ok true =>
    let (verdict, checker) := ch.seqChecker.check header.sequenceCounter
    let (ch, calls) := applyVerdict { ch with seqChecker := checker } header.dataId now verdict
    (ch, calls, .returned ch.status)

/-- `on_message_received`. For a data id without a channel it calls `register_channel`, which
waits for the lock that its caller holds. -/
def onMessageReceived (sup : E2ESupervisor) (header : E2EHeader) (payload : List Byte) (now : ℚ) :
    E2ESupervisor × List Call × Outcome :=
  match sup.channels.get? header.dataId with
  | none => (sup, [], .deadlock)
  | some ch =>
    let (ch, calls, outcome) := receiveOn ch header payload now
    (⟨sup.channels.set header.dataId ch⟩, calls, outcome)

/-! ## Timeouts -/

/-- The channel has heard nothing valid within its deadline, and is not given up. -/
def Overdue (now : ℚ) (ch : E2EChannelState) : Prop :=
  (now - ch.lastValidTime) * 1000 > ch.deadlineMs ∧ ch.status ≠ .error

instance (now : ℚ) (ch : E2EChannelState) : Decidable (Overdue now ch) :=
  inferInstanceAs (Decidable (_ ∧ _))

/-- `check_timeouts` on an overdue channel. -/
def timeOut (ch : E2EChannelState) : E2EChannelState :=
  updateStatus { ch with
    totalTimeouts := ch.totalTimeouts + 1
    consecutiveFailures := ch.consecutiveFailures + 1 } .timeout

/-- `check_timeouts`: one pass over the channels in their order. -/
def checkTimeouts (sup : E2ESupervisor) (now : ℚ) : E2ESupervisor × List Call × List Nat :=
  let timedOut := (sup.channels.pairs.filter fun p => Overdue now p.2).map Prod.fst
  (⟨sup.channels.mapValues fun ch => if Overdue now ch then timeOut ch else ch⟩,
    timedOut.flatMap fun dataId => reportFault .timeout dataId "Reception deadline exceeded",
    timedOut)

/-- `get_channel_status`. -/
def getChannelStatus (sup : E2ESupervisor) (dataId : Nat) : Option E2EStatus :=
  (sup.channels.get? dataId).map E2EChannelState.status

/-! ## Messages in sequence -/

/-- The checker has seen the first `n` numbers of a stream, in order. -/
def HasSeen (c : SequenceChecker) (n : Nat) : Prop :=
  c.lastSeq = if n = 0 then none else some ((n - 1) % 65536)

/-- The next number of the stream is in order, also across the wrap. -/
theorem check_next (c : SequenceChecker) (n : Nat) (h : HasSeen c n) :
    ((c.check (n % 65536)).1 = .init ∨ (c.check (n % 65536)).1 = .ok) ∧
      HasSeen (c.check (n % 65536)).2 (n + 1) := by
  unfold HasSeen at h ⊢
  obtain rfl | hpos := Nat.eq_zero_or_pos n
  · simp only [SequenceChecker.check, h]
    simp
  · rw [if_neg (by omega)] at h
    have hdelta : (((n % 65536 : Nat) : Int) - ((n - 1) % 65536 : Nat)) % 65536 = 1 := by omega
    simp only [SequenceChecker.check, h, hdelta]
    rw [if_neg (by decide : ¬ (1 : Int) = 0)]
    simp only [if_true]
    split <;> simp

/-- A message in order on a healthy channel makes it valid and reports nothing. -/
theorem receiveOn_next (ch : E2EChannelState) (header : E2EHeader) (payload : List Byte) (now : ℚ)
    (n : Nat) (hseen : HasSeen ch.seqChecker n) (hseq : header.sequenceCounter = n % 65536)
    (hverify : e2eVerify header payload = .ok true) :
    HasSeen (receiveOn ch header payload now).1.seqChecker (n + 1) ∧
      (receiveOn ch header payload now).2 = ([], .returned .valid) := by
  obtain ⟨hverdict, hnext⟩ := check_next ch.seqChecker n hseen
  simp only [receiveOn, hverify, hseq]
  obtain hinit | hok := hverdict
  · rw [hinit]
    exact ⟨hnext, rfl⟩
  · rw [hok]
    exact ⟨hnext, rfl⟩

end Genoh.MasterSupervisor
