import Genoh.MasterSupervisor
import Genoh.Monitor
import Genoh.Run

/-!
# The supervisor's lock

The public methods of `E2ESupervisor` as they take its lock, a `threading.Lock`. A message
for a data id without a channel makes `on_message_received` call `register_channel`, which
takes the lock again.
-/
namespace Genoh.SupervisorLock

open Genoh.Bytes Genoh.Run Genoh.Monitor Genoh.Monitor.Method Genoh.MasterE2E Genoh.MasterSupervisor

variable {Thread : Type} [DecidableEq Thread]

/-! ## The methods -/

/-- A method of the supervisor. The objects it calls hold no reference to the supervisor. -/
abbrev SupervisorMethod (Thread α : Type) : Type := Method Thread E2ESupervisor Call PyError α

def registerChannel (dataId : Nat) (deadlineMs : Int) (maxSeqGap : Nat) (now : ℚ) :
    SupervisorMethod Thread Unit := locked do
  set (MasterSupervisor.registerChannel (← get) dataId deadlineMs maxSeqGap now)

/-- The channel of a data id, registered first if there is none. -/
def channelOf (dataId : Nat) (now : ℚ) : SupervisorMethod Thread E2EChannelState := do
  match (← get).channels.get? dataId with
  | some ch => return ch
  | none =>
    registerChannel dataId defaultDeadlineMs 3 now
    return newChannel dataId defaultDeadlineMs 3 now

def finish : Outcome → SupervisorMethod Thread E2EStatus
  | .returned status => return status
  | .raised error => raise error
  | .deadlock => stuck

def onMessageReceived (header : E2EHeader) (payload : List Byte) (now : ℚ) :
    SupervisorMethod Thread E2EStatus := locked do
  let ch ← channelOf header.dataId now
  let (ch, calls, outcome) := receiveOn ch header payload now
  set ⟨(← get).channels.set header.dataId ch⟩
  emit calls
  finish outcome

def checkTimeouts (now : ℚ) : SupervisorMethod Thread (List Nat) := locked do
  let (sup, calls, timedOut) := MasterSupervisor.checkTimeouts (← get) now
  set sup
  emit calls
  return timedOut

def getChannelStatus (dataId : Nat) : SupervisorMethod Thread (Option E2EStatus) := locked do
  return MasterSupervisor.getChannelStatus (← get) dataId

/-! ## What they do with a free lock -/

section Free

variable (t : Thread) (sup : E2ESupervisor)

theorem registerChannel_free (dataId : Nat) (deadlineMs : Int) (maxSeqGap : Nat) (now : ℚ) :
    (registerChannel dataId deadlineMs maxSeqGap now).run t ⟨none, sup⟩ =
      (.returned (), [],
        ⟨none, MasterSupervisor.registerChannel sup dataId deadlineMs maxSeqGap now⟩) := by
  simp [registerChannel, continueWith, release]

theorem checkTimeouts_free (now : ℚ) :
    (checkTimeouts now).run t ⟨none, sup⟩ =
      (.returned (MasterSupervisor.checkTimeouts sup now).2.2,
        (MasterSupervisor.checkTimeouts sup now).2.1,
        ⟨none, (MasterSupervisor.checkTimeouts sup now).1⟩) := by
  simp [checkTimeouts, continueWith, release]

theorem getChannelStatus_free (dataId : Nat) :
    (getChannelStatus dataId).run t ⟨none, sup⟩ =
      (.returned (MasterSupervisor.getChannelStatus sup dataId), [], ⟨none, sup⟩) := by
  simp [getChannelStatus, continueWith, release]

/-- How a call ends whose outcome is known, and who holds the lock then. -/
def settle (t : Thread) : E2ESupervisor × List Call × Outcome →
    Ending PyError E2EStatus × List Call × Object Thread E2ESupervisor
  | (sup, calls, .returned status) => (.returned status, calls, ⟨none, sup⟩)
  | (sup, calls, .raised error) => (.raised error, calls, ⟨none, sup⟩)
  | (sup, calls, .deadlock) => (.selfDeadlock, calls, ⟨some t, sup⟩)

/-- `on_message_received` has the outcome that the channel table alone decides. -/
theorem onMessageReceived_free (header : E2EHeader) (payload : List Byte) (now : ℚ) :
    (onMessageReceived header payload now).run t ⟨none, sup⟩ =
      settle t (MasterSupervisor.onMessageReceived sup header payload now) := by
  cases hch : sup.channels.get? header.dataId with
  | none =>
    simp [onMessageReceived, channelOf, registerChannel, MasterSupervisor.onMessageReceived, hch,
      continueWith, release, settle]
  | some ch =>
    rcases hreceive : receiveOn ch header payload now with ⟨ch', calls, outcome⟩
    cases outcome with
    | returned | raised | deadlock =>
      simp [onMessageReceived, channelOf, MasterSupervisor.onMessageReceived, hch, hreceive,
        continueWith, release, settle, finish]

end Free

/-! ## Calls from many threads -/

/-- A call of a public method. -/
inductive Invocation where
  | registerChannel (dataId : Nat) (deadlineMs : Int) (maxSeqGap : Nat) (now : ℚ)
  | onMessageReceived (header : E2EHeader) (payload : List Byte) (now : ℚ)
  | checkTimeouts (now : ℚ)
  | getChannelStatus (dataId : Nat)

/-- What a call returns. -/
inductive Reply where
  | done
  | status (status : E2EStatus)
  | timedOut (dataIds : List Nat)
  | found (status : Option E2EStatus)
  deriving DecidableEq, Repr

def Invocation.method : Invocation → SupervisorMethod Thread Reply
  | .registerChannel dataId deadlineMs maxSeqGap now => do
    SupervisorLock.registerChannel dataId deadlineMs maxSeqGap now
    return .done
  | .onMessageReceived header payload now => do
    return .status (← SupervisorLock.onMessageReceived header payload now)
  | .checkTimeouts now => do
    return .timedOut (← SupervisorLock.checkTimeouts now)
  | .getChannelStatus dataId => do
    return .found (← SupervisorLock.getChannelStatus dataId)

/-- No call gets past a lock that is held. -/
theorem method_held (t holder : Thread) (sup : E2ESupervisor) (call : Invocation) :
    call.method.run t ⟨some holder, sup⟩ =
      (if holder = t then .selfDeadlock else .waits, [], ⟨some holder, sup⟩) := by
  by_cases hown : holder = t
  · cases call with
    | registerChannel | onMessageReceived | checkTimeouts | getChannelStatus =>
      simp [Invocation.method, SupervisorLock.registerChannel, SupervisorLock.onMessageReceived,
        SupervisorLock.checkTimeouts, SupervisorLock.getChannelStatus, continueWith, hown]
  · cases call with
    | registerChannel | onMessageReceived | checkTimeouts | getChannelStatus =>
      simp [Invocation.method, SupervisorLock.registerChannel, SupervisorLock.onMessageReceived,
        SupervisorLock.checkTimeouts, SupervisorLock.getChannelStatus, continueWith, hown]

/-- The calls come from any threads, one after the other: the lock keeps them apart. -/
def step (m : Object Thread E2ESupervisor) (e : Thread × Invocation) :
    Object Thread E2ESupervisor := (e.2.method.run e.1 m).2.2

def ending (m : Object Thread E2ESupervisor) (e : Thread × Invocation) : Ending PyError Reply :=
  (e.2.method.run e.1 m).1

def idle : Object Thread E2ESupervisor := ⟨none, E2ESupervisor.init⟩

/-- The fields are those of a header on the wire. -/
def InWire (header : E2EHeader) : Prop :=
  header.dataId < 65536 ∧ header.sequenceCounter < 65536 ∧ header.aliveCounter < 256 ∧
    header.length < 65536

theorem e2eVerify_inWire {header : E2EHeader} (payload : List Byte) (h : InWire header) :
    ∃ valid, e2eVerify header payload = .ok valid := by
  obtain ⟨hid, hseq, halive, hlen⟩ := h
  simp [e2eVerify, computeE2eCrc, structPack, hid, hseq, halive, hlen, Except.map]

/-- The call does not wait for its own lock, and it returns unless a field of the header does
not fit. -/
def Returns (m : Object Thread E2ESupervisor) (e : Thread × Invocation) : Prop :=
  ending m e ≠ .selfDeadlock ∧
    ((∀ header payload now, e.2 = .onMessageReceived header payload now → InWire header) →
      ∃ reply, ending m e = .returned reply)

/-- A received message has a channel. -/
def Registered (m : Object Thread E2ESupervisor) (e : Thread × Invocation) : Prop :=
  ∀ header payload now, e.2 = .onMessageReceived header payload now →
    ∃ ch, m.state.channels.get? header.dataId = some ch

/-- A header of the wire is verified, and the channel takes the message. -/
theorem receiveOn_returned (ch : E2EChannelState) (header : E2EHeader) (payload : List Byte) (now : ℚ)
    (h : InWire header) :
    ∃ ch' calls status, receiveOn ch header payload now = (ch', calls, .returned status) := by
  obtain ⟨valid, hverify⟩ := e2eVerify_inWire payload h
  cases valid with
  | false | true =>
    simp only [receiveOn, hverify]
    exact ⟨_, _, _, rfl⟩

theorem receiveOn_ends (ch : E2EChannelState) (header : E2EHeader) (payload : List Byte) (now : ℚ) :
    (receiveOn ch header payload now).2.2 ≠ .deadlock := by
  intro hdeadlock
  rw [receiveOn] at hdeadlock
  dsimp only at hdeadlock
  split at hdeadlock <;> cases hdeadlock

/-- With a free lock and a channel for its message a call returns and gives the lock back. -/
theorem registered_returns (t : Thread) (sup : E2ESupervisor) (call : Invocation)
    (h : Registered ⟨none, sup⟩ (t, call)) :
    Returns ⟨none, sup⟩ (t, call) ∧ (step ⟨none, sup⟩ (t, call)).holder = none := by
  cases call with
  | registerChannel dataId deadlineMs maxSeqGap now =>
    simp [Returns, ending, step, Invocation.method, registerChannel_free, continueWith]
  | onMessageReceived header payload now =>
    obtain ⟨ch, hch⟩ : ∃ ch, sup.channels.get? header.dataId = some ch := h header payload now rfl
    have hends := receiveOn_ends ch header payload now
    have hreturned := receiveOn_returned ch header payload now
    rcases hreceive : receiveOn ch header payload now with ⟨ch', calls, outcome⟩
    rw [hreceive] at hends hreturned
    cases outcome with
    | deadlock => exact absurd rfl hends
    | returned status =>
      simp [Returns, ending, step, Invocation.method, onMessageReceived_free,
        MasterSupervisor.onMessageReceived, hch, hreceive, settle, continueWith]
    | raised error =>
      have hwide : ¬ InWire header := fun hwire => by
        obtain ⟨_, _, _, heq⟩ := hreturned hwire
        cases heq
      simp [Returns, ending, step, Invocation.method, onMessageReceived_free,
        MasterSupervisor.onMessageReceived, hch, hreceive, settle, continueWith, hwide]
  | checkTimeouts now =>
    simp [Returns, ending, step, Invocation.method, checkTimeouts_free, continueWith]
  | getChannelStatus dataId =>
    simp [Returns, ending, step, Invocation.method, getChannelStatus_free, continueWith]

/-- A message without a channel gets stuck. -/
theorem unregistered_ending (t : Thread) (sup : E2ESupervisor) (header : E2EHeader)
    (payload : List Byte) (now : ℚ) (h : sup.channels.get? header.dataId = none) :
    ending ⟨none, sup⟩ (t, .onMessageReceived header payload now) = .selfDeadlock := by
  simp [ending, Invocation.method, onMessageReceived_free, MasterSupervisor.onMessageReceived, h,
    settle, continueWith]

theorem returns_iff_registered (m : Object Thread E2ESupervisor) (e : Thread × Invocation)
    (hfree : m.holder = none) : Returns m e ↔ Registered m e := by
  obtain ⟨holder, sup⟩ := m
  obtain ⟨t, call⟩ := e
  obtain rfl : holder = none := hfree
  constructor
  · rintro ⟨hends, -⟩ header payload now rfl
    cases hch : sup.channels.get? header.dataId with
    | none => exact absurd (unregistered_ending t sup header payload now hch) hends
    | some ch => exact ⟨ch, rfl⟩
  · exact fun hregistered => (registered_returns t sup call hregistered).1

theorem step_free (m : Object Thread E2ESupervisor) (e : Thread × Invocation)
    (hfree : m.holder = none) (hregistered : Registered m e) : (step m e).holder = none := by
  obtain ⟨holder, sup⟩ := m
  obtain rfl : holder = none := hfree
  exact (registered_returns e.1 sup e.2 hregistered).2

/-- In every run of calls from any threads, all calls return exactly when every received
message has a channel, registered earlier. -/
theorem calls_return_iff (calls : List (Thread × Invocation)) :
    Always step idle Returns calls ↔ Always step idle Registered calls :=
  always_congr_while (I := fun m => m.holder = none) rfl step_free returns_iff_registered calls

/-- A message on a supervisor without channels waits for its own thread. -/
theorem unregistered_stuck :
    ¬ Always step idle Returns [((0 : Nat), .onMessageReceived ⟨0x1001, 0, 0, 0, 0⟩ [] 0)] := by
  intro h
  have hreturns := h [] (0, .onMessageReceived ⟨0x1001, 0, 0, 0, 0⟩ [] 0) [] rfl
  exact hreturns.1 rfl

end Genoh.SupervisorLock
