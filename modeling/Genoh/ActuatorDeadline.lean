import Genoh.FirmwareClock
import Genoh.NodeActuators

/-!
# The deadline for actuator commands

Every accepted actuator message arms the deadline of the flow monitor with its tick. The
check that would count a missed one is right, but nothing calls it: the main loop uses the
checkpoints of the monitor only.
-/
namespace Genoh.ActuatorDeadline

open Genoh.Bytes Genoh.Run Genoh.AppZenoh Genoh.NodeReceive Genoh.FirmwareClock
open Genoh.FirmwareE2E Genoh.FirmwareSafety Genoh.FirmwareDiagnostics
open Genoh.NodeActuators (handler)

/-! ## Runs in real time -/

/-- The message comes out of `decode_secure_message`. -/
def accepted (app : App) (channel : Channel) (raw : List Byte) (hdr : E2eHeader)
    (tick : BitVec 32) : Bool :=
  decide (e2eHeaderSize + FirmwareSecOC.secocOverhead < raw.length) &&
    (decodeSecureMessage app raw hdr channel channel.dataId tick).2.2.isSome

/-- Time passes, a handler is called, or the loop takes an iteration of some length. -/
inductive Event where
  | wait (ms : Nat)
  | message (channel : Channel) (raw : List Byte) (hdr : E2eHeader)
  | loop (ms : Nat) (ram : RamReads) (jsonPayload : List Byte)

/-- The node with the real time and that of the last accepted message. -/
structure Watched where
  app : App
  clock : Nat
  lastAccepted : Option Nat

def step (w : Watched) : Event → Watched
  | .wait ms => { w with clock := w.clock + ms }
  | .message channel raw hdr =>
    { w with
      app := handler w.app channel raw hdr (tickAt w.clock)
      lastAccepted := if accepted w.app channel raw hdr (tickAt w.clock) then some w.clock
        else w.lastAccepted }
  | .loop ms ram jsonPayload =>
    { w with
      app := (mainLoop w.app ⟨tickAt w.clock, tickAt (w.clock + ms), ram, jsonPayload⟩).1
      clock := w.clock + ms }

/-- A node that boots at some time, from the pins as the board left them. -/
def start (leds : Leds) (clock : Nat) : Watched := ⟨boot leds (tickAt clock), clock, none⟩

/-- 10000 ms. -/
def deadlineMs : Nat := 10000

/-- More than the deadline has passed since the last accepted message. -/
def Overdue (w : Watched) : Prop := ∃ past, w.lastAccepted = some past ∧ past + deadlineMs < w.clock

/-- An iteration that starts overdue has counted the miss by its end. -/
def Recorded (w : Watched) (e : Event) : Prop :=
  ∀ ms ram jsonPayload, e = .loop ms ram jsonPayload → Overdue w →
    w.app.flow.totalDeadlineMisses < (step w e).app.flow.totalDeadlineMisses

/-- No iteration starts overdue. -/
def InTime (w : Watched) (e : Event) : Prop :=
  ∀ ms ram jsonPayload, e = .loop ms ram jsonPayload → ¬ Overdue w

/-! ## What the loop does to the monitor -/

/-- The three fields of the deadline are the same. -/
structure SameDeadline (fm fm' : FlowMonitor) : Prop where
  tick : fm'.lastActuatorTick = fm.lastActuatorTick
  misses : fm'.totalDeadlineMisses = fm.totalDeadlineMisses
  active : fm'.deadlineActive = fm.deadlineActive

theorem verifyCycle_sameDeadline (fm : FlowMonitor) : SameDeadline fm (flowVerifyCycle fm).2 := by
  unfold flowVerifyCycle
  dsimp only
  split <;> exact ⟨rfl, rfl, rfl⟩

theorem periodicTest_flow (app : App) (ram : RamReads) (tick : BitVec 32) :
    (app.periodicTest ram tick).flow = app.flow := by
  rw [App.periodicTest]

theorem superviseStep_flow (app : App) (input : LoopInput) :
    (superviseStep app input).flow = app.flow := by
  unfold superviseStep
  dsimp only
  split
  · rw [App.setLastSelfTest, periodicTest_flow]
    rfl
  · rfl

theorem blinkStep_flow (app : App) (input : LoopInput) : (blinkStep app input).flow = app.flow := by
  unfold blinkStep
  split
  · split <;> rfl
  · rfl

theorem flowStep_flow (app : App) (input : LoopInput) :
    (flowStep app input).flow = (flowVerifyCycle app.flow).2 := by
  unfold flowStep
  dsimp only
  split <;> rfl

/-- An iteration touches the checkpoints and their errors only. -/
theorem mainLoop_sameDeadline (app : App) (input : LoopInput) :
    SameDeadline app.flow (mainLoop app input).1.flow := by
  have hflow : (mainLoop app input).1.flow =
      (flowVerifyCycle (publishStep (superviseStep app input) input).1.flow).2 := by
    rw [← flowStep_flow _ input]
    exact blinkStep_flow (flowStep (publishStep (superviseStep app input) input).1 input) input
  have hpublish : SameDeadline (superviseStep app input).flow
      (publishStep (superviseStep app input) input).1.flow := ⟨rfl, rfl, rfl⟩
  have hverify := verifyCycle_sameDeadline (publishStep (superviseStep app input) input).1.flow
  rw [superviseStep_flow] at hpublish
  rw [hflow]
  exact ⟨hverify.tick.trans hpublish.tick, hverify.misses.trans hpublish.misses,
    hverify.active.trans hpublish.active⟩

/-! ## What a message does to the monitor -/

section Message

variable (app : App) (channel : Channel) (raw : List Byte) (hdr : E2eHeader) (tick : BitVec 32)

theorem decode_flow : (decodeSecureMessage app raw hdr channel channel.dataId tick).1.flow =
    if (decodeSecureMessage app raw hdr channel channel.dataId tick).2.2.isSome then
      flowActuatorReceived app.flow tick
    else app.flow := by
  have hsequenced : (sequenced app raw channel channel.dataId tick).flow = app.flow := by
    cases channel <;> rfl
  by_cases hreach : Reaches app raw channel.dataId tick
  · rw [decode_reaches app raw hdr channel channel.dataId tick hreach]
    split
    · exact hsequenced
    · split
      · exact hsequenced
      · rw [← hsequenced]
        rfl
  · obtain ⟨type, code, lastSeq, hdr', hdecode⟩ :=
      decode_stopped app raw hdr channel channel.dataId tick hreach
    rw [hdecode]
    rfl

theorem secureCommand_flow : (secureCommand app raw hdr channel tick).1.flow =
    if accepted app channel raw hdr tick then flowActuatorReceived app.flow tick else app.flow := by
  have hdecode := decode_flow app channel raw hdr tick
  unfold secureCommand accepted
  by_cases hlong : raw.length > e2eHeaderSize + FirmwareSecOC.secocOverhead
  · rw [if_pos hlong, decide_eq_true (show e2eHeaderSize + FirmwareSecOC.secocOverhead < raw.length
      from hlong), Bool.true_and]
    cases hresult : decodeSecureMessage app raw hdr channel channel.dataId tick with
    | mk app' rest =>
      obtain ⟨hdr', json⟩ := rest
      rw [hresult] at hdecode
      cases json with
      | none => exact hdecode
      | some json =>
        dsimp only
        split
        · exact hdecode
        · split <;> exact hdecode
  · rw [if_neg hlong, decide_eq_false (show ¬ e2eHeaderSize + FirmwareSecOC.secocOverhead < raw.length
      from hlong), Bool.false_and]
    rfl

/-- A handler arms the deadline exactly when its message is accepted. -/
theorem handler_flow : (handler app channel raw hdr tick).flow =
    if accepted app channel raw hdr tick then flowActuatorReceived app.flow tick else app.flow := by
  rw [← secureCommand_flow]
  cases channel with
  | headlight =>
    unfold handler headlightHandler
    dsimp only
    split
    · rename_i h
      rw [h]
    · rename_i h
      rw [h]
      split
      · rfl
      · split <;> rfl
  | hazard =>
    unfold handler hazardHandler
    dsimp only
    split
    · rename_i h
      rw [h]
    · rename_i h
      rw [h]
      split
      · rfl
      · split <;> rfl

end Message

/-! ## The armed deadline -/

/-- The monitor knows the last accepted message, and has counted nothing. -/
structure Armed (w : Watched) : Prop where
  tick : ∀ past, w.lastAccepted = some past →
    w.app.flow.deadlineActive = true ∧ w.app.flow.lastActuatorTick = tickAt past
  misses : w.app.flow.totalDeadlineMisses = 0
  past : ∀ past, w.lastAccepted = some past → past ≤ w.clock

theorem start_armed (leds : Leds) (clock : Nat) : Armed (start leds clock) where
  tick past h := by cases h
  misses := rfl
  past past h := by cases h

theorem step_armed (w : Watched) (e : Event) (hw : Armed w) : Armed (step w e) := by
  obtain ⟨htick, hmisses, hpast⟩ := hw
  cases e with
  | wait ms =>
    constructor
    · exact htick
    · exact hmisses
    · intro past h
      exact Nat.le_trans (hpast past h) (Nat.le_add_right _ _)
  | message channel raw hdr =>
    have hflow : (step w (.message channel raw hdr)).app.flow = _ :=
      handler_flow w.app channel raw hdr (tickAt w.clock)
    have hlast : (step w (.message channel raw hdr)).lastAccepted =
        if accepted w.app channel raw hdr (tickAt w.clock) then some w.clock
        else w.lastAccepted := rfl
    by_cases haccepted : accepted w.app channel raw hdr (tickAt w.clock) = true
    · rw [if_pos haccepted] at hflow hlast
      constructor
      · intro past h
        rw [hlast] at h
        rw [hflow, ← Option.some.inj h]
        exact ⟨rfl, rfl⟩
      · rw [hflow]
        exact hmisses
      · intro past h
        rw [hlast] at h
        exact Nat.le_of_eq (Option.some.inj h).symm
    · rw [if_neg haccepted] at hflow hlast
      constructor
      · intro past h
        rw [hlast] at h
        rw [hflow]
        exact htick past h
      · rw [hflow]
        exact hmisses
      · intro past h
        rw [hlast] at h
        exact hpast past h
  | loop ms ram jsonPayload =>
    have hsame := mainLoop_sameDeadline w.app
      ⟨tickAt w.clock, tickAt (w.clock + ms), ram, jsonPayload⟩
    constructor
    · intro past h
      obtain ⟨hactive, hlast⟩ := htick past h
      exact ⟨hsame.active.trans hactive, hsame.tick.trans hlast⟩
    · exact hsame.misses.trans hmisses
    · intro past h
      exact Nat.le_trans (hpast past h) (Nat.le_add_right _ _)

theorem loop_misses (w : Watched) (ms : Nat) (ram : RamReads) (jsonPayload : List Byte) :
    (step w (.loop ms ram jsonPayload)).app.flow.totalDeadlineMisses =
      w.app.flow.totalDeadlineMisses :=
  (mainLoop_sameDeadline w.app ⟨tickAt w.clock, tickAt (w.clock + ms), ram, jsonPayload⟩).misses

/-- The deadline of the actuators, over every run of the loop and the handlers: every missed deadline is
recorded exactly when there is none to record. -/
theorem deadline_recorded_iff (leds : Leds) (clock : Nat) (events : List Event) :
    Always step (start leds clock) Recorded events ↔ Always step (start leds clock) InTime events := by
  apply always_congr (start_armed leds clock) step_armed
  intro w e _
  constructor
  · intro hrecorded ms ram jsonPayload he hover
    have hmore := hrecorded ms ram jsonPayload he hover
    rw [he, loop_misses] at hmore
    exact BitVec.lt_irrefl _ hmore
  · intro hintime ms ram jsonPayload he hover
    exact absurd hover (hintime ms ram jsonPayload he)

/-! ## A bus that falls silent -/

/-- `{"state":"on"}` from the sender of the headlight. -/
def lastMessage : List Byte :=
  sealed (boot ⟨false, false⟩ 0).key.nodeKey (FirmwareKey.ascii "\x7b\"state\":\"on\"\x7d")
    dataIdHeadlight ⟨0, 0⟩ ⟨0⟩ 0

/-- The node has just booted, so the first message of the headlight is accepted. -/
theorem lastMessage_accepted :
    accepted (boot ⟨false, false⟩ 0) .headlight lastMessage ⟨0, 0, 0, 0, 0⟩ 0 = true := by
  have hshort : (FirmwareKey.ascii "\x7b\"state\":\"on\"\x7d").length ≤ 289 := by decide
  have hlength : lastMessage.length = 49 := sealed_length _ _ _ _ _ _ hshort
  have hrate : (rateCheck lastMessage dataIdHeadlight 0 (boot ⟨false, false⟩ 0).ids).1 = true := by
    rw [rateCheck, hlength]
    decide
  have hauthentic : Authentic (boot ⟨false, false⟩ 0).key.nodeKey lastMessage 0 :=
    sealed_authentic _ _ _ _ _ _ _ hshort (by decide)
  have hseq : sequenceOf lastMessage = 0 := sealed_sequenceOf _ _ _ _ _ _ hshort
  have hpayload : payloadOf lastMessage = FirmwareKey.ascii "\x7b\"state\":\"on\"\x7d" :=
    sealed_payloadOf _ _ _ _ _ _ hshort
  have hchecked : ¬ (e2eSeqCheck ((boot ⟨false, false⟩ 0).checker .headlight) 0).1 ≠ .ok := by decide
  have hdecode := decode_reaches (boot ⟨false, false⟩ 0) lastMessage ⟨0, 0, 0, 0, 0⟩ .headlight
    Channel.headlight.dataId 0 ⟨hrate, hauthentic⟩
  rw [hseq, if_neg hchecked, hpayload, if_neg (by decide)] at hdecode
  rw [accepted, hlength, hdecode]
  rfl

/-- One accepted message, ten seconds and a millisecond of silence, and an iteration. -/
theorem silent_bus_unrecorded :
    ¬ Always step (start ⟨false, false⟩ 0) Recorded
      [.message .headlight lastMessage ⟨0, 0, 0, 0, 0⟩, .wait 10001, .loop 0 ⟨0, 0⟩ []] := by
  intro h
  have hmessage : (step (start ⟨false, false⟩ 0)
      (.message .headlight lastMessage ⟨0, 0, 0, 0, 0⟩)).lastAccepted = some 0 :=
    if_pos lastMessage_accepted
  have hlate : Overdue (step (step (start ⟨false, false⟩ 0)
      (.message .headlight lastMessage ⟨0, 0, 0, 0, 0⟩)) (.wait 10001)) :=
    ⟨0, hmessage, by decide⟩
  rw [always_cons, always_cons, always_cons] at h
  have hmore := h.2.2.1 0 ⟨0, 0⟩ [] rfl hlate
  rw [loop_misses] at hmore
  exact BitVec.lt_irrefl _ hmore

/-! ## The check that is not called -/

/-- In every overdue state of a run the check would count the miss, until the tick count has
come around. -/
theorem checkDeadline_overdue (leds : Leds) (clock : Nat) (events : List Event) (past : Nat)
    (hlast : (run step (start leds clock) events).lastAccepted = some past)
    (hover : past + deadlineMs < (run step (start leds clock) events).clock)
    (haround : (run step (start leds clock) events).clock < past + 4294967296) :
    (flowCheckDeadline (run step (start leds clock) events).app.flow
        (tickAt (run step (start leds clock) events).clock)).1 = false ∧
      (flowCheckDeadline (run step (start leds clock) events).app.flow
        (tickAt (run step (start leds clock) events).clock)).2.totalDeadlineMisses = 1 := by
  have hw : Armed (run step (start leds clock) events) :=
    run_invariant (start_armed leds clock) step_armed events
  obtain ⟨hactive, htick⟩ := hw.tick past hlast
  have helapsed := tickAt_sub (run step (start leds clock) events).clock past
  have hlate : tickAt (run step (start leds clock) events).clock - tickAt past >
      flowActuatorDeadlineMs := by
    rw [gt_iff_lt, BitVec.lt_def]
    change 10000 < _
    rw [deadlineMs] at hover
    omega
  rw [flowCheckDeadline, if_neg (by simp [hactive]), htick, if_pos hlate]
  exact ⟨rfl, by rw [hw.misses]; rfl⟩

theorem checkDeadline_silent_bus :
    let w := run step (start ⟨false, false⟩ 0)
      [.message .headlight lastMessage ⟨0, 0, 0, 0, 0⟩, .wait 10001]
    (flowCheckDeadline w.app.flow (tickAt w.clock)).1 = false ∧
      (flowCheckDeadline w.app.flow (tickAt w.clock)).2.totalDeadlineMisses = 1 := by
  refine checkDeadline_overdue ⟨false, false⟩ 0 _ 0 ?_ ?_ ?_
  · exact if_pos lastMessage_accepted
  · decide
  · decide

end Genoh.ActuatorDeadline
