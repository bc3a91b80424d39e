import Genoh.NodeReceive
import Genoh.Run

/-!
# The actuators of the node

Four places write the outputs: the two handlers, the blink step and the safe action.
A call into the safety manager either leaves the pins alone or turns them off in a
blocked state; the other writers are guarded by `safety_actuator_allowed`.
-/
namespace Genoh.NodeActuators

open Genoh.Bytes Genoh.Run Genoh.AppZenoh Genoh.NodeReceive
open Genoh.FirmwareE2E Genoh.FirmwareSafety Genoh.FirmwareIds

/-! ## Calls into the safety manager -/

/-- The states in which no actuator may be on. -/
def Blocked (s : SafetyState) : Prop := s = .safeState ∨ s = .failSilent

theorem actuatorAllowed_iff (sm : SafetyManager) :
    safetyActuatorAllowed sm = true ↔ ¬ Blocked sm.state := by
  unfold safetyActuatorAllowed Blocked
  cases sm.state <;> decide

/-- What a call into the safety manager may do to the state and the pins. -/
structure Supervised (sm sm' : SafetyManager) (leds leds' : Leds) : Prop where
  blocked : Blocked sm.state → Blocked sm'.state
  silent : sm.state = .failSilent → sm'.state = .failSilent
  leds : leds' = leds ∧ (Blocked sm'.state → Blocked sm.state) ∨
    leds' = safetyExecuteSafeAction ∧ Blocked sm'.state

theorem supervised_refl (sm : SafetyManager) (leds : Leds) : Supervised sm sm leds leds :=
  ⟨id, id, .inl ⟨rfl, id⟩⟩

theorem supervised_trans {a b c : SafetyManager} {la lb lc : Leds} (hab : Supervised a b la lb)
    (hbc : Supervised b c lb lc) : Supervised a c la lc := by
  refine ⟨fun h => hbc.blocked (hab.blocked h), fun h => hbc.silent (hab.silent h), ?_⟩
  obtain ⟨hsame, hback⟩ | hoff := hbc.leds
  · obtain ⟨hsame', hback'⟩ | ⟨hoff', hblocked⟩ := hab.leds
    · exact .inl ⟨hsame.trans hsame', fun h => hback' (hback h)⟩
    · exact .inr ⟨hsame.trans hoff', hbc.blocked hblocked⟩
  · exact .inr hoff

/-- A fault that newly blocks the actuators turns them off. -/
theorem supervised_fault (sm : SafetyManager) (leds : Leds) (fault : FaultType) (tick : BitVec 32) :
    Supervised sm (safetyReportFault sm leds fault tick).1 leds
      (safetyReportFault sm leds fault tick).2 := by
  have hstate := safetyReportFault_state sm leds fault tick
  have hleds := safetyReportFault_leds sm leds fault tick
  cases hs : sm.state with
  | normal =>
    simp only [hs] at hstate hleds
    exact ⟨by simp [hs, Blocked], by simp [hs], .inl ⟨hleds, by simp [hstate, Blocked]⟩⟩
  | degraded =>
    simp only [hs] at hstate hleds
    refine ⟨by simp [hs, Blocked], by simp [hs], ?_⟩
    by_cases htotal : sm.totalFaults + 1 ≥ 4
    · rw [if_pos htotal] at hstate hleds
      exact .inr ⟨hleds, .inl hstate⟩
    · rw [if_neg htotal] at hstate hleds
      exact .inl ⟨hleds, by simp [hstate, Blocked]⟩
  | safeState =>
    simp only [hs] at hstate hleds
    exact ⟨fun _ => .inr hstate, fun _ => hstate, .inr ⟨hleds, .inr hstate⟩⟩
  | failSilent =>
    rw [safetyReportFault_failSilent sm leds fault tick hs]
    exact supervised_refl sm leds

theorem supervised_ok (sm : SafetyManager) (leds : Leds) :
    Supervised sm (safetyReportOk sm) leds leds := by
  obtain hsame | ⟨hdeg, hnormal⟩ := safetyReportOk_state sm
  · exact ⟨by simp [hsame], by simp [hsame], .inl ⟨rfl, by simp [hsame]⟩⟩
  · exact ⟨by simp [hdeg, Blocked], by simp [hdeg], .inl ⟨rfl, by simp [hnormal, Blocked]⟩⟩

theorem supervised_tick (sm : SafetyManager) (leds : Leds) (currentTick : BitVec 32) :
    Supervised sm (safetyTick sm leds currentTick).1 leds (safetyTick sm leds currentTick).2 := by
  obtain hsame | ⟨hdeg, hsafe⟩ := safetyTick_cases sm leds currentTick
  · rw [hsame]
    exact supervised_refl sm leds
  · rw [hsafe]
    exact ⟨by simp [hdeg, Blocked], by simp [hdeg], .inr ⟨rfl, .inl rfl⟩⟩

/-! ## Steps of the application that write no actuator -/

/-- The pins change by the safe action at most, and the two switches not at all. -/
structure Quiet (app app' : App) : Prop where
  supervised : Supervised app.safety app'.safety app.leds app'.leds
  headlightOn : app'.headlightOn = app.headlightOn
  hazardOn : app'.hazardOn = app.hazardOn

theorem Quiet.trans {a b c : App} (hab : Quiet a b) (hbc : Quiet b c) : Quiet a c :=
  ⟨supervised_trans hab.supervised hbc.supervised, hbc.headlightOn.trans hab.headlightOn,
    hbc.hazardOn.trans hab.hazardOn⟩

/-- A step that changes none of the four. -/
theorem quiet_of_eq {app app' : App} (hsafety : app'.safety = app.safety)
    (hleds : app'.leds = app.leds) (hheadlight : app'.headlightOn = app.headlightOn)
    (hhazard : app'.hazardOn = app.hazardOn) : Quiet app app' := by
  refine ⟨?_, hheadlight, hhazard⟩
  rw [hsafety, hleds]
  exact supervised_refl app.safety app.leds

theorem quiet_fault (app : App) (type : FaultType) (tick : BitVec 32) :
    Quiet app (app.fault type tick) :=
  ⟨supervised_fault app.safety app.leds type tick, rfl, rfl⟩

theorem quiet_recordDtc (app : App) (code lastSeq : BitVec 16) (tick : BitVec 32) :
    Quiet app (app.recordDtc code lastSeq tick) := quiet_of_eq rfl rfl rfl rfl

theorem quiet_accept (app : App) (tick : BitVec 32) : Quiet app (accept app tick) :=
  ⟨supervised_ok app.safety app.leds, rfl, rfl⟩

section Receive

variable (app : App) (raw : List Byte) (hdr : E2eHeader) (channel : Channel) (tick : BitVec 32)

theorem quiet_sequenced : Quiet app (sequenced app raw channel channel.dataId tick) := by
  cases channel <;> exact quiet_of_eq rfl rfl rfl rfl

/-- Whatever arrives, decoding it moves no actuator. -/
theorem quiet_decode :
    Quiet app (decodeSecureMessage app raw hdr channel channel.dataId tick).1 := by
  by_cases hreach : Reaches app raw channel.dataId tick
  · rw [decode_reaches app raw hdr channel channel.dataId tick hreach]
    have hsequenced := quiet_sequenced app raw channel tick
    split
    · exact (hsequenced.trans (quiet_fault _ _ _)).trans (quiet_recordDtc _ _ _ _)
    · split
      · exact hsequenced
      · exact hsequenced.trans (quiet_accept _ _)
  · obtain ⟨type, code, lastSeq, hdr', hdecode⟩ :=
      decode_stopped app raw hdr channel channel.dataId tick hreach
    rw [hdecode]
    have hids : Quiet app { app with ids := (rateCheck raw channel.dataId tick app.ids).2 } :=
      quiet_of_eq rfl rfl rfl rfl
    exact (hids.trans (quiet_fault _ _ _)).trans (quiet_recordDtc _ _ _ _)

/-- The message passed every check of the channel and the actuators were allowed: rate limit,
MAC, freshness window, E2E length and CRC, sequence number and data id. -/
structure Passed : Prop where
  long : e2eHeaderSize + FirmwareSecOC.secocOverhead < raw.length
  rate : (idsCheckMessage app.ids channel.dataId (BitVec.ofNat 32 raw.length) tick).1 = true
  authentic : Authentic app.key.nodeKey raw tick
  sequence : (e2eSeqCheck (app.checker channel) (sequenceOf raw)).1 = .ok
  dataId : dataIdOf raw = channel.dataId
  allowed : safetyActuatorAllowed (safetyReportOk app.safety) = true

/-- A message comes out of the decoder only when it passed all checks but the last two. -/
theorem decode_some (app' : App) (hdr' : E2eHeader) (json : List Byte)
    (h : decodeSecureMessage app raw hdr channel channel.dataId tick = (app', hdr', some json)) :
    Reaches app raw channel.dataId tick ∧
      (e2eSeqCheck (app.checker channel) (sequenceOf raw)).1 = .ok ∧
      hdr' = parseHeader (SecOCWire.body raw) ∧ app'.safety = safetyReportOk app.safety := by
  by_cases hreach : Reaches app raw channel.dataId tick
  · rw [decode_reaches app raw hdr channel channel.dataId tick hreach] at h
    split at h
    · cases h
    · rename_i hok
      split at h
      · cases h
      · cases h
        refine ⟨hreach, not_not.mp hok, rfl, ?_⟩
        cases channel <;> rfl
  · obtain ⟨type, code, lastSeq, hdr'', hdecode⟩ :=
      decode_stopped app raw hdr channel channel.dataId tick hreach
    rw [hdecode] at h
    cases h

/-- What both handlers share: no actuator moves, and a command comes out only of a message
that passed, in a state that allows it. -/
theorem secureCommand_spec :
    Quiet app (secureCommand app raw hdr channel tick).1 ∧
      ∀ json, (secureCommand app raw hdr channel tick).2 = some json →
        Passed app raw channel tick ∧
        ¬ Blocked (secureCommand app raw hdr channel tick).1.safety.state := by
  have hquiet := quiet_decode app raw hdr channel tick
  unfold secureCommand
  split
  · rename_i hlong
    cases hdecode : decodeSecureMessage app raw hdr channel channel.dataId tick with
    | mk app' rest =>
      obtain ⟨hdr', json⟩ := rest
      rw [hdecode] at hquiet
      cases json with
      | none => exact ⟨hquiet, nofun⟩
      | some json =>
        obtain ⟨hreach, hok, hhdr, hsafety⟩ := decode_some app raw hdr channel tick _ _ _ hdecode
        dsimp only
        split
        · exact ⟨hquiet.trans (quiet_fault _ _ _), nofun⟩
        · rename_i hid
          split
          · exact ⟨hquiet, nofun⟩
          · rename_i hallowed
            have hallowed' : safetyActuatorAllowed app'.safety = true := by simpa using hallowed
            refine ⟨hquiet, fun _ _ => ⟨⟨hlong, hreach.1, hreach.2, hok, ?_, ?_⟩, ?_⟩⟩
            · rw [dataIdOf, ← hhdr]
              exact not_not.mp hid
            · rw [← hsafety]
              exact hallowed'
            · exact (actuatorAllowed_iff app'.safety).mp hallowed'
  · exact ⟨quiet_of_eq rfl rfl rfl rfl, nofun⟩

end Receive

/-! ## Steps of the application -/

/-- A handler call or an iteration of the main loop. -/
inductive Event where
  | message (channel : Channel) (raw : List Byte) (hdr : E2eHeader) (tick : BitVec 32)
  | loop (input : LoopInput)

def handler (app : App) (channel : Channel) (raw : List Byte) (hdr : E2eHeader)
    (tick : BitVec 32) : App :=
  match channel with
  | .headlight => headlightHandler app raw hdr tick
  | .hazard => hazardHandler app raw hdr tick

def step (app : App) : Event → App
  | .message channel raw hdr tick => handler app channel raw hdr tick
  | .loop input => (mainLoop app input).1

/-- The pins are off in every blocked state. -/
def OutputsOff (app : App) : Prop := Blocked app.safety.state → app.leds = ⟨false, false⟩

/-- What every step keeps: a blocked state stays blocked, FAIL_SILENT stays, and the pins
stay off where they have to be. -/
structure Guarded (app app' : App) : Prop where
  blocked : Blocked app.safety.state → Blocked app'.safety.state
  silent : app.safety.state = .failSilent → app'.safety.state = .failSilent
  off : OutputsOff app → OutputsOff app'

theorem Guarded.trans {a b c : App} (hab : Guarded a b) (hbc : Guarded b c) : Guarded a c :=
  ⟨fun h => hbc.blocked (hab.blocked h), fun h => hbc.silent (hab.silent h),
    fun h => hbc.off (hab.off h)⟩

theorem Quiet.guarded {app app' : App} (h : Quiet app app') : Guarded app app' := by
  refine ⟨h.supervised.blocked, h.supervised.silent, fun hoff hblocked => ?_⟩
  obtain ⟨hsame, hback⟩ | ⟨hsafe, -⟩ := h.supervised.leds
  · rw [hsame]
    exact hoff (hback hblocked)
  · exact hsafe

/-- Where the actuators are allowed any write to them keeps the guard. -/
theorem guarded_of_allowed {app app' : App} (hallowed : ¬ Blocked app.safety.state)
    (hsafety : app'.safety = app.safety) : Guarded app app' := by
  have hallowed' : ¬ Blocked app'.safety.state := by rwa [hsafety]
  exact ⟨fun h => absurd h hallowed, fun h => absurd (.inr h) hallowed,
    fun _ h => absurd h hallowed'⟩

section Handlers

variable (app : App) (channel : Channel) (raw : List Byte) (hdr : E2eHeader) (tick : BitVec 32)

theorem handler_none {app' : App} (h : secureCommand app raw hdr channel tick = (app', none)) :
    handler app channel raw hdr tick = app' := by
  cases channel with
  | headlight => simp only [handler, headlightHandler, h]
  | hazard => simp only [handler, hazardHandler, h]

/-- No command reaches into the safety manager. -/
theorem handler_safety {app' : App} {json : List Byte}
    (h : secureCommand app raw hdr channel tick = (app', some json)) :
    (handler app channel raw hdr tick).safety = app'.safety := by
  cases channel with
  | headlight =>
    simp only [handler, headlightHandler, h]
    split
    · rfl
    · split <;> rfl
  | hazard =>
    simp only [handler, hazardHandler, h]
    split
    · rfl
    · split <;> rfl

/-- A handler leaves the actuators to the shared part, or acts on a message that passed. -/
theorem handler_cases :
    handler app channel raw hdr tick = (secureCommand app raw hdr channel tick).1 ∨
      Passed app raw channel tick ∧
        ¬ Blocked (secureCommand app raw hdr channel tick).1.safety.state ∧
        (handler app channel raw hdr tick).safety =
          (secureCommand app raw hdr channel tick).1.safety := by
  obtain ⟨-, hcommand⟩ := secureCommand_spec app raw hdr channel tick
  cases hsecure : secureCommand app raw hdr channel tick with
  | mk app' command =>
    rw [hsecure] at hcommand
    cases command with
    | none => exact .inl (handler_none app channel raw hdr tick hsecure)
    | some json =>
      obtain ⟨hpassed, hallowed⟩ := hcommand json rfl
      exact .inr ⟨hpassed, hallowed, handler_safety app channel raw hdr tick hsecure⟩

theorem handler_guarded : Guarded app (handler app channel raw hdr tick) := by
  have hshared := (secureCommand_spec app raw hdr channel tick).1.guarded
  obtain hquiet | ⟨-, hallowed, hsafety⟩ := handler_cases app channel raw hdr tick
  · rw [hquiet]
    exact hshared
  · exact hshared.trans (guarded_of_allowed hallowed hsafety)

end Handlers

/-! ## The main loop -/

section Loop

variable (app : App) (input : LoopInput)

theorem quiet_safetyTick (now : BitVec 32) : Quiet app (app.safetyTick now) :=
  ⟨supervised_tick app.safety app.leds now, rfl, rfl⟩

/-- A failed periodic test is a fault like any other. -/
theorem quiet_periodicTest (ram : RamReads) (tick : BitVec 32) :
    Quiet app (app.periodicTest ram tick) := by
  obtain hpass | hfail := safetyPeriodicTest_cases app.safety app.leds ram tick
  · have hsame : app.periodicTest ram tick = app := by rw [App.periodicTest, hpass]
    rw [hsame]
    exact quiet_of_eq rfl rfl rfl rfl
  · have hfault : app.periodicTest ram tick = app.fault .selfTest tick := by
      rw [App.periodicTest, hfail, App.fault]
    rw [hfault]
    exact quiet_fault app .selfTest tick

theorem quiet_setLastSelfTest (now : BitVec 32) : Quiet app (app.setLastSelfTest now) :=
  quiet_of_eq rfl rfl rfl rfl

theorem quiet_superviseStep : Quiet app (superviseStep app input) := by
  have htick := quiet_safetyTick app input.now
  unfold superviseStep
  dsimp only
  split
  · exact (htick.trans (quiet_periodicTest _ input.ram input.tick)).trans
      (quiet_setLastSelfTest _ input.now)
  · exact htick

theorem quiet_publishStep : Quiet app (publishStep app input).1 := quiet_of_eq rfl rfl rfl rfl

theorem quiet_flowStep : Quiet app (flowStep app input) := by
  have hflow : Quiet app { app with flow := (FirmwareDiagnostics.flowVerifyCycle app.flow).2 } :=
    quiet_of_eq rfl rfl rfl rfl
  unfold flowStep
  dsimp only
  split
  · exact hflow
  · exact (hflow.trans (quiet_fault _ _ _)).trans (quiet_recordDtc _ _ _ _)

/-- The blink step is the one writer of the loop, and it asks first. -/
theorem guarded_blinkStep : Guarded app (blinkStep app input) := by
  unfold blinkStep
  split
  · rename_i hblink
    have hallowed := (actuatorAllowed_iff app.safety).mp hblink.2
    split
    · exact guarded_of_allowed hallowed rfl
    · exact guarded_of_allowed hallowed rfl
  · exact (quiet_of_eq rfl rfl rfl rfl : Quiet app app).guarded

theorem guarded_mainLoop : Guarded app (mainLoop app input).1 := by
  have hsupervise := quiet_superviseStep app input
  have hpublish := quiet_publishStep (superviseStep app input) input
  have hflow := quiet_flowStep (publishStep (superviseStep app input) input).1 input
  have hblink := guarded_blinkStep (flowStep (publishStep (superviseStep app input) input).1 input) input
  have hcount : Quiet (blinkStep (flowStep (publishStep (superviseStep app input) input).1 input) input)
      (mainLoop app input).1 := quiet_of_eq rfl rfl rfl rfl
  exact (((hsupervise.trans hpublish).trans hflow).guarded.trans hblink).trans hcount.guarded

end Loop

theorem step_guarded (app : App) (e : Event) : Guarded app (step app e) := by
  cases e with
  | message channel raw hdr tick => exact handler_guarded app channel raw hdr tick
  | loop input => exact guarded_mainLoop app input

/-! ## Runs from boot -/

/-- A failed self-test leaves SAFE_STATE and the pins off, a passed one NORMAL. -/
theorem boot_outputsOff (leds : Leds) (tick : BitVec 32) : OutputsOff (boot leds tick) := by
  intro hblocked
  obtain hpass | hfail := safetySelfTest_cases safetyInit
  · have hnormal : (boot leds tick).safety = { safetyInit with selfTestPassed := true } :=
      congrArg Prod.fst hpass
    rw [hnormal] at hblocked
    simp [Blocked, safetyInit] at hblocked
  · have hleds : (boot leds tick).leds =
        if (safetySelfTest safetyInit).2 then leds else safetyExecuteSafeAction := rfl
    rw [hleds, hfail]
    rfl

/-- The handler turned the pins off on the way into a blocked state and did nothing else. -/
def SafeActionOnly (app app' : App) : Prop :=
  app'.leds = safetyExecuteSafeAction ∧ Blocked app'.safety.state ∧
    app'.headlightOn = app.headlightOn ∧ app'.hazardOn = app.hazardOn

/-- LED1 and the two switches are as before. -/
def ActuatorsKept (app app' : App) : Prop :=
  app'.leds.led1 = app.leds.led1 ∧ app'.headlightOn = app.headlightOn ∧
    app'.hazardOn = app.hazardOn

theorem handler_change (app : App) (channel : Channel) (raw : List Byte) (hdr : E2eHeader)
    (tick : BitVec 32) :
    ActuatorsKept app (handler app channel raw hdr tick) ∨
      SafeActionOnly app (handler app channel raw hdr tick) ∨ Passed app raw channel tick := by
  obtain hshared | ⟨hpassed, -⟩ := handler_cases app channel raw hdr tick
  · rw [hshared]
    obtain ⟨⟨-, -, hleds⟩, hheadlight, hhazard⟩ := (secureCommand_spec app raw hdr channel tick).1
    obtain ⟨hsame, -⟩ | ⟨hoff, hblocked⟩ := hleds
    · exact .inl ⟨by rw [hsame], hheadlight, hhazard⟩
    · exact .inr (.inl ⟨hoff, hblocked, hheadlight, hhazard⟩)
  · exact .inr (.inr hpassed)

/-- From boot on, whatever arrives: blocked states have both pins off and are left only for
FAIL_SILENT, which is final, and a handler acts only on a message that passed every check. -/
theorem actuator_safety (leds : Leds) (bootTick : BitVec 32) (events : List Event) :
    let app := run step (boot leds bootTick) events
    (app.safety.state = .safeState ∨ app.safety.state = .failSilent → app.leds = ⟨false, false⟩) ∧
    (∀ e, (app.safety.state = .failSilent → (step app e).safety.state = .failSilent) ∧
      (app.safety.state = .safeState → (step app e).safety.state = .safeState ∨
        (step app e).safety.state = .failSilent)) ∧
    (∀ channel raw hdr tick,
      ActuatorsKept app (step app (.message channel raw hdr tick)) ∨
        SafeActionOnly app (step app (.message channel raw hdr tick)) ∨
        Passed app raw channel tick) := by
  refine ⟨?_, fun e => ?_, fun channel raw hdr tick => ?_⟩
  · exact run_invariant (boot_outputsOff leds bootTick)
      (fun app e => (step_guarded app e).off) events
  · have hstep := step_guarded (run step (boot leds bootTick) events) e
    exact ⟨hstep.silent, fun h => hstep.blocked (.inl h)⟩
  · exact handler_change _ channel raw hdr tick

end Genoh.NodeActuators
