import Genoh.FirmwareDiagnostics
import Genoh.FirmwareIds
import Genoh.FirmwareKey
import Genoh.FirmwareSafety

/-!
# The secure control node

The application of `app_zenoh.c`: the receive path shared by the two actuator
subscribers, the two handlers, the boot sequence and one iteration of the main loop. A
handler call is atomic and reads one tick. Buffers on the stack are arguments where the
code can read them before it writes them.
-/
namespace Genoh.AppZenoh

open Genoh.Bytes Genoh.FirmwareE2E Genoh.FirmwareSecOC Genoh.FirmwareSafety
open Genoh.FirmwareIds Genoh.FirmwareDiagnostics Genoh.FirmwareKey

/-! ## JSON text -/

/-- A character array up to its terminating NUL. -/
def cString (buf : List Byte) : List Byte := buf.takeWhile (· ≠ 0)

/-- `strstr`: the rest of the text from the first occurrence on. -/
def strstr : List Byte → List Byte → Option (List Byte)
  | [], needle => if needle.isPrefixOf [] then some [] else none
  | c :: text, needle =>
    if needle.isPrefixOf (c :: text) then some (c :: text) else strstr text needle

/-- The size of the search buffer of `json_get_string`. -/
def searchSize : Nat := 32

/-- `json_get_string` on a C string: the text of the value, none for false. `snprintf` cuts the
quoted key to the buffer and returns its full length. -/
def jsonGetString (json key : List Byte) (outSize : Nat) : Option (List Byte) :=
  let quoted := ascii "\"" ++ key ++ ascii "\""
  match strstr json (quoted.take (searchSize - 1)) with
  | none => none
  | some p =>
    match (p.drop quoted.length).dropWhile (fun c => c == 0x3A || c == 0x20 || c == 0x09) with
    | [] => none
    | c :: p =>
      if c ≠ 0x22 then none
      else
        let out := (p.takeWhile (· ≠ 0x22)).take (outSize - 1)
        if out.length > 0 then some out else none

/-! ## State -/

def hazardBlinkMs : BitVec 32 := 500
def selfTestIntervalMs : BitVec 32 := 10000

/-- `ZONE "/" NODE_ID`. -/
def nodeName : List Byte := ascii "front_left/1"

/-- The global state of the application and the two LED pins. -/
structure App where
  headlightOn : Bool
  hazardOn : Bool
  hazardLastToggle : BitVec 32
  leds : Leds
  safety : SafetyManager
  steeringCounter : E2eCounterState
  headlightChecker : E2eSeqChecker
  hazardChecker : E2eSeqChecker
  steeringFreshness : SecocFreshness
  ids : IdsEngine
  dtc : DtcManager
  flow : FlowMonitor
  key : KeyManager
  lastSelfTestTick : BitVec 32
  msgCount : BitVec 32

/-- The two actuator channels. -/
inductive Channel where
  | headlight | hazard
  deriving DecidableEq, Repr

def Channel.dataId : Channel → BitVec 16
  | .headlight => dataIdHeadlight
  | .hazard => dataIdHazard

def App.checker (app : App) : Channel → E2eSeqChecker
  | .headlight => app.headlightChecker
  | .hazard => app.hazardChecker

def App.setChecker (app : App) (channel : Channel) (chk : E2eSeqChecker) : App :=
  match channel with
  | .headlight => { app with headlightChecker := chk }
  | .hazard => { app with hazardChecker := chk }

/-! ## Receive path -/

/-- `safety_report_fault` on the global manager. -/
def App.fault (app : App) (type : FaultType) (tick : BitVec 32) : App :=
  let reported := safetyReportFault app.safety app.leds type tick
  { app with safety := reported.1, leds := reported.2 }

def stateCode : SafetyState → BitVec 8
  | .normal => 0
  | .degraded => 1
  | .safeState => 2
  | .failSilent => 3

/-- `record_dtc`. -/
def App.recordDtc (app : App) (code lastSeq : BitVec 16) (tick : BitVec 32) : App :=
  let ff : DtcFreezeFrame :=
    ⟨tick, lastSeq, stateCode app.safety.state, app.safety.totalFaults.setWidth 8⟩
  { app with dtc := dtcRecord app.dtc code ff }

/-- The size of the JSON buffer of both handlers. -/
def jsonSize : Nat := 64

/-- `decode_secure_message`: the JSON text for the return value true. The header is the
caller's uninitialised variable and comes back as the decoder leaves it. -/
def decodeSecureMessage (app : App) (raw : List Byte) (hdr : E2eHeader) (channel : Channel)
    (dataIdExpected : BitVec 16) (tick : BitVec 32) : App × E2eHeader × Option (List Byte) :=
  let (allowed, ids) := idsCheckMessage app.ids dataIdExpected (BitVec.ofNat 32 raw.length) tick
  let app := { app with ids := ids }
  if allowed = false then ((app.fault .flood tick).recordDtc dtcFlood 0 tick, hdr, none)
  else
    match secocDecodeEx raw app.key.nodeKey tick with
    | (true, some e2eLen, result) =>
      if result.freshnessValid = false then
        ((app.fault .replay tick).recordDtc dtcReplay 0 tick, hdr, none)
      else
        let (st, hdr, payload) := e2eDecode (raw.take e2eLen) hdr
        if st ≠ .ok then
          ((app.fault .crcFailure tick).recordDtc dtcCrcFailure hdr.sequenceCounter tick, hdr, none)
        else
          let (seqSt, chk) := e2eSeqCheck (app.checker channel) hdr.sequenceCounter
          let app := app.setChecker channel chk
          if seqSt = .errSeqGap ∨ seqSt = .errSeqRepeated then
            ((app.fault .seqError tick).recordDtc dtcSeqError hdr.sequenceCounter tick, hdr, none)
          else if payload.length ≥ jsonSize then (app, hdr, none)
          else
            ({ app with
              safety := safetyReportOk app.safety
              flow := flowActuatorReceived app.flow tick }, hdr, some (payload ++ [0]))
    | _ => ((app.fault .macFailure tick).recordDtc dtcMacFailure 0 tick, hdr, none)

/-! ## Subscribers -/

/-- The part of both handlers up to the actuator: the decoded JSON text once the message is
secure, has the channel's data id and the actuators are allowed. -/
def secureCommand (app : App) (raw : List Byte) (hdr : E2eHeader) (channel : Channel)
    (tick : BitVec 32) : App × Option (List Byte) :=
  if raw.length > e2eHeaderSize + secocOverhead then
    match decodeSecureMessage app raw hdr channel channel.dataId tick with
    | (app, _, none) => (app, none)
    | (app, hdr, some json) =>
      if hdr.dataId ≠ channel.dataId then (app.fault .crcFailure tick, none)
      else if safetyActuatorAllowed app.safety = false then (app, none)
      else (app, some json)
  else (app, none)

/-- The size of the buffer for the value of `state`. -/
def stateSize : Nat := 8

def commandState (json : List Byte) : Option (List Byte) :=
  jsonGetString (cString json) (ascii "state") stateSize

/-- `headlight_handler`. -/
def headlightHandler (app : App) (raw : List Byte) (hdr : E2eHeader) (tick : BitVec 32) : App :=
  match secureCommand app raw hdr .headlight tick with
  | (app, none) => app
  | (app, some json) =>
    if commandState json = some (ascii "on") then
      { app with leds := { app.leds with led1 := true }, headlightOn := true }
    else if commandState json = some (ascii "off") then
      { app with leds := { app.leds with led1 := false }, headlightOn := false }
    else app

/-- `hazard_handler`. -/
def hazardHandler (app : App) (raw : List Byte) (hdr : E2eHeader) (tick : BitVec 32) : App :=
  match secureCommand app raw hdr .hazard tick with
  | (app, none) => app
  | (app, some json) =>
    if commandState json = some (ascii "on") then
      { app with hazardOn := true, hazardLastToggle := tick }
    else if commandState json = some (ascii "off") then
      { app with hazardOn := false, leds := { app.leds with led2 := false } }
    else app

/-! ## Task -/

/-- The subsystems as `zenoh_task` initialises them, before the self-test. -/
def initialise (leds : Leds) : App where
  headlightOn := false
  hazardOn := false
  hazardLastToggle := 0
  leds := leds
  safety := safetyInit
  steeringCounter := ⟨0, 0⟩
  headlightChecker := e2eSeqCheckerInit e2eAsildMaxGap
  hazardChecker := e2eSeqCheckerInit e2eAsildMaxGap
  steeringFreshness := ⟨0⟩
  ids := idsRegisterChannel (idsRegisterChannel idsInit dataIdHeadlight) dataIdHazard
  dtc := dtcInit
  flow := flowInit
  key := keyInit secocTestKey nodeName
  lastSelfTestTick := 0
  msgCount := 0

/-- `zenoh_task` up to its main loop, from the pins as the board left them. -/
def boot (leds : Leds) (tick : BitVec 32) : App :=
  let app := initialise leds
  let selfTest := safetySelfTest app.safety
  { app with
    safety := selfTest.1
    leds := if selfTest.2 then app.leds else safetyExecuteSafeAction
    lastSelfTestTick := tick }

/-- What one iteration of the main loop reads: the tick at its start, the tick of the
calls it makes, the RAM test words and the sensor text of the steering message. -/
structure LoopInput where
  now : BitVec 32
  tick : BitVec 32
  ram : RamReads
  jsonPayload : List Byte

def e2eBufSize : Nat := 300
def secocBufSize : Nat := 400

/-- `safety_tick` on the global manager. -/
def App.safetyTick (app : App) (now : BitVec 32) : App :=
  let ticked := FirmwareSafety.safetyTick app.safety app.leds now
  { app with safety := ticked.1, leds := ticked.2 }

/-- `safety_periodic_test` on the global manager. -/
def App.periodicTest (app : App) (ram : RamReads) (tick : BitVec 32) : App :=
  let tested := (safetyPeriodicTest app.safety app.leds ram tick).1
  { app with safety := tested.1, leds := tested.2 }

def App.setLastSelfTest (app : App) (now : BitVec 32) : App := { app with lastSelfTestTick := now }

/-- The safety tick and the periodic self-test at the head of an iteration. -/
def superviseStep (app : App) (input : LoopInput) : App :=
  let app := app.safetyTick input.now
  if input.now - app.lastSelfTestTick ≥ selfTestIntervalMs then
    (app.periodicTest input.ram input.tick).setLastSelfTest input.now
  else app

/-- The steering message with its flow checkpoints, and the bytes published. -/
def publishStep (app : App) (input : LoopInput) : App × Option (List Byte) :=
  let flow := flowCheckpoint (flowCheckpoint app.flow .sensorRead) .e2eEncode
  let e2eMsg := e2eEncode input.jsonPayload dataIdSteering app.steeringCounter e2eBufSize
  let flow := flowCheckpoint flow .secocEncode
  let secocMsg := secocEncode (e2eMsg.1.getD []) app.key.nodeKey app.steeringFreshness input.tick
    secocBufSize
  let flow := flowCheckpoint flow .publish
  ({ app with
    flow := flow
    steeringCounter := e2eMsg.2
    steeringFreshness := secocMsg.2 }, secocMsg.1)

/-- The verdict on the flow checkpoints. -/
def flowStep (app : App) (input : LoopInput) : App :=
  let verdict := flowVerifyCycle app.flow
  let app := { app with flow := verdict.2 }
  if verdict.1 then app
  else (app.fault .flow input.tick).recordDtc dtcFlowError (app.msgCount.setWidth 16) input.tick

/-- The hazard light toggles every half second while the actuators are allowed. -/
def blinkStep (app : App) (input : LoopInput) : App :=
  if app.hazardOn ∧ safetyActuatorAllowed app.safety then
    if input.now - app.hazardLastToggle ≥ hazardBlinkMs then
      { app with leds := { app.leds with led2 := !app.leds.led2 }, hazardLastToggle := input.now }
    else app
  else app

/-- One iteration of the main loop of `zenoh_task`, with what it publishes. -/
def mainLoop (app : App) (input : LoopInput) : App × Option (List Byte) :=
  let published := publishStep (superviseStep app input) input
  let app := blinkStep (flowStep published.1 input) input
  ({ app with msgCount := app.msgCount + 1 }, published.2)

end Genoh.AppZenoh
