import Genoh.MasterSecurityLog
import Genoh.MasterSupervisor
import Genoh.PayloadStack
import Genoh.Run

/-!
# The simulation's E2E tools

`safety_e2e_encode` and `safety_e2e_decode` of `sim_harness/tools/safety_tools.py`, over the
module's counters and its supervisor. The result dictionaries are records; the JSON text around
them is left out. What the supervisor reports to the other objects is returned as calls.
-/
namespace Genoh.SimulationTools

open Genoh.Bytes Genoh.E2EWire Genoh.OrderedDict Genoh.Run Genoh.MasterE2E Genoh.MasterPayloads
open Genoh.Json (hexValue hexValue_digitChar)
open Genoh.PayloadStack (Fits e2eEncode_ok_iff emptyDict)
open Genoh.MasterSecurityLog (hexdigest)
open Genoh.MasterSupervisor (E2ESupervisor E2EChannelState E2EStatus hex4 onMessageReceived receiveOn
  updateStatus)

/-! ## Hexadecimal -/

/-- `bytes.hex`. -/
def hex (raw : List Byte) : String := String.ofList (hexdigest raw)

/-- The characters of `bytes.fromhex`: white space between two bytes is skipped. -/
def fromHexChars : List Char → Option (List Byte)
  | [] => some []
  | c :: rest =>
    if isAsciiSpace c.toNat then fromHexChars rest
    else
      match rest with
      | [] => none
      | d :: rest => do
        let high ← hexValue c
        let low ← hexValue d
        let raw ← fromHexChars rest
        return BitVec.ofNat 8 (16 * high + low) :: raw

/-- `bytes.fromhex`; none where it raises. -/
def fromHex (text : String) : Option (List Byte) := fromHexChars text.toList

theorem digitChar_not_space : ∀ d < 16, isAsciiSpace (Nat.digitChar d).toNat = false := by decide

/-- Every byte string has a hex text that reads back as it. -/
theorem fromHex_hex (raw : List Byte) : fromHex (hex raw) = some raw := by
  rw [fromHex, hex, String.toList_ofList]
  induction raw with
  | nil => rfl
  | cons b raw ih =>
    have hlt : b.toNat < 256 := b.isLt
    have hspace := digitChar_not_space (b.toNat / 16) (by omega)
    have hhigh := hexValue_digitChar (b.toNat / 16) (by omega)
    have hlow := hexValue_digitChar (b.toNat % 16) (by omega)
    have hbyte : BitVec.ofNat 8 (16 * (b.toNat / 16) + b.toNat % 16) = b := by
      rw [Nat.div_add_mod, BitVec.ofNat_toNat, BitVec.setWidth_eq]
    have hcons : hexdigest (b :: raw) = Nat.digitChar (b.toNat / 16) ::
        Nat.digitChar (b.toNat % 16) :: hexdigest raw := rfl
    rw [hcons, fromHexChars, hspace, hhigh, hlow, ih]
    simp only [Bool.false_eq_true, if_false, Option.bind_eq_bind, Option.bind_some, hbyte]
    rfl

/-! ## Session -/

/-- `_e2e_supervisor` and `_counters`. -/
structure Session where
  supervisor : Option E2ESupervisor
  counters : Dict String SequenceCounterState

/-- What `reset_safety_state` leaves. -/
def Session.reset : Session := ⟨none, Dict.empty⟩

/-- `_init_safety_stack` on the supervisor. -/
def Session.initSafetyStack (s : Session) : Session :=
  { s with supervisor := some (s.supervisor.getD E2ESupervisor.init) }

/-- `_get_counter`. -/
def Session.getCounter (s : Session) (keyExpr : String) : SequenceCounterState × Session :=
  match s.counters.get? keyExpr with
  | some counter => (counter, s)
  | none => ({}, { s with counters := s.counters.set keyExpr {} })

/-- What a tool call raises. -/
inductive ToolError where
  | hex
  | payload (error : PayloadError)
  | protection (error : PyError)
  | attributeError (name : String)
  deriving DecidableEq, Repr

/-- How a tool call ends. -/
inductive Outcome (Result : Type) where
  | returned (result : Result)
  | raised (error : ToolError)
  | deadlock

/-! ## Encoding -/

/-- The attributes of a `SequenceCounterState`. -/
def getattr (counter : SequenceCounterState) (name : String) : Except ToolError Nat :=
  if name = "current_seq" then .ok counter.currentSeq
  else if name = "alive_counter" then .ok counter.aliveCounter
  else .error (.attributeError name)

structure EncodeResult where
  status : String := "encoded"
  keyExpr : String
  dataId : String
  sizeBytes : Nat
  hex : String
  sequence : Int

structure EncodeCall where
  keyExpr : String
  payloadJson : String

variable {Value : Type} (codecs : Codecs Value)

/-- `safety_e2e_encode`. The counter object is the one `encode_e2e` has advanced. -/
def safetyE2eEncode (s : Session) (call : EncodeCall) : Outcome EncodeResult × Session :=
  let s := s.initSafetyStack
  match codecs.jsonLoads call.payloadJson with
  | .error error => (.raised (.payload error), s)
  | .ok data =>
    let (counter, s) := s.getCounter call.keyExpr
    let (encoded, counter) := encodeE2e codecs data call.keyExpr counter encodingJson
    let s := { s with counters := s.counters.set call.keyExpr counter }
    match encoded with
    | .error error => (.raised (.payload error), s)
    | .ok encoded =>
      match resolveDataId call.keyExpr with
      | .error error => (.raised (.protection error), s)
      | .ok dataId =>
        match getattr counter "sequence" with
        | .error error => (.raised error, s)
        | .ok sequence =>
          (.returned {
            keyExpr := call.keyExpr
            dataId := "0x" ++ hex4 dataId
            sizeBytes := encoded.length
            hex := hex encoded
            sequence := (sequence : Int) - 1 }, s)

/-- The session after a call. -/
def encodeStep (s : Session) (call : EncodeCall) : Session := (safetyE2eEncode codecs s call).2

/-- The call returns a hex message that decodes to the given payload under a right CRC, and
reports the sequence counter of its header. -/
def RoundTrips (s : Session) (call : EncodeCall) : Prop :=
  ∃ result raw data header, (safetyE2eEncode codecs s call).1 = .returned result ∧
    fromHex result.hex = some raw ∧ codecs.jsonLoads call.payloadJson = .ok data ∧
    decodeE2e codecs raw (some encodingJson) = .ok (data, header, true) ∧
    result.sequence = header.sequenceCounter

/-- No attribute of the counter is called `sequence`. -/
theorem getattr_sequence (counter : SequenceCounterState) :
    getattr counter "sequence" = .error (.attributeError "sequence") := by
  have hseq : "sequence" ≠ "current_seq" := by decide
  have halive : "sequence" ≠ "alive_counter" := by decide
  rw [getattr, if_neg hseq, if_neg halive]

theorem encode_not_returned (s : Session) (call : EncodeCall) (result : EncodeResult) :
    (safetyE2eEncode codecs s call).1 ≠ .returned result := by
  intro h
  simp only [safetyE2eEncode, getattr_sequence] at h
  split at h
  · cases h
  · split at h
    · cases h
    · split at h <;> cases h

/-- No call of any run makes a round trip: only the empty run has none that fails. -/
theorem encode_round_trips_iff (s : Session) (calls : List EncodeCall) :
    Always (encodeStep codecs) s (RoundTrips codecs) calls ↔ calls = [] := by
  constructor
  · intro h
    cases calls with
    | nil => rfl
    | cons call calls =>
      obtain ⟨result, -, -, -, hreturned, -⟩ := (always_cons.mp h).1
      exact absurd hreturned (encode_not_returned codecs s call result)
  · rintro rfl
    exact always_nil _ _ _

/-- With a key expression that resolves and a payload that fits, the message is made and the
counter advanced before the attribute is asked for. -/
theorem encode_raises (s : Session) (call : EncodeCall) (data : Value) (payload : List Byte)
    (dataId : Nat) (hjson : codecs.jsonLoads call.payloadJson = .ok data)
    (hencode : encode codecs data encodingJson = .ok payload)
    (hid : resolveDataId call.keyExpr = .ok dataId)
    (hfits : Fits dataId payload (s.initSafetyStack.getCounter call.keyExpr).1) :
    (safetyE2eEncode codecs s call).1 = .raised (.attributeError "sequence") := by
  have hmessage := (e2eEncode_ok_iff dataId payload _ _).mpr ⟨hfits, rfl⟩
  simp only [safetyE2eEncode, hjson, encodeE2e, hencode, hid, hmessage, Except.mapError,
    getattr_sequence]

/-- One call with the empty dictionary as payload. -/
theorem encode_empty_dict_raises : ¬ Always (encodeStep emptyDict) Session.reset
    (RoundTrips emptyDict) [⟨"vehicle/front_left/1/sensor/temperature", "\x7b\x7d"⟩] := by
  intro h
  obtain ⟨result, -, -, -, hreturned, -⟩ := (always_cons.mp h).1
  have hraised := encode_raises emptyDict Session.reset
    ⟨"vehicle/front_left/1/sensor/temperature", "\x7b\x7d"⟩ () (utf8 "\x7b\x7d") 0x1001 rfl rfl
    (by decide +kernel) (by decide +kernel)
  rw [hraised] at hreturned
  cases hreturned

/-! ## Decoding -/

structure DecodeResult (Value : Type) where
  crcValid : Bool
  dataId : String
  sequence : Nat
  alive : Nat
  e2eStatus : E2EStatus
  payload : Value

/-- `safety_e2e_decode`. -/
def safetyE2eDecode (s : Session) (hexMessage : String) (now : ℚ) :
    Outcome (DecodeResult Value) × Session × List MasterSupervisor.Call :=
  let s := s.initSafetyStack
  match fromHex hexMessage with
  | none => (.raised .hex, s, [])
  | some raw =>
    match decodeE2e codecs raw (some encodingJson) with
    | .error error => (.raised (.payload error), s, [])
    | .ok (decodedData, header, crcValid) =>
      match e2eDecode raw with
      | .error error => (.raised (.protection error), s, [])
      | .ok (rawHeader, rawPayload) =>
        let (supervisor, calls, outcome) :=
          onMessageReceived (s.supervisor.getD E2ESupervisor.init) rawHeader rawPayload now
        let s := { s with supervisor := some supervisor }
        match outcome with
        | .deadlock => (.deadlock, s, calls)
        | .raised error => (.raised (.protection error), s, calls)
        | .returned status =>
          (.returned {
            crcValid
            dataId := "0x" ++ hex4 header.dataId
            sequence := header.sequenceCounter
            alive := header.aliveCounter
            e2eStatus := status
            payload := decodedData }, s, calls)

/-- The channel of a data id in the supervisor of the session. -/
def Session.channel (s : Session) (dataId : Nat) : Option E2EChannelState :=
  s.supervisor.bind fun sup => sup.channels.get? dataId

def Session.crcFailures (s : Session) (dataId : Nat) : Nat :=
  (s.channel dataId).elim 0 E2EChannelState.totalCrcFailures

/-- The bytes are a document in the encoding. Without a hint, text that looks like JSON is taken
for it, and everything else, or what JSON rejects, for CBOR. -/
def WellFormed (encoding : Option String) (payload : List Byte) : Prop :=
  if encoding = some encodingCbor then ∃ data, codecs.cborLoads payload = .ok data
  else if encoding = some encodingJson then
    ∃ text data, ofUtf8 payload = some text ∧ codecs.jsonLoads text = .ok data
  else
    (∃ text data, ofUtf8 payload = some text ∧ looksJson text = true ∧
      codecs.jsonLoads text = .ok data) ∨
    ((∀ text, ofUtf8 payload = some text → looksJson text = true →
      codecs.jsonLoads text = .error .jsonDecodeError ∨
        codecs.jsonLoads text = .error .unicodeDecodeError) ∧
      ∃ data, codecs.cborLoads payload = .ok data)

theorem detect_ok_iff (payload : List Byte) :
    (∃ data, detect codecs payload = .ok data) ↔
      (∃ text data, ofUtf8 payload = some text ∧ looksJson text = true ∧
        codecs.jsonLoads text = .ok data) ∨
      ((∀ text, ofUtf8 payload = some text → looksJson text = true →
        codecs.jsonLoads text = .error .jsonDecodeError ∨
          codecs.jsonLoads text = .error .unicodeDecodeError) ∧
        ∃ data, codecs.cborLoads payload = .ok data) := by
  cases htext : ofUtf8 payload with
  | none => simp [detect, htext]
  | some text =>
    cases hlooks : looksJson text with
    | false => simp [detect, htext, hlooks]
    | true =>
      cases hloads : codecs.jsonLoads text with
      | ok data => simp [detect, htext, hlooks, hloads]
      | error error => cases error <;> simp [detect, htext, hlooks, hloads]

theorem decode_ok_iff (payload : List Byte) (encoding : Option String) :
    (∃ data, decode codecs payload encoding = .ok data) ↔ WellFormed codecs encoding payload := by
  unfold decode WellFormed decodeJson
  split
  · rfl
  · split
    · cases htext : ofUtf8 payload with
      | none => simp
      | some text => simp
    · exact detect_ok_iff codecs payload

/-- The message is split and its CRC checked before the payload is decoded. -/
theorem decodeE2e_eq (raw : List Byte) (encoding : Option String) (hlen : 11 ≤ raw.length) :
    decodeE2e codecs raw encoding = (decode codecs (raw.drop 11) encoding).map fun data =>
      (data, E2EInterop.masterHeader raw, decide (CrcHolds raw)) := by
  simp only [decodeE2e, E2EInterop.master_decode raw hlen, E2EInterop.master_verify raw hlen,
    Except.mapError, bind, Except.bind]
  cases decode codecs (raw.drop 11) encoding <;> rfl

/-- `decode_e2e` returns the corrupted message as such. -/
def Reports (raw : List Byte) (encoding : Option String) : Prop :=
  ∃ data header, decodeE2e codecs raw encoding = .ok (data, header, false)

/-- The decode tool has the CRC failure of the message counted. -/
def Counts (s : Session) (hexMessage : String) (raw : List Byte) (now : ℚ) : Prop :=
  (safetyE2eDecode codecs s hexMessage now).2.1.crcFailures (field raw 0 2) =
    s.crcFailures (field raw 0 2) + 1

theorem reports_iff (raw : List Byte) (encoding : Option String) (hlen : 11 ≤ raw.length)
    (hcrc : ¬ CrcHolds raw) :
    Reports codecs raw encoding ↔ WellFormed codecs encoding (raw.drop 11) := by
  rw [Reports, decodeE2e_eq codecs raw encoding hlen, ← decode_ok_iff, decide_eq_false hcrc]
  cases decode codecs (raw.drop 11) encoding <;> simp [Except.map]

/-- A corrupted message on a known channel adds one to its count. -/
theorem receive_corrupted (sup : E2ESupervisor) (ch : E2EChannelState) (raw : List Byte) (now : ℚ)
    (hlen : 11 ≤ raw.length) (hcrc : ¬ CrcHolds raw)
    (hch : sup.channels.get? (field raw 0 2) = some ch) :
    ((onMessageReceived sup (E2EInterop.masterHeader raw) (raw.drop 11) now).1.channels.get?
      (field raw 0 2)).elim 0 E2EChannelState.totalCrcFailures = ch.totalCrcFailures + 1 := by
  have hverify := E2EInterop.master_verify raw hlen
  rw [decide_eq_false hcrc] at hverify
  have hkey : (E2EInterop.masterHeader raw).dataId = field raw 0 2 := rfl
  simp only [onMessageReceived, hkey, hch, receiveOn, hverify, Dict.get?_set_self]
  rfl

theorem crcFailures_init (s : Session) (dataId : Nat) :
    s.initSafetyStack.crcFailures dataId = s.crcFailures dataId := by
  cases hsup : s.supervisor with
  | none =>
    simp only [Session.crcFailures, Session.channel, Session.initSafetyStack, hsup,
      Option.getD_none, Option.bind_some, Option.bind_none]
    rfl
  | some sup => simp [Session.crcFailures, Session.channel, Session.initSafetyStack, hsup]

theorem counts_iff (s : Session) (hexMessage : String) (raw : List Byte) (now : ℚ)
    (hhex : fromHex hexMessage = some raw) (hlen : 11 ≤ raw.length) (hcrc : ¬ CrcHolds raw) :
    Counts codecs s hexMessage raw now ↔
      WellFormed codecs (some encodingJson) (raw.drop 11) ∧
        (s.channel (field raw 0 2)).isSome = true := by
  have hsame := crcFailures_init s (field raw 0 2)
  rw [← decode_ok_iff, Counts]
  cases hdata : decode codecs (raw.drop 11) (some encodingJson) with
  | error error =>
    -- The exception leaves before the supervisor is called.
    have hsession : (safetyE2eDecode codecs s hexMessage now).2.1 = s.initSafetyStack := by
      simp only [safetyE2eDecode, hhex, decodeE2e_eq codecs raw _ hlen, hdata, Except.map]
    rw [hsession, hsame]
    simp
  | ok data =>
    have hsession : (safetyE2eDecode codecs s hexMessage now).2.1.supervisor =
        some (onMessageReceived (s.supervisor.getD E2ESupervisor.init)
          (E2EInterop.masterHeader raw) (raw.drop 11) now).1 := by
      simp only [safetyE2eDecode, hhex, decodeE2e_eq codecs raw _ hlen, hdata, Except.map,
        E2EInterop.master_decode raw hlen, Session.initSafetyStack, Option.getD_some]
      split <;> rfl
    have hcount : (safetyE2eDecode codecs s hexMessage now).2.1.crcFailures (field raw 0 2) =
        ((onMessageReceived (s.supervisor.getD E2ESupervisor.init) (E2EInterop.masterHeader raw)
          (raw.drop 11) now).1.channels.get? (field raw 0 2)).elim 0
            E2EChannelState.totalCrcFailures := by
      rw [Session.crcFailures, Session.channel, hsession, Option.bind_some]
    have hchannel : s.channel (field raw 0 2) =
        (s.supervisor.getD E2ESupervisor.init).channels.get? (field raw 0 2) := by
      cases hsup : s.supervisor with
      | none =>
        simp only [Session.channel, hsup, Option.bind_none, Option.getD_none]
        rfl
      | some sup => simp [Session.channel, hsup]
    rw [hcount, Session.crcFailures, hchannel]
    cases hch : (s.supervisor.getD E2ESupervisor.init).channels.get? (field raw 0 2) with
    | none =>
      have hkey : (E2EInterop.masterHeader raw).dataId = field raw 0 2 := rfl
      simp [onMessageReceived, hkey, hch]
    | some ch =>
      rw [receive_corrupted _ ch raw now hlen hcrc hch]
      simp

/-- Reporting of corruption, for every message of at least eleven bytes whose CRC does not match and
every hex text of it. `decode_e2e` returns exactly when the payload behind the header is well formed,
and the failure is counted exactly when it is well formed JSON of a data id that has a channel. -/
theorem corruption_reported_iff (s : Session) (hexMessage : String) (raw : List Byte)
    (encoding : Option String) (now : ℚ) (hhex : fromHex hexMessage = some raw)
    (hlen : 11 ≤ raw.length) (hcrc : ¬ CrcHolds raw) :
    (Reports codecs raw encoding ∧ Counts codecs s hexMessage raw now) ↔
      WellFormed codecs encoding (raw.drop 11) ∧
        WellFormed codecs (some encodingJson) (raw.drop 11) ∧
        (s.channel (field raw 0 2)).isSome = true := by
  rw [reports_iff codecs raw encoding hlen hcrc, counts_iff codecs s hexMessage raw now hhex hlen hcrc]

/-- A session with one registered channel, for data id 0x1001. -/
def oneChannel : Session :=
  { Session.reset with
    supervisor := some (MasterSupervisor.registerChannel E2ESupervisor.init 0x1001 5000 3 0) }

/-- The empty dictionary behind a header with a wrong CRC: reported and counted. -/
theorem corruption_reported_header :
    Reports emptyDict ([0x10, 1, 0, 0, 0, 0, 2, 0, 0, 0, 0] ++ utf8 "\x7b\x7d") (some encodingJson) ∧
      Counts emptyDict oneChannel
        (hex ([0x10, 1, 0, 0, 0, 0, 2, 0, 0, 0, 0] ++ utf8 "\x7b\x7d"))
        ([0x10, 1, 0, 0, 0, 0, 2, 0, 0, 0, 0] ++ utf8 "\x7b\x7d") 1 := by
  have hjson : WellFormed emptyDict (some encodingJson) (utf8 "\x7b\x7d") :=
    (decode_ok_iff emptyDict _ _).mp ⟨(), by decide +kernel⟩
  exact (corruption_reported_iff emptyDict oneChannel _ _ (some encodingJson) 1 (fromHex_hex _)
    (by decide +kernel) (by decide +kernel)).mpr ⟨hjson, hjson, by decide +kernel⟩

/-- The same with a bit of the payload flipped: 0xFB starts no UTF-8 character, so both calls
raise. -/
theorem corrupted_payload_raises :
    ¬ CrcHolds [0x10, 1, 0, 0, 0, 0, 2, 0, 0, 0, 0, 0xFB, 0x7D] ∧
      ¬ (Reports emptyDict [0x10, 1, 0, 0, 0, 0, 2, 0, 0, 0, 0, 0xFB, 0x7D] (some encodingJson) ∧
        Counts emptyDict oneChannel (hex [0x10, 1, 0, 0, 0, 0, 2, 0, 0, 0, 0, 0xFB, 0x7D])
          [0x10, 1, 0, 0, 0, 0, 2, 0, 0, 0, 0, 0xFB, 0x7D] 1) := by
  constructor
  · decide +kernel
  · rintro ⟨⟨data, header, hdecode⟩, -⟩
    have hraises : decode emptyDict [0xFB, 0x7D] (some encodingJson) = .error .unicodeDecodeError := by
      decide +kernel
    have hpayload : List.drop 11 [0x10, 1, 0, 0, 0, 0, 2, 0, 0, 0, 0, 0xFB, 0x7D] =
        ([0xFB, 0x7D] : List Byte) := rfl
    rw [decodeE2e_eq emptyDict _ _ (by decide), hpayload, hraises] at hdecode
    cases hdecode

end Genoh.SimulationTools
