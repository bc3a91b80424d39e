import Genoh.CheckedMemory
import Genoh.JsonNormal
import Genoh.Mcp3204
import Genoh.NodeActuators
import Genoh.PayloadStack
import Mathlib.Algebra.Order.Floor.Defs
import Mathlib.Data.Rat.Floor
import Mathlib.Tactic.Linarith

/-!
# The steering uplink

What the main loop of `app_zenoh.c` publishes: the text of a thumbstick reading, cut to its buffer,
in E2E and SecOC protection, and what `decode_secoc` of the master makes of it.
-/
namespace Genoh.SteeringUplink

open Genoh.Bytes Genoh.Checked Genoh.CheckedMemory Genoh.FirmwareE2E Genoh.FirmwareSecOC Genoh.FirmwareSafety
open Genoh.FirmwareDiagnostics Genoh.FirmwareKey Genoh.AppZenoh Genoh.Mcp3204 Genoh.Strings
open Genoh.Json Genoh.MasterPayloads
open Genoh.NodeActuators (handler)
open Genoh.NodeReceive (sequenced)

/-! ## Text -/

/-- `%u` -/
def decimal (n : Nat) : List Char := Nat.toDigits 10 n

/-- The nearest whole number, of two the even one. -/
def nearest (q : ℚ) : Nat :=
  if q - ⌊q⌋₊ < 1 / 2 then ⌊q⌋₊
  else if 1 / 2 < q - ⌊q⌋₊ then ⌊q⌋₊ + 1
  else if ⌊q⌋₊ % 2 = 0 then ⌊q⌋₊ else ⌊q⌋₊ + 1

/-- `%.1f` -/
def oneDecimal (q : ℚ) : List Char :=
  (if q < 0 then ['-'] else []) ++ decimal (nearest (10 * |q|) / 10) ++
    ['.', Nat.digitChar (nearest (10 * |q|) % 10)]

/-- The text of a reading, with what it says of the node. -/
def steeringText (ts : ThumbstickData) (safety dtcCount keyEpoch : Nat) : List Char :=
  "\x7b\"x\":".toList ++ (decimal ts.x.toNat ++ (",\"y\":".toList ++ (decimal ts.y.toNat ++
  (",\"btn\":".toList ++ (decimal ts.btn.toNat ++ (",\"angle\":".toList ++ (oneDecimal ts.angle ++
  (",\"seq\":".toList ++ (decimal ts.seq.toNat ++ (",\"safety\":".toList ++ (decimal safety ++
  (",\"dtc_count\":".toList ++ (decimal dtcCount ++ (",\"key_epoch\":".toList ++
  (decimal keyEpoch ++ "\x7d".toList)))))))))))))))

/-- `sizeof(json_payload)` -/
def jsonPayloadSize : Nat := 192

/-- The characters of an ASCII text. -/
def charBytes (text : List Char) : List Byte := text.map fun c => BitVec.ofNat 8 c.toNat

/-- The bytes that `e2e_encode` is given: as many as `snprintf` says the text has, from the buffer
that `snprintf` cuts it to. -/
def jsonPayload (stack : List Byte) (text : List Char) : Checked Fault (List Byte) :=
  loadSlice (filled stack ((charBytes text).take (jsonPayloadSize - 1) ++ [0])) 0 text.length

/-! ## Loop -/

/-- The reading without a thumbstick, from the board's switch. -/
def switchReading (sw0 : Bool) (sw0PressCount msgCount : BitVec 32) : ThumbstickData :=
  let simX : BitVec 16 := if sw0 then if sw0PressCount.toNat % 2 = 0 then 1024 else 3072 else 2048
  ⟨simX, 2048, if sw0 then 1 else 0, calcAngle simX, msgCount⟩

/-- What an iteration reads: ticks, RAM words, the thumbstick or the switch, and the buffer as it
lies on the stack. -/
structure Reading where
  now : BitVec 32
  tick : BitVec 32
  ram : RamReads
  ts : ThumbstickData
  stack : List Byte
  angle : ts.angle = calcAngle ts.x
  size : stack.length = jsonPayloadSize

/-- The thumbstick and the switch both give the angle of their own x. -/
example (device : Device) (b : Bus) (button sw0 : Bool) (seqCounter sw0PressCount msgCount : BitVec 32) :
    (readThumbstick device b button seqCounter).2.1.angle =
        calcAngle (readThumbstick device b button seqCounter).2.1.x ∧
      (switchReading sw0 sw0PressCount msgCount).angle =
        calcAngle (switchReading sw0 sw0PressCount msgCount).x := ⟨rfl, rfl⟩

def Reading.input (r : Reading) (payload : List Byte) : LoopInput := ⟨r.now, r.tick, r.ram, payload⟩

/-- `steeringText` with what the node says of itself behind the tick and the self-test. -/
def readingText (app : App) (r : Reading) : List Char :=
  let app := superviseStep app (r.input [])
  steeringText r.ts (stateCode app.safety.state).toNat app.dtc.count.val
    (keyGetEpoch app.key).toNat

/-- The node, and the messages that it has published. -/
structure Node where
  app : App
  frames : List (List Byte)

inductive Event where
  | message (channel : Channel) (raw : List Byte) (hdr : E2eHeader) (tick : BitVec 32)
  | loop (reading : Reading)

def step (n : Node) : Event → Checked Fault Node
  | .message channel raw hdr tick => .ok { n with app := handler n.app channel raw hdr tick }
  | .loop r => do
    let payload ← jsonPayload r.stack (readingText n.app r)
    let (app, frame) := mainLoop n.app (r.input payload)
    .ok ⟨app, n.frames ++ frame.toList⟩

def loops (events : List Event) : Nat :=
  events.countP fun e => match e with
    | .loop _ => true
    | .message .. => false

/-! ## The text as a document -/

theorem decimal_length {n : Nat} (k : Nat) (hk : 0 < k) (h : n < 10 ^ k) : (decimal n).length ≤ k :=
  (Nat.length_toDigits_le_iff (by decide) hk).mpr h

theorem intRepr_natCast (n : Nat) : intRepr n = decimal n := by
  rw [intRepr, if_neg (by omega)]
  rfl

theorem oneDecimal_isFloat (q : ℚ) : isFloat (oneDecimal q) = true := by
  have hdigits : ∀ d < 10, (Nat.digitChar d).isDigit = true := by decide
  have hdigit := hdigits (nearest (10 * |q|) % 10) (Nat.mod_lt _ (by decide))
  have htail : lexTail ['.', Nat.digitChar (nearest (10 * |q|) % 10)] =
      (['.', Nat.digitChar (nearest (10 * |q|) % 10)], []) := by
    simp [lexTail, lexFraction, lexExponent, hdigit]
  have hwhole : lexWhole (decimal (nearest (10 * |q|) / 10) ++ ['.', Nat.digitChar (nearest (10 * |q|) % 10)]) =
      some (decimal (nearest (10 * |q|) / 10), ['.', Nat.digitChar (nearest (10 * |q|) % 10)]) := by
    have h := lexWhole_append (t := ['.', Nat.digitChar (nearest (10 * |q|) % 10)])
      (lexWhole_toDigits (nearest (10 * |q|) / 10)) (by simp)
    rwa [List.nil_append] at h
  have hinteger : lexInteger (oneDecimal q) =
      some ((if q < 0 then ['-'] else []) ++ decimal (nearest (10 * |q|) / 10),
        ['.', Nat.digitChar (nearest (10 * |q|) % 10)]) := by
    rw [oneDecimal]
    split
    · rw [List.append_assoc, List.singleton_append, lexInteger, if_pos rfl, hwhole]
      rfl
    · obtain ⟨c, digits, heq, -, hdigits⟩ := toDigits_head (nearest (10 * |q|) / 10)
      have hc : c ≠ '-' := fun hc => absurd (hdigits c List.mem_cons_self) (by rw [hc]; decide)
      have hcons : decimal (nearest (10 * |q|) / 10) = c :: digits := heq
      rw [List.nil_append]
      rw [hcons, List.cons_append] at hwhole ⊢
      rw [lexInteger, if_neg hc, hwhole]
  simp only [isFloat, lexNumber, hinteger, Option.map_some, htail]
  rfl

def angleLiteral (q : ℚ) : FloatLiteral := ⟨oneDecimal q, .inr (oneDecimal_isFloat q)⟩

def steeringMembers (ts : ThumbstickData) (safety dtcCount keyEpoch : Nat) : List (Str × Value) := [
  (ofText "x".toList, .int ts.x.toNat), (ofText "y".toList, .int ts.y.toNat),
  (ofText "btn".toList, .int ts.btn.toNat), (ofText "angle".toList, .float (angleLiteral ts.angle)),
  (ofText "seq".toList, .int ts.seq.toNat), (ofText "safety".toList, .int safety),
  (ofText "dtc_count".toList, .int dtcCount), (ofText "key_epoch".toList, .int keyEpoch)]

/-- The document of a reading. -/
def steeringDoc (ts : ThumbstickData) (safety dtcCount keyEpoch : Nat) : Value :=
  .dict (steeringMembers ts safety dtcCount keyEpoch)

section Text

variable (ts : ThumbstickData) (safety dtcCount keyEpoch : Nat)

theorem steeringText_eq :
    steeringText ts safety dtcCount keyEpoch = dumps (steeringDoc ts safety dtcCount keyEpoch) := by
  have hquote : (quote (ofText "x".toList) = "\"x\"".toList ∧ quote (ofText "y".toList) = "\"y\"".toList) ∧
      (quote (ofText "btn".toList) = "\"btn\"".toList ∧
        quote (ofText "angle".toList) = "\"angle\"".toList) ∧
      (quote (ofText "seq".toList) = "\"seq\"".toList ∧
        quote (ofText "safety".toList) = "\"safety\"".toList) ∧
      quote (ofText "dtc_count".toList) = "\"dtc_count\"".toList ∧
        quote (ofText "key_epoch".toList) = "\"key_epoch\"".toList := by decide
  obtain ⟨⟨hx, hy⟩, ⟨hbtn, hangle⟩, ⟨hseq, hsafety⟩, hdtc, hepoch⟩ := hquote
  rw [steeringDoc, steeringMembers, dumps, dumpsMembers, dumpsMembers, dumpsMembers, dumpsMembers,
    dumpsMembers, dumpsMembers, dumpsMembers, dumpsMembers, hx, hy, hbtn, hangle, hseq, hsafety,
    hdtc, hepoch]
  simp only [dumps, intRepr_natCast, angleLiteral]
  rfl

theorem steeringDoc_normal : Json.Normal (steeringDoc ts safety dtcCount keyEpoch) := by
  refine ⟨by simp only [steeringMembers, List.map]; decide, ?_⟩
  simp only [steeringMembers, NormalMembers, Json.Normal, and_true]
  decide

theorem loads_steeringText : loads (steeringText ts safety dtcCount keyEpoch) =
    some (steeringDoc ts safety dtcCount keyEpoch) := by
  rw [steeringText_eq, loads_dumps, (steeringDoc_normal ts safety dtcCount keyEpoch).reread]

end Text

/-! ## Bytes -/

theorem utf8_singleton {c : Char} (h : c.toNat < 128) :
    utf8 (String.singleton c) = [BitVec.ofNat 8 c.toNat] := by
  have hsize : c.utf8Size = 1 := by
    rw [Char.utf8Size_eq_one_iff, UInt32.le_iff_toNat_le]
    exact Nat.le_of_lt_succ h
  rw [utf8, String.toUTF8_eq_toByteArray, String.toByteArray_singleton, List.utf8Encode_singleton,
    String.utf8EncodeChar_eq_singleton hsize]
  simp
  apply BitVec.eq_of_toNat_eq
  simp
  rfl

theorem utf8_ofList {text : List Char} (h : ∀ c ∈ text, c.toNat < 128) :
    utf8 (String.ofList text) = charBytes text := by
  induction text with
  | nil => rfl
  | cons c text ih =>
    have hcons : String.ofList (c :: text) = String.singleton c ++ String.ofList text := by
      simp
    rw [hcons, utf8_append, utf8_singleton (h c List.mem_cons_self),
      ih fun c hc => h c (List.mem_cons_of_mem _ hc)]
    rfl

theorem ofUtf8_charBytes {text : List Char} (h : ∀ c ∈ text, c.toNat < 128) :
    ofUtf8 (charBytes text) = some (String.ofList text) := by
  rw [← utf8_ofList h, ofUtf8_utf8]

/-! ## The buffers are large enough -/

theorem nearest_le {q : ℚ} {n : Nat} (h : q ≤ n) : nearest q ≤ n + 1 := by
  have hfloor : ⌊q⌋₊ ≤ n := Nat.floor_le_of_le h
  rw [nearest]
  split
  · omega
  · split
    · omega
    · split <;> omega

theorem abs_calcAngle_le (x : BitVec 16) : 10 * |calcAngle x| ≤ (27900 : Nat) := by
  have hx : (x.toNat : ℚ) ≤ 65535 := by exact_mod_cast Nat.le_of_lt_succ x.isLt
  have hx' : (0 : ℚ) ≤ x.toNat := Nat.cast_nonneg _
  have habs : |calcAngle x| ≤ 2790 := by
    rw [calcAngle, abs_le]
    constructor <;> linarith
  push_cast
  linarith

theorem oneDecimal_length (x : BitVec 16) : (oneDecimal (calcAngle x)).length ≤ 7 := by
  have hnearest := nearest_le (abs_calcAngle_le x)
  have hwhole := decimal_length (n := nearest (10 * |calcAngle x|) / 10) 4 (by decide) (by omega)
  have hsign : (if calcAngle x < 0 then ['-'] else []).length ≤ 1 := by split <;> simp
  simp only [oneDecimal, List.length_append, List.length_cons, List.length_nil]
  omega

theorem steeringText_length (ts : ThumbstickData) (hangle : ts.angle = calcAngle ts.x)
    {safety dtcCount keyEpoch : Nat} (hsafety : safety < 256) (hdtc : dtcCount < 256)
    (hepoch : keyEpoch < 65536) :
    (steeringText ts safety dtcCount keyEpoch).length < jsonPayloadSize := by
  have hx := decimal_length (n := ts.x.toNat) 5 (by decide) (ts.x.isLt.trans (by decide))
  have hy := decimal_length (n := ts.y.toNat) 5 (by decide) (ts.y.isLt.trans (by decide))
  have hbtn := decimal_length (n := ts.btn.toNat) 3 (by decide) (ts.btn.isLt.trans (by decide))
  have hseq := decimal_length (n := ts.seq.toNat) 10 (by decide) (ts.seq.isLt.trans (by decide))
  have hs := decimal_length (n := safety) 3 (by decide) (hsafety.trans (by decide))
  have hd := decimal_length (n := dtcCount) 3 (by decide) (hdtc.trans (by decide))
  have hk := decimal_length (n := keyEpoch) 5 (by decide) (hepoch.trans (by decide))
  have ha := oneDecimal_length ts.x
  simp only [steeringText, hangle, List.length_append, String.length_toList]
  simp only [show "\x7b\"x\":".length = 5 from rfl, show ",\"y\":".length = 5 from rfl,
    show ",\"btn\":".length = 7 from rfl, show ",\"angle\":".length = 9 from rfl,
    show ",\"seq\":".length = 7 from rfl, show ",\"safety\":".length = 10 from rfl,
    show ",\"dtc_count\":".length = 13 from rfl, show ",\"key_epoch\":".length = 13 from rfl,
    show "\x7d".length = 1 from rfl, jsonPayloadSize]
  omega

theorem readingText_length (app : App) (r : Reading) : (readingText app r).length < jsonPayloadSize := by
  rw [readingText]
  refine steeringText_length r.ts r.angle (BitVec.isLt _) ?_ (BitVec.isLt _)
  exact lt_of_lt_of_le (Fin.isLt _) (by decide)

theorem charBytes_length (text : List Char) : (charBytes text).length = text.length :=
  List.length_map _

theorem jsonPayload_ok {stack : List Byte} {text : List Char} (hstack : stack.length = jsonPayloadSize)
    (htext : text.length < jsonPayloadSize) : jsonPayload stack text = .ok (charBytes text) := by
  have hwhole : (charBytes text).take (jsonPayloadSize - 1) = charBytes text :=
    List.take_of_length_le (by rw [charBytes_length]; omega)
  have hfront : (charBytes text ++ [0]).length ≤ stack.length := by
    rw [List.length_append, charBytes_length, hstack]
    exact htext
  rw [jsonPayload, hwhole, loadSlice_ok _ _ _ (by rw [filled_length _ _ hfront, hstack]; omega),
    List.drop_zero, filled, List.append_assoc, List.take_left' (charBytes_length text)]

theorem charBytes_ascii (app : App) (r : Reading) : ∀ c ∈ readingText app r, c.toNat < 128 := by
  intro c hc
  rw [readingText, steeringText_eq] at hc
  have h := (printable_dumps _ c hc).2
  omega

/-! ## Frames -/

/-- What the iteration publishes. -/
def frameOf (app : App) (r : Reading) : List Byte :=
  SecOCWire.secured app.key.nodeKey.val
    (E2EWire.frame dataIdSteering.toNat app.steeringCounter.seq.toNat app.steeringCounter.alive.toNat
      (charBytes (readingText app r)))
    r.tick.toNat app.steeringFreshness.counter.toNat

/-- What the publication draws on stays the same. -/
structure SameSender (app app' : App) : Prop where
  counter : app'.steeringCounter = app.steeringCounter
  freshness : app'.steeringFreshness = app.steeringFreshness
  key : app'.key = app.key

theorem SameSender.trans {a b c : App} (hab : SameSender a b) (hbc : SameSender b c) :
    SameSender a c :=
  ⟨hbc.counter.trans hab.counter, hbc.freshness.trans hab.freshness, hbc.key.trans hab.key⟩

theorem superviseStep_sameSender (app : App) (input : LoopInput) :
    SameSender app (superviseStep app input) := by
  unfold superviseStep
  dsimp only
  split <;> exact ⟨rfl, rfl, rfl⟩

theorem flowStep_sameSender (app : App) (input : LoopInput) : SameSender app (flowStep app input) := by
  unfold flowStep
  dsimp only
  split <;> exact ⟨rfl, rfl, rfl⟩

theorem blinkStep_sameSender (app : App) (input : LoopInput) :
    SameSender app (blinkStep app input) := by
  unfold blinkStep
  split
  · split <;> exact ⟨rfl, rfl, rfl⟩
  · exact ⟨rfl, rfl, rfl⟩

/-- The counters have moved on by one message. -/
structure NextSender (app app' : App) : Prop where
  counter : app'.steeringCounter = ⟨app.steeringCounter.seq + 1, app.steeringCounter.alive + 1⟩
  freshness : app'.steeringFreshness = ⟨app.steeringFreshness.counter + 1⟩
  key : app'.key = app.key

/-- A text that fits goes through both encoders. -/
theorem publishStep_frame (app : App) (input : LoopInput) (hlen : input.jsonPayload.length < 192) :
    (publishStep app input).2 = some (SecOCWire.secured app.key.nodeKey.val
      (E2EWire.frame dataIdSteering.toNat app.steeringCounter.seq.toNat
        app.steeringCounter.alive.toNat input.jsonPayload)
      input.tick.toNat app.steeringFreshness.counter.toNat) ∧
    NextSender app (publishStep app input).1 := by
  have he2e := E2EInterop.firmware_encode input.jsonPayload dataIdSteering app.steeringCounter
    e2eBufSize (by omega) (by rw [e2eBufSize]; omega)
  have hframe : (E2EWire.frame dataIdSteering.toNat app.steeringCounter.seq.toNat
      app.steeringCounter.alive.toNat input.jsonPayload).length = 11 + input.jsonPayload.length := by
    simp
  have hsecoc := SecOCInterop.firmware_encode app.key.nodeKey
    (E2EWire.frame dataIdSteering.toNat app.steeringCounter.seq.toNat
      app.steeringCounter.alive.toNat input.jsonPayload) app.steeringFreshness
    (getTickMs input.tick) secocBufSize (by omega) (by rw [secocBufSize]; omega)
  have htick : (getTickMs input.tick).toNat = input.tick.toNat := by
    rw [getTickMs, BitVec.toNat_setWidth, Nat.mod_eq_of_lt (input.tick.isLt.trans (by decide))]
  rw [htick] at hsecoc
  simp only [publishStep, he2e, Option.getD_some, secocEncode, hsecoc, true_and]
  exact ⟨rfl, rfl, rfl⟩

/-- An iteration reads inside its buffer and always publishes. -/
theorem step_loop (n : Node) (r : Reading) :
    ∃ app', step n (.loop r) = .ok ⟨app', n.frames ++ [frameOf n.app r]⟩ ∧ NextSender n.app app' := by
  have htext := readingText_length n.app r
  have hlen : (r.input (charBytes (readingText n.app r))).jsonPayload.length < 192 :=
    (charBytes_length _).trans_lt htext
  set input := r.input (charBytes (readingText n.app r)) with hinput
  have hsupervise := superviseStep_sameSender n.app input
  obtain ⟨hframe, hnext⟩ := publishStep_frame (superviseStep n.app input) input hlen
  have hrest := (flowStep_sameSender (publishStep (superviseStep n.app input) input).1 input).trans
    (blinkStep_sameSender _ input)
  have hmain : mainLoop n.app input = ((mainLoop n.app input).1, some (frameOf n.app r)) := by
    refine Prod.ext rfl (hframe.trans ?_)
    rw [hsupervise.counter, hsupervise.freshness, hsupervise.key]
    rfl
  refine ⟨(mainLoop n.app input).1, ?_, ?_, ?_, ?_⟩
  · rw [step, jsonPayload_ok r.size htext, ok_bind, ← hinput, hmain]
    rfl
  · rw [← hsupervise.counter]
    exact hrest.counter.trans hnext.counter
  · rw [← hsupervise.freshness]
    exact hrest.freshness.trans hnext.freshness
  · exact hrest.key.trans (hnext.key.trans hsupervise.key)

section Handlers

variable (app : App) (channel : Channel) (raw : List Byte) (hdr : E2eHeader) (tick : BitVec 32)

theorem decode_sameSender :
    SameSender app (decodeSecureMessage app raw hdr channel channel.dataId tick).1 := by
  have hsequenced : SameSender app (sequenced app raw channel channel.dataId tick) := by
    cases channel <;> exact ⟨rfl, rfl, rfl⟩
  by_cases hreach : NodeReceive.Reaches app raw channel.dataId tick
  · rw [NodeReceive.decode_reaches app raw hdr channel channel.dataId tick hreach]
    split
    · exact hsequenced.trans ⟨rfl, rfl, rfl⟩
    · split
      · exact hsequenced
      · exact hsequenced.trans ⟨rfl, rfl, rfl⟩
  · obtain ⟨type, code, lastSeq, hdr', hdecode⟩ :=
      NodeReceive.decode_stopped app raw hdr channel channel.dataId tick hreach
    rw [hdecode]
    exact ⟨rfl, rfl, rfl⟩

theorem secureCommand_sameSender : SameSender app (secureCommand app raw hdr channel tick).1 := by
  have hdecode := decode_sameSender app channel raw hdr tick
  unfold secureCommand
  split
  · cases hresult : decodeSecureMessage app raw hdr channel channel.dataId tick with
    | mk app' rest =>
      obtain ⟨hdr', json⟩ := rest
      rw [hresult] at hdecode
      cases json with
      | none => exact hdecode
      | some json =>
        dsimp only
        split
        · exact hdecode.trans ⟨rfl, rfl, rfl⟩
        · split <;> exact hdecode
  · exact ⟨rfl, rfl, rfl⟩

/-- No message that comes in moves the counters of what goes out. -/
theorem handler_sameSender : SameSender app (handler app channel raw hdr tick) := by
  have hsecure := secureCommand_sameSender app channel raw hdr tick
  cases channel with
  | headlight =>
    unfold handler headlightHandler
    dsimp only
    split
    · rename_i h
      rwa [h] at hsecure
    · rename_i h
      rw [h] at hsecure
      split
      · exact hsecure.trans ⟨rfl, rfl, rfl⟩
      · split
        · exact hsecure.trans ⟨rfl, rfl, rfl⟩
        · exact hsecure
  | hazard =>
    unfold handler hazardHandler
    dsimp only
    split
    · rename_i h
      rwa [h] at hsecure
    · rename_i h
      rw [h] at hsecure
      split
      · exact hsecure.trans ⟨rfl, rfl, rfl⟩
      · split
        · exact hsecure.trans ⟨rfl, rfl, rfl⟩
        · exact hsecure

end Handlers

/-! ## Runs -/

def start (leds : Leds) (bootTick : BitVec 32) : Node := ⟨boot leds bootTick, []⟩

/-- The counters are those of the messages published so far. -/
structure Counts (k : Nat) (key : KeyManager) (n : Node) : Prop where
  counter : n.app.steeringCounter = ⟨BitVec.ofNat 16 k, BitVec.ofNat 8 k⟩
  freshness : n.app.steeringFreshness = ⟨BitVec.ofNat 16 k⟩
  key : n.app.key = key
  frames : n.frames.length = k

theorem start_counts (leds : Leds) (bootTick : BitVec 32) :
    Counts 0 (keyInit secocTestKey nodeName) (start leds bootTick) := ⟨rfl, rfl, rfl, rfl⟩

theorem step_counts {k : Nat} {key : KeyManager} {n : Node} (h : Counts k key n) (e : Event) :
    ∃ n', step n e = .ok n' ∧ Counts (k + loops [e]) key n' := by
  cases e with
  | message channel raw hdr tick =>
    have hsame := handler_sameSender n.app channel raw hdr tick
    exact ⟨_, rfl, hsame.counter.trans h.counter, hsame.freshness.trans h.freshness,
      hsame.key.trans h.key, h.frames⟩
  | loop r =>
    obtain ⟨app', hstep, hnext⟩ := step_loop n r
    refine ⟨_, hstep, ?_, ?_, hnext.key.trans h.key, by simp [h.frames, loops]⟩
    · simp only [hnext.counter, h.counter, loops, List.countP_singleton, if_true, BitVec.ofNat_add]
      rfl
    · simp only [hnext.freshness, h.freshness, loops, List.countP_singleton, if_true,
        BitVec.ofNat_add]
      rfl

theorem run_counts (leds : Leds) (bootTick : BitVec 32) (events : List Event) :
    ∃ n, events.foldlM step (start leds bootTick) = .ok n ∧
      Counts (loops events) (keyInit secocTestKey nodeName) n := by
  induction events using List.reverseRecOn with
  | nil => exact ⟨_, rfl, start_counts leds bootTick⟩
  | append_singleton events e ih =>
    obtain ⟨n, hrun, hcounts⟩ := ih
    obtain ⟨n', hstep, hnext⟩ := step_counts hcounts e
    refine ⟨n', ?_, ?_⟩
    · rw [List.foldlM_append, hrun]
      simp [hstep]
    · rwa [loops, List.countP_append, ← loops, ← loops]

/-! ## The master's side -/

/-- `json` of the master, with any `cbor2`. -/
def jsonCodecs (cborDumps : Value → Except PayloadError (List Byte))
    (cborLoads : List Byte → Except PayloadError Value) : Codecs Value where
  jsonDumps data := .ok (String.ofList (dumps data))
  jsonLoads text := match loads text.toList with
    | some data => .ok data
    | none => .error .jsonDecodeError
  cborDumps := cborDumps
  cborLoads := cborLoads

def readingDoc (app : App) (r : Reading) : Value :=
  let app := superviseStep app (r.input [])
  steeringDoc r.ts (stateCode app.safety.state).toNat app.dtc.count.val (keyGetEpoch app.key).toNat

section Master

variable {cborDumps : Value → Except PayloadError (List Byte)}
  {cborLoads : List Byte → Except PayloadError Value}

theorem decode_readingText (app : App) (r : Reading) (encoding : Option String)
    (hencoding : encoding = none ∨ encoding = some encodingJson) :
    decode (jsonCodecs cborDumps cborLoads) (charBytes (readingText app r)) encoding =
      .ok (readingDoc app r) := by
  have hutf8 := ofUtf8_charBytes (charBytes_ascii app r)
  have hloads : (jsonCodecs cborDumps cborLoads).jsonLoads (String.ofList (readingText app r)) =
      .ok (readingDoc app r) := by
    have h : loads (readingText app r) = some (readingDoc app r) := loads_steeringText _ _ _ _
    simp only [jsonCodecs, String.toList_ofList, h]
  obtain rfl | rfl := hencoding
  · have hlooks : looksJson (String.ofList (readingText app r)) = true := by
      simp only [looksJson, String.toList_ofList]
      rfl
    rw [decode, if_neg (by simp), if_neg (by simp), detect, hutf8]
    simp only [hlooks, if_true, hloads]
  · rw [decode, if_neg (by decide), if_pos rfl, decodeJson, hutf8]
    exact hloads

/-- Whatever messages come in and whatever is read: no iteration reads outside its buffer, each
publishes one message within the buffer for it, and with the node's key the master gets the document of
the reading from it, under a sequence number that counts the messages. It gets nothing where its clock
is more than ten seconds from the tick of the node. -/
theorem uplink_reaches_master (leds : Leds) (bootTick : BitVec 32) (past : List Event) (r : Reading) :
    ∃ n n' frame, past.foldlM step (start leds bootTick) = .ok n ∧ step n (.loop r) = .ok n' ∧
      n.frames.length = loops past ∧ n'.frames = n.frames ++ [frame] ∧
      frame.length ≤ secocBufSize ∧
      ∀ encoding, encoding = none ∨ encoding = some encodingJson → ∀ nowMs, ∃ header,
        header.dataId = dataIdSteering.toNat ∧ header.sequenceCounter = loops past % 65536 ∧
        header.aliveCounter = loops past % 256 ∧
        decodeSecoc (jsonCodecs cborDumps cborLoads) frame
          (keyInit secocTestKey nodeName).nodeKey.val encoding nowMs =
          if ((r.tick.toNat : Int) - nowMs).natAbs ≤ decodeWindowMs then
            .ok (some (readingDoc n.app r), some header, true, true)
          else .ok (none, none, false, false) := by
  obtain ⟨n, hrun, hcounts⟩ := run_counts leds bootTick past
  obtain ⟨app', hstep, -⟩ := step_loop n r
  refine ⟨n, _, frameOf n.app r, hrun, hstep, hcounts.frames, rfl, ?_, ?_⟩
  · have htext : (readingText n.app r).length < 192 := readingText_length n.app r
    rw [frameOf, SecOCWire.secured_length, E2EWire.frame_length, charBytes_length, secocBufSize]
    omega
  · intro encoding hencoding nowMs
    obtain ⟨header, hid, hseq, halive, hdecode⟩ := PayloadStack.decodeSecoc_secured
      (jsonCodecs cborDumps cborLoads) n.app.key.nodeKey.val dataIdSteering.toNat
      n.app.steeringCounter.seq.toNat n.app.steeringCounter.alive.toNat r.tick.toNat
      n.app.steeringFreshness.counter.toNat (charBytes (readingText n.app r)) encoding nowMs
      (BitVec.isLt _) (BitVec.isLt _) (BitVec.isLt _) (r.tick.isLt.trans (by decide)) (BitVec.isLt _)
    refine ⟨header, hid, ?_, ?_, ?_⟩
    · rw [hseq, hcounts.counter, BitVec.toNat_ofNat]
    · rw [halive, hcounts.counter, BitVec.toNat_ofNat]
    · rw [← hcounts.key, frameOf, hdecode, decode_readingText n.app r encoding hencoding]
      rfl

end Master

end Genoh.SteeringUplink
