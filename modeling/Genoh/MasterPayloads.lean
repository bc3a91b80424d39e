import Genoh.MasterSecOC

/-!
# Master payloads

`common/payloads.py`: serialisation by `json` or `cbor2`, and the two wrappers that put a
payload into E2E and SecOC protection. The two libraries are parameters. A received payload
is always a byte string here.
-/
namespace Genoh.MasterPayloads

open Genoh.Bytes Genoh.MasterE2E Genoh.MasterSecOC

/-- The exceptions that leave the wrappers; `library` is any other one of `json` or `cbor2`. -/
inductive PayloadError where
  | protection (error : PyError)
  | unicodeDecodeError
  | jsonDecodeError
  | library
  deriving DecidableEq, Repr

/-! ## Text -/

/-- `str.encode("utf-8")`. -/
def utf8 (text : String) : List Byte := text.toUTF8.data.toList.map UInt8.toBitVec

theorem utf8_append (text text' : String) : utf8 (text ++ text') = utf8 text ++ utf8 text' := by
  rw [utf8, String.toUTF8_eq_toByteArray, String.toByteArray_append]
  simp [utf8]

/-- `bytes.decode("utf-8")`; none where it raises. -/
def ofUtf8 (raw : List Byte) : Option String :=
  String.fromUTF8? ⟨(raw.map UInt8.ofBitVec).toArray⟩

theorem ofUtf8_utf8 (text : String) : ofUtf8 (utf8 text) = some text := by
  have hbytes : ((utf8 text).map UInt8.ofBitVec).toArray = text.toUTF8.data := by
    simp [utf8, Function.comp_def]
  rw [ofUtf8, hbytes]
  change String.fromUTF8? text.toUTF8 = some text
  rw [String.fromUTF8?, String.toUTF8_eq_toByteArray, dif_pos text.isValidUTF8]
  rfl

/-! ## Serialisation -/

/-- `json.dumps` with the separators of `encode_json`, `json.loads`, `cbor2.dumps` and
`cbor2.loads`. -/
structure Codecs (Value : Type) where
  jsonDumps : Value → Except PayloadError String
  jsonLoads : String → Except PayloadError Value
  cborDumps : Value → Except PayloadError (List Byte)
  cborLoads : List Byte → Except PayloadError Value

def encodingJson : String := "application/json"
def encodingCbor : String := "application/cbor"

section Wrappers

variable {Value : Type} (codecs : Codecs Value)

def encodeJson (data : Value) : Except PayloadError (List Byte) := (codecs.jsonDumps data).map utf8

def decodeJson (raw : List Byte) : Except PayloadError Value :=
  match ofUtf8 raw with
  | none => .error .unicodeDecodeError
  | some text => codecs.jsonLoads text

def encode (data : Value) (encoding : String) : Except PayloadError (List Byte) :=
  if encoding = encodingCbor then codecs.cborDumps data else encodeJson codecs data

/-- `text.startswith(("{", "["))`. -/
def looksJson (text : String) : Bool :=
  match text.toList with
  | [] => false
  | c :: _ => c == '\x7b' || c == '['

/-- `decode` without a hint, on bytes. -/
def detect (raw : List Byte) : Except PayloadError Value :=
  match ofUtf8 raw with
  | none => codecs.cborLoads raw
  | some text =>
    if looksJson text then
      match codecs.jsonLoads text with
      | .error .jsonDecodeError => codecs.cborLoads raw
      | .error .unicodeDecodeError => codecs.cborLoads raw
      | result => result
    else codecs.cborLoads raw

def decode (raw : List Byte) (encoding : Option String) : Except PayloadError Value :=
  if encoding = some encodingCbor then codecs.cborLoads raw
  else if encoding = some encodingJson then decodeJson codecs raw
  else detect codecs raw

/-! ## E2E protection -/

/-- `encode_e2e`: the message or the exception, and the counters after the call. -/
def encodeE2e (data : Value) (keyExpr : String) (counter : SequenceCounterState)
    (encoding : String) : Except PayloadError (List Byte) × SequenceCounterState :=
  match encode codecs data encoding with
  | .error error => (.error error, counter)
  | .ok payload =>
    match resolveDataId keyExpr with
    | .error error => (.error (.protection error), counter)
    | .ok dataId =>
      let (message, counter) := e2eEncode dataId payload counter
      (message.mapError .protection, counter)

def decodeE2e (raw : List Byte) (encoding : Option String) :
    Except PayloadError (Value × E2EHeader × Bool) := do
  let (header, payload) ← (e2eDecode raw).mapError .protection
  let crcValid ← (e2eVerify header payload).mapError .protection
  let data ← decode codecs payload encoding
  return (data, header, crcValid)

/-! ## SecOC -/

/-- `encode_secoc`. Every call draws its freshness value from a new `FreshnessCounter`. -/
def encodeSecoc (data : Value) (keyExpr : String) (counter : SequenceCounterState)
    (secocKey : List Byte) (encoding : String) (nowMs : Nat) :
    Except PayloadError (List Byte) × SequenceCounterState :=
  match encodeE2e codecs data keyExpr counter encoding with
  | (.error error, counter) => (.error error, counter)
  | (.ok e2eMsg, counter) =>
    ((secocEncode secocKey e2eMsg {} nowMs).1.mapError .protection, counter)

/-- The window that `decode_secoc` passes on. -/
def decodeWindowMs : Nat := 10000

/-- `decode_secoc`: data, header, CRC verdict and MAC verdict. -/
def decodeSecoc (raw secocKey : List Byte) (encoding : Option String) (nowMs : Nat) :
    Except PayloadError (Option Value × Option E2EHeader × Bool × Bool) := do
  let (e2eMsg, _, macValid) ←
    (secocDecode secocKey raw none decodeWindowMs nowMs).mapError .protection
  if macValid = false ∨ e2eMsg = [] then return (none, none, false, false)
  let (data, header, crcValid) ← decodeE2e codecs e2eMsg encoding
  return (some data, some header, crcValid, macValid)

end Wrappers

end Genoh.MasterPayloads
