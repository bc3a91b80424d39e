import Mathlib.Data.List.TakeWhile
import Genoh.CheckedDecode
import Genoh.NodeActuators

/-!
# The receive path of the node in checked memory

`json_get_string`, `decode_secure_message` and the two handlers access by access. Local arrays
hold anything before the code writes them; the header, the message length and the payload are
variables nobody has set.
-/
namespace Genoh.CheckedReceive

open Genoh.Bytes Genoh.Checked Genoh.CheckedMemory
open Genoh.CheckedHash (Uninit)
open Genoh.CheckedDecode (DecodeLocals CrcStatic secocDecodeEx secocDecodeEx_ok e2eDecode e2eDecode_ok)
open Genoh.FirmwareE2E Genoh.FirmwareSecOC Genoh.FirmwareSafety Genoh.FirmwareIds
open Genoh.FirmwareDiagnostics Genoh.FirmwareKey
open Genoh.AppZenoh (App Channel searchSize jsonSize stateSize strstr)

/-! ## C strings -/

/-- The text of a character array, read up to its terminating NUL. -/
def cString (buf : List Byte) : Checked Fault (List Byte) := do
  let n ← scan (fun c => decide (c ≠ 0)) buf 0
  loadSlice buf 0 n

/-- A character array with the text `text`. -/
structure Holds (buf text : List Byte) : Prop where
  terminated : ∃ tail, buf = text ++ 0 :: tail
  nonzero : ∀ c ∈ text, c ≠ 0

theorem takeWhile_stop {α : Type} (p : α → Bool) (l tail : List α) (a : α) (h : p a = false) :
    (l ++ a :: tail).takeWhile p = l.takeWhile p := by
  induction l with
  | nil => exact List.takeWhile_cons_of_neg (by rw [h]; decide)
  | cons b l ih =>
    cases hb : p b with
    | true => rw [List.cons_append, List.takeWhile_cons_of_pos hb, List.takeWhile_cons_of_pos hb, ih]
    | false =>
      have hneg : ¬ p b = true := by rw [hb]; decide
      rw [List.cons_append, List.takeWhile_cons_of_neg hneg, List.takeWhile_cons_of_neg hneg]

/-- A text and its NUL, written to the front of an array. -/
theorem holds_filled (buf : List Byte) {text : List Byte} (hnonzero : ∀ c ∈ text, c ≠ 0) :
    Holds (filled buf (text ++ [0])) text where
  terminated := ⟨buf.drop (text ++ [0]).length, by rw [filled, List.append_assoc]; rfl⟩
  nonzero := hnonzero

section Texts

variable {buf text : List Byte} (h : Holds buf text)
include h

/-- The rest of the array from a place in the text or at its NUL. -/
theorem Holds.drop {p : Nat} (hp : p ≤ text.length) : Holds (buf.drop p) (text.drop p) := by
  obtain ⟨tail, rfl⟩ := h.terminated
  refine ⟨⟨tail, List.drop_append_of_le_length hp⟩, fun c hc => ?_⟩
  exact h.nonzero c (List.mem_of_mem_drop hc)

theorem Holds.scan_ok {p : Nat} (hp : p ≤ text.length) (q : Byte → Bool) (hq : q 0 = false) :
    scan q buf p = .ok (p + ((text.drop p).takeWhile q).length) := by
  obtain ⟨tail, hbuf⟩ := (h.drop hp).terminated
  rw [CheckedMemory.scan_ok q buf p, hbuf, takeWhile_stop q _ _ _ hq]
  refine ⟨0, ?_, hq⟩
  rw [hbuf]
  exact List.mem_append_right _ (List.mem_cons_self ..)

theorem Holds.cString_ok : cString buf = .ok text := by
  obtain ⟨tail, hbuf⟩ := h.terminated
  have hall : text.takeWhile (fun c => decide (c ≠ 0)) = text := by
    rw [List.takeWhile_eq_self_iff]
    exact fun c hc => decide_eq_true (h.nonzero c hc)
  have hscan := h.scan_ok (Nat.zero_le _) (fun c => decide (c ≠ 0)) (by decide)
  rw [List.drop_zero, hall, Nat.zero_add] at hscan
  have hlen : text.length ≤ buf.length := by
    rw [hbuf, List.length_append]
    omega
  rw [cString, hscan, ok_bind, loadSlice_ok _ _ _ (by omega), List.drop_zero, hbuf,
    List.take_left' rfl]

/-- The character at a place in the text, or the NUL behind it. -/
theorem Holds.load_ok {p : Nat} (hp : p ≤ text.length) :
    load buf p = .ok ((text.drop p).headD 0) := by
  obtain ⟨tail, hbuf⟩ := (h.drop hp).terminated
  have hget : buf[p]? = (buf.drop p)[0]? := by rw [List.getElem?_drop, Nat.add_zero]
  rw [load, hget, hbuf]
  cases text.drop p with
  | nil => rfl
  | cons c rest => rfl

end Texts

/-! ## JSON text -/

def isBlank (c : Byte) : Bool := c == 0x3A || c == 0x20 || c == 0x09

/-- The copy loop of `json_get_string`, with the array and the count it ends with. -/
def copyValue (json : List Byte) (outSize p i : Nat) (out : List Byte) :
    Checked Fault (List Byte × Nat) := do
  let c ← load json p
  if h : c ≠ 0 ∧ c ≠ 0x22 ∧ i < outSize - 1 then
    let out ← store out i c
    copyValue json outSize (p + 1) (i + 1) out
  else return (out, i)
termination_by outSize - 1 - i

/-- The value of the string from `p` on: the array `out` for the return value true. -/
def valueAt (json out : List Byte) (outSize p : Nat) : Checked Fault (Option (List Byte)) := do
  let p ← scan isBlank json p
  let c ← load json p
  if c ≠ 0x22 then return none
  else
    let (out, i) ← copyValue json outSize (p + 1) 0 out
    let out ← store out i 0
    if i > 0 then return some out else return none

/-- `json_get_string` with its search buffer. -/
def jsonGetString (search json key out : List Byte) (outSize : Nat) :
    Checked Fault (Option (List Byte)) := do
  let quoted := ascii "\"" ++ key ++ ascii "\""
  let search ← storeSlice search 0 (quoted.take (searchSize - 1) ++ [0])
  let text ← cString json
  let needle ← cString search
  match strstr text needle with
  | none => return none
  | some rest => valueAt json out outSize (text.length - rest.length + quoted.length)

/-- What is left of the text after its first match is as long as the match at least. -/
theorem strstr_some {text needle rest : List Byte} (h : strstr text needle = some rest) :
    needle.length ≤ rest.length ∧ rest = text.drop (text.length - rest.length) ∧
      rest.length ≤ text.length := by
  induction text with
  | nil =>
    rw [strstr] at h
    split at h
    · rename_i hpre
      cases h
      exact ⟨(List.isPrefixOf_iff_prefix.mp hpre).length_le, rfl, le_rfl⟩
    · exact absurd h.symm (Option.some_ne_none rest)
  | cons c text ih =>
    rw [strstr] at h
    split at h
    · rename_i hpre
      cases h
      refine ⟨(List.isPrefixOf_iff_prefix.mp hpre).length_le, ?_, le_rfl⟩
      rw [Nat.sub_self, List.drop_zero]
    · obtain ⟨hneedle, hdrop, hle⟩ := ih h
      have hsucc : (c :: text).length - rest.length = text.length - rest.length + 1 := by
        rw [List.length_cons]
        omega
      refine ⟨hneedle, ?_, by rw [List.length_cons]; omega⟩
      rw [hsucc, List.drop_succ_cons]
      exact hdrop

/-- The loop copies up to the closing quote, the end of the text or the last place but one of the
array, by induction on what is left of the text. -/
theorem copyValue_ok (json rest front out : List Byte) (outSize p : Nat)
    (hrest : Holds (json.drop p) rest) (hout : out.length = outSize)
    (hfront : front.length < outSize) :
    copyValue json outSize p front.length (filled out front) =
      .ok (filled out (front ++ (rest.takeWhile (· ≠ 0x22)).take (outSize - 1 - front.length)),
        (front ++ (rest.takeWhile (· ≠ 0x22)).take (outSize - 1 - front.length)).length) := by
  have hload : load json p = .ok (rest.headD 0) := by
    have hhead := hrest.load_ok (Nat.zero_le rest.length)
    rwa [load_drop, Nat.add_zero, List.drop_zero] at hhead
  induction rest generalizing p front with
  | nil =>
    rw [copyValue, hload, ok_bind, dif_neg (fun hmore => hmore.1 rfl), List.takeWhile_nil,
      List.take_nil, List.append_nil]
    rfl
  | cons c rest ih =>
    rw [copyValue, hload, ok_bind, List.headD_cons]
    by_cases hquote : c = 0x22
    · rw [dif_neg (fun hmore => hmore.2.1 hquote), List.takeWhile_cons_of_neg (by simp [hquote]),
        List.take_nil, List.append_nil]
      rfl
    · by_cases hroom : front.length < outSize - 1
      · have hnext : Holds (json.drop (p + 1)) rest := by
          have htail := hrest.drop (p := 1) (by rw [List.length_cons]; omega)
          rwa [List.drop_drop, List.drop_succ_cons, List.drop_zero] at htail
        have hloadNext : load json (p + 1) = .ok (rest.headD 0) := by
          have hhead := hnext.load_ok (Nat.zero_le rest.length)
          rwa [load_drop, Nat.add_zero, List.drop_zero] at hhead
        have hlen : (front ++ [c]).length = front.length + 1 := by
          rw [List.length_append, List.length_singleton]
        have hcopied := ih (front ++ [c]) (p + 1) hnext (by omega) hloadNext
        have htake : (c :: rest).takeWhile (· ≠ 0x22) = c :: rest.takeWhile (· ≠ 0x22) :=
          List.takeWhile_cons_of_pos (decide_eq_true hquote)
        have hcount : outSize - 1 - front.length = outSize - 1 - (front.length + 1) + 1 := by omega
        rw [dif_pos ⟨hrest.nonzero c (List.mem_cons_self ..), hquote, hroom⟩,
          store_filled _ _ _ (by omega), ok_bind, ← hlen, hcopied, htake, hcount,
          List.take_succ_cons, hlen, List.append_assoc, List.singleton_append]
      · rw [dif_neg (fun hmore => hroom hmore.2.2), Nat.sub_eq_zero_of_le (not_lt.mp hroom),
          List.take_zero, List.append_nil]
        rfl

theorem drop_takeWhile {α : Type} (p : α → Bool) (l : List α) :
    l.drop (l.takeWhile p).length = l.dropWhile p := by
  have hsplit : l.takeWhile p ++ l.dropWhile p = l := List.takeWhile_append_dropWhile
  have hdrop := congrArg (List.drop (l.takeWhile p).length) hsplit
  rw [List.drop_left] at hdrop
  exact hdrop.symm

/-- The value behind the quote, cut to the array, gets its NUL. -/
theorem quotedValue_ok (json out : List Byte) (outSize p : Nat) {rest value : List Byte}
    (hvalue : Holds (json.drop p) rest) (hout : out.length = outSize) (hsize : 0 < outSize)
    (hval : (rest.takeWhile (· ≠ 0x22)).take (outSize - 1) = value) :
    copyValue json outSize p 0 out = .ok (filled out value, value.length) ∧
      store (filled out value) value.length 0 = .ok (filled out (value ++ [0])) ∧
      Holds (filled out (value ++ [0])) value := by
  have hcopied := copyValue_ok json rest [] out outSize p hvalue hout hsize
  rw [filled_nil, List.length_nil, List.nil_append, Nat.sub_zero, hval] at hcopied
  have hlen : value.length < out.length := by
    rw [← hval, List.length_take]
    omega
  have hnonzero : ∀ b ∈ value, b ≠ 0 := by
    intro b hb
    rw [← hval] at hb
    exact hvalue.nonzero b ((List.takeWhile_prefix _).subset (List.mem_of_mem_take hb))
  exact ⟨hcopied, store_filled _ _ _ hlen, holds_filled out hnonzero⟩

/-- The text between the quotes, cut to the array. -/
theorem valueAt_ok (json out : List Byte) (outSize p : Nat) {text : List Byte}
    (hjson : Holds json text) (hout : out.length = outSize) (hsize : 0 < outSize)
    (hp : p ≤ text.length) :
    ∃ found, valueAt json out outSize p = .ok found ∧
      Option.Rel Holds found
        (match (text.drop p).dropWhile isBlank with
        | [] => none
        | c :: rest =>
          if c ≠ 0x22 then none
          else
            let value := (rest.takeWhile (· ≠ 0x22)).take (outSize - 1)
            if value.length > 0 then some value else none) := by
  have hscan := hjson.scan_ok hp isBlank (by decide)
  have hblanks : ((text.drop p).takeWhile isBlank).length ≤ (text.drop p).length :=
    (List.takeWhile_prefix isBlank).length_le
  have hinside : p + ((text.drop p).takeWhile isBlank).length ≤ text.length := by
    rw [List.length_drop] at hblanks
    omega
  have hrest : text.drop (p + ((text.drop p).takeWhile isBlank).length) =
      (text.drop p).dropWhile isBlank := by
    rw [← List.drop_drop, drop_takeWhile]
  have hload := hjson.load_ok hinside
  have htail := hjson.drop hinside
  rw [hrest] at hload htail
  rw [valueAt, hscan, ok_bind, hload, ok_bind]
  cases hend : (text.drop p).dropWhile isBlank with
  | nil =>
    rw [List.headD_nil, if_pos (by decide)]
    exact ⟨none, rfl, .none⟩
  | cons c rest =>
    rw [hend] at htail
    rw [List.headD_cons]
    dsimp only
    by_cases hquote : c ≠ 0x22
    · rw [if_pos hquote, if_pos hquote]
      exact ⟨none, rfl, .none⟩
    · rw [if_neg hquote, if_neg hquote]
      have hvalue : Holds (json.drop (p + ((text.drop p).takeWhile isBlank).length + 1)) rest := by
        have hnext := htail.drop (p := 1) (by rw [List.length_cons]; omega)
        rwa [List.drop_drop, List.drop_succ_cons, List.drop_zero] at hnext
      generalize hval : (rest.takeWhile (· ≠ 0x22)).take (outSize - 1) = value
      obtain ⟨hcopied, hstored, harray⟩ := quotedValue_ok json out outSize _ hvalue hout hsize hval
      rw [hcopied, ok_bind]
      dsimp only
      rw [hstored, ok_bind]
      by_cases hpos : value.length > 0
      · rw [if_pos hpos, if_pos hpos]
        exact ⟨_, rfl, .some harray⟩
      · rw [if_neg hpos, if_neg hpos]
        exact ⟨none, rfl, .none⟩

/-- For a key that fits the search buffer the search stays in its three buffers, and finds what
the search over lists finds. -/
theorem jsonGetString_ok (search json key out : List Byte) (outSize : Nat) {text : List Byte}
    (hjson : Holds json text) (hsearch : search.length = searchSize) (hout : out.length = outSize)
    (hsize : 0 < outSize) (hkey : ∀ c ∈ key, c ≠ 0) (hfits : key.length + 2 < searchSize) :
    ∃ found, jsonGetString search json key out outSize = .ok found ∧
      Option.Rel Holds found (AppZenoh.jsonGetString text key outSize) := by
  have hquote : (ascii "\"").length = 1 := rfl
  have hlen : (ascii "\"" ++ key ++ ascii "\"").length = key.length + 2 := by
    rw [List.length_append, List.length_append]
    omega
  have hcut : (ascii "\"" ++ key ++ ascii "\"").take (searchSize - 1) =
      ascii "\"" ++ key ++ ascii "\"" := List.take_of_length_le (by omega)
  have hnonzero : ∀ c ∈ ascii "\"" ++ key ++ ascii "\"", c ≠ 0 := by
    intro c hc
    have hplain : ∀ c ∈ ascii "\"", c ≠ 0 := by decide
    simp only [List.mem_append] at hc
    obtain (hc | hc) | hc := hc
    · exact hplain c hc
    · exact hkey c hc
    · exact hplain c hc
  rw [jsonGetString, AppZenoh.jsonGetString]
  generalize ascii "\"" ++ key ++ ascii "\"" = quoted at hlen hcut hnonzero ⊢
  have hstored : storeSlice search 0 (quoted ++ [0]) = .ok (filled search (quoted ++ [0])) := by
    rw [storeSlice, if_pos (by rw [List.length_append, List.length_singleton]; omega), splice,
      List.take_zero, List.nil_append, Nat.zero_add]
    rfl
  have hneedle : Holds (filled search (quoted ++ [0])) quoted := holds_filled search hnonzero
  dsimp only
  rw [hcut, hstored, ok_bind, hjson.cString_ok, ok_bind, hneedle.cString_ok, ok_bind]
  cases hmatch : strstr text quoted with
  | none => exact ⟨none, rfl, .none⟩
  | some rest =>
    obtain ⟨hlong, hrest, hle⟩ := strstr_some hmatch
    have hplace : text.drop (text.length - rest.length + quoted.length) = rest.drop quoted.length := by
      rw [← List.drop_drop, ← hrest]
    have hvalue := valueAt_ok json out outSize (text.length - rest.length + quoted.length) hjson hout
      hsize (by omega)
    rw [hplace] at hvalue
    exact hvalue

/-! ## The receive path -/

/-- The local arrays of a handler and what it calls. -/
structure Locals extends DecodeLocals where
  json : Uninit Byte jsonSize
  state : Uninit Byte stateSize
  search : Uninit Byte searchSize

/-- The static variables of the CRC and the local arrays, as a call finds them. -/
structure Memory where
  locals : Locals
  static : CrcStatic

variable (memory : Memory)

/-- `decode_secure_message` from its second step on. -/
def decodePayload (app : App) (raw : List Byte) (len : Nat) (hdr : Option E2eHeader)
    (channel : Channel) (tick : BitVec 32) :
    Checked Fault (App × Option E2eHeader × Option (List Byte)) := do
  let (st, hdr, payload) ← e2eDecode memory.locals.toDecodeLocals memory.static raw len hdr
  let header ← get hdr
  if st ≠ .ok then
    return ((app.fault .crcFailure tick).recordDtc dtcCrcFailure header.sequenceCounter tick, hdr,
      none)
  else
    let (seqSt, chk) := e2eSeqCheck (app.checker channel) header.sequenceCounter
    let app := app.setChecker channel chk
    if seqSt = .errSeqGap ∨ seqSt = .errSeqRepeated then
      return ((app.fault .seqError tick).recordDtc dtcSeqError header.sequenceCounter tick, hdr, none)
    else
      let (payload, payloadLen) ← get payload
      if payloadLen ≥ jsonSize then return (app, hdr, none)
      else
        let json ← copy memory.locals.json.val 0 raw payload payloadLen
        let json ← store json payloadLen 0
        return ({ app with
          safety := safetyReportOk app.safety
          flow := flowActuatorReceived app.flow tick }, hdr, some json)

/-- `decode_secure_message`: the JSON array for the return value true. -/
def decodeSecureMessage (app : App) (raw : List Byte) (hdr : Option E2eHeader) (channel : Channel)
    (dataIdExpected : BitVec 16) (tick : BitVec 32) :
    Checked Fault (App × Option E2eHeader × Option (List Byte)) := do
  let (allowed, ids) := idsCheckMessage app.ids dataIdExpected (BitVec.ofNat 32 raw.length) tick
  let app := { app with ids := ids }
  if allowed = false then return ((app.fault .flood tick).recordDtc dtcFlood 0 tick, hdr, none)
  else
    let (decoded, e2eLen, result) ←
      secocDecodeEx memory.locals.toDecodeLocals raw app.key.nodeKey tick
    if decoded = false then
      return ((app.fault .macFailure tick).recordDtc dtcMacFailure 0 tick, hdr, none)
    else if result.freshnessValid = false then
      return ((app.fault .replay tick).recordDtc dtcReplay 0 tick, hdr, none)
    else decodePayload memory app raw (← get e2eLen) hdr channel tick

/-- The part of both handlers up to the actuator. -/
def secureCommand (app : App) (raw : List Byte) (channel : Channel) (tick : BitVec 32) :
    Checked Fault (App × Option (List Byte)) := do
  if raw.length > e2eHeaderSize + secocOverhead then
    let (app, hdr, json) ← decodeSecureMessage memory app raw none channel channel.dataId tick
    match json with
    | none => return (app, none)
    | some json =>
      let header ← get hdr
      if header.dataId ≠ channel.dataId then return (app.fault .crcFailure tick, none)
      else if safetyActuatorAllowed app.safety = false then return (app, none)
      else return (app, some json)
  else return (app, none)

/-- The value of `state` in the JSON array, as `strcmp` reads it. -/
def commandState (json : List Byte) : Checked Fault (Option (List Byte)) := do
  let found ← jsonGetString memory.locals.search.val json (ascii "state") memory.locals.state.val
    stateSize
  match found with
  | none => return none
  | some state => return some (← cString state)

def headlightHandler (app : App) (raw : List Byte) (tick : BitVec 32) : Checked Fault App := do
  let (app, json) ← secureCommand memory app raw .headlight tick
  match json with
  | none => return app
  | some json =>
    let state ← commandState memory json
    if state = some (ascii "on") then
      return { app with leds := { app.leds with led1 := true }, headlightOn := true }
    else if state = some (ascii "off") then
      return { app with leds := { app.leds with led1 := false }, headlightOn := false }
    else return app

def hazardHandler (app : App) (raw : List Byte) (tick : BitVec 32) : Checked Fault App := do
  let (app, json) ← secureCommand memory app raw .hazard tick
  match json with
  | none => return app
  | some json =>
    let state ← commandState memory json
    if state = some (ascii "on") then
      return { app with hazardOn := true, hazardLastToggle := tick }
    else if state = some (ascii "off") then
      return { app with hazardOn := false, leds := { app.leds with led2 := false } }
    else return app

def handler (app : App) (channel : Channel) (raw : List Byte) (tick : BitVec 32) : Checked Fault App :=
  match channel with
  | .headlight => headlightHandler memory app raw tick
  | .hazard => hazardHandler memory app raw tick

section Handlers

variable (app : App) (raw : List Byte) (hdr : E2eHeader) (channel : Channel) (tick : BitVec 32)

/-- A JSON array stands for the text it holds. -/
def SameJson (array text : List Byte) : Prop := ∃ tail, array = text ++ tail ∧ 0 ∈ text

/-- The same steps over lists. -/
def payloadDecoded (app : App) (raw : List Byte) (len : Nat) (hdr : E2eHeader) (channel : Channel)
    (tick : BitVec 32) : App × E2eHeader × Option (List Byte) :=
  let (st, hdr, payload) := FirmwareE2E.e2eDecode (raw.take len) hdr
  if st ≠ .ok then
    ((app.fault .crcFailure tick).recordDtc dtcCrcFailure hdr.sequenceCounter tick, hdr, none)
  else
    let (seqSt, chk) := e2eSeqCheck (app.checker channel) hdr.sequenceCounter
    let app := app.setChecker channel chk
    if seqSt = .errSeqGap ∨ seqSt = .errSeqRepeated then
      ((app.fault .seqError tick).recordDtc dtcSeqError hdr.sequenceCounter tick, hdr, none)
    else if payload.length ≥ jsonSize then (app, hdr, none)
    else
      ({ app with
        safety := safetyReportOk app.safety
        flow := flowActuatorReceived app.flow tick }, hdr, some (payload ++ [0]))

/-- Checked and plain results: the same state, the JSON array for the text, the header set. -/
structure Agrees (checked : App × Option E2eHeader × Option (List Byte))
    (plain : App × E2eHeader × Option (List Byte)) : Prop where
  app : checked.1 = plain.1
  json : Option.Rel SameJson checked.2.2 plain.2.2
  header : checked.2.2 ≠ none → checked.2.1 = some plain.2.1

theorem agrees_none (app : App) (hdr : Option E2eHeader) (hdr' : E2eHeader) :
    Agrees (app, hdr, none) (app, hdr', none) := ⟨rfl, .none, fun h => absurd rfl h⟩

theorem decodePayload_ok (len : Nat) (h : e2eHeaderSize ≤ len) (hlen : len ≤ raw.length) :
    ∃ checked, decodePayload memory app raw len none channel tick = .ok checked ∧
      Agrees checked (payloadDecoded app raw len hdr channel tick) := by
  obtain ⟨payload, he2e, hpayload⟩ := e2eDecode_ok memory.locals.toDecodeLocals raw len memory.static
    none hdr h hlen
  rw [decodePayload, payloadDecoded, he2e, ok_bind]
  generalize FirmwareE2E.e2eDecode (raw.take len) hdr = decoded at hpayload ⊢
  obtain ⟨st, header, bytes⟩ := decoded
  dsimp only at hpayload ⊢
  rw [get_some, ok_bind]
  by_cases hst : st ≠ .ok
  · rw [if_pos hst, if_pos hst]
    exact ⟨_, rfl, agrees_none _ _ _⟩
  · obtain ⟨n, rfl, hn, hbytes⟩ := hpayload (not_not.mp hst)
    rw [if_neg hst, if_neg hst]
    split
    · exact ⟨_, rfl, agrees_none _ _ _⟩
    · have hcount : bytes.length = n := by
        rw [← hbytes, List.length_take, List.length_drop]
        omega
      rw [get_some, ok_bind, hcount]
      dsimp only
      by_cases hbig : n ≥ jsonSize
      · rw [if_pos hbig, if_pos hbig]
        exact ⟨_, rfl, agrees_none _ _ _⟩
      · have hjson := memory.locals.json.property
        have hcopied := copy_filled memory.locals.json.val [] raw e2eHeaderSize n
          (by rw [List.length_nil]; omega) (by omega)
        rw [filled_nil, List.length_nil, List.nil_append, hbytes] at hcopied
        have hstored := store_filled memory.locals.json.val bytes 0 (by omega)
        rw [hcount] at hstored
        rw [if_neg hbig, if_neg hbig, hcopied, ok_bind, hstored, ok_bind]
        refine ⟨_, rfl, rfl, .some ⟨memory.locals.json.val.drop (bytes ++ [0]).length, ?_, ?_⟩,
          fun _ => rfl⟩
        · rfl
        · exact List.mem_append_right _ (List.mem_singleton_self 0)

/-- With room for a header the decoder stays in its buffers and reads no variable nobody set. -/
theorem decodeSecureMessage_ok (hlong : raw.length > e2eHeaderSize + secocOverhead) :
    ∃ checked, decodeSecureMessage memory app raw none channel channel.dataId tick = .ok checked ∧
      Agrees checked (AppZenoh.decodeSecureMessage app raw hdr channel channel.dataId tick) := by
  have hheader : e2eHeaderSize = 11 := rfl
  have hover : secocOverhead = 24 := rfl
  rw [decodeSecureMessage, AppZenoh.decodeSecureMessage]
  generalize idsCheckMessage app.ids channel.dataId (BitVec.ofNat 32 raw.length) tick = checked
  obtain ⟨allowed, ids⟩ := checked
  dsimp only
  by_cases hallowed : allowed = false
  · rw [if_pos hallowed, if_pos hallowed]
    exact ⟨_, rfl, agrees_none _ _ _⟩
  · rw [if_neg hallowed, if_neg hallowed, secocDecodeEx_ok, ok_bind]
    obtain ⟨-, result, hdecode, -⟩ | ⟨-, len, result, hdecode⟩ :=
      NodeReceive.secocDecodeEx_cases app.key.nodeKey raw tick
    · simp only [hdecode]
      rw [if_neg (by decide)]
      by_cases hfresh : result.freshnessValid = false
      · rw [if_pos hfresh, if_pos hfresh]
        exact ⟨_, rfl, agrees_none _ _ _⟩
      · rw [if_neg hfresh, if_neg hfresh, get_some, ok_bind]
        exact decodePayload_ok memory _ raw hdr channel tick (raw.length - 24) (by omega) (by omega)
    · simp only [hdecode]
      rw [if_pos trivial]
      exact ⟨_, rfl, agrees_none _ _ _⟩

theorem secureCommand_ok :
    ∃ json, secureCommand memory app raw channel tick =
        .ok ((AppZenoh.secureCommand app raw hdr channel tick).1, json) ∧
      Option.Rel SameJson json (AppZenoh.secureCommand app raw hdr channel tick).2 := by
  rw [secureCommand, AppZenoh.secureCommand]
  by_cases hlong : raw.length > e2eHeaderSize + secocOverhead
  · obtain ⟨checked, hchecked, hagrees⟩ := decodeSecureMessage_ok memory app raw hdr channel tick hlong
    rw [if_pos hlong, if_pos hlong, hchecked, ok_bind]
    generalize AppZenoh.decodeSecureMessage app raw hdr channel channel.dataId tick = plain
      at hagrees ⊢
    obtain ⟨app', hdr', json⟩ := checked
    obtain ⟨app'', header, text⟩ := plain
    obtain ⟨happ, hjson, hheader⟩ := hagrees
    dsimp only at happ hjson hheader
    subst happ
    cases hjson with
    | none => exact ⟨none, rfl, .none⟩
    | @some array text hsame =>
      rw [hheader (Option.some_ne_none array)]
      dsimp only
      rw [get_some, ok_bind]
      by_cases hid : header.dataId ≠ channel.dataId
      · rw [if_pos hid, if_pos hid]
        exact ⟨none, rfl, .none⟩
      · rw [if_neg hid, if_neg hid]
        by_cases hallowed : safetyActuatorAllowed app'.safety = false
        · rw [if_pos hallowed, if_pos hallowed]
          exact ⟨none, rfl, .none⟩
        · rw [if_neg hallowed, if_neg hallowed]
          exact ⟨some array, rfl, .some hsame⟩
  · rw [if_neg hlong, if_neg hlong]
    exact ⟨none, rfl, .none⟩

theorem cString_split {text : List Byte} (h : 0 ∈ text) :
    ∃ tail, text = AppZenoh.cString text ++ 0 :: tail := by
  induction text with
  | nil => exact absurd h List.not_mem_nil
  | cons c text ih =>
    by_cases hc : c = 0
    · refine ⟨text, ?_⟩
      rw [AppZenoh.cString, List.takeWhile_cons_of_neg (by simp [hc]), hc, List.nil_append]
    · obtain ⟨tail, htail⟩ := ih (List.mem_of_ne_of_mem (Ne.symm hc) h)
      have hcons : AppZenoh.cString (c :: text) = c :: AppZenoh.cString text :=
        List.takeWhile_cons_of_pos (decide_eq_true hc)
      refine ⟨tail, ?_⟩
      rw [hcons, List.cons_append, ← htail]

/-- The JSON array ends where its text does. -/
theorem holds_sameJson {array text : List Byte} (h : SameJson array text) :
    Holds array (AppZenoh.cString text) := by
  obtain ⟨tail, rfl, hzero⟩ := h
  obtain ⟨rest, hrest⟩ := cString_split hzero
  refine ⟨⟨rest ++ tail, ?_⟩, ?_⟩
  · rw [← List.cons_append, ← List.append_assoc, ← hrest]
  · intro c hc
    rw [AppZenoh.cString] at hc
    simpa using List.mem_takeWhile_imp hc

theorem commandState_ok {array text : List Byte} (h : SameJson array text) :
    commandState memory array = .ok (AppZenoh.commandState text) := by
  have hkey : ∀ c ∈ ascii "state", c ≠ 0 := by decide
  obtain ⟨found, hfound, hrel⟩ := jsonGetString_ok memory.locals.search.val array (ascii "state")
    memory.locals.state.val stateSize (holds_sameJson h) memory.locals.search.property
    memory.locals.state.property (by decide) hkey (by decide)
  rw [commandState, hfound, ok_bind, AppZenoh.commandState]
  generalize AppZenoh.jsonGetString (AppZenoh.cString text) (ascii "state") stateSize = value
    at hrel ⊢
  cases hrel with
  | none => rfl
  | some hstate =>
    dsimp only
    rw [hstate.cString_ok]
    rfl

/-- For every message, key, state of the node and contents of the memory the handlers make only accesses
inside their arrays, subtract without wrapping and read no variable before it is set, and do what they
do over lists. -/
theorem handler_in_bounds :
    handler memory app channel raw tick = .ok (NodeActuators.handler app channel raw hdr tick) := by
  obtain ⟨json, hcommand, hrel⟩ := secureCommand_ok memory app raw hdr channel tick
  cases channel with
  | headlight =>
    rw [handler, headlightHandler, hcommand, ok_bind, NodeActuators.handler, AppZenoh.headlightHandler]
    generalize AppZenoh.secureCommand app raw hdr .headlight tick = command at hrel ⊢
    obtain ⟨app', text⟩ := command
    dsimp only at hrel ⊢
    cases hrel with
    | none => rfl
    | some hsame =>
      dsimp only
      rw [commandState_ok memory hsame, ok_bind]
      split
      · rfl
      · split <;> rfl
  | hazard =>
    rw [handler, hazardHandler, hcommand, ok_bind, NodeActuators.handler, AppZenoh.hazardHandler]
    generalize AppZenoh.secureCommand app raw hdr .hazard tick = command at hrel ⊢
    obtain ⟨app', text⟩ := command
    dsimp only at hrel ⊢
    cases hrel with
    | none => rfl
    | some hsame =>
      dsimp only
      rw [commandState_ok memory hsame, ok_bind]
      split
      · rfl
      · split <;> rfl

end Handlers

end Genoh.CheckedReceive
