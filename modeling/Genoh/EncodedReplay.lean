import Genoh.MasterReplay
import Genoh.PayloadStack

/-!
# Replays of encoded messages

`encode_secoc` draws the freshness value of each message from a new counter, so the values
increase only from one millisecond to the next, and `decode_secoc` passes no last value to
`secoc_decode` at all.
-/
namespace Genoh.EncodedReplay

open Genoh.Bytes Genoh.Run Genoh.ReplayGuard Genoh.E2EWire Genoh.SecOCWire Genoh.MasterE2E
open Genoh.MasterSecOC Genoh.MasterPayloads Genoh.PayloadStack Genoh.MasterReplay

/-! ## A new counter for every message -/

/-- A call of `encode_secoc`, and the clock of the receiver that gets the message. -/
structure Delivery (Value : Type) where
  data : Value
  keyExpr : String
  counter : SequenceCounterState
  encoding : String
  sentMs : Nat
  receivedMs : Nat

/-- The empty dictionary from the front left thermometer. -/
def emptyMessage (sentMs receivedMs : Nat) : Delivery Unit :=
  ⟨(), "vehicle/front_left/1/sensor/temperature", {}, encodingJson, sentMs, receivedMs⟩

section Stack

variable {Value : Type} (codecs : Codecs Value) (key : List Byte)

/-- What the call puts on the wire. -/
def wire (d : Delivery Value) : Except PayloadError (List Byte) :=
  (encodeSecoc codecs d.data d.keyExpr d.counter key d.encoding d.sentMs).1

/-- The header can hold the message and the clock fits its field: `encode_secoc` does not raise. -/
def sends (d : Delivery Value) : Bool :=
  match encode codecs d.data d.encoding, resolveDataId d.keyExpr with
  | .ok payload, .ok dataId =>
    decide (Fits dataId payload d.counter) && decide (d.sentMs < 256 ^ 6)
  | _, _ => false

/-- The freshness value of the message, the first one of its counter. -/
def freshness (d : Delivery Value) : FreshnessValue := ⟨d.sentMs, firstCounter d.sentMs⟩

theorem wire_of_sends {d : Delivery Value} (h : sends codecs d = true) :
    d.sentMs < 256 ^ 6 ∧ ∃ payload dataId, encode codecs d.data d.encoding = .ok payload ∧
      Fits dataId payload d.counter ∧ wire codecs key d = .ok (secured key
        (frame dataId d.counter.currentSeq d.counter.aliveCounter payload) d.sentMs
        (firstCounter d.sentMs)) := by
  unfold sends at h
  split at h
  · rename_i payload dataId hencode hid
    obtain ⟨hfits, hts⟩ := Bool.and_eq_true_iff.mp h
    have hfits := of_decide_eq_true hfits
    have hts := of_decide_eq_true hts
    refine ⟨hts, payload, dataId, hencode, hfits, ?_⟩
    exact (encodeSecoc_ok_iff codecs key d.data d.keyExpr d.counter d.encoding d.sentMs _).mpr
      ⟨payload, dataId, hencode, hid, hfits, hts, rfl⟩
  · cases h

theorem sends_of_wire {d : Delivery Value} {bytes : List Byte} (h : wire codecs key d = .ok bytes) :
    sends codecs d = true := by
  obtain ⟨payload, dataId, hencode, hid, hfits, hts, -⟩ :=
    (encodeSecoc_ok_iff codecs key d.data d.keyExpr d.counter d.encoding d.sentMs bytes).mp h
  simp only [sends, hencode, hid, hfits, hts, decide_true, Bool.and_self]

/-- `secoc_decode` at a receiver that remembers the last accepted freshness value. -/
def check (last : Option FreshnessValue) (d : Delivery Value) (bytes : List Byte) :
    Except PyError (List Byte × FreshnessValue × Bool) :=
  secocDecode key bytes last freshnessWindowMs d.receivedMs

def receiver (last : Option FreshnessValue) (d : Delivery Value) : Option FreshnessValue :=
  match wire codecs key d with
  | .error _ => last
  | .ok bytes =>
    match check key last d bytes with
    | .ok (_, fv, true) => some fv
    | _ => last

/-- The message of the call, if there is one, is accepted. -/
def Accepted (last : Option FreshnessValue) (d : Delivery Value) : Prop :=
  ∀ bytes, wire codecs key d = .ok bytes → isValid (check key last d bytes) = true

/-- The message is received at once. -/
def Prompt (d : Delivery Value) : Prop :=
  ((d.sentMs : Int) - d.receivedMs).natAbs ≤ freshnessWindowMs

instance (d : Delivery Value) : Decidable (Prompt d) := inferInstanceAs (Decidable (_ ≤ _))

def seen (d : Delivery Value) : Option FreshnessValue :=
  if sends codecs d then some (freshness d) else none

/-- Only the freshness value decides about a message received at once. -/
theorem check_prompt (last : Option FreshnessValue) {d : Delivery Value} (hprompt : Prompt d)
    (hsends : sends codecs d = true) :
    ∃ bytes data, wire codecs key d = .ok bytes ∧
      check key last d bytes = .ok (data, freshness d, decide (Passes last (freshness d))) := by
  obtain ⟨hts, payload, dataId, -, -, hwire⟩ := wire_of_sends codecs key hsends
  have hcheck := secocDecode_secured key (frame dataId d.counter.currentSeq d.counter.aliveCounter
    payload) (freshness d) last freshnessWindowMs d.receivedMs hts (firstCounter_lt d.sentMs)
  have hwindow : (((freshness d).timestampMs : Int) - d.receivedMs).natAbs ≤ freshnessWindowMs :=
    hprompt
  simp only [hwindow, and_true] at hcheck
  exact ⟨_, _, hwire, hcheck⟩

theorem receiver_moves (last : Option FreshnessValue) (d : Delivery Value) (hprompt : Prompt d) :
    receiver codecs key last d = (seen codecs d).elim last (remember last) := by
  cases hsends : sends codecs d with
  | false =>
    have hraised : ∃ error, wire codecs key d = .error error := by
      cases hwire : wire codecs key d with
      | error error => exact ⟨error, rfl⟩
      | ok bytes => rw [sends_of_wire codecs key hwire] at hsends; cases hsends
    obtain ⟨error, hwire⟩ := hraised
    simp [receiver, hwire, seen, hsends]
  | true =>
    obtain ⟨bytes, data, hwire, hcheck⟩ := check_prompt codecs key last hprompt hsends
    simp only [receiver, hwire, hcheck, seen, hsends, if_true, Option.elim_some, remember]
    by_cases hpasses : Passes last (freshness d)
    · simp [hpasses]
    · simp [hpasses]

theorem accepted_iff (last : Option FreshnessValue) (d : Delivery Value) (hprompt : Prompt d) :
    Accepted codecs key last d ↔ ∀ fv ∈ seen codecs d, Passes last fv := by
  cases hsends : sends codecs d with
  | false =>
    refine iff_of_true (fun bytes hwire => ?_) (by simp [seen, hsends])
    rw [sends_of_wire codecs key hwire] at hsends
    cases hsends
  | true =>
    obtain ⟨bytes, data, hwire, hcheck⟩ := check_prompt codecs key last hprompt hsends
    simp [Accepted, hwire, hcheck, seen, hsends, isValid]

/-- First values of counters are ordered by their milliseconds alone. -/
theorem freshness_lt_iff (a b : Delivery Value) :
    freshness a < freshness b ↔ a.sentMs < b.sentMs := by
  rw [lt_iff]
  constructor
  · rintro (hlt | ⟨heq, hctr⟩)
    · exact hlt
    · have heq : a.sentMs = b.sentMs := heq
      simp only [freshness, heq, lt_self_iff_false] at hctr
  · exact .inl

/-- All messages are accepted exactly when each is sent in a later millisecond than the one
before it. -/
theorem stream_accepted (deliveries : List (Delivery Value)) (hprompt : ∀ d ∈ deliveries, Prompt d) :
    Always (receiver codecs key) none (Accepted codecs key) deliveries ↔
      ((deliveries.filter (sends codecs)).map Delivery.sentMs).Pairwise (· < ·) := by
  have hseen : deliveries.filterMap (seen codecs) =
      (deliveries.filter (sends codecs)).map freshness := by
    rw [← List.filterMap_eq_map, List.filterMap_filter]
    rfl
  rw [always_filterMap (receiver_moves codecs key) (accepted_iff codecs key) none deliveries hprompt,
    always_passes_iff, hseen, List.pairwise_map, List.pairwise_map]
  simp only [passes_none, implies_true, true_and, freshness_lt_iff]

/-- With a clock that does not go back, all messages of a sequence of `encode_secoc` calls are
accepted, in order and at once, exactly when no two of them are sent in one millisecond. -/
theorem stream_accepted_iff (deliveries : List (Delivery Value))
    (hclock : (deliveries.map Delivery.sentMs).Pairwise (· ≤ ·))
    (hprompt : ∀ d ∈ deliveries, Prompt d) :
    Always (receiver codecs key) none (Accepted codecs key) deliveries ↔
      ((deliveries.filter (sends codecs)).map Delivery.sentMs).Nodup := by
  have hsorted : ((deliveries.filter (sends codecs)).map Delivery.sentMs).Pairwise (· ≤ ·) :=
    hclock.sublist (List.filter_sublist.map _)
  rw [stream_accepted codecs key deliveries hprompt]
  constructor
  · exact List.Pairwise.imp ne_of_lt
  · exact List.Pairwise.imp₂ (fun _ _ => lt_of_le_of_ne) hsorted

theorem stream_accepted_iff_two :
    Always (receiver emptyDict (List.replicate 32 0)) none
        (Accepted emptyDict (List.replicate 32 0))
        [emptyMessage 1700000000000 1700000000000, emptyMessage 1700000000001 1700000000001] ↔
      (([emptyMessage 1700000000000 1700000000000,
        emptyMessage 1700000000001 1700000000001].filter (sends emptyDict)).map
          Delivery.sentMs).Nodup :=
  stream_accepted_iff emptyDict (List.replicate 32 0) _ (by decide) (by decide)

/-- Of two messages in one millisecond the second one is rejected. -/
theorem burst_rejected :
    ¬ Always (receiver emptyDict (List.replicate 32 0)) none
      (Accepted emptyDict (List.replicate 32 0))
      [emptyMessage 1700000000000 1700000000000, emptyMessage 1700000000000 1700000000000] := by
  rw [stream_accepted emptyDict (List.replicate 32 0) _ (by decide)]
  decide +kernel

/-! ## No freshness value at all -/

/-- `decode_secoc` without an encoding reports the message of the call valid. -/
def ReportedValid (d : Delivery Value) : Prop :=
  ∃ bytes data header, wire codecs key d = .ok bytes ∧
    decodeSecoc codecs bytes key none d.receivedMs = .ok (data, header, true, true)

/-- The message arrives in the window, with a payload that can be read without an encoding. -/
def Readable (d : Delivery Value) : Prop :=
  ((d.sentMs : Int) - d.receivedMs).natAbs ≤ decodeWindowMs ∧
    ∃ payload data, encode codecs d.data d.encoding = .ok payload ∧
      decode codecs payload none = .ok data

theorem reportedValid_iff (d : Delivery Value) (h : sends codecs d = true) :
    ReportedValid codecs key d ↔ Readable codecs d := by
  obtain ⟨hts, payload, dataId, hencode, hfits, hwire⟩ := wire_of_sends codecs key h
  obtain ⟨header, -, -, -, hdecode⟩ := decodeSecoc_secured codecs key dataId d.counter.currentSeq
    d.counter.aliveCounter d.sentMs (firstCounter d.sentMs) payload none d.receivedMs hfits.dataId
    hfits.seq hfits.alive hts (firstCounter_lt d.sentMs)
  constructor
  · rintro ⟨bytes, data, header', hbytes, hvalid⟩
    rw [hwire, Except.ok.injEq] at hbytes
    rw [← hbytes, hdecode] at hvalid
    split at hvalid
    · rename_i hwindow
      cases hread : decode codecs payload none with
      | error error =>
        rw [hread] at hvalid
        cases hvalid
      | ok value => exact ⟨hwindow, payload, value, hencode, hread⟩
    · cases hvalid
  · rintro ⟨hwindow, payload', value, hencode', hread⟩
    rw [hencode, Except.ok.injEq] at hencode'
    refine ⟨_, some value, some header, hwire, ?_⟩
    rw [hdecode, if_pos hwindow, hencode', hread]
    rfl

/-- No wire message is reported valid twice exactly when none is delivered twice in its window
with a readable payload: deliveries in any order, with any losses and repetitions. -/
theorem replays_rejected_iff (deliveries : List (Delivery Value))
    (hsent : ∀ d ∈ deliveries, ∃ bytes, wire codecs key d = .ok bytes) :
    deliveries.Pairwise (fun a b => wire codecs key a = wire codecs key b →
        ¬ (ReportedValid codecs key a ∧ ReportedValid codecs key b)) ↔
      deliveries.Pairwise (fun a b => wire codecs key a = wire codecs key b →
        ¬ (Readable codecs a ∧ Readable codecs b)) := by
  have hreported : ∀ d ∈ deliveries, ReportedValid codecs key d ↔ Readable codecs d := by
    intro d hd
    obtain ⟨bytes, hwire⟩ := hsent d hd
    exact reportedValid_iff codecs key d (sends_of_wire codecs key hwire)
  refine List.Pairwise.iff_of_mem fun {a b} ha hb => ?_
  rw [hreported a ha, hreported b hb]

/-- The empty dictionary, delivered one and two seconds after it was sent. -/
def replayed : List (Delivery Unit) :=
  [emptyMessage 1700000000000 1700000001000, emptyMessage 1700000000000 1700000002000]

theorem replayed_sends : ∀ d ∈ replayed, sends emptyDict d = true := by
  decide +kernel

theorem replays_rejected_iff_replayed :
    replayed.Pairwise (fun a b => wire emptyDict (List.replicate 32 0) a =
        wire emptyDict (List.replicate 32 0) b →
        ¬ (ReportedValid emptyDict (List.replicate 32 0) a ∧
          ReportedValid emptyDict (List.replicate 32 0) b)) ↔
      replayed.Pairwise (fun a b => wire emptyDict (List.replicate 32 0) a =
        wire emptyDict (List.replicate 32 0) b → ¬ (Readable emptyDict a ∧ Readable emptyDict b)) :=
  replays_rejected_iff emptyDict (List.replicate 32 0) replayed fun d hd => by
    obtain ⟨-, payload, dataId, -, -, hwire⟩ :=
      wire_of_sends emptyDict (List.replicate 32 0) (replayed_sends d hd)
    exact ⟨_, hwire⟩

/-- Both deliveries are reported valid. -/
theorem replay_reported_twice :
    ¬ replayed.Pairwise (fun a b => wire emptyDict (List.replicate 32 0) a =
        wire emptyDict (List.replicate 32 0) b →
        ¬ (ReportedValid emptyDict (List.replicate 32 0) a ∧
          ReportedValid emptyDict (List.replicate 32 0) b)) := by
  intro h
  have hboth : ∀ d ∈ replayed, ReportedValid emptyDict (List.replicate 32 0) d := by
    intro d hd
    rw [reportedValid_iff emptyDict (List.replicate 32 0) d (replayed_sends d hd)]
    have hread : decode emptyDict (utf8 "\x7b\x7d") none = .ok () := by
      rw [decode, if_neg (by decide), if_neg (by decide), detect, ofUtf8_utf8]
      rfl
    simp only [replayed, List.mem_cons, List.not_mem_nil, or_false] at hd
    obtain rfl | rfl := hd
    · exact ⟨by decide, utf8 "\x7b\x7d", (), rfl, hread⟩
    · exact ⟨by decide, utf8 "\x7b\x7d", (), rfl, hread⟩
  obtain ⟨hfirst, -⟩ := List.pairwise_cons.mp h
  have hone := hboth (emptyMessage 1700000000000 1700000001000) (by simp [replayed])
  have htwo := hboth (emptyMessage 1700000000000 1700000002000) (by simp [replayed])
  exact hfirst _ (List.mem_singleton_self _) rfl ⟨hone, htwo⟩

end Stack

end Genoh.EncodedReplay
