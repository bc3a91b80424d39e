import Genoh.E2EInterop
import Genoh.MasterPayloads
import Genoh.SecOCInterop

/-!
# The protected payload, there and back

What `encode_secoc` puts on the wire, exactly when it raises instead, and what
`decode_secoc` makes of such a message inside and outside its window.
-/
namespace Genoh.PayloadStack

open Genoh.Bytes Genoh.E2EWire Genoh.SecOCWire Genoh.MasterE2E Genoh.MasterSecOC Genoh.MasterPayloads

/-! ## E2E -/

theorem structPack_fits {fields : List (Nat × Nat)} {bytes : List Byte}
    (h : structPack fields = .ok bytes) : ∀ f ∈ fields, f.2 < 256 ^ f.1 := by
  induction fields generalizing bytes with
  | nil => exact fun f hf => absurd hf List.not_mem_nil
  | cons field fields ih =>
    obtain ⟨n, v⟩ := field
    rw [structPack] at h
    split at h
    · rename_i hv
      cases hrest : structPack fields with
      | error error => simp [hrest, Except.map] at h
      | ok rest =>
        intro f hf
        obtain rfl | hf := List.mem_cons.mp hf
        · exact hv
        · exact ih hrest f hf
    · cases h

/-- The header has room for what `e2e_encode` writes into it. -/
structure Fits (dataId : Nat) (payload : List Byte) (counter : SequenceCounterState) : Prop where
  dataId : dataId < 65536
  seq : counter.currentSeq < 65536
  alive : counter.aliveCounter < 256
  length : payload.length < 65536

theorem fits_iff (dataId : Nat) (payload : List Byte) (counter : SequenceCounterState) :
    Fits dataId payload counter ↔ dataId < 65536 ∧ counter.currentSeq < 65536 ∧
      counter.aliveCounter < 256 ∧ payload.length < 65536 :=
  ⟨fun h => ⟨h.dataId, h.seq, h.alive, h.length⟩, fun ⟨hid, hseq, halive, hlen⟩ =>
    ⟨hid, hseq, halive, hlen⟩⟩

instance (dataId : Nat) (payload : List Byte) (counter : SequenceCounterState) :
    Decidable (Fits dataId payload counter) :=
  decidable_of_iff _ (fits_iff dataId payload counter).symm

/-- `e2e_encode` raises exactly when a field of the header overflows. -/
theorem e2eEncode_ok_iff (dataId : Nat) (payload : List Byte) (counter : SequenceCounterState)
    (message : List Byte) :
    (e2eEncode dataId payload counter).1 = .ok message ↔ Fits dataId payload counter ∧
      message = frame dataId counter.currentSeq counter.aliveCounter payload := by
  constructor
  · intro h
    have hfits : Fits dataId payload counter := by
      cases hpack : structPack [(2, dataId), (2, counter.currentSeq), (1, counter.aliveCounter),
          (2, payload.length)] with
      | error error =>
        simp [e2eEncode, SequenceCounterState.next, computeE2eCrc, hpack, Except.map, bind,
          Except.bind] at h
      | ok bytes =>
        have hall := structPack_fits hpack
        simp only [List.mem_cons, List.not_mem_nil, or_false, forall_eq_or_imp, forall_eq] at hall
        obtain ⟨hid, hseq, halive, hlen⟩ := hall
        exact ⟨hid, hseq, halive, hlen⟩
    rw [E2EInterop.master_encode dataId payload counter hfits.dataId hfits.seq hfits.alive
      hfits.length] at h
    exact ⟨hfits, (Except.ok.inj h).symm⟩
  · rintro ⟨hfits, rfl⟩
    rw [E2EInterop.master_encode dataId payload counter hfits.dataId hfits.seq hfits.alive
      hfits.length]

/-! ## SecOC -/

theorem toBytes_error {fv : FreshnessValue}
    (h : ¬ (fv.timestampMs < 256 ^ 6 ∧ fv.counter < 256 ^ 2)) :
    fv.toBytes = .error .overflowError := by
  by_cases hts : fv.timestampMs < 256 ^ 6
  · have hctr : ¬ fv.counter < 256 ^ 2 := fun hctr => h ⟨hts, hctr⟩
    simp only [FreshnessValue.toBytes, intToBytes, if_pos hts, if_neg hctr]
    rfl
  · simp only [FreshnessValue.toBytes, intToBytes, if_neg hts]
    rfl

/-- A message is sealed exactly when its freshness value fits its eight bytes. -/
theorem secocSeal_ok_iff (key data : List Byte) (fv : FreshnessValue) (message : List Byte) :
    secocSeal key data fv = .ok message ↔ (fv.timestampMs < 256 ^ 6 ∧ fv.counter < 256 ^ 2) ∧
      message = secured key data fv.timestampMs fv.counter := by
  by_cases hfits : fv.timestampMs < 256 ^ 6 ∧ fv.counter < 256 ^ 2
  · rw [SecOCInterop.master_seal key data fv.timestampMs fv.counter hfits.1 hfits.2,
      Except.ok.injEq, eq_comm]
    exact (and_iff_right hfits).symm
  · have herror : secocSeal key data fv = .error .overflowError := by
      rw [secocSeal, computeMac, toBytes_error hfits]
      rfl
    rw [herror]
    exact iff_of_false (by simp) fun h => hfits h.1

/-- The counter of a freshness value drawn from a new `FreshnessCounter`, whose last
timestamp is zero. -/
def firstCounter (nowMs : Nat) : Nat := if nowMs = 0 then 1 else 0

theorem firstCounter_lt (nowMs : Nat) : firstCounter nowMs < 256 ^ 2 := by
  unfold firstCounter
  split <;> decide

theorem next_new (nowMs : Nat) :
    (({} : FreshnessCounter).next nowMs).1 = ⟨nowMs, firstCounter nowMs⟩ := by
  unfold firstCounter FreshnessCounter.next
  dsimp only
  split <;> rfl

section Stack

variable {Value : Type} (codecs : Codecs Value) (key : List Byte)

/-- `encode_secoc` raises exactly when the codec or the key expression makes it, a header
field overflows, or the clock is past 48 bits. -/
theorem encodeSecoc_ok_iff (data : Value) (keyExpr : String) (counter : SequenceCounterState)
    (encoding : String) (nowMs : Nat) (wire : List Byte) :
    (encodeSecoc codecs data keyExpr counter key encoding nowMs).1 = .ok wire ↔
      ∃ payload dataId, encode codecs data encoding = .ok payload ∧
        resolveDataId keyExpr = .ok dataId ∧ Fits dataId payload counter ∧ nowMs < 256 ^ 6 ∧
        wire = secured key (frame dataId counter.currentSeq counter.aliveCounter payload) nowMs
          (firstCounter nowMs) := by
  constructor
  · intro h
    cases hencode : encode codecs data encoding with
    | error error => simp [encodeSecoc, encodeE2e, hencode] at h
    | ok payload =>
      cases hid : resolveDataId keyExpr with
      | error error => simp [encodeSecoc, encodeE2e, hencode, hid] at h
      | ok dataId =>
        cases he2e : (e2eEncode dataId payload counter).1 with
        | error error => simp [encodeSecoc, encodeE2e, hencode, hid, he2e, Except.mapError] at h
        | ok message =>
          obtain ⟨hfits, rfl⟩ := (e2eEncode_ok_iff dataId payload counter message).mp he2e
          simp only [encodeSecoc, encodeE2e, hencode, hid, he2e, Except.mapError, secocEncode,
            next_new] at h
          split at h
          · cases h
          · rename_i hseal
            cases h
            obtain ⟨⟨hts, -⟩, hwire⟩ := (secocSeal_ok_iff _ _ _ _).mp hseal
            exact ⟨payload, dataId, rfl, rfl, hfits, hts, hwire⟩
  · rintro ⟨payload, dataId, hencode, hid, hfits, hts, rfl⟩
    have he2e := (e2eEncode_ok_iff dataId payload counter _).mpr ⟨hfits, rfl⟩
    have hseal := (secocSeal_ok_iff key
      (frame dataId counter.currentSeq counter.aliveCounter payload)
      ⟨nowMs, firstCounter nowMs⟩ _).mpr ⟨⟨hts, firstCounter_lt nowMs⟩, rfl⟩
    simp only [encodeSecoc, encodeE2e, hencode, hid, he2e, Except.mapError, secocEncode, next_new,
      hseal]

/-- A message under its own MAC: lost outside the window, else the header is read, the CRC
holds and the payload goes to the codec. -/
theorem decodeSecoc_secured (dataId seq alive ts ctr : Nat) (payload : List Byte)
    (encoding : Option String) (nowMs : Nat) (hid : dataId < 65536) (hseq : seq < 65536)
    (halive : alive < 256) (hts : ts < 256 ^ 6) (hctr : ctr < 256 ^ 2) :
    ∃ header : E2EHeader, header.dataId = dataId ∧ header.sequenceCounter = seq ∧
      header.aliveCounter = alive ∧
      decodeSecoc codecs (secured key (frame dataId seq alive payload) ts ctr) key encoding nowMs =
        if ((ts : Int) - nowMs).natAbs ≤ decodeWindowMs then
          (decode codecs payload encoding).map fun data => (some data, some header, true, true)
        else .ok (none, none, false, false) := by
  have hmac := secured_macHolds key (frame dataId seq alive payload) ts ctr hts hctr
  have hsecoc := SecOCInterop.master_decode key _ decodeWindowMs nowMs (by simp) hmac
  rw [secured_body, secured_timestamp _ _ _ _ hts] at hsecoc
  obtain ⟨header, hdecode, hdataId, hseq', halive', hverify⟩ :=
    E2EInterop.master_decode_frame dataId seq alive payload hid hseq halive
  have hnonempty : frame dataId seq alive payload ≠ [] := by
    intro hempty
    have hlen := frame_length dataId seq alive payload
    rw [hempty, List.length_nil] at hlen
    omega
  refine ⟨header, hdataId, hseq', halive', ?_⟩
  simp only [decodeSecoc, hsecoc, bind, Except.bind, Except.mapError]
  by_cases hwindow : ((ts : Int) - nowMs).natAbs ≤ decodeWindowMs
  · simp only [hwindow, decide_true, hnonempty, Bool.true_eq_false, or_self, if_false, if_true,
      decodeE2e, hdecode, hverify, Except.mapError, bind, Except.bind]
    cases decode codecs payload encoding <;> rfl
  · simp only [hwindow, decide_false, true_or, if_true, if_false]
    rfl

/-! ## Round trip -/

/-- The codec of the encoding reads back what it writes for the document. -/
def RoundTrips (data : Value) (encoding : String) : Prop :=
  if encoding = encodingCbor then
    ∃ raw, codecs.cborDumps data = .ok raw ∧ codecs.cborLoads raw = .ok data
  else ∃ text, codecs.jsonDumps data = .ok text ∧ codecs.jsonLoads text = .ok data

theorem decode_encode (data : Value) (encoding : String)
    (hencoding : encoding = encodingJson ∨ encoding = encodingCbor)
    (h : RoundTrips codecs data encoding) (payload : List Byte)
    (hencode : encode codecs data encoding = .ok payload) :
    decode codecs payload (some encoding) = .ok data := by
  obtain rfl | rfl := hencoding
  · obtain ⟨text, hdumps, hloads⟩ := h
    rw [encode, if_neg (by decide), encodeJson, hdumps] at hencode
    cases hencode
    rw [decode, if_neg (by decide), if_pos rfl, decodeJson, ofUtf8_utf8]
    exact hloads
  · obtain ⟨raw, hdumps, hloads⟩ := h
    rw [encode, if_pos rfl, hdumps] at hencode
    cases hencode
    rw [decode, if_pos rfl, hloads]

/-- The counters are those of a transmitter: 16 and 8 bits wide. -/
def InRange (counter : SequenceCounterState) : Prop :=
  counter.currentSeq < 65536 ∧ counter.aliveCounter < 256

theorem encodeSecoc_counter (data : Value) (keyExpr : String) (counter : SequenceCounterState)
    (encoding : String) (nowMs : Nat) (payload : List Byte) (dataId : Nat)
    (hencode : encode codecs data encoding = .ok payload)
    (hid : resolveDataId keyExpr = .ok dataId) :
    (encodeSecoc codecs data keyExpr counter key encoding nowMs).2 = counter.next.2 := by
  have hcounter : (e2eEncode dataId payload counter).2 = counter.next.2 := rfl
  simp only [encodeSecoc, encodeE2e, hencode, hid]
  cases (e2eEncode dataId payload counter).1 <;> exact hcounter

/-- Within ten seconds the document comes back with its data id and the counters it was sent with, both
checks hold, and the counters have moved on once. -/
theorem secoc_round_trip (data : Value) (keyExpr : String) (counter : SequenceCounterState)
    (encoding : String) (sentMs nowMs dataId : Nat) (payload : List Byte)
    (hencoding : encoding = encodingJson ∨ encoding = encodingCbor)
    (hcodec : RoundTrips codecs data encoding)
    (hencode : encode codecs data encoding = .ok payload) (hlength : payload.length ≤ 65535)
    (hid : resolveDataId keyExpr = .ok dataId) (hcounter : InRange counter)
    (hclock : sentMs < 2 ^ 48) (hwindow : ((sentMs : Int) - nowMs).natAbs ≤ 10000) :
    ∃ wire header, (encodeSecoc codecs data keyExpr counter key encoding sentMs).1 = .ok wire ∧
      decodeSecoc codecs wire key (some encoding) nowMs =
        .ok (some data, some header, true, true) ∧
      header.dataId = dataId ∧ header.sequenceCounter = counter.currentSeq ∧
      header.aliveCounter = counter.aliveCounter ∧
      (encodeSecoc codecs data keyExpr counter key encoding sentMs).2 = counter.next.2 := by
  have hfits : Fits dataId payload counter :=
    ⟨resolveDataId_lt hid, hcounter.1, hcounter.2, by omega⟩
  obtain ⟨header, hdataId, hseq, halive, hdecode⟩ := decodeSecoc_secured codecs key dataId
    counter.currentSeq counter.aliveCounter sentMs (firstCounter sentMs) payload (some encoding) nowMs
    hfits.dataId hfits.seq hfits.alive hclock (firstCounter_lt sentMs)
  refine ⟨_, header, (encodeSecoc_ok_iff codecs key data keyExpr counter encoding sentMs _).mpr
    ⟨payload, dataId, hencode, hid, hfits, hclock, rfl⟩, ?_, hdataId, hseq, halive, ?_⟩
  · rw [hdecode, decodeWindowMs, if_pos hwindow,
      decode_encode codecs data encoding hencoding hcodec payload hencode]
    rfl
  · exact encodeSecoc_counter codecs key data keyExpr counter encoding sentMs payload dataId hencode hid

end Stack

/-- The codecs where the only document is the empty dictionary. -/
def emptyDict : Codecs Unit where
  jsonDumps _ := .ok "\x7b\x7d"
  jsonLoads text := if text = "\x7b\x7d" then .ok () else .error .jsonDecodeError
  cborDumps _ := .ok [0xA0]
  cborLoads raw := if raw = [0xA0] then .ok () else .error .library

theorem secoc_round_trip_empty_dict :
    ∃ wire header,
      (encodeSecoc emptyDict () "vehicle/front_left/1/sensor/temperature" ⟨65535, 255⟩
        (List.replicate 32 0) encodingJson 1700000000000).1 = .ok wire ∧
      decodeSecoc emptyDict wire (List.replicate 32 0) (some encodingJson) 1700000010000 =
        .ok (some (), some header, true, true) ∧
      header.dataId = 0x1001 ∧ header.sequenceCounter = 65535 ∧ header.aliveCounter = 255 ∧
      (encodeSecoc emptyDict () "vehicle/front_left/1/sensor/temperature" ⟨65535, 255⟩
        (List.replicate 32 0) encodingJson 1700000000000).2 =
          (⟨65535, 255⟩ : SequenceCounterState).next.2 :=
  secoc_round_trip emptyDict (List.replicate 32 0) ()
    "vehicle/front_left/1/sensor/temperature" ⟨65535, 255⟩ encodingJson 1700000000000
    1700000010000 0x1001 (utf8 "\x7b\x7d") (.inl rfl) ⟨_, rfl, rfl⟩ rfl (by decide +kernel)
    (by decide +kernel) ⟨by decide, by decide⟩ (by decide) (by decide)

end Genoh.PayloadStack
