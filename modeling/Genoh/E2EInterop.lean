import Mathlib.Data.List.GetD
import Genoh.FirmwareE2E
import Genoh.MasterE2E
import Genoh.E2EWire

/-!
# Interoperation of the two E2E layers

Both encoders write the frame of the wire format. The decoders differ in one
check: the firmware compares the declared length with the real one, the master
only recomputes the CRC.
-/
namespace Genoh.E2EInterop

open Genoh.Bytes
open Genoh.E2EWire

/-! ## Firmware against the wire format -/

theorem hdrFields_eq (dataId seq : BitVec 16) (alive : BitVec 8) (n : Nat) (h : n < 65536) :
    FirmwareE2E.hdrFields dataId seq alive (BitVec.ofNat 16 n) =
      fields dataId.toNat seq.toNat alive.toNat n := by
  have halive : beBytes 1 alive.toNat = [alive] := by simp [beBytes]
  simp only [FirmwareE2E.hdrFields, FirmwareE2E.putBe16_eq, fields, halive, BitVec.toNat_ofNat,
    List.append_assoc]
  rw [Nat.mod_eq_of_lt h]

theorem firmware_encode (payload : List Byte) (dataId : BitVec 16)
    (c : FirmwareE2E.E2eCounterState) (outBufSize : Nat) (hlen : payload.length ≤ 512)
    (hout : 11 + payload.length ≤ outBufSize) :
    FirmwareE2E.e2eEncode payload dataId c outBufSize =
      (some (frame dataId.toNat c.seq.toNat c.alive.toNat payload), ⟨c.seq + 1, c.alive + 1⟩) := by
  have htotal : ¬ outBufSize < FirmwareE2E.e2eHeaderSize + payload.length := by
    simp only [FirmwareE2E.e2eHeaderSize]
    omega
  have hcrc : ¬ 7 + payload.length > FirmwareE2E.crcInputSize := by
    simp only [FirmwareE2E.crcInputSize]
    omega
  simp only [FirmwareE2E.e2eEncode, if_neg htotal, if_neg hcrc, frame,
    hdrFields_eq _ _ _ _ (show payload.length < 65536 by omega), FirmwareE2E.putBe32_eq,
    FirmwareE2E.e2eCrc32_eq, List.append_assoc]

/-- No room in the caller's buffer: nothing has happened yet. -/
theorem firmware_encode_small (payload : List Byte) (dataId : BitVec 16)
    (c : FirmwareE2E.E2eCounterState) (outBufSize : Nat) (hout : outBufSize < 11 + payload.length) :
    FirmwareE2E.e2eEncode payload dataId c outBufSize = (none, c) := by
  have htotal : outBufSize < FirmwareE2E.e2eHeaderSize + payload.length := hout
  simp only [FirmwareE2E.e2eEncode, if_pos htotal]

/-- No room in the CRC buffer: the counter has moved. -/
theorem firmware_encode_long (payload : List Byte) (dataId : BitVec 16)
    (c : FirmwareE2E.E2eCounterState) (outBufSize : Nat) (hout : 11 + payload.length ≤ outBufSize)
    (hlong : 512 < payload.length) :
    FirmwareE2E.e2eEncode payload dataId c outBufSize = (none, ⟨c.seq + 1, c.alive + 1⟩) := by
  have htotal : ¬ outBufSize < FirmwareE2E.e2eHeaderSize + payload.length := by
    simp only [FirmwareE2E.e2eHeaderSize]
    omega
  have hcrc : 7 + payload.length > FirmwareE2E.crcInputSize := by
    simp only [FirmwareE2E.crcInputSize]
    omega
  simp only [FirmwareE2E.e2eEncode, if_neg htotal, if_pos hcrc]

theorem parseHeader_fields (raw : List Byte) (h : 11 ≤ raw.length) :
    (FirmwareE2E.parseHeader raw).dataId.toNat = field raw 0 2 ∧
    (FirmwareE2E.parseHeader raw).sequenceCounter.toNat = field raw 2 2 ∧
    (FirmwareE2E.parseHeader raw).aliveCounter.toNat = field raw 4 1 ∧
    (FirmwareE2E.parseHeader raw).length.toNat = field raw 5 2 ∧
    (FirmwareE2E.parseHeader raw).crc32.toNat = field raw 7 4 := by
  have hbyte : (raw.drop 4).take 1 = [raw.getD 4 0] := by
    have h4 : 4 < raw.length := by omega
    rw [List.drop_eq_getElem_cons h4, List.take_succ_cons, List.take_zero,
      List.getD_eq_getElem _ _ h4]
  refine ⟨?_, ?_, ?_, ?_, ?_⟩
  · exact FirmwareE2E.getBe16_eq raw (by omega)
  · exact FirmwareE2E.getBe16_eq (raw.drop 2) (by rw [List.length_drop]; omega)
  · simp [field, FirmwareE2E.parseHeader, hbyte, ofBeBytes]
  · exact FirmwareE2E.getBe16_eq (raw.drop 5) (by rw [List.length_drop]; omega)
  · exact FirmwareE2E.getBe32_eq (raw.drop 7) (by rw [List.length_drop]; omega)

/-- The firmware decoder, by what the message says about itself. -/
theorem firmware_decode (raw : List Byte) (header : FirmwareE2E.E2eHeader)
    (hlen : raw.length = 11 + declaredLength raw) (hmax : raw.length ≤ 11 + 512)
    (hcrc : CrcHolds raw) :
    FirmwareE2E.e2eDecode raw header = (.ok, FirmwareE2E.parseHeader raw, raw.drop 11) := by
  obtain ⟨-, -, -, hdecl, hfield⟩ := parseHeader_fields raw (by omega)
  have hn : (FirmwareE2E.parseHeader raw).length.toNat = raw.length - 11 := by
    rw [hdecl, hlen, declaredLength]
    omega
  have hcut : (raw.drop 11).take (raw.length - 11) = raw.drop 11 :=
    List.take_of_length_le (by rw [List.length_drop])
  have hvalue : FirmwareE2E.e2eCrc32 (raw.take 7 ++ raw.drop 11) =
      (FirmwareE2E.parseHeader raw).crc32 := by
    apply BitVec.eq_of_toNat_eq
    rw [FirmwareE2E.e2eCrc32_eq, hfield]
    exact hcrc
  simp only [FirmwareE2E.e2eDecode, FirmwareE2E.e2eHeaderSize, FirmwareE2E.crcInputSize, hn]
  rw [if_neg (by omega), if_neg (by omega), if_neg (by omega), hcut, if_neg (by simp [hvalue])]

/-- Acceptance is exactly: right length, payload of at most 512 bytes, right CRC. -/
theorem firmware_decode_ok_iff (raw : List Byte) (header : FirmwareE2E.E2eHeader) :
    (FirmwareE2E.e2eDecode raw header).1 = .ok ↔
      raw.length = 11 + declaredLength raw ∧ raw.length ≤ 11 + 512 ∧ CrcHolds raw := by
  constructor
  · intro hok
    have hlong : 11 ≤ raw.length := by
      by_contra hshort
      simp [FirmwareE2E.e2eDecode, FirmwareE2E.e2eHeaderSize, show raw.length < 11 by omega] at hok
    obtain ⟨-, -, -, hdecl, hfield⟩ := parseHeader_fields raw hlong
    simp only [FirmwareE2E.e2eDecode, FirmwareE2E.e2eHeaderSize, FirmwareE2E.crcInputSize,
      hdecl] at hok
    rw [if_neg (by omega)] at hok
    split at hok
    · cases hok
    rename_i hlen
    split at hok
    · cases hok
    rename_i hmax
    split at hok
    · cases hok
    rename_i hvalue
    have hn : raw.length - 11 = field raw 5 2 := by omega
    have hcut : (raw.drop 11).take (field raw 5 2) = raw.drop 11 :=
      List.take_of_length_le (by rw [List.length_drop]; omega)
    refine ⟨by rw [declaredLength]; omega, by omega, ?_⟩
    rw [hcut, ne_eq, not_not, FirmwareE2E.e2eCrc32_eq] at hvalue
    rw [CrcHolds, hvalue, hfield]
  · rintro ⟨hlen, hmax, hcrc⟩
    rw [firmware_decode raw header hlen hmax hcrc]

/-! ## Master against the wire format -/

theorem structPack_fields (dataId seq alive length : Nat) (hd : dataId < 65536) (hs : seq < 65536)
    (ha : alive < 256) (hl : length < 65536) :
    MasterE2E.structPack [(2, dataId), (2, seq), (1, alive), (2, length)] =
      .ok (fields dataId seq alive length) := by
  simp [MasterE2E.structPack, fields, hd, hs, ha, hl, Except.map]

theorem structPack_header (dataId seq alive length crc : Nat) (hd : dataId < 65536)
    (hs : seq < 65536) (ha : alive < 256) (hl : length < 65536) (hc : crc < 2 ^ 32) :
    MasterE2E.structPack [(2, dataId), (2, seq), (1, alive), (2, length), (4, crc)] =
      .ok (fields dataId seq alive length ++ beBytes 4 crc) := by
  have hc' : crc < 4294967296 := hc
  simp [MasterE2E.structPack, fields, hd, hs, ha, hl, hc', Except.map]

theorem computeE2eCrc_eq (dataId seq alive length : Nat) (payload : List Byte)
    (hd : dataId < 65536) (hs : seq < 65536) (ha : alive < 256) (hl : length < 65536) :
    MasterE2E.computeE2eCrc dataId seq alive length payload =
      .ok (Crc.crc32 (fields dataId seq alive length ++ payload)).toNat := by
  have hmask : ∀ v : BitVec 32, v.toNat &&& 0xFFFFFFFF = v.toNat := by
    intro v
    rw [show (0xFFFFFFFF : Nat) = 2 ^ 32 - 1 by rfl, Nat.and_two_pow_sub_one_eq_mod,
      Nat.mod_eq_of_lt v.isLt]
  rw [MasterE2E.computeE2eCrc, structPack_fields _ _ _ _ hd hs ha hl]
  simp [Except.map, MasterE2E.binasciiCrc32, hmask]

theorem master_encode (dataId : Nat) (payload : List Byte) (c : MasterE2E.SequenceCounterState)
    (hd : dataId < 65536) (hs : c.currentSeq < 65536) (ha : c.aliveCounter < 256)
    (hl : payload.length < 65536) :
    MasterE2E.e2eEncode dataId payload c =
      (.ok (frame dataId c.currentSeq c.aliveCounter payload), c.next.2) := by
  have hcrc := BitVec.isLt
    (Crc.crc32 (fields dataId c.currentSeq c.aliveCounter payload.length ++ payload))
  simp only [MasterE2E.e2eEncode, MasterE2E.SequenceCounterState.next,
    computeE2eCrc_eq _ _ _ _ _ hd hs ha hl, MasterE2E.E2EHeader.toBytes]
  simp only [bind, Except.bind, structPack_header _ _ _ _ _ hd hs ha hl hcrc, frame,
    List.append_assoc, pure, Except.pure]

/-- The header the master reads from a message that is long enough. -/
def masterHeader (raw : List Byte) : MasterE2E.E2EHeader :=
  ⟨field raw 0 2, field raw 2 2, field raw 4 1, field raw 5 2, field raw 7 4⟩

theorem master_decode (raw : List Byte) (h : 11 ≤ raw.length) :
    MasterE2E.e2eDecode raw = .ok (masterHeader raw, raw.drop 11) := by
  have hfield : ∀ i n, i + n ≤ 11 → field (raw.take 11) i n = field raw i n :=
    fun i n hin => field_take raw 11 i n hin
  simp [MasterE2E.e2eDecode, MasterE2E.E2EHeader.fromBytes, MasterE2E.e2eHeaderSize,
    show ¬ raw.length < 11 by omega, Except.map, masterHeader, hfield]

theorem master_decode_short (raw : List Byte) (h : raw.length < 11) :
    ∃ e, MasterE2E.e2eDecode raw = .error e := by
  simp [MasterE2E.e2eDecode, MasterE2E.E2EHeader.fromBytes, MasterE2E.e2eHeaderSize, h, Except.map]

/-- Verification is the CRC of the wire format, whatever length the header declares. -/
theorem master_verify (raw : List Byte) (h : 11 ≤ raw.length) :
    MasterE2E.e2eVerify (masterHeader raw) (raw.drop 11) = .ok (decide (CrcHolds raw)) := by
  simp only [MasterE2E.e2eVerify, masterHeader]
  rw [computeE2eCrc_eq _ _ _ _ _ (field_lt raw 0 2) (field_lt raw 2 2) (field_lt raw 4 1)
    (field_lt raw 5 2), ← take_seven raw (by omega)]
  simp only [Except.map, CrcHolds, Except.ok.injEq]
  rw [Bool.beq_eq_decide_eq]
  exact decide_eq_decide.mpr eq_comm

/-- A frame comes back as it was sent. -/
theorem master_decode_frame (dataId seq alive : Nat) (payload : List Byte) (hd : dataId < 65536)
    (hs : seq < 65536) (ha : alive < 256) :
    ∃ header, MasterE2E.e2eDecode (frame dataId seq alive payload) = .ok (header, payload) ∧
      header.dataId = dataId ∧ header.sequenceCounter = seq ∧ header.aliveCounter = alive ∧
      MasterE2E.e2eVerify header payload = .ok true := by
  have hlen : 11 ≤ (frame dataId seq alive payload).length := by simp
  refine ⟨masterHeader (frame dataId seq alive payload), ?_, ?_, ?_, ?_, ?_⟩
  · rw [master_decode _ hlen, frame_drop]
  · exact frame_dataId dataId seq alive payload hd
  · exact frame_seq dataId seq alive payload hs
  · exact frame_alive dataId seq alive payload ha
  · have hv := master_verify (frame dataId seq alive payload) hlen
    rwa [frame_drop, decide_eq_true (frame_crcHolds dataId seq alive payload)] at hv

/-! ## The encoders agree -/

/-- Equal counters, as machine words and as Python integers. -/
def SameCounters (c : FirmwareE2E.E2eCounterState) (p : MasterE2E.SequenceCounterState) : Prop :=
  p.currentSeq = c.seq.toNat ∧ p.aliveCounter = c.alive.toNat

/-- Both counters wrap at the same value. -/
theorem next_sameCounters {c : FirmwareE2E.E2eCounterState} {p : MasterE2E.SequenceCounterState}
    (h : SameCounters c p) : SameCounters ⟨c.seq + 1, c.alive + 1⟩ p.next.2 := by
  obtain ⟨hseq, halive⟩ := h
  constructor
  · simp [MasterE2E.SequenceCounterState.next, hseq, BitVec.toNat_add]
  · simp [MasterE2E.SequenceCounterState.next, halive, BitVec.toNat_add]

/-- One call of either encoder; the buffer size is the firmware caller's. -/
structure Message where
  dataId : BitVec 16
  payload : List Byte
  outBufSize : Nat

/-- The payload fits the CRC buffer, the message fits the caller's buffer. -/
def Message.Fits (m : Message) : Prop :=
  m.payload.length ≤ 512 ∧ 11 + m.payload.length ≤ m.outBufSize

instance (m : Message) : Decidable m.Fits := inferInstanceAs (Decidable (_ ∧ _))

def firmwareStream (c : FirmwareE2E.E2eCounterState) :
    List Message → List (Option (List Byte)) × FirmwareE2E.E2eCounterState
  | [] => ([], c)
  | m :: ms =>
    let (out, c) := FirmwareE2E.e2eEncode m.payload m.dataId c m.outBufSize
    let (outs, c) := firmwareStream c ms
    (out :: outs, c)

def masterStream (p : MasterE2E.SequenceCounterState) :
    List Message → List (Except MasterE2E.PyError (List Byte)) × MasterE2E.SequenceCounterState
  | [] => ([], p)
  | m :: ms =>
    let (out, p) := MasterE2E.e2eEncode m.dataId.toNat m.payload p
    let (outs, p) := masterStream p ms
    (out :: outs, p)

/-- One message: the same bytes, and equal counters again. -/
theorem encode_agree (m : Message) (hm : m.Fits) {c : FirmwareE2E.E2eCounterState}
    {p : MasterE2E.SequenceCounterState} (h : SameCounters c p) :
    ∃ bytes, (FirmwareE2E.e2eEncode m.payload m.dataId c m.outBufSize).1 = some bytes ∧
      (MasterE2E.e2eEncode m.dataId.toNat m.payload p).1 = .ok bytes ∧
      SameCounters (FirmwareE2E.e2eEncode m.payload m.dataId c m.outBufSize).2
        (MasterE2E.e2eEncode m.dataId.toNat m.payload p).2 := by
  obtain ⟨hlen, hout⟩ := hm
  have hnext := next_sameCounters h
  obtain ⟨hseq, halive⟩ := h
  have hs : p.currentSeq < 65536 := by rw [hseq]; exact c.seq.isLt
  have ha : p.aliveCounter < 256 := by rw [halive]; exact c.alive.isLt
  rw [firmware_encode m.payload m.dataId c m.outBufSize hlen hout,
    master_encode m.dataId.toNat m.payload p m.dataId.isLt hs ha (by omega), hseq, halive]
  exact ⟨_, rfl, rfl, hnext⟩

/-- On every run of messages that fit, from equal counters, the firmware and the master emit the same
bytes and end with equal counters. -/
theorem encoders_same_stream (ms : List Message) (hfit : ∀ m ∈ ms, m.Fits)
    (c : FirmwareE2E.E2eCounterState) (p : MasterE2E.SequenceCounterState)
    (h : SameCounters c p) :
    ∃ stream : List (List Byte), (firmwareStream c ms).1 = stream.map some ∧
      (masterStream p ms).1 = stream.map .ok ∧
      SameCounters (firmwareStream c ms).2 (masterStream p ms).2 := by
  induction ms generalizing c p with
  | nil => exact ⟨[], rfl, rfl, h⟩
  | cons m ms ih =>
    obtain ⟨bytes, hf, hp, hnext⟩ := encode_agree m (hfit m (by simp)) h
    obtain ⟨stream, hfs, hps, hend⟩ := ih (fun m hm => hfit m (by simp [hm])) _ _ hnext
    exact ⟨bytes :: stream, by simp [firmwareStream, hf, hfs], by simp [masterStream, hp, hps], hend⟩

/-- The run that takes both counters over their wraps. -/
theorem encoders_same_stream_wrap :
    ∃ stream : List (List Byte),
      (firmwareStream ⟨65535, 255⟩ [⟨0x1010, [1, 2], 13⟩, ⟨0x1010, [], 300⟩]).1 = stream.map some ∧
      (masterStream ⟨65535, 255⟩ [⟨0x1010, [1, 2], 13⟩, ⟨0x1010, [], 300⟩]).1 = stream.map .ok ∧
      SameCounters (firmwareStream ⟨65535, 255⟩ [⟨0x1010, [1, 2], 13⟩, ⟨0x1010, [], 300⟩]).2
        (masterStream ⟨65535, 255⟩ [⟨0x1010, [1, 2], 13⟩, ⟨0x1010, [], 300⟩]).2 :=
  encoders_same_stream _ (by decide) _ _ ⟨rfl, rfl⟩

/-! ## The decoders -/

def FirmwareAccepts (raw : List Byte) (header : FirmwareE2E.E2eHeader) : Prop :=
  (FirmwareE2E.e2eDecode raw header).1 = .ok

/-- The master accepts with this header and payload: nothing is raised and the CRC verifies. -/
def MasterAccepts (raw : List Byte) (header : MasterE2E.E2EHeader) (payload : List Byte) : Prop :=
  MasterE2E.e2eDecode raw = .ok (header, payload) ∧ MasterE2E.e2eVerify header payload = .ok true

def SameHeader (f : FirmwareE2E.E2eHeader) (m : MasterE2E.E2EHeader) : Prop :=
  m.dataId = f.dataId.toNat ∧ m.sequenceCounter = f.sequenceCounter.toNat ∧
    m.aliveCounter = f.aliveCounter.toNat ∧ m.length = f.length.toNat ∧ m.crc32 = f.crc32.toNat

/-- Both decoders accept the message or neither does, and then with the same fields and payload.
`header` is what the firmware caller's header held before the call. -/
def DecodersAgree (raw : List Byte) (header : FirmwareE2E.E2eHeader) : Prop :=
  (FirmwareAccepts raw header ↔ ∃ h p, MasterAccepts raw h p) ∧
    ∀ h p, MasterAccepts raw h p → SameHeader (FirmwareE2E.e2eDecode raw header).2.1 h ∧
      (FirmwareE2E.e2eDecode raw header).2.2 = p

theorem masterAccepts_iff (raw : List Byte) (h : MasterE2E.E2EHeader) (p : List Byte) :
    MasterAccepts raw h p ↔
      11 ≤ raw.length ∧ CrcHolds raw ∧ h = masterHeader raw ∧ p = raw.drop 11 := by
  by_cases hlen : 11 ≤ raw.length
  · constructor
    · rintro ⟨hdec, hver⟩
      rw [master_decode raw hlen] at hdec
      obtain ⟨rfl, rfl⟩ : masterHeader raw = h ∧ raw.drop 11 = p := by simpa using hdec
      rw [master_verify raw hlen] at hver
      exact ⟨hlen, by simpa using hver, rfl, rfl⟩
    · rintro ⟨-, hcrc, rfl, rfl⟩
      exact ⟨master_decode raw hlen, by rw [master_verify raw hlen, decide_eq_true hcrc]⟩
  · constructor
    · rintro ⟨hdec, -⟩
      obtain ⟨e, he⟩ := master_decode_short raw (by omega)
      rw [he] at hdec
      cases hdec
    · rintro ⟨hlong, -⟩
      exact absurd hlong hlen

/-- The decoders, on every byte string with at most 512 bytes behind the header: they part exactly on
messages with a wrong declared length under a right CRC. -/
theorem decoders_agree_iff (raw : List Byte) (header : FirmwareE2E.E2eHeader)
    (hmax : raw.length ≤ 11 + 512) :
    DecodersAgree raw header ↔
      (raw.length < 11 ∨ raw.length = 11 + declaredLength raw ∨ ¬ CrcHolds raw) := by
  simp only [DecodersAgree, FirmwareAccepts, firmware_decode_ok_iff, masterAccepts_iff]
  constructor
  · rintro ⟨hiff, -⟩
    by_cases hcrc : CrcHolds raw
    · by_cases hlen : raw.length < 11
      · exact Or.inl hlen
      · exact Or.inr (Or.inl (hiff.mpr ⟨_, _, by omega, hcrc, rfl, rfl⟩).1)
    · exact Or.inr (Or.inr hcrc)
  · intro hcond
    constructor
    · constructor
      · rintro ⟨hlen, -, hcrc⟩
        exact ⟨_, _, by omega, hcrc, rfl, rfl⟩
      · rintro ⟨-, -, hlong, hcrc, -, -⟩
        refine ⟨?_, hmax, hcrc⟩
        rcases hcond with hshort | hlen | hbad
        · omega
        · exact hlen
        · exact absurd hcrc hbad
    · rintro h p ⟨hlong, hcrc, rfl, rfl⟩
      have hlen : raw.length = 11 + declaredLength raw := by
        rcases hcond with hshort | hlen | hbad
        · omega
        · exact hlen
        · exact absurd hcrc hbad
      rw [firmware_decode raw header hlen hmax hcrc]
      obtain ⟨hd, hs, ha, hl, hc⟩ := parseHeader_fields raw hlong
      exact ⟨⟨hd.symm, hs.symm, ha.symm, hl.symm, hc.symm⟩, rfl⟩

/-- A message with a payload of one byte. -/
def oneByteMessage : List Byte :=
  fields 0x1001 0 0 1 ++ beBytes 4 (Crc.crc32 (fields 0x1001 0 0 1 ++ [0x2A])).toNat ++ [0x2A]

theorem decoders_agree_one_byte :
    (∃ h, MasterAccepts oneByteMessage h [0x2A]) ∧ DecodersAgree oneByteMessage ⟨0, 0, 0, 0, 0⟩ := by
  constructor
  · refine ⟨masterHeader oneByteMessage, ?_⟩
    rw [masterAccepts_iff]
    exact ⟨by decide, by decide +kernel, rfl, by decide⟩
  · exact (decoders_agree_iff oneByteMessage ⟨0, 0, 0, 0, 0⟩ (by decide)).mpr (.inr (.inl (by decide)))

/-- The header of such a message with its own CRC and no payload behind it. -/
def truncatedMessage : List Byte :=
  fields 0x1001 0 0 1 ++ beBytes 4 (Crc.crc32 (fields 0x1001 0 0 1)).toNat

/-- The master takes the truncated message, the firmware refuses it. -/
theorem decoders_disagree_truncated : ¬ DecodersAgree truncatedMessage ⟨0, 0, 0, 0, 0⟩ := by
  rintro ⟨hiff, -⟩
  have hmaster : MasterAccepts truncatedMessage (masterHeader truncatedMessage)
      (truncatedMessage.drop 11) := by
    rw [masterAccepts_iff]
    exact ⟨by decide, by decide +kernel, rfl, rfl⟩
  have hfirmware := hiff.mpr ⟨_, _, hmaster⟩
  rw [FirmwareAccepts, firmware_decode_ok_iff] at hfirmware
  exact absurd hfirmware.1 (by decide)

end Genoh.E2EInterop
