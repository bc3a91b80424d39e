import Genoh.AppZenoh
import Genoh.E2EInterop
import Genoh.SecOCInterop

/-!
# The receive path of the node

`decode_secure_message` in two cases: either the message is stopped in front of the
sequence check, and all that happens is a fault and a trouble code, or it is authentic
on the wire and the sequence check decides.
-/
namespace Genoh.NodeReceive

open Genoh.Bytes Genoh.SecOCWire Genoh.E2EWire Genoh.SecOCInterop Genoh.AppZenoh
open Genoh.FirmwareE2E Genoh.FirmwareSecOC Genoh.FirmwareSafety Genoh.FirmwareIds

/-- What the bytes of a message say for themselves at a tick: MAC, freshness window, E2E
length and CRC. -/
structure Authentic (key : Key) (raw : List Byte) (tick : BitVec 32) : Prop where
  mac : MacHolds key.val raw
  fresh : InWindow raw tick
  length : (body raw).length = 11 + declaredLength (body raw)
  bounded : (body raw).length ≤ 11 + 512
  crc : CrcHolds (body raw)

theorem authentic_iff (key : Key) (raw : List Byte) (tick : BitVec 32) :
    Authentic key raw tick ↔ MacHolds key.val raw ∧ InWindow raw tick ∧
      (body raw).length = 11 + declaredLength (body raw) ∧ (body raw).length ≤ 11 + 512 ∧
      CrcHolds (body raw) :=
  ⟨fun ⟨hm, hf, hl, hb, hc⟩ => ⟨hm, hf, hl, hb, hc⟩, fun ⟨hm, hf, hl, hb, hc⟩ => ⟨hm, hf, hl, hb, hc⟩⟩

instance (key : Key) (raw : List Byte) (tick : BitVec 32) : Decidable (Authentic key raw tick) :=
  decidable_of_iff _ (authentic_iff key raw tick).symm

/-- The sequence number in the E2E header of a secured message. -/
def sequenceOf (raw : List Byte) : BitVec 16 := (parseHeader (body raw)).sequenceCounter

/-- The data id in the E2E header of a secured message. -/
def dataIdOf (raw : List Byte) : BitVec 16 := (parseHeader (body raw)).dataId

/-- The E2E payload of a secured message. -/
def payloadOf (raw : List Byte) : List Byte := (body raw).drop 11

theorem Authentic.long {key : Key} {raw : List Byte} {tick : BitVec 32}
    (h : Authentic key raw tick) : 35 ≤ raw.length ∧ raw.length ≤ 547 := by
  have hbody : (body raw).length = raw.length - 24 := by
    rw [body, List.length_take]
    omega
  have hlength := h.length
  have hbounded := h.bounded
  omega

/-- Both outcomes of the SecOC decoder, for a message of any length. -/
theorem secocDecodeEx_cases (key : Key) (raw : List Byte) (tick : BitVec 32) :
    (MacHolds key.val raw ∧ ∃ result, secocDecodeEx raw key tick =
        (true, some (raw.length - 24), result) ∧
        result.freshnessValid = decide (InWindow raw tick)) ∨
      (¬ Authentic key raw tick ∧ ∃ len result, secocDecodeEx raw key tick = (false, len, result)) := by
  by_cases hmin : 24 ≤ raw.length
  · by_cases hmax : raw.length ≤ 616
    · rw [firmware_decode key raw tick hmin hmax]
      by_cases hmac : MacHolds key.val raw
      · rw [if_pos hmac]
        exact .inl ⟨hmac, _, rfl, rfl⟩
      · rw [if_neg hmac]
        exact .inr ⟨fun h => hmac h.mac, _, _, rfl⟩
    · have hlong : raw.length - secocOverhead + secocFreshnessSize > hmacInputSize := by
        simp only [secocOverhead, secocFreshnessSize, secocMacSize, hmacInputSize]
        omega
      have hover : ¬ raw.length < secocOverhead := Nat.not_lt.mpr hmin
      refine .inr ⟨fun h => by have := h.long; omega, ?_⟩
      simp only [secocDecodeEx, if_neg hover, if_pos hlong]
      exact ⟨_, _, rfl⟩
  · have hover : raw.length < secocOverhead := Nat.not_le.mp hmin
    refine .inr ⟨fun h => by have := h.long; omega, ?_⟩
    simp only [secocDecodeEx, if_pos hover]
    exact ⟨_, _, rfl⟩

/-! ## Messages made by a sender -/

/-- A payload through both encoders, with the buffers of the main loop. -/
def sealed (key : Key) (payload : List Byte) (dataId : BitVec 16) (counter : E2eCounterState)
    (freshness : SecocFreshness) (sentAt : BitVec 32) : List Byte :=
  let e2eMsg := (e2eEncode payload dataId counter e2eBufSize).1.getD []
  (secocEncode e2eMsg key freshness sentAt secocBufSize).1.getD []

section Sealed

variable (key : Key) (payload : List Byte) (dataId : BitVec 16) (counter : E2eCounterState)
variable (freshness : SecocFreshness) (sentAt : BitVec 32)

theorem sealed_eq (h : payload.length ≤ 289) :
    sealed key payload dataId counter freshness sentAt =
      secured key.val (frame dataId.toNat counter.seq.toNat counter.alive.toNat payload)
        sentAt.toNat freshness.counter.toNat := by
  have hbuf : e2eBufSize = 300 := rfl
  have hout : secocBufSize = 400 := rfl
  have hts : (getTickMs sentAt).toNat = sentAt.toNat := by
    have hlt := sentAt.isLt
    simp only [getTickMs, BitVec.toNat_setWidth]
    omega
  have he2e := E2EInterop.firmware_encode payload dataId counter e2eBufSize (by omega) (by omega)
  have hsecoc := firmware_encode key (frame dataId.toNat counter.seq.toNat counter.alive.toNat payload)
    freshness (getTickMs sentAt) secocBufSize (by rw [frame_length]; omega)
    (by rw [frame_length]; omega)
  rw [sealed, he2e, Option.getD_some, secocEncode, hsecoc, Option.getD_some, hts]

theorem sealed_length (h : payload.length ≤ 289) :
    (sealed key payload dataId counter freshness sentAt).length = payload.length + 35 := by
  rw [sealed_eq _ _ _ _ _ _ h, secured_length, frame_length]
  omega

/-- What a sender makes is authentic for five seconds. -/
theorem sealed_authentic (tick : BitVec 32) (h : payload.length ≤ 289)
    (hwindow : ((sentAt.toNat : Int) - tick.toNat).natAbs ≤ 5000) :
    Authentic key (sealed key payload dataId counter freshness sentAt) tick := by
  have hts : sentAt.toNat < 256 ^ 6 := by
    have hlt := sentAt.isLt
    omega
  rw [sealed_eq _ _ _ _ _ _ h, authentic_iff, secured_body,
    frame_declaredLength _ _ _ _ (by omega), frame_length]
  refine ⟨secured_macHolds _ _ _ _ hts freshness.counter.isLt, ?_, rfl, by omega,
    frame_crcHolds _ _ _ _⟩
  rw [InWindow, secured_timestamp _ _ _ _ hts]
  exact hwindow

theorem sealed_sequenceOf (h : payload.length ≤ 289) :
    sequenceOf (sealed key payload dataId counter freshness sentAt) = counter.seq := by
  apply BitVec.eq_of_toNat_eq
  rw [sequenceOf, sealed_eq _ _ _ _ _ _ h, secured_body,
    (E2EInterop.parseHeader_fields _ (by rw [frame_length]; omega)).2.1,
    frame_seq _ _ _ _ counter.seq.isLt]

theorem sealed_dataIdOf (h : payload.length ≤ 289) :
    dataIdOf (sealed key payload dataId counter freshness sentAt) = dataId := by
  apply BitVec.eq_of_toNat_eq
  rw [dataIdOf, sealed_eq _ _ _ _ _ _ h, secured_body,
    (E2EInterop.parseHeader_fields _ (by rw [frame_length]; omega)).1,
    frame_dataId _ _ _ _ dataId.isLt]

theorem sealed_payloadOf (h : payload.length ≤ 289) :
    payloadOf (sealed key payload dataId counter freshness sentAt) = payload := by
  rw [payloadOf, sealed_eq _ _ _ _ _ _ h, secured_body, frame_drop]

end Sealed

/-! ## What the helpers leave alone -/

section Frame

variable (app : App) (type : FaultType) (code lastSeq : BitVec 16) (tick : BitVec 32)
variable (channel : Channel) (chk : E2eSeqChecker)

@[simp] theorem fault_ids : (app.fault type tick).ids = app.ids := rfl
@[simp] theorem fault_key : (app.fault type tick).key = app.key := rfl
@[simp] theorem fault_checker : (app.fault type tick).checker channel = app.checker channel := by
  cases channel <;> rfl

@[simp] theorem recordDtc_ids : (app.recordDtc code lastSeq tick).ids = app.ids := rfl
@[simp] theorem recordDtc_key : (app.recordDtc code lastSeq tick).key = app.key := rfl
@[simp] theorem recordDtc_checker :
    (app.recordDtc code lastSeq tick).checker channel = app.checker channel := by
  cases channel <;> rfl

@[simp] theorem setChecker_ids : (app.setChecker channel chk).ids = app.ids := by
  cases channel <;> rfl
@[simp] theorem setChecker_key : (app.setChecker channel chk).key = app.key := by
  cases channel <;> rfl
@[simp] theorem setChecker_checker : (app.setChecker channel chk).checker channel = chk := by
  cases channel <;> rfl

end Frame

/-- The sequence check gives no other verdicts. -/
theorem seqCheck_rejects (chk : E2eSeqChecker) (seq : BitVec 16) :
    ((e2eSeqCheck chk seq).1 = .errSeqGap ∨ (e2eSeqCheck chk seq).1 = .errSeqRepeated) ↔
      (e2eSeqCheck chk seq).1 ≠ .ok := by
  unfold e2eSeqCheck
  dsimp only
  split
  · simp
  · split
    · simp
    · split <;> simp

section Decode

variable (app : App) (raw : List Byte) (hdr : E2eHeader) (channel : Channel)
variable (dataId : BitVec 16) (tick : BitVec 32)

/-- The verdict of the rate limiter on the message. -/
def rateCheck (ids : IdsEngine) : Bool × IdsEngine :=
  idsCheckMessage ids dataId (BitVec.ofNat 32 raw.length) tick

theorem rateCheck_admits {ids : IdsEngine} (h : (rateCheck raw dataId tick ids).1 = true) :
    ¬ (idsCheckMessage ids dataId (BitVec.ofNat 32 raw.length) tick).1 = false := by
  rw [rateCheck] at h
  simp [h]

/-- The message gets as far as the sequence check. -/
def Reaches : Prop :=
  (rateCheck raw dataId tick app.ids).1 = true ∧ Authentic app.key.nodeKey raw tick

instance : Decidable (Reaches app raw dataId tick) := inferInstanceAs (Decidable (_ ∧ _))

/-! ## The two cases -/

/-- A message that is stopped earlier only costs a fault and a trouble code. -/
theorem decode_stopped (h : ¬ Reaches app raw dataId tick) :
    ∃ type code lastSeq hdr', decodeSecureMessage app raw hdr channel dataId tick =
      (({ app with ids := (rateCheck raw dataId tick app.ids).2 }.fault type tick).recordDtc
        code lastSeq tick, hdr', none) := by
  unfold decodeSecureMessage
  by_cases hrate : (rateCheck raw dataId tick app.ids).1 = true
  · have hauth : ¬ Authentic app.key.nodeKey raw tick := fun ha => h ⟨hrate, ha⟩
    simp only [if_neg (rateCheck_admits raw dataId tick hrate)]
    obtain ⟨hmac, result, hdecode, hfresh⟩ | ⟨-, len, result, hdecode⟩ :=
      secocDecodeEx_cases app.key.nodeKey raw tick
    · simp only [hdecode]
      by_cases hwindow : InWindow raw tick
      · have hok : ¬ (e2eDecode (raw.take (raw.length - 24)) hdr).1 = .ok := by
          rw [E2EInterop.firmware_decode_ok_iff]
          exact fun ⟨hlength, hbounded, hcrc⟩ => hauth ⟨hmac, hwindow, hlength, hbounded, hcrc⟩
        have hvalid : ¬ result.freshnessValid = false := by simp [hfresh, hwindow]
        rw [if_neg hvalid, if_pos hok]
        exact ⟨_, _, _, _, rfl⟩
      · rw [if_pos (by simp [hfresh, hwindow])]
        exact ⟨_, _, _, _, rfl⟩
    · simp only [hdecode]
      exact ⟨_, _, _, _, rfl⟩
  · have hallowed : (idsCheckMessage app.ids dataId (BitVec.ofNat 32 raw.length) tick).1 = false :=
      Bool.eq_false_of_not_eq_true hrate
    simp only [if_pos hallowed]
    exact ⟨_, _, _, _, rfl⟩

/-- The state in which the sequence check has spoken. -/
def sequenced : App :=
  { app with ids := (rateCheck raw dataId tick app.ids).2 }.setChecker channel
    (e2eSeqCheck (app.checker channel) (sequenceOf raw)).2

/-- What the last lines of `decode_secure_message` do once the message is good. -/
def accept (app : App) (tick : BitVec 32) : App :=
  { app with
    safety := safetyReportOk app.safety
    flow := FirmwareDiagnostics.flowActuatorReceived app.flow tick }

/-- A message that reaches the sequence check is rejected by it, or is accepted if its
payload leaves room for the terminating NUL. -/
theorem decode_reaches (h : Reaches app raw dataId tick) :
    decodeSecureMessage app raw hdr channel dataId tick =
      if (e2eSeqCheck (app.checker channel) (sequenceOf raw)).1 ≠ .ok then
        (((sequenced app raw channel dataId tick).fault .seqError tick).recordDtc
          FirmwareDiagnostics.dtcSeqError (sequenceOf raw) tick, parseHeader (body raw), none)
      else if (payloadOf raw).length ≥ jsonSize then
        (sequenced app raw channel dataId tick, parseHeader (body raw), none)
      else
        (accept (sequenced app raw channel dataId tick) tick, parseHeader (body raw),
          some (payloadOf raw ++ [0])) := by
  obtain ⟨hrate, hmac, hfresh, hlength, hbounded, hcrc⟩ := h
  have hallowed := rateCheck_admits raw dataId tick hrate
  have hlong := Authentic.long ⟨hmac, hfresh, hlength, hbounded, hcrc⟩
  have hdecode := firmware_decode app.key.nodeKey raw tick (by omega) (by omega)
  rw [if_pos hmac] at hdecode
  have he2e : e2eDecode (raw.take (raw.length - 24)) hdr = (.ok, parseHeader (body raw), payloadOf raw) :=
    E2EInterop.firmware_decode (body raw) hdr hlength hbounded hcrc
  simp only [decodeSecureMessage, if_neg hallowed, hdecode, hfresh, he2e, decide_true,
    Bool.true_eq_false, if_false, ne_eq, not_true_eq_false, seqCheck_rejects]
  rfl

@[simp] theorem sequenced_ids : (sequenced app raw channel dataId tick).ids =
    (rateCheck raw dataId tick app.ids).2 := by
  rw [sequenced, setChecker_ids]

@[simp] theorem sequenced_key : (sequenced app raw channel dataId tick).key = app.key := by
  rw [sequenced, setChecker_key]

@[simp] theorem sequenced_checker : (sequenced app raw channel dataId tick).checker channel =
    (e2eSeqCheck (app.checker channel) (sequenceOf raw)).2 := by
  rw [sequenced, setChecker_checker]

@[simp] theorem accept_ids : (accept app tick).ids = app.ids := rfl
@[simp] theorem accept_key : (accept app tick).key = app.key := rfl
@[simp] theorem accept_checker : (accept app tick).checker channel = app.checker channel := by
  cases channel <;> rfl

end Decode

end Genoh.NodeReceive
