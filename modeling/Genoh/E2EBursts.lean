import Genoh.CrcBurst
import Genoh.PayloadStack

/-!
# Bursts in E2E messages

A message as either `e2e_encode` wrote it, changed on its way inside one window
of 32 bits of what the CRC is taken over, or inside the CRC field alone. Neither
receiver takes such a message for intact.
-/
namespace Genoh.E2EBursts

open Genoh.Bytes Genoh.E2EWire

/-- A message one of the two encoders returned. -/
inductive Encoded (raw : List Byte) : Prop where
  | master (dataId : Nat) (payload : List Byte) (counter : MasterE2E.SequenceCounterState)
      (h : (MasterE2E.e2eEncode dataId payload counter).1 = .ok raw)
  | firmware (payload : List Byte) (dataId : BitVec 16) (counter : FirmwareE2E.E2eCounterState)
      (outBufSize : Nat) (h : (FirmwareE2E.e2eEncode payload dataId counter outBufSize).1 = some raw)

/-- The seven header bytes and the payload. -/
def crcInput (raw : List Byte) : List Byte := raw.take 7 ++ raw.drop 11

def crcField (raw : List Byte) : List Byte := (raw.drop 7).take 4

/-- A nonzero change of at most 32 consecutive bits of the CRC input, or of the CRC field. -/
def Burst (raw changed : List Byte) : Prop :=
  changed.length = raw.length ∧ changed ≠ raw ∧
    ((crcField changed = crcField raw ∧
        ∃ p, Crc.Confined p 32 (Crc.bits (crcInput raw)) (Crc.bits (crcInput changed))) ∨
      crcInput changed = crcInput raw)

theorem firmware_encode_some {payload raw : List Byte} {dataId : BitVec 16}
    {counter : FirmwareE2E.E2eCounterState} {outBufSize : Nat}
    (h : (FirmwareE2E.e2eEncode payload dataId counter outBufSize).1 = some raw) :
    raw = frame dataId.toNat counter.seq.toNat counter.alive.toNat payload := by
  by_cases hout : outBufSize < 11 + payload.length
  · rw [E2EInterop.firmware_encode_small payload dataId counter outBufSize hout] at h
    cases h
  · by_cases hlong : 512 < payload.length
    · rw [E2EInterop.firmware_encode_long payload dataId counter outBufSize (by omega) hlong] at h
      cases h
    · rw [E2EInterop.firmware_encode payload dataId counter outBufSize (by omega) (by omega)] at h
      exact (Option.some.inj h).symm

theorem encoded_frame {raw : List Byte} (h : Encoded raw) :
    ∃ dataId seq alive payload, raw = frame dataId seq alive payload := by
  cases h with
  | master dataId payload counter h =>
    exact ⟨_, _, _, _, ((PayloadStack.e2eEncode_ok_iff dataId payload counter raw).mp h).2⟩
  | firmware payload dataId counter outBufSize h => exact ⟨_, _, _, _, firmware_encode_some h⟩

/-- A message is its CRC input and its CRC field. -/
theorem eq_of_parts {raw changed : List Byte}
    (hlen : changed.length = raw.length) (hinput : crcInput changed = crcInput raw)
    (hfield : crcField changed = crcField raw) : changed = raw := by
  obtain ⟨hhead, htail⟩ := List.append_inj hinput (by simp [hlen])
  have hcut : ∀ m : List Byte, m = m.take 7 ++ (crcField m ++ m.drop 11) := by
    intro m
    have hdrop : m.drop 11 = (m.drop 7).drop 4 := by rw [List.drop_drop]
    rw [hdrop, crcField, List.take_append_drop, List.take_append_drop]
  rw [hcut changed, hcut raw, hhead, htail, hfield]

theorem field_crcField (raw : List Byte) : field raw 7 4 = ofBeBytes (crcField raw) := rfl

/-- Four bytes are the number they spell. -/
theorem crcField_eq_of_field {raw changed : List Byte} (hlong : 11 ≤ raw.length)
    (hlen : changed.length = raw.length) (h : field changed 7 4 = field raw 7 4) :
    crcField changed = crcField raw := by
  rw [crcField, crcField, ← beBytes_field changed 7 4 (by omega), ← beBytes_field raw 7 4 (by omega),
    h]

/-- After a burst the CRC field is no longer the CRC of the rest. -/
theorem not_crcHolds_of_burst {raw changed : List Byte} (hlong : 11 ≤ raw.length)
    (hcrc : CrcHolds raw) (h : Burst raw changed) : ¬ CrcHolds changed := by
  obtain ⟨hlen, hne, ⟨hfield, p, hconfined⟩ | hinput⟩ := h
  · intro hchanged
    have hvalues : field changed 7 4 = field raw 7 4 := by rw [field_crcField, field_crcField, hfield]
    have hsame : Crc.crc32 (crcInput raw) = Crc.crc32 (crcInput changed) := by
      apply BitVec.eq_of_toNat_eq
      calc (Crc.crc32 (crcInput raw)).toNat = field raw 7 4 := hcrc
        _ = field changed 7 4 := hvalues.symm
        _ = (Crc.crc32 (crcInput changed)).toNat := hchanged.symm
    apply Crc.crc32_burst_ne hconfined _ hsame
    intro hinput
    exact hne (eq_of_parts hlen hinput.symm hfield)
  · intro hchanged
    have hvalues : field changed 7 4 = field raw 7 4 := by
      calc field changed 7 4 = (Crc.crc32 (crcInput changed)).toNat := hchanged.symm
        _ = (Crc.crc32 (crcInput raw)).toNat := by rw [hinput]
        _ = field raw 7 4 := hcrc
    exact hne (eq_of_parts hlen hinput (crcField_eq_of_field hlong hlen hvalues))

/-- The master verifies such a message to false, and the firmware does not return `E2E_OK`, whatever the
caller's header held. -/
theorem bursts_detected (raw changed : List Byte) (hraw : Encoded raw) (hburst : Burst raw changed) :
    (∃ header payload, MasterE2E.e2eDecode changed = .ok (header, payload) ∧
      MasterE2E.e2eVerify header payload = .ok false) ∧
    ∀ header, (FirmwareE2E.e2eDecode changed header).1 ≠ .ok := by
  obtain ⟨dataId, seq, alive, payload, rfl⟩ := encoded_frame hraw
  have hlong : 11 ≤ (frame dataId seq alive payload).length := by simp
  have hbroken : ¬ CrcHolds changed :=
    not_crcHolds_of_burst hlong (frame_crcHolds dataId seq alive payload) hburst
  have hchanged : 11 ≤ changed.length := by rw [hburst.1]; exact hlong
  constructor
  · have hverify := E2EInterop.master_verify changed hchanged
    rw [decide_eq_false hbroken] at hverify
    exact ⟨_, _, E2EInterop.master_decode changed hchanged, hverify⟩
  · intro header hok
    exact hbroken ((E2EInterop.firmware_decode_ok_iff changed header).mp hok).2.2

/-- Three payload bits over a byte boundary flipped. -/
theorem burst_detected_payload :
    Encoded (frame 0x1001 7 9 [1, 2, 3]) ∧
    Burst (frame 0x1001 7 9 [1, 2, 3]) ((frame 0x1001 7 9 [1, 2, 3]).take 11 ++ [0xC1, 3, 3]) ∧
    ∀ header, (FirmwareE2E.e2eDecode ((frame 0x1001 7 9 [1, 2, 3]).take 11 ++ [0xC1, 3, 3])
      header).1 ≠ .ok := by
  have hraw : Encoded (frame 0x1001 7 9 [1, 2, 3]) :=
    .master 0x1001 [1, 2, 3] ⟨7, 9⟩
      ((PayloadStack.e2eEncode_ok_iff 0x1001 [1, 2, 3] ⟨7, 9⟩ _).mpr ⟨by decide, rfl⟩)
  have hburst : Burst (frame 0x1001 7 9 [1, 2, 3])
      ((frame 0x1001 7 9 [1, 2, 3]).take 11 ++ [0xC1, 3, 3]) :=
    ⟨by decide +kernel, by decide +kernel, Or.inl ⟨by decide +kernel, 56, by decide +kernel⟩⟩
  exact ⟨hraw, hburst, (bursts_detected _ _ hraw hburst).2⟩

end Genoh.E2EBursts
