import Genoh.Crc

/-!
# The E2E wire format

What the two implementations are meant to exchange: eleven header bytes
(data id, sequence, alive, length, CRC) in front of the payload, the CRC taken
over the first seven header bytes and the payload.
-/
namespace Genoh.E2EWire

open Genoh.Bytes

/-- The header fields under the CRC. -/
def fields (dataId seq alive length : Nat) : List Byte :=
  beBytes 2 dataId ++ (beBytes 2 seq ++ (beBytes 1 alive ++ beBytes 2 length))

/-- The message that carries a payload. -/
def frame (dataId seq alive : Nat) (payload : List Byte) : List Byte :=
  fields dataId seq alive payload.length ++
    (beBytes 4 (Crc.crc32 (fields dataId seq alive payload.length ++ payload)).toNat ++ payload)

def declaredLength (raw : List Byte) : Nat := field raw 5 2

/-- The CRC field is the CRC-32 of the seven bytes before it and everything after it. -/
def CrcHolds (raw : List Byte) : Prop :=
  (Crc.crc32 (raw.take 7 ++ raw.drop 11)).toNat = field raw 7 4

instance (raw : List Byte) : Decidable (CrcHolds raw) := inferInstanceAs (Decidable (_ = _))

@[simp] theorem fields_length (dataId seq alive length : Nat) :
    (fields dataId seq alive length).length = 7 := by simp [fields]

@[simp] theorem frame_length (dataId seq alive : Nat) (payload : List Byte) :
    (frame dataId seq alive payload).length = 11 + payload.length := by
  simp [frame]
  omega

@[simp] theorem frame_take (dataId seq alive : Nat) (payload : List Byte) :
    (frame dataId seq alive payload).take 7 = fields dataId seq alive payload.length :=
  List.take_left' (fields_length _ _ _ _)

@[simp] theorem frame_drop (dataId seq alive : Nat) (payload : List Byte) :
    (frame dataId seq alive payload).drop 11 = payload := by
  rw [frame, ← List.append_assoc]
  exact List.drop_left' (by simp)

section Fields

variable (dataId seq alive : Nat) (payload : List Byte)

theorem frame_dataId (h : dataId < 65536) : field (frame dataId seq alive payload) 0 2 = dataId := by
  simp only [frame, fields, List.append_assoc]
  exact field_head 2 dataId _ h

theorem frame_seq (h : seq < 65536) : field (frame dataId seq alive payload) 2 2 = seq := by
  simp only [frame, fields, List.append_assoc]
  rw [field_skip 2 _ _ _ _ (by decide)]
  exact field_head 2 seq _ h

theorem frame_alive (h : alive < 256) : field (frame dataId seq alive payload) 4 1 = alive := by
  simp only [frame, fields, List.append_assoc]
  rw [field_skip 2 _ _ _ _ (by decide), field_skip 2 _ _ _ _ (by decide)]
  exact field_head 1 alive _ h

theorem frame_declaredLength (h : payload.length < 65536) :
    declaredLength (frame dataId seq alive payload) = payload.length := by
  simp only [declaredLength, frame, fields, List.append_assoc]
  rw [field_skip 2 _ _ _ _ (by decide), field_skip 2 _ _ _ _ (by decide),
    field_skip 1 _ _ _ _ (by decide)]
  exact field_head 2 payload.length _ h

/-- Every frame carries its own check value. -/
theorem frame_crcHolds : CrcHolds (frame dataId seq alive payload) := by
  rw [CrcHolds, frame_take, frame_drop, frame]
  simp only [fields, List.append_assoc]
  rw [field_skip 2 _ _ _ _ (by decide), field_skip 2 _ _ _ _ (by decide),
    field_skip 1 _ _ _ _ (by decide), field_skip 2 _ _ _ _ (by decide)]
  exact (field_head 4 _ _ (BitVec.isLt _)).symm

end Fields

/-- The seven bytes under the CRC are the four fields read from them. -/
theorem take_seven (raw : List Byte) (h : 7 ≤ raw.length) :
    raw.take 7 = fields (field raw 0 2) (field raw 2 2) (field raw 4 1) (field raw 5 2) := by
  rw [fields, beBytes_field _ _ _ (by omega), beBytes_field _ _ _ (by omega),
    beBytes_field _ _ _ (by omega), beBytes_field _ _ _ (by omega)]
  rw [show (7 : Nat) = 2 + (2 + (1 + 2)) by rfl, List.take_add, List.take_add, List.take_add]
  simp [List.drop_drop]

end Genoh.E2EWire
