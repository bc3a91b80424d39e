import Genoh.CrcBurst
import Genoh.FirmwareE2E
import Genoh.Run

/-!
# The table of the firmware's CRC

`e2e_crc32` over a whole run of calls, the first of which fills the table, against the register
that takes one message bit at a time.
-/
namespace Genoh.CrcTable

open Genoh.Bytes Genoh.Crc Genoh.FirmwareE2E Genoh.Run

/-- The reflected CRC-32, bit by bit. -/
def crc32Bitwise (data : List Byte) : BitVec 32 :=
  (bits data).foldl (crcBit 0xEDB88320) 0xFFFFFFFF ^^^ 0xFFFFFFFF

/-- The static variables after a call. -/
def callStatic (static : Crc32Static) (data : List Byte) : Crc32Static :=
  (e2eCrc32Call static data).2

/-- One look-up takes in the eight bits of the byte. -/
theorem crc32Lookup_bits (crc : BitVec 32) (b : Byte) :
    crc32Lookup crc32InitTable crc b = (bits [b]).foldl (crcBit 0xEDB88320) crc := by
  rw [crc32Lookup_eq, ← crcBytes_eq_bits 0xEDB88320 crc [b] (by decide)]
  rfl

/-- The loop over the bytes is the one over their bits. -/
theorem lookups_bits (data : List Byte) (crc : BitVec 32) :
    data.foldl (crc32Lookup crc32InitTable) crc = (bits data).foldl (crcBit 0xEDB88320) crc := by
  induction data generalizing crc with
  | nil => rfl
  | cons b data ih =>
    have hbits : bits ([b] ++ data) = bits [b] ++ bits data := List.flatMap_append
    rw [List.singleton_append] at hbits
    rw [List.foldl_cons, ih, crc32Lookup_bits, hbits, List.foldl_append]

/-- After any earlier calls a call returns the bit-by-bit CRC-32. -/
theorem call_bitwise (earlier : List (List Byte)) (data : List Byte) :
    (e2eCrc32Call (run callStatic Crc32Static.boot earlier) data).1 = crc32Bitwise data := by
  rw [e2eCrc32Call, prepare_table, lookups_bits, crc32Bitwise]

-- The known answer of the self test, "123456789".
example : crc32Bitwise [0x31, 0x32, 0x33, 0x34, 0x35, 0x36, 0x37, 0x38, 0x39] = 0xCBF43926 := by
  decide +kernel

end Genoh.CrcTable
