/-!
# The tick count of the firmware

Real time in milliseconds, of which `xTaskGetTickCount` returns the low 32 bits.
-/
namespace Genoh.FirmwareClock

/-- The tick count at a time. -/
def tickAt (time : Nat) : BitVec 32 := BitVec.ofNat 32 time

/-- Unsigned subtraction is that of the times, modulo 2^32. -/
theorem tickAt_sub (now past : Nat) :
    ((tickAt now - tickAt past).toNat : Int) = ((now : Int) - past) % 4294967296 := by
  rw [tickAt, tickAt, BitVec.toNat_sub, BitVec.toNat_ofNat, BitVec.toNat_ofNat]
  omega

end Genoh.FirmwareClock
