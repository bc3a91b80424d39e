import Mathlib.Logic.Function.Iterate
import Genoh.Bytes

/-!
# Reflected cyclic redundancy checks

The remainder of width `w` is moved down one bit at a time, and the generator is
added whenever a one falls out. The shift is linear over exclusive or, so eight
shifts of a remainder split into those of its low octet, which a table of 256
words can hold, and a plain move of the rest.
-/
namespace Genoh.Crc

open Genoh.Bytes

variable {w : Nat}

/-- One bit of the division by the reflected generator. -/
def shift (poly c : BitVec w) : BitVec w :=
  if c.getLsbD 0 then (c >>> 1) ^^^ poly else c >>> 1

/-- The remainder after one more message byte, least significant bit first. -/
def crcByte (poly c : BitVec w) (b : Byte) : BitVec w :=
  (shift poly)^[8] (c ^^^ b.setWidth w)

/-- The bit-by-bit check value of a message. -/
def crc (poly start final : BitVec w) (msg : List Byte) : BitVec w :=
  msg.foldl (crcByte poly) start ^^^ final

/-- The IEEE 802.3 CRC-32: generator 0xEDB88320, initial value and final mask all ones. -/
def crc32 (msg : List Byte) : BitVec 32 := crc 0xEDB88320 0xFFFFFFFF 0xFFFFFFFF msg

theorem shift_xor (poly x y : BitVec w) :
    shift poly (x ^^^ y) = shift poly x ^^^ shift poly y := by
  have hcancel : ∀ a b : BitVec w, (a ^^^ poly) ^^^ (b ^^^ poly) = a ^^^ b := by
    intro a b
    ext i hi
    simp only [BitVec.getElem_xor]
    cases a[i] <;> cases b[i] <;> cases poly[i] <;> rfl
  simp only [shift, BitVec.getLsbD_xor, BitVec.ushiftRight_xor_distrib]
  cases x.getLsbD 0 <;> cases y.getLsbD 0
  · simp
  · simp only [Bool.false_xor, Bool.false_eq_true, if_true, if_false]
    ac_rfl
  · simp only [Bool.xor_false, Bool.false_eq_true, if_true, if_false]
    ac_rfl
  · simp [hcancel]

theorem shifts_xor (poly x y : BitVec w) (n : Nat) :
    (shift poly)^[n] (x ^^^ y) = (shift poly)^[n] x ^^^ (shift poly)^[n] y := by
  induction n generalizing x y with
  | zero => rfl
  | succ n ih => simp only [Function.iterate_succ_apply, shift_xor, ih]

/-- As long as only zeros fall out, shifting is a plain move. -/
theorem shifts_clear (poly y : BitVec w) (n : Nat) (h : ∀ i, i < n → y.getLsbD i = false) :
    (shift poly)^[n] y = y >>> n := by
  induction n with
  | zero => simp
  | succ n ih =>
    have hlow : (y >>> n).getLsbD 0 = false := by simpa using h n (by omega)
    rw [Function.iterate_succ_apply', ih (fun i hi => h i (by omega)), shift, hlow,
      if_neg (by simp), BitVec.shiftRight_add]

theorem getLsbD_octet (i : Nat) :
    (BitVec.ofNat w 255).getLsbD i = (decide (i < w) && decide (i < 8)) := by
  rw [BitVec.getLsbD_ofNat, show (255 : Nat) = 2 ^ 8 - 1 by rfl, Nat.testBit_two_pow_sub_one]

/-- A word is its low octet plus everything above it. -/
theorem octet_split (x : BitVec w) :
    x = (x &&& BitVec.ofNat w 255) ^^^ (x &&& ~~~BitVec.ofNat w 255) := by
  ext i hi
  simp only [BitVec.getElem_xor, BitVec.getElem_and, BitVec.getElem_not]
  cases x[i] <;> cases (BitVec.ofNat w 255)[i] <;> rfl

theorem above_octet_shift (x : BitVec w) : (x &&& ~~~BitVec.ofNat w 255) >>> 8 = x >>> 8 := by
  ext i hi
  rw [BitVec.getElem_ushiftRight, BitVec.getElem_ushiftRight]
  by_cases h : 8 + i < w
  · rw [BitVec.getLsbD_and, BitVec.getLsbD_not, getLsbD_octet]
    simp [h]
  · rw [BitVec.getLsbD_of_ge _ _ (by omega), BitVec.getLsbD_of_ge _ _ (by omega)]

/-- Eight shifts are those of the low octet and a move of the rest by eight places. -/
theorem shifts_eight (poly x : BitVec w) :
    (shift poly)^[8] x = (shift poly)^[8] (x &&& BitVec.ofNat w 255) ^^^ (x >>> 8) := by
  have hclear : ∀ i, i < 8 → (x &&& ~~~BitVec.ofNat w 255).getLsbD i = false := by
    intro i hi
    simp only [BitVec.getLsbD_and, BitVec.getLsbD_not, getLsbD_octet]
    by_cases hw : i < w <;> simp [hi, hw]
  conv => lhs; rw [octet_split x]
  rw [shifts_xor, shifts_clear _ _ 8 hclear, above_octet_shift]

theorem byte_shift_eight (b : Byte) : b.setWidth w >>> 8 = 0#w := by
  ext i hi
  simp

/-- The check of a byte is the table word for the low octet of `c ^ b`, combined with `c` moved down
eight places. -/
theorem crcByte_table (poly c : BitVec w) (b : Byte) :
    crcByte poly c b =
      (shift poly)^[8] ((c ^^^ b.setWidth w) &&& BitVec.ofNat w 255) ^^^ (c >>> 8) := by
  rw [crcByte, shifts_eight, BitVec.ushiftRight_xor_distrib, byte_shift_eight, BitVec.xor_zero]

end Genoh.Crc
