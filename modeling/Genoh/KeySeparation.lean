import Genoh.FirmwareKey

/-!
# Key separation

Which node ids and numbers of rotations give one string to `derive_node_key`. The id is cut at 15
bytes and the epoch has 16 bits.
-/
namespace Genoh.KeySeparation

open Genoh.Bytes Genoh.FirmwareKey
open Genoh.FirmwareSecOC (Key secocTestKey)

/-! ## The string -/

/-- The byte of a character that is printed. -/
def byteOf (c : Char) : Byte := BitVec.ofNat 8 c.toNat

theorem digit_bounds {n : Nat} {c : Char} (h : c ∈ Nat.toDigits 10 n) : 48 ≤ c.toNat ∧ c.toNat ≤ 57 := by
  have hdigit := Nat.isDigit_of_mem_toDigits (by decide) (by decide) h
  rw [Char.isDigit, Bool.and_eq_true, decide_eq_true_iff, decide_eq_true_iff] at hdigit
  exact hdigit

theorem byteOf_digit {n : Nat} {c : Char} (h : c ∈ Nat.toDigits 10 n) :
    (byteOf c).toNat = c.toNat := by
  have hbounds := digit_bounds h
  rw [byteOf, BitVec.toNat_ofNat]
  omega

/-- The digits can be read back. -/
theorem decimal_inj {m n : Nat} (h : decimal m = decimal n) : m = n := by
  have hread : ∀ k, (decimal k).map (fun b => Char.ofNat b.toNat) = Nat.toDigits 10 k := by
    intro k
    rw [decimal, List.map_map]
    refine (List.map_congr_left fun c hc => ?_).trans (List.map_id _)
    rw [Function.comp_apply]
    exact (congrArg Char.ofNat (byteOf_digit hc)).trans (Char.ofNat_toNat c)
  have hdigits := congrArg (List.map fun b : Byte => Char.ofNat b.toNat) h
  rw [hread, hread] at hdigits
  rw [← Nat.ofDigitChars_ten_toDigits (n := m), hdigits, Nat.ofDigitChars_ten_toDigits]

/-- No digit is a colon. -/
theorem decimal_ne_colon {n : Nat} {b : Byte} (h : b ∈ decimal n) : b ≠ 58 := by
  obtain ⟨c, hc, rfl⟩ := List.mem_map.mp h
  intro hcolon
  have hvalue := congrArg BitVec.toNat hcolon
  have hbounds := digit_bounds hc
  change (byteOf c).toNat = 58 at hvalue
  rw [byteOf_digit hc] at hvalue
  omega

theorem decimal_length {n : Nat} (h : n < 65536) : (decimal n).length ≤ 5 := by
  rw [decimal, List.length_map, Nat.length_toDigits_le_iff (by decide) (by decide)]
  omega

/-- The epoch ends at the second colon. -/
theorem deriveInput_inj (epoch epoch' : BitVec 16) (id id' : List Byte) :
    deriveInput epoch id = deriveInput epoch' id' ↔ epoch = epoch' ∧ id = id' := by
  constructor
  · intro h
    have hcolon : ascii ":" = [58] := by decide
    simp only [deriveInput, hcolon, List.append_assoc, List.append_cancel_left_eq,
      List.singleton_append] at h
    have hepoch : ∀ (e : BitVec 16) (rest : List Byte),
        (decimal e.toNat ++ 58 :: rest).takeWhile (· ≠ 58) = decimal e.toNat := by
      intro e rest
      rw [List.takeWhile_append_of_pos fun b hb => decide_eq_true (decimal_ne_colon hb)]
      simp
    have hdecimal := congrArg (List.takeWhile (· ≠ 58)) h
    rw [hepoch, hepoch] at hdecimal
    rw [hdecimal] at h
    have hrest := List.append_cancel_left h
    exact ⟨BitVec.eq_of_toNat_eq (decimal_inj hdecimal), (List.cons.inj hrest).2⟩
  · rintro ⟨rfl, rfl⟩
    rfl

theorem deriveInput_length (epoch : BitVec 16) {id : List Byte} (h : id.length < nodeIdSize) :
    (deriveInput epoch id).length ≤ 27 := by
  have hdecimal := decimal_length epoch.isLt
  have hsize : nodeIdSize = 16 := rfl
  have hprefix : (ascii "epoch:").length = 6 := by decide
  have hcolon : (ascii ":").length = 1 := by decide
  rw [deriveInput, List.length_append, List.length_append, List.length_append]
  omega

/-! ## Situations -/

/-- The node's manager behind its initialisation and a number of rotations. -/
def rotatedTimes (mk : Key) (id : List Byte) (n : Nat) : KeyManager := keyRotate^[n] (keyInit mk id)

theorem rotatedTimes_inEpoch (mk : Key) (id : List Byte) (n : Nat) :
    InEpoch mk id (1 + BitVec.ofNat 16 n) (rotatedTimes mk id n) := by
  induction n with
  | zero => exact keyInit_inEpoch mk id
  | succ n ih =>
    have hepoch : 1 + BitVec.ofNat 16 (n + 1) = 1 + BitVec.ofNat 16 n + 1 := by
      rw [BitVec.ofNat_add, BitVec.add_assoc]
      rfl
    rw [rotatedTimes, Function.iterate_succ_apply', hepoch]
    exact ih.rotate

/-- What the latest `derive_node_key` has hashed. -/
def hashedInput (km : KeyManager) : List Byte := deriveInput km.epoch km.nodeId

theorem hashedInput_eq_iff (mk mk' : Key) (id id' : List Byte) (n n' : Nat) :
    hashedInput (rotatedTimes mk id n) = hashedInput (rotatedTimes mk' id' n') ↔
      id.take (nodeIdSize - 1) = id'.take (nodeIdSize - 1) ∧ n % 65536 = n' % 65536 := by
  obtain ⟨-, hid, hepoch, -⟩ := rotatedTimes_inEpoch mk id n
  obtain ⟨-, hid', hepoch', -⟩ := rotatedTimes_inEpoch mk' id' n'
  have hepochs : (1 : BitVec 16) + BitVec.ofNat 16 n = 1 + BitVec.ofNat 16 n' ↔
      n % 65536 = n' % 65536 := by
    rw [BitVec.add_right_inj, ← BitVec.toNat_inj, BitVec.toNat_ofNat, BitVec.toNat_ofNat]
  rw [keyGetEpoch] at hepoch hepoch'
  rw [hashedInput, hashedInput, deriveInput_inj, hid, hid', hepoch, hepoch', hepochs]
  exact and_comm

/-- The key of a situation is the code of its string under the master key, the string fits its buffer
with the NUL behind it, and two situations have different strings exactly if the first 15 bytes of the
node ids or the numbers of rotations modulo 2^16 differ. -/
theorem keys_separated (mk mk' : Key) (id id' : List Byte) (n n' : Nat) :
    (keyGetNodeKey (rotatedTimes mk id n)).val =
        Hmac.hmacSha256 mk.val (hashedInput (rotatedTimes mk id n)) ∧
      (hashedInput (rotatedTimes mk id n)).length + 1 ≤ 48 ∧
      (hashedInput (rotatedTimes mk id n) ≠ hashedInput (rotatedTimes mk' id' n') ↔
        id.take 15 ≠ id'.take 15 ∨ n % 65536 ≠ n' % 65536) := by
  obtain ⟨-, hid, hepoch, hkey⟩ := rotatedTimes_inEpoch mk id n
  refine ⟨?_, ?_, ?_⟩
  · rw [hkey, hashedInput, hid, ← hepoch, keyGetEpoch]
  · exact Nat.succ_le_succ ((deriveInput_length _ (rotatedTimes mk id n).short).trans (by decide))
  · rw [ne_eq, hashedInput_eq_iff, not_and_or]
    rfl

/-- Two ids that differ in their last byte, and one id behind 2^16 rotations. -/
theorem inputs_coincide :
    (ascii "rear_right/10001" ≠ ascii "rear_right/10002" ∧
      hashedInput (rotatedTimes secocTestKey (ascii "rear_right/10001") 0) =
        hashedInput (rotatedTimes secocTestKey (ascii "rear_right/10002") 0)) ∧
    hashedInput (rotatedTimes secocTestKey (ascii "front_left/1") 65536) =
      hashedInput (rotatedTimes secocTestKey (ascii "front_left/1") 0) := by
  rw [hashedInput_eq_iff, hashedInput_eq_iff]
  decide

end Genoh.KeySeparation
