import Genoh.Sha256

/-!
# HMAC

The keyed hash of RFC 2104 over an arbitrary hash function with block size `size`.
-/
namespace Genoh.Hmac

open Genoh.Bytes

variable (hash : List Byte → List Byte) (size : Nat)

/-- The key as a whole block: hashed when too long, then filled up with zeros. -/
def blockKey (key : List Byte) : List Byte :=
  let key := if key.length > size then hash key else key
  key ++ List.replicate (size - key.length) 0

def hmac (key msg : List Byte) : List Byte :=
  let inner := hash ((blockKey hash size key).map (· ^^^ 0x36) ++ msg)
  hash ((blockKey hash size key).map (· ^^^ 0x5C) ++ inner)

/-- HMAC-SHA-256. -/
def hmacSha256 (key msg : List Byte) : List Byte := hmac Sha256.hash 64 key msg

@[simp] theorem hmacSha256_length (key msg : List Byte) : (hmacSha256 key msg).length = 32 := by
  simp [hmacSha256, hmac]

/-- Adding a short key at the front of a block of one repeated byte. -/
theorem blockKey_map_xor (c : Byte) (key : List Byte) (h : key.length ≤ size) :
    (blockKey hash size key).map (· ^^^ c) =
      List.zipWith (· ^^^ ·) (List.replicate key.length c) key ++
        List.replicate (size - key.length) c := by
  have hzip : ∀ k : List Byte,
      k.map (· ^^^ c) = List.zipWith (· ^^^ ·) (List.replicate k.length c) k := by
    intro k
    induction k with
    | nil => rfl
    | cons b k ih =>
      rw [List.map_cons, ih, List.length_cons, List.replicate_succ, List.zipWith_cons_cons,
        BitVec.xor_comm]
  rw [blockKey, if_neg (by omega), List.map_append, List.map_replicate, hzip]
  simp

/-! ## Equal codes -/

/-- Two texts with one digest. -/
def Collide (a b : List Byte) : Prop := a ≠ b ∧ hash a = hash b

theorem hash_eq_iff (a b : List Byte) : hash a = hash b ↔ Collide hash a b ∨ a = b := by
  constructor
  · intro h
    by_cases heq : a = b
    · exact .inr heq
    · exact .inl ⟨heq, h⟩
  · rintro (h | rfl)
    · exact h.2
    · rfl

/-- What the first of the two hashes of `hmac` reads. -/
def innerText (key msg : List Byte) : List Byte := (blockKey hash size key).map (· ^^^ 0x36) ++ msg

/-- What the second reads. -/
def outerText (key msg : List Byte) : List Byte :=
  (blockKey hash size key).map (· ^^^ 0x5C) ++ hash (innerText hash size key msg)

theorem hmac_eq_hash (key msg : List Byte) :
    hmac hash size key msg = hash (outerText hash size key msg) := rfl

theorem blockKey_length (key : List Byte) (h : key.length ≤ size) :
    (blockKey hash size key).length = size := by
  rw [blockKey, if_neg (by omega), List.length_append, List.length_replicate]
  omega

theorem blockKey_length_of_bounded (hhash : ∀ text, (hash text).length ≤ size) (key : List Byte) :
    (blockKey hash size key).length = size := by
  have hkey : (if key.length > size then hash key else key).length ≤ size := by
    split
    · exact hhash key
    · omega
  rw [blockKey, List.length_append, List.length_replicate]
  omega

/-- Short keys of one length have different blocks. -/
theorem blockKey_inj {key key' : List Byte} (hsize : key.length ≤ size)
    (hlen : key'.length = key.length) :
    blockKey hash size key = blockKey hash size key' ↔ key = key' := by
  constructor
  · intro hblock
    rw [blockKey, blockKey, if_neg (by omega), if_neg (by omega)] at hblock
    exact (List.append_inj hblock hlen.symm).1
  · rintro rfl
    rfl

/-- Two key blocks with what follows them, told apart: the blocks have one length. -/
theorem keyed_text_inj (c : Byte) {key key' rest rest' : List Byte}
    (hlen : (blockKey hash size key).length = (blockKey hash size key').length) :
    (blockKey hash size key).map (· ^^^ c) ++ rest =
      (blockKey hash size key').map (· ^^^ c) ++ rest' ↔
        blockKey hash size key = blockKey hash size key' ∧ rest = rest' := by
  constructor
  · intro h
    have hinj : Function.Injective fun b : Byte => b ^^^ c := fun a b hab =>
      (BitVec.xor_left_inj c).mp hab
    obtain ⟨hblocks, hrest⟩ := List.append_inj h (by rw [List.length_map, List.length_map, hlen])
    exact ⟨List.map_injective_iff.mpr hinj hblocks, hrest⟩
  · rintro ⟨hkey, rfl⟩
    rw [hkey]

/-- Two keys give one code just when a hash collides or neither their blocks nor the messages
differ. -/
theorem hmac_eq_iff_blocks {key key' msg msg' : List Byte}
    (hlen : (blockKey hash size key).length = (blockKey hash size key').length) :
    hmac hash size key msg = hmac hash size key' msg' ↔
      Collide hash (outerText hash size key msg) (outerText hash size key' msg') ∨
        blockKey hash size key = blockKey hash size key' ∧
          (Collide hash (innerText hash size key msg) (innerText hash size key' msg') ∨
            msg = msg') := by
  rw [hmac_eq_hash, hmac_eq_hash, hash_eq_iff hash]
  refine or_congr_right ?_
  rw [outerText, outerText, keyed_text_inj hash size 0x5C hlen, hash_eq_iff hash, innerText,
    innerText, keyed_text_inj hash size 0x36 hlen]
  constructor
  · rintro ⟨hkey, hcollide | ⟨-, hmsg⟩⟩
    · exact ⟨hkey, .inl hcollide⟩
    · exact ⟨hkey, .inr hmsg⟩
  · rintro ⟨hkey, hcollide | hmsg⟩
    · exact ⟨hkey, .inl hcollide⟩
    · exact ⟨hkey, .inr ⟨hkey, hmsg⟩⟩

/-- Two keys of one length give one code just when a hash collides or nothing differs. -/
theorem hmac_eq_iff {key key' msg msg' : List Byte} (hsize : key.length ≤ size)
    (hlen : key'.length = key.length) :
    hmac hash size key msg = hmac hash size key' msg' ↔
      Collide hash (outerText hash size key msg) (outerText hash size key' msg') ∨
        key = key' ∧ (Collide hash (innerText hash size key msg) (innerText hash size key' msg') ∨
          msg = msg') := by
  rw [hmac_eq_iff_blocks hash size (by
    rw [blockKey_length hash size key hsize, blockKey_length hash size key' (by omega)]),
    blockKey_inj hash size hsize hlen]

end Genoh.Hmac
