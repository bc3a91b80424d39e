import Genoh.Bytes

/-!
# HKDF

The key derivation of RFC 5869 over an arbitrary keyed hash `mac` with digests of `hashLen`
bytes: a key is extracted from the input, and the output is expanded from it block by block.
-/
namespace Genoh.Hkdf

open Genoh.Bytes

variable (mac : List Byte → List Byte → List Byte) (hashLen : Nat)

/-- The pseudorandom key; the salt left out is a block of zeros. -/
def prk (salt ikm : List Byte) : List Byte :=
  mac (if salt = [] then List.replicate hashLen 0 else salt) ikm

/-- The block T(i), chained to the one before it; T(0) is empty. -/
def block (prk info : List Byte) : Nat → List Byte
  | 0 => []
  | i + 1 => mac prk (block prk info i ++ info ++ [BitVec.ofNat 8 (i + 1)])

/-- T(1), …, T(n) in a row. -/
def blocks (prk info : List Byte) : Nat → List Byte
  | 0 => []
  | n + 1 => blocks prk info n ++ block mac prk info (n + 1)

/-- The number of blocks that an output takes: the length over `hashLen`, rounded up. -/
def blockCount (length : Nat) : Nat := (length + (hashLen - 1)) / hashLen

/-- The output keying material. -/
def okm (ikm salt info : List Byte) (length : Nat) : List Byte :=
  (blocks mac (prk mac hashLen salt ikm) info (blockCount hashLen length)).take length

/-- The longest output: 255 blocks, as many as the counter byte tells apart. -/
def maxLength : Nat := 255 * hashLen

theorem blockCount_enough (hpos : 0 < hashLen) (length : Nat) :
    length ≤ hashLen * blockCount hashLen length := by
  have hdiv := Nat.div_add_mod (length + (hashLen - 1)) hashLen
  have hmod := Nat.mod_lt (length + (hashLen - 1)) hpos
  rw [blockCount]
  omega

theorem blockCount_le {length : Nat} (h : length ≤ maxLength hashLen) :
    blockCount hashLen length ≤ 255 := by
  rw [maxLength] at h
  rw [blockCount, ← Nat.lt_succ_iff]
  obtain hzero | hpos := Nat.eq_zero_or_pos hashLen
  · simp [hzero]
  · rw [Nat.div_lt_iff_lt_mul hpos]
    omega

section Blocks

variable (hlen : ∀ key text, (mac key text).length = hashLen) (key info : List Byte)

include hlen

theorem block_length (i : Nat) : (block mac key info (i + 1)).length = hashLen := hlen _ _

theorem blocks_length (n : Nat) : (blocks mac key info n).length = hashLen * n := by
  induction n with
  | zero => rfl
  | succ n ih => rw [blocks, List.length_append, ih, block_length mac hashLen hlen, Nat.mul_succ]

omit hlen in
theorem blocks_prefix {m n : Nat} (h : m ≤ n) :
    blocks mac key info m <+: blocks mac key info n := by
  induction n, h using Nat.le_induction with
  | base => exact List.prefix_rfl
  | succ n _ ih =>
    rw [blocks]
    exact ih.trans (List.prefix_append _ _)

/-- Further blocks do not change an output that the first ones fill. -/
theorem take_blocks {length m n : Nat} (hfill : length ≤ hashLen * m) (h : m ≤ n) :
    (blocks mac key info n).take length = (blocks mac key info m).take length := by
  obtain ⟨rest, hrest⟩ := blocks_prefix mac key info h
  rw [← hrest, List.take_append_of_le_length]
  rwa [blocks_length mac hashLen hlen]

end Blocks

section Okm

variable (hpos : 0 < hashLen) (hlen : ∀ key text, (mac key text).length = hashLen)
  (ikm salt info : List Byte)

include hpos hlen

/-- Every admissible output is a front of all the blocks. -/
theorem okm_eq_take {length : Nat} (h : length ≤ maxLength hashLen) :
    okm mac hashLen ikm salt info length =
      (blocks mac (prk mac hashLen salt ikm) info 255).take length := by
  rw [okm, take_blocks mac hashLen hlen _ _ (blockCount_enough hashLen hpos length)
    (blockCount_le hashLen h)]

/-- A shorter output is a front of a longer one. -/
theorem okm_prefix {short long : Nat} (h : short ≤ long) (hlong : long ≤ maxLength hashLen) :
    okm mac hashLen ikm salt info short <+: okm mac hashLen ikm salt info long := by
  rw [okm_eq_take mac hashLen hpos hlen ikm salt info (h.trans hlong),
    okm_eq_take mac hashLen hpos hlen ikm salt info hlong]
  exact List.take_prefix_take_left h

end Okm

end Genoh.Hkdf
