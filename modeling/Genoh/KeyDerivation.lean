import Genoh.Hkdf
import Genoh.MasterKeys

/-!
# The derivation against its RFC

The loop of `hkdf_sha256` stops at the first length that covers the output, with a counter byte
that Python refuses to make behind 255. Its blocks are those of RFC 5869.
-/
namespace Genoh.KeyDerivation

open Genoh.Bytes Genoh.Hmac Genoh.Hkdf Genoh.MasterKeys

theorem extract_eq_prk (ikm salt : List Byte) : extract ikm salt = prk hmacSha256 32 salt ikm := rfl

/-- What a turn of the loop appends is the next block. -/
theorem block_turn (key info : List Byte) {turns : Nat} (h : turns < 255) :
    hmacSha256 key (block hmacSha256 key info (255 - (turns + 1)) ++ info ++
      [BitVec.ofNat 8 (255 - turns)]) = block hmacSha256 key info (255 - turns) := by
  obtain ⟨done, hdone⟩ : ∃ done, 255 - turns = done + 1 := ⟨254 - turns, by omega⟩
  have hbefore : 255 - (turns + 1) = done := by omega
  rw [hbefore, hdone, block]

theorem blocks_turn (key info : List Byte) {turns : Nat} (h : turns < 255) :
    blocks hmacSha256 key info (255 - (turns + 1)) ++ block hmacSha256 key info (255 - turns) =
      blocks hmacSha256 key info (255 - turns) := by
  obtain ⟨done, hdone⟩ : ∃ done, 255 - turns = done + 1 := ⟨254 - turns, by omega⟩
  have hbefore : 255 - (turns + 1) = done := by omega
  rw [hbefore, hdone, blocks]

/-- The loop has the last block in `t` and all blocks so far in the output: what is left of it
cuts the 255 blocks to the length, or asks for a further one. -/
theorem expand_blocks (key info : List Byte) (length : Nat) {turns : Nat} (h : turns ≤ 255) :
    expand key info length turns (block hmacSha256 key info (255 - turns))
        (blocks hmacSha256 key info (255 - turns)) =
      if length ≤ maxLength 32 then .ok ((blocks hmacSha256 key info 255).take length)
      else .error (.valueError "bytes must be in range(0, 256)") := by
  have houtput : ∀ n, (blocks hmacSha256 key info n).length = 32 * n :=
    blocks_length hmacSha256 32 hmacSha256_length key info
  have hmax : maxLength 32 = 8160 := rfl
  induction turns with
  | zero =>
    rw [expand, houtput]
    by_cases hlong : length ≤ maxLength 32
    · rw [if_neg (by omega), if_pos hlong]
    · rw [if_pos (by omega), if_neg hlong]
  | succ turns ih =>
    by_cases hmore : (blocks hmacSha256 key info (255 - (turns + 1))).length < length
    · rw [expand_turn key info turns _ hmore, block_turn key info (by omega),
        blocks_turn key info (by omega)]
      exact ih (by omega)
    · have hfill : length ≤ 32 * (255 - (turns + 1)) := by
        rw [← houtput]
        omega
      rw [expand_done key info (turns + 1) _ (by omega), if_pos (by omega),
        ← take_blocks hmacSha256 32 hmacSha256_length key info hfill (Nat.sub_le 255 (turns + 1))]

/-- Up to 255 digests the output is that of the RFC over the reference HMAC, so that shorter outputs are
fronts of longer ones; beyond them it raises. -/
theorem hkdfSha256_eq_okm (ikm salt info : List Byte) (length : Nat) :
    (length ≤ 8160 →
      hkdfSha256 ikm salt info length = .ok (okm hmacSha256 32 ikm salt info length)) ∧
    (∀ longer, length ≤ longer → longer ≤ 8160 → ∃ short long,
      hkdfSha256 ikm salt info length = .ok short ∧ hkdfSha256 ikm salt info longer = .ok long ∧
        short <+: long) ∧
    (8160 < length → ∃ error, hkdfSha256 ikm salt info length = .error error) := by
  have hmax : maxLength 32 = 8160 := rfl
  have hrun : ∀ l, hkdfSha256 ikm salt info l = if l ≤ maxLength 32 then
      .ok ((blocks hmacSha256 (prk hmacSha256 32 salt ikm) info 255).take l)
      else .error (.valueError "bytes must be in range(0, 256)") := by
    intro l
    rw [← extract_eq_prk]
    exact expand_blocks (extract ikm salt) info l (Nat.le_refl 255)
  have hreference : ∀ l, l ≤ 8160 →
      hkdfSha256 ikm salt info l = .ok (okm hmacSha256 32 ikm salt info l) := by
    intro l hl
    rw [hrun, if_pos (by omega),
      okm_eq_take hmacSha256 32 (by decide) hmacSha256_length ikm salt info (by omega)]
  constructor
  · exact hreference length
  constructor
  · intro longer hle hlonger
    exact ⟨_, _, hreference length (by omega), hreference longer hlonger,
      okm_prefix hmacSha256 32 (by decide) hmacSha256_length ikm salt info hle (by omega)⟩
  · intro hlong
    exact ⟨_, by rw [hrun, if_neg (by omega)]⟩

end Genoh.KeyDerivation
