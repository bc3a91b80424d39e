import Mathlib.Data.List.GetD
import Genoh.FirmwareSecOC

/-!
# The firmware's hash functions

The streaming SHA-256 of `secoc.c` computes the standard digest of everything that
went through `sha256_update`, in whatever pieces, and its HMAC is the standard one.
-/
namespace Genoh.FirmwareHash

open Genoh.Bytes
open Genoh.FirmwareSecOC
open Genoh.Sha256 (Word Work)

/-! ## Compression -/

theorem rotr_eq (x : Word) (n : Nat) (h : n < 32) : rotr x n = x.rotateRight n := by
  rw [rotr, BitVec.rotateRight_def, Nat.mod_eq_of_lt h]

theorem ep0_eq (x : Word) : ep0 x = Sha256.bigSigma0 x := by
  simp only [ep0, Sha256.bigSigma0, rotr_eq x 2 (by decide),
    rotr_eq x 13 (by decide), rotr_eq x 22 (by decide)]

theorem ep1_eq (x : Word) : ep1 x = Sha256.bigSigma1 x := by
  simp only [ep1, Sha256.bigSigma1, rotr_eq x 6 (by decide),
    rotr_eq x 11 (by decide), rotr_eq x 25 (by decide)]

theorem sig0_eq (x : Word) : sig0 x = Sha256.smallSigma0 x := by
  simp only [sig0, Sha256.smallSigma0, rotr_eq x 7 (by decide),
    rotr_eq x 18 (by decide)]

theorem sig1_eq (x : Word) : sig1 x = Sha256.smallSigma1 x := by
  simp only [sig1, Sha256.smallSigma1, rotr_eq x 17 (by decide),
    rotr_eq x 19 (by decide)]

theorem k_eq : k = Sha256.constants := rfl

theorem loadWord_eq (block : List Byte) (i : Nat) (h : 4 * i + 4 ≤ block.length) :
    loadWord block i = Sha256.wordAt block i := by
  have hbe := FirmwareE2E.getBe32_eq (block.drop (4 * i)) (by rw [List.length_drop]; omega)
  have hload : loadWord block i = FirmwareE2E.getBe32 (block.drop (4 * i)) := by
    simp [loadWord, FirmwareE2E.getBe32, List.getD_eq_getElem?_getD, List.getElem?_drop,
      Nat.mul_comm]
  apply BitVec.eq_of_toNat_eq
  rw [hload, Sha256.wordAt, BitVec.toNat_ofNat, ← hbe, Nat.mod_eq_of_lt (BitVec.isLt _)]

/-- The array loop computes the schedule, in its order of indices. -/
theorem extendSchedule_spec (block : List Byte) (hblock : block.length = 64) (n : Nat) :
    (extendSchedule block n).length = 16 + n ∧
      ∀ t, t < 16 + n → (extendSchedule block n).getD t 0 =
        Sha256.schedule (Sha256.wordAt block) t := by
  induction n with
  | zero =>
    refine ⟨by simp [extendSchedule], ?_⟩
    intro t ht
    rw [Sha256.schedule_lt _ _ ht, ← loadWord_eq block t (by omega)]
    simp [extendSchedule, List.getD_eq_getElem?_getD, ht]
  | succ n ih =>
    obtain ⟨hlen, hget⟩ := ih
    have hstep : extendSchedule block (n + 1) = extendSchedule block n ++
        [sig1 ((extendSchedule block n).getD (16 + n - 2) 0) +
          (extendSchedule block n).getD (16 + n - 7) 0 +
          sig0 ((extendSchedule block n).getD (16 + n - 15) 0) +
          (extendSchedule block n).getD (16 + n - 16) 0] := by
      simp [extendSchedule, List.range'_1_concat]
    refine ⟨by rw [hstep, List.length_append, hlen, List.length_singleton]; rfl, ?_⟩
    intro t ht
    rw [hstep]
    by_cases hlast : t < 16 + n
    · rw [List.getD_append _ _ _ _ (by omega), hget t hlast]
    · have heq : t = 16 + n := by omega
      subst heq
      rw [List.getD_append_right _ _ _ _ (by omega), hlen, Nat.sub_self,
        Sha256.schedule_ge _ _ (by omega), hget _ (by omega), hget _ (by omega), hget _ (by omega),
        hget _ (by omega), sig1_eq, sig0_eq]
      rfl

theorem transformRound_eq (ki wi : Word) (s : Work) :
    transformRound ki wi s = Sha256.round ki wi s := by
  simp only [transformRound, Sha256.round, ep0_eq, ep1_eq]
  rfl

/-- The transform is the compression function. -/
theorem sha256Transform_eq (s : Work) (block : List Byte) (hblock : block.length = 64) :
    sha256Transform s block = Sha256.compress s block := by
  have hrounds : (List.range 64).foldl
      (fun r i => transformRound (k.getD i 0) ((extendSchedule block 48).getD i 0) r) s =
      Sha256.rounds (Sha256.schedule (Sha256.wordAt block)) s := by
    apply List.foldl_ext
    intro r t ht
    rw [transformRound_eq, k_eq, (extendSchedule_spec block hblock 48).2 t (List.mem_range.mp ht)]
  simp only [sha256Transform, hrounds, Sha256.compress]

/-! ## Streaming -/

/-- The context after the message `m` has gone in: whole blocks are chained, the rest waits. -/
structure Absorbed (ctx : Sha256Ctx) (m : List Byte) : Prop where
  room : ctx.buf.length = 64
  waiting : ctx.bufLen.val = m.length % 64
  rest : ctx.buf.take ctx.bufLen.val = m.drop (64 * (m.length / 64))
  state : ctx.state = Sha256.chain (m.length / 64) m

theorem memcpy_length (dst : List Byte) (off : Nat) (src : List Byte)
    (h : off + src.length ≤ dst.length) : (memcpy dst off src).length = dst.length := by
  simp [memcpy]
  omega

theorem memcpy_take (dst : List Byte) (off : Nat) (src : List Byte) (h : off ≤ dst.length) :
    (memcpy dst off src).take (off + src.length) = dst.take off ++ src := by
  rw [memcpy]
  exact List.take_left' (by simp; omega)

theorem sha256Init_absorbed (ctx : Sha256Ctx) (h : ctx.buf.length = 64) :
    Absorbed (sha256Init ctx) [] := by
  constructor
  · exact h
  · rfl
  · simp [sha256Init]
  · rfl

/-- The bytes of a partly filled last block. -/
theorem rest_append (m more : List Byte) :
    (m ++ more).drop (64 * (m.length / 64)) = m.drop (64 * (m.length / 64)) ++ more :=
  List.drop_append_of_le_length (by omega)

theorem append_chunk (m data : List Byte) (n : Nat) :
    m ++ data = (m ++ data.take n) ++ data.drop n := by
  rw [List.append_assoc, List.take_append_drop]

theorem take_fillChunk_length (ctx : Sha256Ctx) (data : List Byte) :
    (data.take (fillChunk ctx data.length)).length = fillChunk ctx data.length := by
  rw [List.length_take, Nat.min_eq_left (fillChunk_le ctx data.length)]

/-- The buffer after a chunk was copied behind the waiting bytes. -/
theorem memcpy_chunk (ctx : Sha256Ctx) (data m : List Byte) (h : Absorbed ctx m) :
    (memcpy ctx.buf ctx.bufLen.val (data.take (fillChunk ctx data.length))).length = 64 ∧
    (memcpy ctx.buf ctx.bufLen.val (data.take (fillChunk ctx data.length))).take
      (ctx.bufLen.val + fillChunk ctx data.length) =
      m.drop (64 * (m.length / 64)) ++ data.take (fillChunk ctx data.length) := by
  have hlen := take_fillChunk_length ctx data
  have hfits := fillChunk_fits ctx data.length
  constructor
  · rw [memcpy_length _ _ _ (by rw [hlen, h.room]; exact hfits), h.room]
  · have htake := memcpy_take ctx.buf ctx.bufLen.val (data.take (fillChunk ctx data.length))
      (by rw [h.room]; omega)
    rwa [hlen, h.rest] at htake

/-- The loop absorbs its data, by induction along its own recursion: each turn moves one
chunk from the data to the message. -/
theorem sha256Fill_absorbed (ctx : Sha256Ctx) (data : List Byte) (m : List Byte)
    (h : Absorbed ctx m) : Absorbed (sha256Fill ctx data) (m ++ data) := by
  fun_induction sha256Fill ctx data generalizing m with
  | case1 ctx => simpa using h
  | case2 ctx data hdata buf hfull ih =>
    have hlen := take_fillChunk_length ctx data
    have hwaiting := h.waiting
    obtain ⟨hbuf, hwhole⟩ := memcpy_chunk ctx data m h
    rw [hfull, List.take_of_length_le (Nat.le_of_eq hbuf)] at hwhole
    have hnew : (m ++ data.take (fillChunk ctx data.length)).length = 64 * (m.length / 64 + 1) := by
      rw [List.length_append, hlen]
      omega
    have hdiv : 64 * (m.length / 64 + 1) / 64 = m.length / 64 + 1 := by omega
    have hblock : Sha256.block (m ++ data.take (fillChunk ctx data.length)) (m.length / 64) = buf := by
      rw [Sha256.block, rest_append, ← hwhole]
      exact List.take_of_length_le (Nat.le_of_eq hbuf)
    rw [append_chunk m data (fillChunk ctx data.length)]
    apply ih
    constructor
    · exact hbuf
    · rw [hnew]
      simp
    · rw [hnew, hdiv, ← hnew, List.drop_length]
      simp
    · rw [hnew, hdiv, Sha256.chain_succ, hblock, Sha256.chain_append _ _ _ (by omega), ← h.state]
      exact sha256Transform_eq _ _ hbuf
  | case3 ctx data hdata buf hfull hfits ih =>
    have hlen := take_fillChunk_length ctx data
    have hwaiting := h.waiting
    obtain ⟨hbuf, htake⟩ := memcpy_chunk ctx data m h
    have hdiv : (m ++ data.take (fillChunk ctx data.length)).length / 64 = m.length / 64 := by
      rw [List.length_append, hlen]
      omega
    rw [append_chunk m data (fillChunk ctx data.length)]
    apply ih
    constructor
    · exact hbuf
    · rw [List.length_append, hlen]
      simp only
      omega
    · rw [hdiv, rest_append]
      exact htake
    · rw [hdiv, Sha256.chain_append _ _ _ (by omega)]
      exact h.state

theorem sha256Update_absorbed (ctx : Sha256Ctx) (data m : List Byte) (h : Absorbed ctx m) :
    Absorbed (sha256Update ctx data) (m ++ data) :=
  sha256Fill_absorbed _ data m ⟨h.room, h.waiting, h.rest, h.state⟩

theorem sha256Fill_totalLen (ctx : Sha256Ctx) (data : List Byte) :
    (sha256Fill ctx data).totalLen = ctx.totalLen := by
  fun_induction sha256Fill ctx data with
  | case1 ctx => rfl
  | case2 ctx data hdata buf hfull ih => exact ih
  | case3 ctx data hdata buf hfull hfits ih => exact ih

theorem sha256Update_totalLen (ctx : Sha256Ctx) (data : List Byte) :
    (sha256Update ctx data).totalLen = ctx.totalLen + BitVec.ofNat 64 data.length :=
  sha256Fill_totalLen _ data

/-! ## Padding -/

/-- The padding loop stops, with the fewest zeros that leave room for the length. -/
theorem sha256PadZeros_absorbed (ctx : Sha256Ctx) (m : List Byte) (h : Absorbed ctx m) :
    Absorbed (sha256PadZeros ctx) (m ++ List.replicate ((120 - m.length % 64) % 64) 0) := by
  fun_induction sha256PadZeros ctx generalizing m with
  | case1 ctx hmore ih =>
    have hwaiting := h.waiting
    have hone := ih (m ++ [0]) (sha256Update_absorbed ctx [0] m h)
    have hcount : (120 - m.length % 64) % 64 = (120 - (m ++ [(0 : Byte)]).length % 64) % 64 + 1 := by
      rw [List.length_append, List.length_singleton]
      omega
    rw [hcount, List.replicate_succ]
    simpa using hone
  | case2 ctx hdone =>
    have hwaiting := h.waiting
    have hcount : (120 - m.length % 64) % 64 = 0 := by omega
    rw [hcount]
    simpa using h

theorem lenBe_eq (n : Nat) (v : BitVec 64) : lenBe n v = beBytes n v.toNat := by
  induction n generalizing v with
  | zero => rfl
  | succ n ih =>
    rw [lenBe, beBytes, ih, BitVec.toNat_ushiftRight, Nat.shiftRight_eq_div_pow]
    rfl

/-- Finishing a context gives the digest of everything it absorbed. -/
theorem sha256Final_eq (ctx : Sha256Ctx) (m : List Byte) (h : Absorbed ctx m)
    (htotal : ctx.totalLen = BitVec.ofNat 64 m.length) : sha256Final ctx = Sha256.hash m := by
  have hbits : lenBe 8 (ctx.totalLen * 8) = beBytes 8 (8 * m.length) := by
    have hmod : (ctx.totalLen * 8).toNat = 8 * m.length % 256 ^ 8 := by
      rw [htotal, BitVec.toNat_mul, BitVec.toNat_ofNat]
      simp
      omega
    rw [lenBe_eq, hmod, beBytes_mod]
  have hzeros : (120 - (m ++ [(0x80 : Byte)]).length % 64) % 64 = Sha256.zeros m.length := by
    rw [List.length_append, List.length_singleton, Sha256.zeros]
    omega
  have hmarked := sha256Update_absorbed ctx [0x80] m h
  have hpadded := sha256PadZeros_absorbed _ _ hmarked
  have hwhole := sha256Update_absorbed _ (lenBe 8 (ctx.totalLen * 8)) _ hpadded
  have hmsg : m ++ [0x80] ++ List.replicate ((120 - (m ++ [(0x80 : Byte)]).length % 64) % 64) 0 ++
      lenBe 8 (ctx.totalLen * 8) = Sha256.pad m := by
    rw [hbits, hzeros, Sha256.pad]
    simp
  rw [hmsg] at hwhole
  have hput : FirmwareE2E.putBe32 = fun x => beBytes 4 x.toNat := funext FirmwareE2E.putBe32_eq
  simp only [sha256Final, hwhole.state, Sha256.hash, Sha256.digest, hput]

/-- Two pieces through a fresh context hash their concatenation. -/
theorem sha256_two_pieces (a b : List Byte) :
    sha256Final (sha256Update (sha256Update (sha256Init Sha256Ctx.stack) a) b) =
      Sha256.hash (a ++ b) := by
  have hstart := sha256Init_absorbed Sha256Ctx.stack (by simp [Sha256Ctx.stack])
  have hboth := sha256Update_absorbed _ b _ (sha256Update_absorbed _ a [] hstart)
  apply sha256Final_eq _ _ hboth
  rw [sha256Update_totalLen, sha256Update_totalLen]
  simp [sha256Init, BitVec.ofNat_add]

theorem sha256_eq (data : List Byte) : sha256 data = Sha256.hash data := by
  have hstart := sha256Init_absorbed Sha256Ctx.stack (by simp [Sha256Ctx.stack])
  apply sha256Final_eq _ _ (sha256Update_absorbed _ data [] hstart)
  rw [sha256Update_totalLen]
  simp [sha256Init]

/-- The hash of a message block by block, each schedule laid out once. -/
theorem hash_transforms (msg : List Byte) : Sha256.hash msg =
    Sha256.digest ((List.range ((Sha256.pad msg).length / 64)).foldl
      (fun s i => sha256Transform s (Sha256.block (Sha256.pad msg) i)) Sha256.initial) := by
  rw [Sha256.hash, Sha256.chain]
  refine congrArg Sha256.digest (List.foldl_ext _ _ _ fun s i hi => ?_)
  have hi := List.mem_range.mp hi
  have hblock : (Sha256.block (Sha256.pad msg) i).length = 64 := by
    rw [Sha256.block, List.length_take, List.length_drop]
    omega
  rw [sha256Transform_eq s _ hblock]

/-! ## HMAC -/

theorem xorKey_eq (c : Byte) (key : List Byte) (h : key.length ≤ 64) :
    xorKey (List.replicate 64 c) key = (Hmac.blockKey Sha256.hash 64 key).map (· ^^^ c) := by
  rw [Hmac.blockKey_map_xor Sha256.hash 64 c key h, xorKey, List.take_replicate,
    Nat.min_eq_left h, List.drop_replicate]

/-- A long key is replaced by its digest on both sides. -/
theorem blockKey_hashed (key : List Byte) (h : 64 < key.length) :
    Hmac.blockKey Sha256.hash 64 key = Hmac.blockKey Sha256.hash 64 (Sha256.hash key) := by
  simp [Hmac.blockKey, h]

/-- The firmware's HMAC is HMAC-SHA-256, for keys and data of any length. -/
theorem hmacSha256_eq (key data : List Byte) : hmacSha256 key data = Hmac.hmacSha256 key data := by
  have hshort : ∀ short : List Byte, short.length ≤ 64 →
      Hmac.blockKey Sha256.hash 64 short = Hmac.blockKey Sha256.hash 64 key →
      sha256Final (sha256Update (sha256Update (sha256Init Sha256Ctx.stack)
        (xorKey (List.replicate 64 0x5C) short)) (sha256Final (sha256Update (sha256Update
          (sha256Init Sha256Ctx.stack) (xorKey (List.replicate 64 0x36) short)) data))) =
        Hmac.hmacSha256 key data := by
    intro short hlen hsame
    rw [sha256_two_pieces, sha256_two_pieces, xorKey_eq _ short hlen, xorKey_eq _ short hlen, hsame]
    rfl
  by_cases hlong : key.length > 64
  · simp only [hmacSha256, if_pos hlong]
    exact hshort _ (by rw [sha256_eq, Sha256.hash_length]; decide)
      (by rw [sha256_eq, ← blockKey_hashed key hlong])
  · simp only [hmacSha256, if_neg hlong]
    exact hshort key (by omega) rfl

end Genoh.FirmwareHash
