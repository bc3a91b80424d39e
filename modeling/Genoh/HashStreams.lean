import Genoh.CheckedHash

/-!
# Streams through the firmware's SHA-256

One context, any number of `sha256_update` calls, then `sha256_final`, with the
fill counter as the byte it is: the buffer is never full between two calls, the
padding loop ends, and the digest is that of everything that went in.
-/
namespace Genoh.HashStreams

open Genoh.Bytes Genoh.Checked Genoh.CheckedMemory Genoh.CheckedHash
open Genoh.FirmwareSecOC (Sha256Ctx)

variable (locals : HashLocals)

/-- Successive calls of `sha256_update`, one a piece. -/
def updates (ctx : Ctx) (pieces : List (List Byte)) : Checked Fault Ctx :=
  pieces.foldlM (fun ctx piece => sha256Update locals ctx piece 0 piece.length) ctx

/-- The context holds the message `m`: whole blocks are chained, fewer than 64 bytes wait. -/
structure Holds (ctx : Ctx) (m : List Byte) : Prop where
  stream : ∃ c : Sha256Ctx, ctx = held c ∧ FirmwareHash.Absorbed c m
  total : ctx.totalLen = BitVec.ofNat 64 m.length

theorem Holds.bufLen_lt {ctx : Ctx} {m : List Byte} (h : Holds ctx m) : ctx.bufLen.toNat < 64 := by
  obtain ⟨c, rfl, -⟩ := h.stream
  rw [held_bufLen]
  exact c.bufLen.isLt

/-- `sha256_init` makes a fresh context of whatever is in memory. -/
theorem sha256Init_holds (ctx : Ctx) (h : ctx.buf.length = 64) : Holds (sha256Init ctx) [] := by
  constructor
  · exact ⟨FirmwareSecOC.sha256Init ⟨ctx.state, ctx.buf, ctx.totalLen, 0⟩, rfl,
      FirmwareHash.sha256Init_absorbed _ h⟩
  · rfl

theorem sha256Update_holds {ctx : Ctx} {m : List Byte} (h : Holds ctx m) (piece : List Byte) :
    ∃ after, sha256Update locals ctx piece 0 piece.length = .ok after ∧
      Holds after (m ++ piece) := by
  obtain ⟨⟨c, rfl, habsorbed⟩, htotal⟩ := h
  have hupdate := sha256Update_ok locals c piece 0 piece.length habsorbed.room (by omega)
  rw [List.drop_zero, List.take_length] at hupdate
  refine ⟨_, hupdate, ⟨_, rfl, FirmwareHash.sha256Update_absorbed c piece m habsorbed⟩, ?_⟩
  have hlen : (FirmwareSecOC.sha256Update c piece).totalLen = c.totalLen + BitVec.ofNat 64 piece.length :=
    FirmwareHash.sha256Update_totalLen c piece
  have hbefore : c.totalLen = BitVec.ofNat 64 m.length := htotal
  rw [show (held (FirmwareSecOC.sha256Update c piece)).totalLen =
    (FirmwareSecOC.sha256Update c piece).totalLen from rfl, hlen, hbefore, List.length_append,
    BitVec.ofNat_add]

theorem updates_holds {ctx : Ctx} {m : List Byte} (h : Holds ctx m) (pieces : List (List Byte)) :
    ∃ after, updates locals ctx pieces = .ok after ∧ Holds after (m ++ pieces.flatten) := by
  induction pieces generalizing ctx m with
  | nil => exact ⟨ctx, rfl, by rwa [List.flatten_nil, List.append_nil]⟩
  | cons piece pieces ih =>
    obtain ⟨next, hnext, hholds⟩ := sha256Update_holds locals h piece
    obtain ⟨after, hafter, hend⟩ := ih hholds
    refine ⟨after, ?_, ?_⟩
    · rw [updates, List.foldlM_cons, hnext]
      exact hafter
    · rwa [List.flatten_cons, ← List.append_assoc]

theorem sha256Final_holds {ctx : Ctx} {m : List Byte} (h : Holds ctx m) (out : List Byte)
    (hout : out.length = 32) : sha256Final locals ctx out = .ok (Sha256.hash m) := by
  obtain ⟨⟨c, rfl, habsorbed⟩, htotal⟩ := h
  rw [sha256Final_ok locals c out habsorbed.room hout, FirmwareHash.sha256Final_eq c m habsorbed htotal]

/-- Over whatever the stack holds, and however a message is cut into pieces: every update returns with
fewer than 64 bytes waiting, and finishing returns the digest of the whole message, as the standard
defines it for fewer than 2^61 bytes. The HMAC is that of the standard for every key and all data. -/
theorem hash_streamed (state : Sha256.Work) (buf : Uninit Byte 64) (totalLen : BitVec 64)
    (bufLen : BitVec 8) (pieces : List (List Byte)) (out : Uninit Byte 32) (key data : List Byte) :
    (∃ after, updates locals (sha256Init ⟨state, buf.val, totalLen, bufLen⟩) pieces = .ok after ∧
      after.bufLen.toNat < 64 ∧
      sha256Final locals after out.val = .ok (Sha256.hash pieces.flatten)) ∧
    hmacSha256 locals key key.length data data.length out.val = .ok (Hmac.hmacSha256 key data) := by
  constructor
  · have hstart := sha256Init_holds ⟨state, buf.val, totalLen, bufLen⟩ buf.property
    obtain ⟨after, hafter, hholds⟩ := updates_holds locals hstart pieces
    rw [List.nil_append] at hholds
    exact ⟨after, hafter, hholds.bufLen_lt, sha256Final_holds locals hholds out.val out.property⟩
  · rw [hmacSha256_ok locals key key.length data data.length out.val (Nat.le_refl _)
      (Nat.le_refl _) out.property, List.take_length, List.take_length, FirmwareHash.hmacSha256_eq]

end Genoh.HashStreams
