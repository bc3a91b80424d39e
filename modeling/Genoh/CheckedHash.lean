import Genoh.CheckedMemory
import Genoh.FirmwareHash

/-!
# The firmware's hash functions in checked memory

`sha256_transform`, `sha256_update`, `sha256_final` and `hmac_sha256` of `secoc.c` access by
access. No access faults, and the values are those of the functions over lists.
-/
namespace Genoh.CheckedHash

open Genoh.Bytes Genoh.Checked Genoh.CheckedMemory
open Genoh.FirmwareSecOC (Sha256Ctx rotr ch maj ep0 ep1 sig0 sig1 k transformRound extendSchedule fillChunk
  lenBe)
open Genoh.Sha256 (Word Work)

/-- An array of `n` elements with whatever the memory holds. -/
abbrev Uninit (α : Type) (n : Nat) := { buf : List α // buf.length = n }

/-- The local arrays of the hash functions. -/
structure HashLocals where
  w : Uninit Word 64
  ctxBuf : Uninit Byte 64
  lenBe : Uninit Byte 8
  kPad : Uninit Byte 64
  tk : Uninit Byte 32
  inner : Uninit Byte 32

variable (locals : HashLocals)

/-! ## SHA-256 -/

/-- `sha256_ctx_t` with its `uint8_t` fill count. -/
structure Ctx where
  state : Work
  buf : List Byte
  totalLen : BitVec 64
  bufLen : BitVec 8

def sha256Init (ctx : Ctx) : Ctx :=
  { ctx with
    state := ⟨0x6a09e667, 0xbb67ae85, 0x3c6ef372, 0xa54ff53a,
      0x510e527f, 0x9b05688c, 0x1f83d9ab, 0x5be0cd19⟩
    totalLen := 0
    bufLen := 0 }

def loadWord (block : List Byte) (i : Nat) : Checked Fault Word := do
  let b0 ← load block (i * 4)
  let b1 ← load block (i * 4 + 1)
  let b2 ← load block (i * 4 + 2)
  let b3 ← load block (i * 4 + 3)
  return (b0.setWidth 32 <<< 24) ||| (b1.setWidth 32 <<< 16) ||| (b2.setWidth 32 <<< 8) |||
    b3.setWidth 32

/-- The schedule word of the second loop. -/
def extendWord (w : List Word) (i : Nat) : Checked Fault Word := do
  let w2 ← load w (← minus i 2)
  let w7 ← load w (← minus i 7)
  let w15 ← load w (← minus i 15)
  let w16 ← load w (← minus i 16)
  return sig1 w2 + w7 + sig0 w15 + w16

/-- The array `w` after the first two loops of `sha256_transform`. -/
def schedule (block : List Byte) : Checked Fault (List Word) := do
  let w ← (List.range' 0 16).foldlM (fun w i => do store w i (← loadWord block i)) locals.w.val
  (List.range' 16 48).foldlM (fun w i => do store w i (← extendWord w i)) w

def sha256Transform (s : Work) (block : List Byte) : Checked Fault Work := do
  let w ← schedule locals block
  let r ← (List.range 64).foldlM (fun r i => do
    let ki ← load k i
    let wi ← load w i
    return transformRound ki wi r) s
  return ⟨s.a + r.a, s.b + r.b, s.c + r.c, s.d + r.d, s.e + r.e, s.f + r.f, s.g + r.g, s.h + r.h⟩

/-- The loop of `sha256_update` over `len` bytes from `off` on. Every turn takes a byte, so the
budget is their number. -/
def updateLoop (data : List Byte) : Nat → Ctx → Nat → Nat → Checked Fault Ctx
  | 0, ctx, _, len => if len > 0 then .error .endless else .ok ctx
  | budget + 1, ctx, off, len =>
    if len > 0 then do
      let space ← minus 64 ctx.bufLen.toNat
      let chunk := if len < space then len else space
      let buf ← copy ctx.buf ctx.bufLen.toNat data off chunk
      let bufLen := ctx.bufLen + BitVec.ofNat 8 chunk
      let len ← minus len chunk
      if bufLen = 64 then
        let state ← sha256Transform locals ctx.state buf
        updateLoop data budget { ctx with state, buf, bufLen := 0 } (off + chunk) len
      else updateLoop data budget { ctx with buf, bufLen } (off + chunk) len
    else .ok ctx

def sha256Update (ctx : Ctx) (data : List Byte) (off len : Nat) : Checked Fault Ctx :=
  updateLoop locals data len { ctx with totalLen := ctx.totalLen + BitVec.ofNat 64 len } off len

/-- The padding loop of `sha256_final`; 63 zeros always suffice. -/
def padZeros : Nat → Ctx → Checked Fault Ctx
  | 0, ctx => if ctx.bufLen ≠ 56 then .error .endless else .ok ctx
  | budget + 1, ctx =>
    if ctx.bufLen ≠ 56 then do padZeros budget (← sha256Update locals ctx [0] 0 1) else .ok ctx

/-- The length bytes, stored from index `n - 1` down. -/
def storeLength : Nat → List Byte → BitVec 64 → Checked Fault (List Byte)
  | 0, buf, _ => .ok buf
  | n + 1, buf, bitLen => do storeLength n (← store buf n (bitLen.setWidth 8)) (bitLen >>> 8)

def storeWord (out : List Byte) (i : Nat) (s : Word) : Checked Fault (List Byte) := do
  let out ← store out (i * 4) ((s >>> 24).setWidth 8)
  let out ← store out (i * 4 + 1) ((s >>> 16).setWidth 8)
  let out ← store out (i * 4 + 2) ((s >>> 8).setWidth 8)
  store out (i * 4 + 3) (s.setWidth 8)

def stateWords (s : Work) : List Word := [s.a, s.b, s.c, s.d, s.e, s.f, s.g, s.h]

def sha256Final (ctx : Ctx) (out : List Byte) : Checked Fault (List Byte) := do
  let bitLen := ctx.totalLen * 8
  let ctx ← sha256Update locals ctx [0x80] 0 1
  let ctx ← padZeros locals 63 ctx
  let lenBe ← storeLength 8 locals.lenBe.val bitLen
  let ctx ← sha256Update locals ctx lenBe 0 8
  (List.range' 0 8).foldlM (fun out i => do storeWord out i (← load (stateWords ctx.state) i)) out

/-- A context on the stack. -/
def freshCtx : Ctx := ⟨⟨0, 0, 0, 0, 0, 0, 0, 0⟩, locals.ctxBuf.val, 0, 0⟩

def sha256 (data : List Byte) (len : Nat) (out : List Byte) : Checked Fault (List Byte) := do
  let ctx ← sha256Update locals (sha256Init (freshCtx locals)) data 0 len
  sha256Final locals ctx out

/-! ## HMAC -/

/-- `memset(k_pad, c, 64)` and the loop that adds the key. -/
def padKey (c : Byte) (key : List Byte) (keyLen : Nat) : Checked Fault (List Byte) := do
  let kPad ← storeSlice locals.kPad.val 0 (List.replicate 64 c)
  (List.range' 0 keyLen).foldlM (fun kPad i => do
    let p ← load kPad i
    let b ← load key i
    store kPad i (p ^^^ b)) kPad

/-- Two pieces of data through one context. -/
def hashPieces (kPad data : List Byte) (dataLen : Nat) (out : List Byte) : Checked Fault (List Byte) := do
  let ctx ← sha256Update locals (sha256Init (freshCtx locals)) kPad 0 64
  let ctx ← sha256Update locals ctx data 0 dataLen
  sha256Final locals ctx out

/-- The two hashes with a key of at most 64 bytes. -/
def hmacPadded (key : List Byte) (keyLen : Nat) (data : List Byte) (dataLen : Nat)
    (out : List Byte) : Checked Fault (List Byte) := do
  let kPad ← padKey locals 0x36 key keyLen
  let inner ← hashPieces locals kPad data dataLen locals.inner.val
  let kPad ← padKey locals 0x5C key keyLen
  hashPieces locals kPad inner 32 out

def hmacSha256 (key : List Byte) (keyLen : Nat) (data : List Byte) (dataLen : Nat)
    (out : List Byte) : Checked Fault (List Byte) :=
  if keyLen > 64 then do
    let tk ← sha256 locals key keyLen locals.tk.val
    hmacPadded locals tk 32 data dataLen out
  else hmacPadded locals key keyLen data dataLen out

/-! ## The transform -/

theorem loadWord_ok (block : List Byte) (i : Nat) (h : i * 4 + 4 ≤ block.length) :
    loadWord block i = .ok (FirmwareSecOC.loadWord block i) := by
  rw [loadWord, load_ok block (i * 4) 0 (by omega), load_ok block (i * 4 + 1) 0 (by omega),
    load_ok block (i * 4 + 2) 0 (by omega), load_ok block (i * 4 + 3) 0 (by omega)]
  rfl

theorem extendWord_ok (buf w : List Word) (i : Nat) (hi : 16 ≤ i) (hw : w.length = i) :
    extendWord (filled buf w) i = .ok (sig1 (w.getD (i - 2) 0) + w.getD (i - 7) 0 +
      sig0 (w.getD (i - 15) 0) + w.getD (i - 16) 0) := by
  rw [extendWord, minus_ok i 2 (by omega), minus_ok i 7 (by omega), minus_ok i 15 (by omega),
    minus_ok i 16 (by omega)]
  simp only [ok_bind]
  rw [load_filled buf w _ 0 (by omega), load_filled buf w _ 0 (by omega),
    load_filled buf w _ 0 (by omega), load_filled buf w _ 0 (by omega)]
  rfl

theorem schedule_ok (block : List Byte) (hblock : block.length = 64) :
    schedule locals block = .ok (extendSchedule block 48) := by
  have hsize := locals.w.property
  obtain ⟨hfirst, hlen⟩ := foldlM_filled 1 (f := fun w i => do store w i (← loadWord block i))
    (g := fun _ i => [FirmwareSecOC.loadWord block i]) locals.w.val 0 16 [] rfl (by
      intro w i _ hi hw
      rw [Nat.one_mul] at hw
      rw [loadWord_ok block i (by omega), ok_bind, ← hw, store_filled _ _ _ (by omega)]
      exact ⟨rfl, rfl⟩)
  obtain ⟨hsecond, hfull⟩ := foldlM_filled 1 (f := fun w i => do store w i (← extendWord w i))
    (g := fun w i => [sig1 (w.getD (i - 2) 0) + w.getD (i - 7) 0 + sig0 (w.getD (i - 15) 0) +
      w.getD (i - 16) 0]) locals.w.val 16 48 _ hlen (by
      intro w i hlow hi hw
      rw [Nat.one_mul] at hw
      rw [extendWord_ok _ w i hlow hw, ok_bind, ← hw, store_filled _ _ _ (by omega)]
      exact ⟨rfl, rfl⟩)
  have hinit : (List.range' 0 16).foldl (fun front i => front ++ [FirmwareSecOC.loadWord block i]) [] =
      (List.range 16).map (FirmwareSecOC.loadWord block) := by
    rw [← List.flatMap_eq_foldl, ← List.map_eq_flatMap, List.range_eq_range']
  rw [filled_nil] at hfirst
  rw [schedule, hfirst, ok_bind, hsecond, filled_full _ _ (by omega), hinit, extendSchedule]

theorem sha256Transform_ok (s : Work) (block : List Byte) (hblock : block.length = 64) :
    sha256Transform locals s block = .ok (FirmwareSecOC.sha256Transform s block) := by
  have hk : k.length = 64 := rfl
  have hw : (extendSchedule block 48).length = 64 := (FirmwareHash.extendSchedule_spec block hblock 48).1
  have hrounds := foldlM_ok (f := fun r i => do
      let ki ← load k i
      let wi ← load (extendSchedule block 48) i
      return transformRound ki wi r)
    (g := fun r i => transformRound (k.getD i 0) ((extendSchedule block 48).getD i 0) r)
    (P := fun _ => True) (List.range 64) s trivial (by
      intro r _ i hi
      have hi := List.mem_range.mp hi
      rw [load_ok k i 0 (by omega), load_ok (extendSchedule block 48) i 0 (by omega)]
      exact ⟨rfl, trivial⟩)
  rw [sha256Transform, schedule_ok locals block hblock, ok_bind, hrounds.1]
  rfl

/-! ## Update -/

/-- The context as the machine holds it. -/
def held (ctx : Sha256Ctx) : Ctx := ⟨ctx.state, ctx.buf, ctx.totalLen, BitVec.ofNat 8 ctx.bufLen.val⟩

theorem held_bufLen (ctx : Sha256Ctx) : (held ctx).bufLen.toNat = ctx.bufLen.val := by
  have hlt := ctx.bufLen.isLt
  rw [held, BitVec.toNat_ofNat, Nat.mod_eq_of_lt (by omega)]

/-- What is left of the piece lies behind the chunk. -/
theorem piece_rest {data piece : List Byte} {off : Nat}
    (hpiece : (data.drop off).take piece.length = piece) (n : Nat) :
    (data.drop (off + n)).take (piece.drop n).length = piece.drop n := by
  have hrest := congrArg (List.drop n) hpiece
  rwa [List.drop_take, List.drop_drop, ← List.length_drop] at hrest

/-- One turn: the chunk is copied in, and whether that fills the buffer. -/
theorem turn_ok {data piece : List Byte} {off : Nat} (ctx : Sha256Ctx) (hbuf : ctx.buf.length = 64)
    (hpiece : (data.drop off).take piece.length = piece) (hne : piece ≠ []) (budget : Nat) :
    updateLoop locals data (budget + 1) (held ctx) off piece.length =
      if ctx.bufLen.val + fillChunk ctx piece.length = 64 then do
        let state ← sha256Transform locals ctx.state
          (splice ctx.buf ctx.bufLen.val (piece.take (fillChunk ctx piece.length)))
        updateLoop locals data budget
          ⟨state, splice ctx.buf ctx.bufLen.val (piece.take (fillChunk ctx piece.length)),
            ctx.totalLen, 0⟩
          (off + fillChunk ctx piece.length) (piece.drop (fillChunk ctx piece.length)).length
      else updateLoop locals data budget
        ⟨ctx.state, splice ctx.buf ctx.bufLen.val (piece.take (fillChunk ctx piece.length)),
          ctx.totalLen, BitVec.ofNat 8 (ctx.bufLen.val + fillChunk ctx piece.length)⟩
        (off + fillChunk ctx piece.length) (piece.drop (fillChunk ctx piece.length)).length := by
  have hpos := List.length_pos_iff.mpr hne
  have hwaiting := held_bufLen ctx
  have hfits := FirmwareSecOC.fillChunk_fits ctx piece.length
  have hle := FirmwareSecOC.fillChunk_le ctx piece.length
  have hinside : off + piece.length ≤ data.length := by
    have hlen := congrArg List.length hpiece
    rw [List.length_take, List.length_drop] at hlen
    omega
  have hhead : (data.drop off).take (fillChunk ctx piece.length) =
      piece.take (fillChunk ctx piece.length) := by
    rw [← hpiece, List.take_take, hpiece, Nat.min_eq_left hle]
  have hchunk : (if piece.length < 64 - ctx.bufLen.val then piece.length else 64 - ctx.bufLen.val) =
      fillChunk ctx piece.length := rfl
  have hcopy := copy_ok ctx.buf ctx.bufLen.val data off (fillChunk ctx piece.length) (by omega)
    (by omega)
  rw [hhead] at hcopy
  have hcount : (held ctx).bufLen + BitVec.ofNat 8 (fillChunk ctx piece.length) =
      BitVec.ofNat 8 (ctx.bufLen.val + fillChunk ctx piece.length) := by
    rw [held, BitVec.ofNat_add]
  have hfull : BitVec.ofNat 8 (ctx.bufLen.val + fillChunk ctx piece.length) = 64 ↔
      ctx.bufLen.val + fillChunk ctx piece.length = 64 := by
    rw [← BitVec.toNat_inj, BitVec.toNat_ofNat, Nat.mod_eq_of_lt (by omega)]
    rfl
  rw [updateLoop, if_pos hpos, hwaiting, minus_ok 64 _ (by omega), ok_bind]
  dsimp only
  rw [hchunk, show (held ctx).buf = ctx.buf from rfl, hcopy, ok_bind, minus_ok _ _ hle, ok_bind,
    hcount, List.length_drop]
  simp only [hfull]
  rfl

theorem splice_chunk (ctx : Sha256Ctx) (piece : List Byte) (hbuf : ctx.buf.length = 64) :
    (splice ctx.buf ctx.bufLen.val (piece.take (fillChunk ctx piece.length))).length = 64 := by
  have hfits := FirmwareSecOC.fillChunk_fits ctx piece.length
  rw [splice_length _ _ _ (by rw [FirmwareHash.take_fillChunk_length]; omega), hbuf]

/-- The loop runs in bounds to its end, by induction along its recursion over lists. -/
theorem updateLoop_ok (data : List Byte) (budget : Nat) (ctx : Sha256Ctx) (off : Nat)
    (piece : List Byte) (hbuf : ctx.buf.length = 64)
    (hpiece : (data.drop off).take piece.length = piece) (hbudget : piece.length ≤ budget) :
    updateLoop locals data budget (held ctx) off piece.length =
      .ok (held (FirmwareSecOC.sha256Fill ctx piece)) := by
  fun_induction FirmwareSecOC.sha256Fill ctx piece generalizing off budget with
  | case1 ctx => cases budget <;> rfl
  | case2 ctx piece hne buf hfull ih =>
    have hpos := List.length_pos_iff.mpr hne
    have hchunkPos := FirmwareSecOC.fillChunk_pos ctx piece.length hpos
    obtain ⟨budget, rfl⟩ := Nat.exists_eq_succ_of_ne_zero (by omega : budget ≠ 0)
    rw [Nat.succ_eq_add_one, turn_ok locals ctx hbuf hpiece hne, if_pos hfull,
      sha256Transform_ok locals _ _ (splice_chunk ctx piece hbuf), ok_bind]
    apply ih
    · exact splice_chunk ctx piece hbuf
    · exact piece_rest hpiece _
    · rw [List.length_drop]
      omega
  | case3 ctx piece hne buf hfull hfits ih =>
    have hpos := List.length_pos_iff.mpr hne
    have hchunkPos := FirmwareSecOC.fillChunk_pos ctx piece.length hpos
    obtain ⟨budget, rfl⟩ := Nat.exists_eq_succ_of_ne_zero (by omega : budget ≠ 0)
    rw [Nat.succ_eq_add_one, turn_ok locals ctx hbuf hpiece hne, if_neg hfull]
    apply ih
    · exact splice_chunk ctx piece hbuf
    · exact piece_rest hpiece _
    · rw [List.length_drop]
      omega

theorem sha256Update_ok (ctx : Sha256Ctx) (data : List Byte) (off len : Nat)
    (hbuf : ctx.buf.length = 64) (hdata : off + len ≤ data.length) :
    sha256Update locals (held ctx) data off len =
      .ok (held (FirmwareSecOC.sha256Update ctx ((data.drop off).take len))) := by
  have hlen : ((data.drop off).take len).length = len := by
    rw [List.length_take, List.length_drop]
    omega
  have hloop := updateLoop_ok locals data len { ctx with totalLen := ctx.totalLen + BitVec.ofNat 64 len }
    off ((data.drop off).take len) hbuf (by rw [hlen]) (Nat.le_of_eq hlen)
  rw [hlen] at hloop
  rw [FirmwareSecOC.sha256Update, hlen]
  exact hloop

theorem sha256Fill_room (ctx : Sha256Ctx) (piece : List Byte) (hbuf : ctx.buf.length = 64) :
    (FirmwareSecOC.sha256Fill ctx piece).buf.length = 64 := by
  fun_induction FirmwareSecOC.sha256Fill ctx piece with
  | case1 ctx => exact hbuf
  | case2 ctx piece hne buf hfull ih => exact ih (splice_chunk ctx piece hbuf)
  | case3 ctx piece hne buf hfull hfits ih => exact ih (splice_chunk ctx piece hbuf)

theorem sha256Update_room (ctx : Sha256Ctx) (data : List Byte) (hbuf : ctx.buf.length = 64) :
    (FirmwareSecOC.sha256Update ctx data).buf.length = 64 := sha256Fill_room _ data hbuf

/-! ## Final -/

theorem padZeros_ok (budget : Nat) (ctx : Sha256Ctx) (hbuf : ctx.buf.length = 64)
    (hbudget : (120 - ctx.bufLen.val) % 64 ≤ budget) :
    padZeros locals budget (held ctx) = .ok (held (FirmwareSecOC.sha256PadZeros ctx)) := by
  have hdone : ∀ ctx : Sha256Ctx, (held ctx).bufLen ≠ 56 ↔ ctx.bufLen.val ≠ 56 := by
    intro ctx
    rw [not_iff_not, ← held_bufLen, ← BitVec.toNat_inj]
    rfl
  fun_induction FirmwareSecOC.sha256PadZeros ctx generalizing budget with
  | case1 ctx hmore ih =>
    have hlt := ctx.bufLen.isLt
    obtain ⟨budget, rfl⟩ := Nat.exists_eq_succ_of_ne_zero (by omega : budget ≠ 0)
    rw [Nat.succ_eq_add_one, padZeros, if_pos ((hdone ctx).mpr hmore),
      sha256Update_ok locals ctx [0] 0 1 hbuf (by decide), ok_bind]
    apply ih
    · exact sha256Update_room ctx _ hbuf
    · rw [FirmwareSecOC.sha256Update_bufLen, List.length_singleton]
      omega
  | case2 ctx hfull =>
    cases budget with
    | zero => rw [padZeros, if_neg (mt (hdone ctx).mp hfull)]
    | succ budget => rw [padZeros, if_neg (mt (hdone ctx).mp hfull)]

theorem padZeros_room (ctx : Sha256Ctx) (hbuf : ctx.buf.length = 64) :
    (FirmwareSecOC.sha256PadZeros ctx).buf.length = 64 := by
  fun_induction FirmwareSecOC.sha256PadZeros ctx with
  | case1 ctx hmore ih => exact ih (sha256Update_room ctx _ hbuf)
  | case2 ctx hdone => exact hbuf

theorem storeLength_ok (n : Nat) (buf : List Byte) (bitLen : BitVec 64) (h : n ≤ buf.length) :
    storeLength n buf bitLen = .ok (lenBe n bitLen ++ buf.drop n) := by
  induction n generalizing buf bitLen with
  | zero => rfl
  | succ n ih =>
    have htail : (buf.set n (bitLen.setWidth 8)).drop n = bitLen.setWidth 8 :: buf.drop (n + 1) := by
      rw [List.set_eq_take_append_cons_drop, if_pos (by omega)]
      exact List.drop_left' (by rw [List.length_take]; omega)
    rw [storeLength, store_ok _ _ _ (by omega), ok_bind, ih _ _ (by rw [List.length_set]; omega),
      htail, lenBe, List.append_assoc, List.singleton_append]

theorem storeWord_ok (out front : List Byte) (i : Nat) (s : Word) (hfront : front.length = 4 * i)
    (hout : 4 * i + 4 ≤ out.length) :
    storeWord (filled out front) i s = .ok (filled out (front ++ FirmwareE2E.putBe32 s)) := by
  have h0 := store_filled out front ((s >>> 24).setWidth 8) (by omega)
  have h1 := store_filled out (front ++ [(s >>> 24).setWidth 8]) ((s >>> 16).setWidth 8)
    (by rw [List.length_append, List.length_singleton]; omega)
  have h2 := store_filled out (front ++ [(s >>> 24).setWidth 8] ++ [(s >>> 16).setWidth 8])
    ((s >>> 8).setWidth 8) (by simp only [List.length_append, List.length_singleton]; omega)
  have h3 := store_filled out
    (front ++ [(s >>> 24).setWidth 8] ++ [(s >>> 16).setWidth 8] ++ [(s >>> 8).setWidth 8])
    (s.setWidth 8) (by simp only [List.length_append, List.length_singleton]; omega)
  simp only [List.length_append, List.length_singleton, hfront] at h0 h1 h2 h3
  rw [storeWord, Nat.mul_comm i 4, h0, ok_bind, h1, ok_bind, h2, ok_bind, h3]
  simp [FirmwareE2E.putBe32]

/-- The eight words of the state fill the digest. -/
theorem digest_ok (s : Work) (out : List Byte) (hout : out.length = 32) :
    (List.range' 0 8).foldlM (fun out i => do storeWord out i (← load (stateWords s) i)) out =
      .ok ([s.a, s.b, s.c, s.d, s.e, s.f, s.g, s.h].flatMap FirmwareE2E.putBe32) := by
  have hwords : (stateWords s).length = 8 := rfl
  obtain ⟨hloop, hlen⟩ := foldlM_filled 4
    (f := fun out i => do storeWord out i (← load (stateWords s) i))
    (g := fun _ i => FirmwareE2E.putBe32 ((stateWords s).getD i 0)) out 0 8 [] rfl (by
      intro front i _ hi hfront
      rw [load_ok _ i 0 (by omega), ok_bind, storeWord_ok out front i _ hfront (by omega)]
      exact ⟨rfl, rfl⟩)
  rw [filled_nil] at hloop
  rw [hloop, filled_full _ _ (by omega)]
  rfl

/-- Finishing a context fills the 32 bytes of the digest. -/
theorem sha256Final_ok (ctx : Sha256Ctx) (out : List Byte) (hbuf : ctx.buf.length = 64)
    (hout : out.length = 32) :
    sha256Final locals (held ctx) out = .ok (FirmwareSecOC.sha256Final ctx) := by
  have hmarked := sha256Update_room ctx [0x80] hbuf
  have hsize := locals.lenBe.property
  have hpadded : (FirmwareSecOC.sha256PadZeros (FirmwareSecOC.sha256Update ctx [0x80])).buf.length =
      64 := padZeros_room _ hmarked
  have hlength : storeLength 8 locals.lenBe.val (ctx.totalLen * 8) =
      .ok (lenBe 8 (ctx.totalLen * 8)) := by
    rw [storeLength_ok 8 _ _ (by omega), List.drop_eq_nil_of_le (by omega), List.append_nil]
  have hwhole := sha256Update_ok locals (FirmwareSecOC.sha256PadZeros
    (FirmwareSecOC.sha256Update ctx [0x80])) (lenBe 8 (ctx.totalLen * 8)) 0 8 hpadded (Nat.le_of_eq rfl)
  have hmark : sha256Update locals (held ctx) [0x80] 0 1 =
      .ok (held (FirmwareSecOC.sha256Update ctx [0x80])) :=
    sha256Update_ok locals ctx [0x80] 0 1 hbuf (by decide)
  rw [sha256Final, show (held ctx).totalLen = ctx.totalLen from rfl, hmark, ok_bind]
  rw [padZeros_ok locals 63 _ hmarked (by omega), ok_bind, hlength, ok_bind, hwhole, ok_bind]
  exact digest_ok _ out hout

/-- A fresh context over the stack. -/
def stackCtx : Sha256Ctx := { Sha256Ctx.stack with buf := locals.ctxBuf.val }

theorem init_held : sha256Init (freshCtx locals) =
    held (FirmwareSecOC.sha256Init (stackCtx locals)) := rfl

theorem stackCtx_room : (FirmwareSecOC.sha256Init (stackCtx locals)).buf.length = 64 :=
  locals.ctxBuf.property

/-- What one piece through a fresh context hashes to does not depend on the stack. -/
theorem sha256_ok (data : List Byte) (len : Nat) (out : List Byte) (hdata : len ≤ data.length)
    (hout : out.length = 32) :
    sha256 locals data len out = .ok (FirmwareSecOC.sha256 (data.take len)) := by
  have hroom := stackCtx_room locals
  have hstart := FirmwareHash.sha256Init_absorbed (stackCtx locals) locals.ctxBuf.property
  rw [sha256, init_held, sha256Update_ok locals _ data 0 len hroom (by omega), ok_bind,
    sha256Final_ok locals _ out (sha256Update_room _ _ hroom) hout, List.drop_zero,
    FirmwareHash.sha256_eq]
  congr 1
  apply FirmwareHash.sha256Final_eq _ _ (FirmwareHash.sha256Update_absorbed _ _ [] hstart)
  rw [FirmwareHash.sha256Update_totalLen]
  simp [FirmwareSecOC.sha256Init]

/-! ## HMAC -/

theorem hashPieces_ok (kPad data : List Byte) (dataLen : Nat) (out : List Byte)
    (hkPad : kPad.length = 64) (hdata : dataLen ≤ data.length) (hout : out.length = 32) :
    hashPieces locals kPad data dataLen out =
      .ok (FirmwareSecOC.sha256Final (FirmwareSecOC.sha256Update (FirmwareSecOC.sha256Update
        (FirmwareSecOC.sha256Init Sha256Ctx.stack) kPad) (data.take dataLen))) := by
  have hroom := stackCtx_room locals
  have hstart := FirmwareHash.sha256Init_absorbed (stackCtx locals) locals.ctxBuf.property
  have hboth := FirmwareHash.sha256Update_absorbed _ (data.take dataLen) _
    (FirmwareHash.sha256Update_absorbed _ kPad [] hstart)
  have hfirst := sha256Update_room _ kPad hroom
  rw [hashPieces, init_held, sha256Update_ok locals _ kPad 0 64 hroom (by omega), ok_bind,
    List.drop_zero, List.take_of_length_le (Nat.le_of_eq hkPad),
    sha256Update_ok locals _ data 0 dataLen hfirst (by omega), ok_bind, List.drop_zero,
    sha256Final_ok locals _ out (sha256Update_room _ _ hfirst) hout, FirmwareHash.sha256_two_pieces]
  congr 1
  apply FirmwareHash.sha256Final_eq _ _ hboth
  rw [FirmwareHash.sha256Update_totalLen, FirmwareHash.sha256Update_totalLen]
  simp [FirmwareSecOC.sha256Init, BitVec.ofNat_add]

/-- The loop over `k_pad` adds the key into its front. -/
theorem padKey_ok (c : Byte) (key : List Byte) (keyLen : Nat) (hkey : keyLen ≤ key.length)
    (hshort : keyLen ≤ 64) :
    padKey locals c key keyLen =
      .ok (FirmwareSecOC.xorKey (List.replicate 64 c) (key.take keyLen)) := by
  have hset : storeSlice locals.kPad.val 0 (List.replicate 64 c) = .ok (List.replicate 64 c) := by
    have hsize := locals.kPad.property
    rw [storeSlice, if_pos (by rw [List.length_replicate]; omega), splice, List.take_zero,
      List.nil_append, List.drop_eq_nil_of_le (by rw [List.length_replicate]; omega),
      List.append_nil]
  have hlen : (key.take keyLen).length = keyLen := by
    rw [List.length_take, Nat.min_eq_left hkey]
  have hfold : (List.range' 0 keyLen).foldl (fun front i => front ++ [c ^^^ key.getD i 0]) [] =
      List.zipWith (· ^^^ ·) ((List.replicate 64 c).take keyLen) (key.take keyLen) := by
    rw [← List.flatMap_eq_foldl, ← List.map_eq_flatMap, List.take_replicate]
    apply List.ext_getElem
    · simp
      omega
    · intro i hi hi'
      rw [List.length_map, List.length_range'] at hi
      rw [List.getElem_map, List.getElem_range', List.getElem_zipWith, List.getElem_replicate,
        List.getElem_take, Nat.zero_add, Nat.one_mul, List.getD_eq_getElem _ _ (by omega)]
  obtain ⟨hloop, hfront⟩ := foldlM_filled 1
    (f := fun kPad i => do
      let p ← load kPad i
      let b ← load key i
      store kPad i (p ^^^ b))
    (g := fun _ i => [c ^^^ key.getD i 0]) (List.replicate 64 c) 0 keyLen [] rfl (by
      intro front i _ hi hfront
      rw [Nat.one_mul] at hfront
      have hpad : (List.replicate 64 c).getD i c = c := List.getD_replicate c (by omega)
      rw [load_filled_rest _ front i (Nat.le_of_eq hfront),
        load_ok _ i c (by rw [List.length_replicate]; omega), hpad, ok_bind,
        load_ok key i 0 (by omega), ok_bind, ← hfront,
        store_filled _ _ _ (by rw [List.length_replicate]; omega)]
      exact ⟨rfl, rfl⟩)
  rw [filled_nil, hfold] at hloop
  rw [hfold, Nat.one_mul, Nat.zero_add] at hfront
  rw [padKey, hset, ok_bind, hloop, FirmwareSecOC.xorKey, filled, hfront, hlen]

theorem hmacPadded_ok (key : List Byte) (keyLen : Nat) (data : List Byte) (dataLen : Nat)
    (out : List Byte) (hkey : keyLen ≤ key.length) (hshort : keyLen ≤ 64)
    (hdata : dataLen ≤ data.length) (hout : out.length = 32) :
    hmacPadded locals key keyLen data dataLen out =
      .ok (FirmwareSecOC.hmacSha256 (key.take keyLen) (data.take dataLen)) := by
  have hlen : (key.take keyLen).length = keyLen := by
    rw [List.length_take, Nat.min_eq_left hkey]
  have hpad : ∀ c : Byte,
      (FirmwareSecOC.xorKey (List.replicate 64 c) (key.take keyLen)).length = 64 := by
    intro c
    rw [FirmwareSecOC.xorKey, List.length_append, List.length_zipWith, List.length_take,
      List.length_drop, List.length_replicate, hlen]
    omega
  have hinner : ∀ kPad message : List Byte, (FirmwareSecOC.sha256Final (FirmwareSecOC.sha256Update
      (FirmwareSecOC.sha256Update (FirmwareSecOC.sha256Init Sha256Ctx.stack) kPad)
        message)).length = 32 := by
    intro kPad message
    rw [FirmwareHash.sha256_two_pieces, Sha256.hash_length]
  rw [hmacPadded, padKey_ok locals 0x36 key keyLen hkey hshort, ok_bind,
    hashPieces_ok locals _ data dataLen _ (hpad _) hdata locals.inner.property, ok_bind,
    padKey_ok locals 0x5C key keyLen hkey hshort, ok_bind,
    hashPieces_ok locals _ _ 32 out (hpad _) (Nat.le_of_eq (hinner _ _).symm) hout,
    List.take_of_length_le (Nat.le_of_eq (hinner _ _)), FirmwareSecOC.hmacSha256]
  simp only [if_neg (by omega : ¬ (key.take keyLen).length > 64)]

/-- Every access of the HMAC is in bounds, for keys and data of any length. -/
theorem hmacSha256_ok (key : List Byte) (keyLen : Nat) (data : List Byte) (dataLen : Nat)
    (out : List Byte) (hkey : keyLen ≤ key.length) (hdata : dataLen ≤ data.length)
    (hout : out.length = 32) :
    hmacSha256 locals key keyLen data dataLen out =
      .ok (FirmwareSecOC.hmacSha256 (key.take keyLen) (data.take dataLen)) := by
  unfold hmacSha256
  split
  · rename_i hlong
    have hlen : (key.take keyLen).length = keyLen := by
      rw [List.length_take, Nat.min_eq_left hkey]
    have hhash : (FirmwareSecOC.sha256 (key.take keyLen)).length = 32 := by
      rw [FirmwareHash.sha256_eq, Sha256.hash_length]
    rw [sha256_ok locals key keyLen _ hkey locals.tk.property, ok_bind,
      hmacPadded_ok locals _ 32 data dataLen out (Nat.le_of_eq hhash.symm) (by decide) hdata hout,
      List.take_of_length_le (Nat.le_of_eq hhash)]
    simp only [FirmwareSecOC.hmacSha256, if_pos (by omega : (key.take keyLen).length > 64),
      if_neg (by omega : ¬ (FirmwareSecOC.sha256 (key.take keyLen)).length > 64)]
  · rename_i hshort
    exact hmacPadded_ok locals key keyLen data dataLen out hkey (by omega) hdata hout

end Genoh.CheckedHash
