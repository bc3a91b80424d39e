import Genoh.HarmonyStream

/-!
# Batches on the stream

The read task of a client in `read.c` over the Harmony port: a batch is two bytes of length, least
significant first, and the bytes of its messages. The task takes what the socket has into its buffer
and gives whole batches to the decoder. Between two turns the decoder may have kept the buffer, and
what is left over moves to a new one.
-/
namespace Genoh.BatchStream

open Genoh.Bytes Genoh.HarmonyStream

/-! ## Buffer -/

/-- `_Z_MSG_LEN_ENC_SIZE` -/
def msgLenEncSize : Nat := 2

/-- `_z_zbuf_t`: the bytes up to the write position, which stay within the buffer. -/
structure Zbuf where
  capacity : Nat
  written : List Byte
  rpos : Nat
  fits : written.length ≤ capacity

namespace Zbuf

/-- The bytes between the two positions. -/
def readable (z : Zbuf) : List Byte := z.written.drop z.rpos

/-- `_z_zbuf_len` -/
def len (z : Zbuf) : Nat := z.written.length - z.rpos

/-- `_z_zbuf_space_left` -/
def spaceLeft (z : Zbuf) : Nat := z.capacity - z.written.length

/-- `_z_zbuf_set_rpos` -/
def setRpos (z : Zbuf) (rpos : Nat) : Zbuf := { z with rpos := rpos }

theorem readable_fits (z : Zbuf) : z.readable.length ≤ z.capacity := by
  rw [readable, List.length_drop]
  exact (Nat.sub_le _ _).trans z.fits

theorem put_fits (z : Zbuf) {bytes : List Byte} (h : bytes.length ≤ z.spaceLeft) :
    (z.written ++ bytes).length ≤ z.capacity := by
  have hfits := z.fits
  rw [spaceLeft] at h
  rw [List.length_append]
  omega

/-- `_z_zbuf_compact`, and what `_z_unicast_update_rx_buffer` makes of a buffer that was kept. -/
def compact (z : Zbuf) : Zbuf where
  capacity := z.capacity
  written := z.readable
  rpos := 0
  fits := z.readable_fits

/-- Bytes behind the write position, as many as there is space for. -/
def put (z : Zbuf) (bytes : List Byte) (h : bytes.length ≤ z.spaceLeft) : Zbuf :=
  { z with written := z.written ++ bytes, fits := z.put_fits h }

@[simp] theorem readable_compact (z : Zbuf) : z.compact.readable = z.readable := rfl

theorem readable_length (z : Zbuf) : z.readable.length = z.written.length - z.rpos :=
  List.length_drop

theorem readable_skip (z : Zbuf) (n : Nat) : (z.setRpos (z.rpos + n)).readable = z.readable.drop n :=
  List.drop_drop.symm

theorem len_eq (z : Zbuf) : z.len = z.readable.length := by rw [len, readable, List.length_drop]

end Zbuf

/-- The length that the two bytes tell, least significant first. -/
def streamSize : List Byte → Nat
  | lsb :: msb :: _ => lsb.toNat + 256 * msb.toNat
  | _ => 0

/-! ## Task -/

/-- The buffer of the transport, and its socket. -/
structure Node where
  zbuf : Zbuf
  socket : Socket

section Task

variable (rounds : Nat → Round)

theorem read_written_le (s : Socket) (len : Nat) : (zReadTcp rounds s len).written.length ≤ len := by
  rw [zReadTcp]
  obtain ⟨-, -, hnone⟩ | ⟨s', -, hread⟩ := readTries_cases rounds len 100 s
  · rw [hnone]
    exact Nat.zero_le len
  · rw [hread]
    exact (arrayGet_piece_length s' len).trans_le (piece_le s' len).2.1

/-- `_z_link_socket_recv_zbuf` -/
def recvZbuf (n : Node) : Node :=
  let r := zReadTcp rounds n.socket n.zbuf.spaceLeft
  if r.result ≠ sizeMax then
    ⟨n.zbuf.put r.written (read_written_le rounds n.socket n.zbuf.spaceLeft), r.socket⟩
  else ⟨n.zbuf, r.socket⟩

/-- `_z_unicast_client_read` on a stream: the length of a batch that is there as a whole. -/
def clientRead (n : Node) : Option Nat × Node :=
  let n := if n.zbuf.len < msgLenEncSize then recvZbuf rounds n else n
  if n.zbuf.len < msgLenEncSize then (none, { n with zbuf := n.zbuf.compact })
  else
    let toRead := streamSize n.zbuf.readable
    let n := { n with zbuf := n.zbuf.setRpos (n.zbuf.rpos + msgLenEncSize) }
    let n := if n.zbuf.len < toRead then recvZbuf rounds n else n
    if n.zbuf.len < toRead then
      (none, { n with zbuf := (n.zbuf.setRpos (n.zbuf.rpos - msgLenEncSize)).compact })
    else (some toRead, n)

/-- A turn of `_zp_unicast_read_task_fn`, and the batch that it gives to the decoder. `kept` says
whether the decoder keeps the buffer. -/
def readTask (n : Node) (kept : Bool) : Node × List (List Byte) :=
  match clientRead rounds n with
  | (none, n) => (n, [])
  | (some toRead, n) =>
    let batch := n.zbuf.readable.take toRead
    let zbuf := n.zbuf.setRpos (n.zbuf.rpos + toRead)
    (⟨if kept then zbuf.compact else zbuf, n.socket⟩, [batch])

/-- Some turns, for as long as the decoder takes the batches. -/
def readTasks : Node → List Bool → Node × List (List Byte)
  | n, [] => (n, [])
  | n, kept :: rest =>
    let (n, batch) := readTask rounds n kept
    let (n, later) := readTasks n rest
    (n, batch ++ later)

end Task

/-! ## Stream -/

/-- `__unsafe_z_finalize_wbuf`: a batch behind its length. -/
def batchBytes (batch : List Byte) : List Byte :=
  BitVec.ofNat 8 batch.length :: BitVec.ofNat 8 (batch.length / 256) :: batch

def wire (batches : List (List Byte)) : List Byte := batches.flatMap batchBytes

theorem streamSize_batchBytes {batch : List Byte} (h : batch.length < 65536) (rest : List Byte) :
    streamSize (batchBytes batch ++ rest) = batch.length := by
  simp only [batchBytes, List.cons_append, streamSize, BitVec.toNat_ofNat]
  omega

theorem streamSize_append {bytes : List Byte} (h : 2 ≤ bytes.length) (rest : List Byte) :
    streamSize (bytes ++ rest) = streamSize bytes := by
  match bytes, h with
  | lsb :: msb :: bytes, _ => rfl

/-- Two bytes and as many as they tell are a batch. -/
theorem batchBytes_of_size {bytes : List Byte} (h : 2 ≤ bytes.length) {batch : List Byte}
    (hsize : batch.length = streamSize bytes) : bytes.take 2 ++ batch = batchBytes batch := by
  match bytes, h with
  | lsb :: msb :: bytes, _ =>
    rw [streamSize] at hsize
    rw [batchBytes, hsize]
    have hlsb : BitVec.ofNat 8 (lsb.toNat + 256 * msb.toNat) = lsb := by
      apply BitVec.eq_of_toNat_eq
      rw [BitVec.toNat_ofNat]
      omega
    have hmsb : BitVec.ofNat 8 ((lsb.toNat + 256 * msb.toNat) / 256) = msb := by
      apply BitVec.eq_of_toNat_eq
      rw [BitVec.toNat_ofNat]
      omega
    rw [hlsb, hmsb]
    rfl

theorem batchBytes_length (batch : List Byte) : (batchBytes batch).length = batch.length + 2 := rfl

/-- The first bytes tell the first batch. -/
theorem batchBytes_prefix {batch batch' rest rest' : List Byte} (h : batch.length < 65536)
    (h' : batch'.length < 65536) (hfront : batchBytes batch ++ rest <+: batchBytes batch' ++ rest') :
    batch = batch' ∧ rest <+: rest' := by
  obtain ⟨tail, heq⟩ := hfront
  rw [List.append_assoc] at heq
  have hlength := congrArg streamSize heq
  rw [streamSize_batchBytes h, streamSize_batchBytes h'] at hlength
  obtain ⟨hhead, htail⟩ := List.append_inj heq (by
    rw [batchBytes_length, batchBytes_length, hlength])
  exact ⟨congrArg (List.drop 2) hhead, tail, htail⟩

theorem wire_cons (batch : List Byte) (batches : List (List Byte)) :
    wire (batch :: batches) = batchBytes batch ++ wire batches := List.flatMap_cons

/-! ## A turn -/

section Turn

variable (rounds : Nat → Round)

theorem next_refl (s : Socket) : Next rounds s [] s :=
  ⟨Nat.le_refl _, by rw [arrivals, Nat.sub_self]; simp⟩

theorem readTries_next (len tries : Nat) (s : Socket) :
    Next rounds s (readTries rounds len tries s).written (readTries rounds len tries s).socket := by
  induction tries generalizing s with
  | zero => exact next_refl rounds s
  | succ tries ih =>
    rw [readTries]
    dsimp only
    split
    · exact next_trans rounds (next_pass rounds s) (next_arrayGet rounds _ _)
    · split
      · exact next_pass rounds s
      · exact next_trans rounds (next_pass rounds s) (ih _)

/-- What a call of the port moves into the buffer. -/
structure Fetched (n n' : Node) (bytes : List Byte) : Prop where
  next : Next rounds n.socket bytes n'.socket
  written : n'.zbuf.written = n.zbuf.written ++ bytes
  rpos : n'.zbuf.rpos = n.zbuf.rpos
  capacity : n'.zbuf.capacity = n.zbuf.capacity

theorem recvZbuf_fetched (n : Node) :
    Fetched rounds n (recvZbuf rounds n) (zReadTcp rounds n.socket n.zbuf.spaceLeft).written := by
  have hnext := readTries_next rounds n.zbuf.spaceLeft 100 n.socket
  rw [recvZbuf]
  by_cases hresult : (zReadTcp rounds n.socket n.zbuf.spaceLeft).result ≠ sizeMax
  · rw [if_pos hresult]
    exact ⟨hnext, rfl, rfl, rfl⟩
  · rw [if_neg hresult]
    have hnone : (zReadTcp rounds n.socket n.zbuf.spaceLeft).written = [] := by
      rw [zReadTcp]
      obtain ⟨-, -, hnone⟩ | ⟨s', -, hread⟩ := readTries_cases rounds n.zbuf.spaceLeft 100 n.socket
      · exact hnone
      · rw [zReadTcp, hread, not_not] at hresult
        have hpiece := lt_of_eq_of_lt hresult.symm (piece_le s' n.zbuf.spaceLeft).2.2
        exact absurd hpiece (by decide)
    exact ⟨hnext, by rw [hnone, List.append_nil], rfl, rfl⟩

/-- A call that is made where the buffer is short of something. -/
def fetch (n : Node) (want : Nat) : Node := if n.zbuf.len < want then recvZbuf rounds n else n

theorem fetch_fetched (n : Node) (want : Nat) : ∃ bytes, Fetched rounds n (fetch rounds n want) bytes := by
  unfold fetch
  split
  · exact ⟨_, recvZbuf_fetched rounds n⟩
  · exact ⟨[], next_refl rounds n.socket, (List.append_nil _).symm, rfl, rfl⟩

theorem Fetched.readable {n n' : Node} {bytes : List Byte} (h : Fetched rounds n n' bytes)
    (hrpos : n.zbuf.rpos ≤ n.zbuf.written.length) :
    n'.zbuf.readable = n.zbuf.readable ++ bytes := by
  rw [Zbuf.readable, h.written, h.rpos, List.drop_append_of_le_length hrpos, Zbuf.readable]

theorem Fetched.behind {n n' : Node} {bytes : List Byte} (h : Fetched rounds n n' bytes)
    (hrpos : n.zbuf.rpos ≤ n.zbuf.written.length) : n'.zbuf.rpos ≤ n'.zbuf.written.length := by
  rw [h.written, h.rpos, List.length_append]
  exact hrpos.trans (Nat.le_add_right _ _)

/-- The node behind the two bytes of length. -/
def skipLength (n : Node) : Node :=
  { n with zbuf := n.zbuf.setRpos (n.zbuf.rpos + msgLenEncSize) }

theorem clientRead_eq (n : Node) : clientRead rounds n =
    let n₁ := fetch rounds n msgLenEncSize
    if n₁.zbuf.len < msgLenEncSize then (none, { n₁ with zbuf := n₁.zbuf.compact })
    else
      let toRead := streamSize n₁.zbuf.readable
      let n₂ := fetch rounds (skipLength n₁) toRead
      if n₂.zbuf.len < toRead then
        (none, { n₂ with zbuf := (n₂.zbuf.setRpos (n₂.zbuf.rpos - msgLenEncSize)).compact })
      else (some toRead, n₂) := rfl

/-- What a turn does: it takes bytes in and begins its buffer anew, or gives a batch away. -/
structure Turn (n n' : Node) (out : List (List Byte)) (bytes : List Byte) : Prop where
  next : Next rounds n.socket bytes n'.socket
  capacity : n'.zbuf.capacity = n.zbuf.capacity
  behind : n'.zbuf.rpos ≤ n'.zbuf.written.length
  out : (out = [] ∧ n'.zbuf.rpos = 0 ∧ n.zbuf.readable ++ bytes = n'.zbuf.readable) ∨
    ∃ batch, out = [batch] ∧ batch.length + 2 ≤ n.zbuf.capacity ∧
      n.zbuf.readable ++ bytes = batchBytes batch ++ n'.zbuf.readable

theorem skipLength_readable (n : Node) : (skipLength n).zbuf.readable = n.zbuf.readable.drop 2 :=
  n.zbuf.readable_skip 2

theorem readTask_turn (n : Node) (kept : Bool) (h : n.zbuf.rpos ≤ n.zbuf.written.length) :
    ∃ bytes, Turn rounds n (readTask rounds n kept).1 (readTask rounds n kept).2 bytes := by
  obtain ⟨bytes₁, h₁⟩ := fetch_fetched rounds n msgLenEncSize
  have hread₁ := h₁.readable rounds h
  have hbehind₁ := h₁.behind rounds h
  rw [readTask, clientRead_eq]
  dsimp only
  generalize fetch rounds n msgLenEncSize = n₁ at h₁ hread₁ hbehind₁ ⊢
  by_cases hshort : n₁.zbuf.len < msgLenEncSize
  · rw [if_pos hshort]
    exact ⟨bytes₁, h₁.next, h₁.capacity, Nat.zero_le _, .inl ⟨rfl, rfl, hread₁.symm⟩⟩
  rw [if_neg hshort]
  have htwo : 2 ≤ n₁.zbuf.readable.length := by
    rw [← Zbuf.len_eq]
    exact Nat.not_lt.mp hshort
  have hskip : (skipLength n₁).zbuf.rpos ≤ (skipLength n₁).zbuf.written.length := by
    rw [Zbuf.readable_length] at htwo
    change n₁.zbuf.rpos + 2 ≤ n₁.zbuf.written.length
    omega
  obtain ⟨bytes₂, h₂⟩ := fetch_fetched rounds (skipLength n₁) (streamSize n₁.zbuf.readable)
  have hread₂ := h₂.readable rounds hskip
  have hbehind₂ := h₂.behind rounds hskip
  rw [skipLength_readable] at hread₂
  generalize fetch rounds (skipLength n₁) (streamSize n₁.zbuf.readable) = n₂ at h₂ hread₂ hbehind₂ ⊢
  have hnext : Next rounds n.socket (bytes₁ ++ bytes₂) n₂.socket := next_trans rounds h₁.next h₂.next
  have hcapacity : n₂.zbuf.capacity = n.zbuf.capacity := h₂.capacity.trans h₁.capacity
  by_cases hpart : n₂.zbuf.len < streamSize n₁.zbuf.readable
  · rw [if_pos hpart]
    refine ⟨bytes₁ ++ bytes₂, hnext, hcapacity, Nat.zero_le _, .inl ⟨rfl, rfl, ?_⟩⟩
    have hrpos : n₂.zbuf.rpos - msgLenEncSize = n₁.zbuf.rpos := by
      rw [h₂.rpos]
      exact Nat.add_sub_cancel _ _
    change _ = n₂.zbuf.written.drop (n₂.zbuf.rpos - msgLenEncSize)
    rw [hrpos, h₂.written, ← List.append_assoc, ← hread₁]
    exact (List.drop_append_of_le_length hbehind₁).symm
  · rw [if_neg hpart]
    dsimp only
    have hlen : streamSize n₁.zbuf.readable ≤ n₂.zbuf.readable.length := by
      rw [← Zbuf.len_eq]
      exact Nat.not_lt.mp hpart
    have hbatch : (n₂.zbuf.readable.take (streamSize n₁.zbuf.readable)).length =
        streamSize n₁.zbuf.readable := by rw [List.length_take, Nat.min_eq_left hlen]
    refine ⟨bytes₁ ++ bytes₂, hnext, ?_, ?_, .inr ⟨_, rfl, ?_, ?_⟩⟩
    · cases kept <;> exact hcapacity
    · cases kept with
      | true => exact Nat.zero_le _
      | false =>
        change n₂.zbuf.rpos + streamSize n₁.zbuf.readable ≤ n₂.zbuf.written.length
        rw [n₂.zbuf.readable_length] at hlen
        omega
    · -- the two bytes lie in the buffer in front of the batch
      have hfits := n₂.zbuf.fits
      have hfront : n₂.zbuf.rpos = n₁.zbuf.rpos + 2 := h₂.rpos
      rw [n₂.zbuf.readable_length] at hlen
      rw [hbatch, ← hcapacity]
      omega
    · have hrest : (if kept then
          (n₂.zbuf.setRpos (n₂.zbuf.rpos + streamSize n₁.zbuf.readable)).compact
            else n₂.zbuf.setRpos (n₂.zbuf.rpos + streamSize n₁.zbuf.readable)).readable =
              n₂.zbuf.readable.drop (streamSize n₁.zbuf.readable) := by
        cases kept <;> exact n₂.zbuf.readable_skip _
      rw [hrest, ← batchBytes_of_size htwo hbatch, List.append_assoc, List.take_append_drop, hread₂,
        ← List.append_assoc, ← List.append_assoc, List.take_append_drop, hread₁]

/-- A call takes in what there is, as far as there is space. -/
theorem recvZbuf_enough (n : Node) (hcapacity : n.zbuf.capacity < 65536) {want : Nat}
    (hspace : want ≤ n.zbuf.capacity)
    (hthere : want ≤ n.zbuf.written.length + n.socket.unread.length) :
    want ≤ (recvZbuf rounds n).zbuf.written.length := by
  have hfetched := recvZbuf_fetched rounds n
  rw [hfetched.written, List.length_append]
  obtain hnil | hne := eq_or_ne n.socket.unread []
  · rw [hnil, List.length_nil] at hthere
    omega
  · obtain ⟨hvain, -, -⟩ | ⟨s', hdata, hread⟩ := readTries_cases rounds n.zbuf.spaceLeft 100 n.socket
    · rw [firstData, if_pos (by simp [Socket.pass, hne])] at hvain
      cases hvain
    · rw [firstData, if_pos (by simp [Socket.pass, hne])] at hdata
      obtain rfl := Option.some.inj hdata
      have hmore : n.socket.unread.length ≤ (n.socket.pass rounds).unread.length := by
        simp [Socket.pass]
      have hfits := n.zbuf.fits
      rw [zReadTcp, hread, arrayGet_piece_length, piece, getIsReady, toUint16, Zbuf.spaceLeft]
      omega

theorem fetch_enough (n : Node) (hcapacity : n.zbuf.capacity < 65536) (want : Nat) {whole : Nat}
    (hwant : n.zbuf.rpos + want ≤ whole) (hspace : whole ≤ n.zbuf.capacity)
    (hthere : whole ≤ n.zbuf.written.length + n.socket.unread.length) :
    want ≤ (fetch rounds n want).zbuf.len := by
  unfold fetch
  split
  · have henough := recvZbuf_enough rounds n hcapacity hspace hthere
    rw [Zbuf.len, (recvZbuf_fetched rounds n).rpos]
    omega
  · exact Nat.not_lt.mp ‹_›

/-- A whole batch at the beginning of the buffer or behind it goes out in the next turn. -/
theorem readTask_ready (n : Node) (kept : Bool) (hcapacity : n.zbuf.capacity < 65536)
    (hrpos : n.zbuf.rpos = 0) {batch : List Byte} (hfits : batch.length + 2 ≤ n.zbuf.capacity)
    (hthere : batchBytes batch <+: n.zbuf.readable ++ n.socket.unread) :
    (readTask rounds n kept).2 ≠ [] := by
  have hbehind : n.zbuf.rpos ≤ n.zbuf.written.length := by omega
  have hlength : batch.length + 2 ≤ n.zbuf.written.length + n.socket.unread.length := by
    have hle := hthere.length_le
    rwa [List.length_append, Zbuf.readable_length, hrpos, Nat.sub_zero, batchBytes_length] at hle
  obtain ⟨bytes₁, h₁⟩ := fetch_fetched rounds n msgLenEncSize
  have htwo := fetch_enough rounds n hcapacity msgLenEncSize
    (by rw [hrpos, msgLenEncSize]; omega) hfits hlength
  have hread₁ := h₁.readable rounds hbehind
  have hbehind₁ := h₁.behind rounds hbehind
  rw [readTask, clientRead_eq]
  dsimp only
  generalize fetch rounds n msgLenEncSize = n₁ at h₁ htwo hread₁ hbehind₁ ⊢
  rw [if_neg (Nat.not_lt.mpr htwo)]
  rw [Zbuf.len_eq] at htwo
  -- what was there is there still, in the buffer or behind it
  have hstream : n.zbuf.written ++ (n.socket.unread ++ arrivals rounds n.socket.time n₁.socket.time) =
      n₁.zbuf.written ++ n₁.socket.unread := by rw [h₁.next.stream, h₁.written, List.append_assoc]
  have hthere₁ : batchBytes batch <+: n₁.zbuf.readable ++ n₁.socket.unread := by
    have hrest : n.zbuf.readable ++ n.socket.unread <+: n₁.zbuf.readable ++ n₁.socket.unread := by
      refine ⟨arrivals rounds n.socket.time n₁.socket.time, ?_⟩
      rw [hread₁, List.append_assoc, h₁.next.stream, List.append_assoc]
    exact hthere.trans hrest
  have hsize : streamSize n₁.zbuf.readable = batch.length := by
    obtain ⟨tail, heq⟩ := hthere₁
    have hsame := congrArg streamSize heq
    rw [streamSize_batchBytes (by omega), streamSize_append htwo] at hsame
    exact hsame.symm
  have hrpos₁ : (skipLength n₁).zbuf.rpos = 2 := by
    change n₁.zbuf.rpos + 2 = 2
    rw [h₁.rpos, hrpos]
  have hlength₁ : batch.length + 2 ≤
      (skipLength n₁).zbuf.written.length + (skipLength n₁).socket.unread.length := by
    change _ ≤ n₁.zbuf.written.length + n₁.socket.unread.length
    rw [← List.length_append, ← hstream, List.length_append, List.length_append]
    omega
  have hbatch := fetch_enough rounds (skipLength n₁) (lt_of_eq_of_lt h₁.capacity hcapacity)
    batch.length (by rw [hrpos₁, Nat.add_comm]) (hfits.trans_eq h₁.capacity.symm) hlength₁
  rw [hsize, if_neg (Nat.not_lt.mpr hbatch)]
  exact List.cons_ne_nil _ _

end Turn

/-! ## Runs -/

section Runs

variable (rounds : Nat → Round)

/-- The bytes that come in are those of the batches that go out, and what the buffer has left. -/
theorem readTasks_stream (n : Node) (kept : List Bool) (h : n.zbuf.rpos ≤ n.zbuf.written.length) :
    ∃ bytes, Next rounds n.socket bytes (readTasks rounds n kept).1.socket ∧
      n.zbuf.readable ++ bytes =
        wire (readTasks rounds n kept).2 ++ (readTasks rounds n kept).1.zbuf.readable ∧
      ∀ batch ∈ (readTasks rounds n kept).2, batch.length + 2 ≤ n.zbuf.capacity := by
  induction kept generalizing n with
  | nil => exact ⟨[], next_refl rounds n.socket, by simp [readTasks, wire], by simp [readTasks]⟩
  | cons kept rest ih =>
    obtain ⟨bytes, hturn⟩ := readTask_turn rounds n kept h
    obtain ⟨more, hnext, hstream, hfits⟩ := ih (readTask rounds n kept).1 hturn.behind
    rw [hturn.capacity] at hfits
    refine ⟨bytes ++ more, next_trans rounds hturn.next hnext, ?_, ?_⟩
    · have hout : n.zbuf.readable ++ bytes =
          wire (readTask rounds n kept).2 ++ (readTask rounds n kept).1.zbuf.readable := by
        obtain ⟨hnone, -, heq⟩ | ⟨batch, hone, -, heq⟩ := hturn.out
        · rw [hnone, heq]
          rfl
        · rw [hone, heq, wire, List.flatMap_singleton]
      rw [← List.append_assoc, hout, List.append_assoc, hstream, ← List.append_assoc]
      simp [readTasks, wire]
    · intro batch hbatch
      have hout : batch ∈ (readTask rounds n kept).2 ++
          (readTasks rounds (readTask rounds n kept).1 rest).2 := hbatch
      obtain hbatch | hbatch := List.mem_append.mp hout
      · obtain ⟨hnone, -, -⟩ | ⟨batch', hone, hle, -⟩ := hturn.out
        · rw [hnone] at hbatch
          exact absurd hbatch (List.not_mem_nil)
        · rw [hone, List.mem_singleton] at hbatch
          rwa [hbatch]
      · exact hfits batch hbatch

theorem wire_prefixes {out sent : List (List Byte)} {rest : List Byte}
    (hout : ∀ batch ∈ out, batch.length < 65536) (hsent : ∀ batch ∈ sent, batch.length < 65536)
    (h : wire out ++ rest <+: wire sent) : out <+: sent := by
  induction out generalizing sent with
  | nil => exact List.nil_prefix
  | cons batch out ih =>
    rw [wire_cons, List.append_assoc] at h
    cases sent with
    | nil => simp [wire, batchBytes] at h
    | cons batch' later =>
      rw [wire_cons] at h
      obtain ⟨rfl, hlater⟩ := batchBytes_prefix (hout batch List.mem_cons_self)
        (hsent batch' List.mem_cons_self) h
      exact (List.prefix_cons_inj batch).mpr (ih (fun b hb => hout b (List.mem_cons_of_mem _ hb))
        (fun b hb => hsent b (List.mem_cons_of_mem _ hb)) hlater)

theorem prefix_takeWhile {out sent : List (List Byte)} {p : List Byte → Bool} (h : out <+: sent)
    (hp : ∀ batch ∈ out, p batch = true) : out <+: sent.takeWhile p := by
  obtain ⟨tail, rfl⟩ := h
  rw [List.takeWhile_append_of_pos hp]
  exact List.prefix_append _ _

/-- The node when its session is open, with a buffer of the size that the peers agreed on. -/
def openNode (batchSize : BitVec 16) (s : Socket) : Node :=
  ⟨⟨batchSize.toNat, [], 0, Nat.zero_le _⟩, s⟩

/-- However the bytes of a peer arrive, and whatever buffers the decoder keeps, it gets the batches that
the peer sends, in their order, none twice and none in part; and none from the first one on that the
buffer does not hold. -/
theorem batches_in_order (batchSize : BitVec 16) (s : Socket) (kept : List Bool)
    (sent : List (List Byte)) (hsent : ∀ batch ∈ sent, batch.length < 65536)
    (hwire : s.unread ++ arrivals rounds s.time
      (readTasks rounds (openNode batchSize s) kept).1.socket.time <+: wire sent) :
    (readTasks rounds (openNode batchSize s) kept).2 <+:
      sent.takeWhile (·.length + 2 ≤ batchSize.toNat) := by
  obtain ⟨bytes, hnext, hstream, hfits⟩ := readTasks_stream rounds (openNode batchSize s) kept
    (Nat.zero_le _)
  have hsmall : batchSize.toNat < 65536 := batchSize.isLt
  have hbytes : bytes = wire (readTasks rounds (openNode batchSize s) kept).2 ++
      (readTasks rounds (openNode batchSize s) kept).1.zbuf.readable := hstream
  have hpast : s.unread ++ arrivals rounds s.time
      (readTasks rounds (openNode batchSize s) kept).1.socket.time =
        bytes ++ (readTasks rounds (openNode batchSize s) kept).1.socket.unread := hnext.stream
  rw [hpast, hbytes, List.append_assoc] at hwire
  refine prefix_takeWhile (wire_prefixes (fun batch hbatch => ?_) hsent hwire) fun batch hbatch => ?_
  · have hle : batch.length + 2 ≤ batchSize.toNat := hfits batch hbatch
    omega
  · exact decide_eq_true (hfits batch hbatch)

/-- Two batches in five bytes of the socket, and nothing more. -/
def quiet : Nat → Round := fun _ => ⟨[], true, 0⟩

def twoBatches : Socket := ⟨0, wire [[1], [2, 3]], []⟩

theorem two_batches_in_order :
    (readTasks quiet (openNode 2048 twoBatches) [false, true]).2 <+:
      [[1], [2, 3]].takeWhile fun batch : List Byte => decide (batch.length + 2 ≤ (2048 : BitVec 16).toNat) :=
  batches_in_order quiet 2048 twoBatches [false, true] [[1], [2, 3]] (by decide) (by decide)

/-- Whole batches that have arrived go out in two turns each, one less from a fresh buffer. -/
theorem readTasks_progress (n : Node) (kept : List Bool) (h : n.zbuf.rpos ≤ n.zbuf.written.length)
    (hcapacity : n.zbuf.capacity < 65536) {sent : List (List Byte)}
    (hfits : ∀ batch ∈ sent, batch.length + 2 ≤ n.zbuf.capacity)
    (hthere : wire sent <+: n.zbuf.readable ++ n.socket.unread)
    (hturns : 2 * sent.length ≤ kept.length + if n.zbuf.rpos = 0 then 1 else 0) :
    sent <+: (readTasks rounds n kept).2 := by
  induction kept generalizing n sent with
  | nil =>
    cases sent with
    | nil => exact List.nil_prefix
    | cons batch later =>
      rw [List.length_cons, List.length_nil] at hturns
      split at hturns <;> omega
  | cons kept rest ih =>
    cases sent with
    | nil => exact List.nil_prefix
    | cons batch later =>
      obtain ⟨bytes, hturn⟩ := readTask_turn rounds n kept h
      rw [List.length_cons, List.length_cons] at hturns
      have hstream : n.zbuf.readable ++ (n.socket.unread ++
          arrivals rounds n.socket.time (readTask rounds n kept).1.socket.time) =
            n.zbuf.readable ++ bytes ++ (readTask rounds n kept).1.socket.unread := by
        rw [hturn.next.stream, List.append_assoc]
      have hstill : wire (batch :: later) <+:
          n.zbuf.readable ++ bytes ++ (readTask rounds n kept).1.socket.unread := by
        rw [← hstream, ← List.append_assoc]
        exact hthere.trans (List.prefix_append _ _)
      have hcapacity' : (readTask rounds n kept).1.zbuf.capacity < 65536 := by
        rwa [hturn.capacity]
      have hfits' : ∀ b ∈ batch :: later, b.length + 2 ≤ (readTask rounds n kept).1.zbuf.capacity := by
        rwa [hturn.capacity]
      obtain ⟨hnone, hfresh, heq⟩ | ⟨batch', hone, hle, heq⟩ := hturn.out
      · have hused : n.zbuf.rpos ≠ 0 := by
          intro hzero
          refine readTask_ready rounds n kept hcapacity hzero (hfits batch List.mem_cons_self) ?_ hnone
          exact (List.prefix_append _ _).trans hthere
        rw [heq] at hstill
        rw [if_neg hused] at hturns
        have hlater := ih (readTask rounds n kept).1 hturn.behind hcapacity' hfits' hstill
          (by rw [if_pos hfresh, List.length_cons]; omega)
        have hout : (readTasks rounds n (kept :: rest)).2 = (readTask rounds n kept).2 ++
            (readTasks rounds (readTask rounds n kept).1 rest).2 := rfl
        rw [hout, hnone]
        exact hlater
      · have hsmall := hfits batch List.mem_cons_self
        rw [heq, wire_cons, List.append_assoc] at hstill
        obtain ⟨rfl, hrest⟩ := batchBytes_prefix (by omega) (by omega) hstill
        have hlater := ih (readTask rounds n kept).1 hturn.behind hcapacity'
          (fun b hb => hfits' b (List.mem_cons_of_mem _ hb)) hrest
          (by split at hturns <;> omega)
        have hout : (readTasks rounds n (kept :: rest)).2 = (readTask rounds n kept).2 ++
            (readTasks rounds (readTask rounds n kept).1 rest).2 := rfl
        rw [hout, hone]
        exact (List.prefix_cons_inj batch).mpr hlater

theorem readTasks_behind (n : Node) (kept : List Bool) (h : n.zbuf.rpos ≤ n.zbuf.written.length) :
    (readTasks rounds n kept).1.zbuf.rpos ≤ (readTasks rounds n kept).1.zbuf.written.length ∧
      (readTasks rounds n kept).1.zbuf.capacity = n.zbuf.capacity := by
  induction kept generalizing n with
  | nil => exact ⟨h, rfl⟩
  | cons kept rest ih =>
    obtain ⟨bytes, hturn⟩ := readTask_turn rounds n kept h
    rw [← hturn.capacity]
    exact ih (readTask rounds n kept).1 hturn.behind

/-- Wherever the task stands: the batches that the buffer holds and that have arrived as a whole, in the
buffer or at the socket, go out in two turns each. -/
theorem arrived_batches_go_out (batchSize : BitVec 16) (s : Socket) (past kept : List Bool)
    (sent : List (List Byte)) (hfits : ∀ batch ∈ sent, batch.length + 2 ≤ batchSize.toNat)
    (hthere : wire sent <+: (readTasks rounds (openNode batchSize s) past).1.zbuf.readable ++
      (readTasks rounds (openNode batchSize s) past).1.socket.unread)
    (hturns : 2 * sent.length ≤ kept.length) :
    sent <+: (readTasks rounds (readTasks rounds (openNode batchSize s) past).1 kept).2 := by
  obtain ⟨hbehind, hcapacity⟩ := readTasks_behind rounds (openNode batchSize s) past (Nat.zero_le _)
  have hsize : (openNode batchSize s).zbuf.capacity = batchSize.toNat := rfl
  rw [hsize] at hcapacity
  refine readTasks_progress rounds _ kept hbehind ?_ ?_ hthere (hturns.trans (Nat.le_add_right _ _))
  · rw [hcapacity]
    exact batchSize.isLt
  · rwa [hcapacity]

theorem second_batch_goes_out :
    [[2, 3]] <+: (readTasks quiet (readTasks quiet (openNode 2048 twoBatches) [true]).1
      [false, false]).2 :=
  arrived_batches_go_out quiet 2048 twoBatches [true] [false, false] [[2, 3]] (by decide) (by decide)
    (by decide)

end Runs

end Genoh.BatchStream
