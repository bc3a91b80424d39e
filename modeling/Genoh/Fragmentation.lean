import Genoh.Bytes

/-!
# Fragmentation on the node's transport

What `zenoh-pico` does with a network message that is larger than a batch: the fragments that
`tx.c` cuts it into, the numbers and flags that they get, and how `rx.c` puts them together again. A
peer has one conduit for what is flagged reliable and one for what is not. The steps of a conduit are
atomic, and the allocations succeed.
-/
namespace Genoh.Fragmentation

open Genoh.Bytes

/-! ## Sequence numbers -/

/-- `_z_zint_t`, the `size_t` of the controller. -/
abbrev Zint := BitVec 32

/-- `_z_sn_max` of the two bits that the peers agree on. -/
def snMax : Fin 4 → Zint
  | 0 => 0xFF >>> 1
  | 1 => 0xFFFF >>> 2
  | 2 => 0xFFFFFFFF >>> 4
  | 3 => (0xFFFFFFFFFFFFFFFF#64 >>> 1).setWidth 32

/-- `_z_sn_half` -/
def snHalf (sn : Zint) : Zint := sn >>> 1

/-- `_z_sn_precedes` -/
def snPrecedes (res left right : Zint) : Bool :=
  let distance := (right - left) &&& res
  distance ≤ snHalf res && distance ≠ 0

/-- `_z_sn_consecutive` -/
def snConsecutive (res left right : Zint) : Bool := (right - left) &&& res == 1

/-- `_z_sn_increment` -/
def snIncrement (res sn : Zint) : Zint := (sn + 1) &&& res

/-! ## Messages -/

/-- What a transport message carries: a frame, or a fragment with its markers. -/
inductive Item where
  | frame (payload : List Byte)
  | fragment (more first drop : Bool) (payload : List Byte)
  deriving DecidableEq, Repr

/-- A transport message. -/
structure Message where
  sn : Zint
  item : Item
  deriving DecidableEq, Repr

/-! ## Sender -/

/-- `_z_zint_len` -/
def zintLen (v : Zint) : Nat :=
  if v.toNat < 2 ^ 7 then 1 else if v.toNat < 2 ^ 14 then 2 else if v.toNat < 2 ^ 21 then 3
  else if v.toNat < 2 ^ 28 then 4 else 5

/-- The bytes of a frame's header and of a fragment's. -/
def frameHeader (sn : Zint) : Nat := 1 + zintLen sn

def fragmentHeader (sn : Zint) (first : Bool) : Nat := 1 + zintLen sn + if first then 1 else 0

/-- `Z_FRAG_MAX_SIZE` -/
def fragMaxSize : Nat := 4096

/-- `Z_BATCH_UNICAST_SIZE` -/
def batchUnicastSize : Nat := 2048

/-- What the transport's write buffer takes behind the length of a batch: more than a header, and
not more than a batch. -/
structure Link where
  capacity : Nat
  large : 7 < capacity
  small : capacity ≤ batchUnicastSize

theorem zintLen_le (v : Zint) : zintLen v ≤ 5 := by
  unfold zintLen
  repeat' split
  all_goals decide

theorem fragmentHeader_lt (link : Link) (sn : Zint) (first : Bool) :
    fragmentHeader sn first < link.capacity := by
  have hlen := zintLen_le sn
  have hlarge := link.large
  unfold fragmentHeader
  split <;> omega

/-- `_z_wbuf_space_left` behind the header of a fragment. -/
def Link.space (link : Link) (sn : Zint) (first : Bool) : Nat :=
  link.capacity - fragmentHeader sn first

theorem Link.space_pos (link : Link) (sn : Zint) (first : Bool) : 0 < link.space sn first :=
  Nat.sub_pos_of_lt (fragmentHeader_lt link sn first)

/-- `_z_transport_tx_send_fragment_inner` with `__unsafe_z_serialize_zenoh_fragment`: a fragment is
the last one once the rest fits behind its header. -/
def sendFragmentInner (link : Link) (res sn : Zint) (first : Bool) (data : List Byte) :
    List Message :=
  if data = [] then []
  else
    let space := link.space sn first
    ⟨sn, .fragment (!decide (data.length ≤ space)) first false (data.take space)⟩ ::
      sendFragmentInner link res (snIncrement res sn) false (data.drop space)
termination_by data.length
decreasing_by
  have hspace := link.space_pos sn first
  have hdata : 0 < data.length := List.length_pos_iff.mpr ‹_›
  rw [List.length_drop]
  omega

/-- `_z_transport_tx_send_n_msg_inner` outside a batch, for an encoded network message. -/
def sendNMsg (link : Link) (res sn : Zint) (data : List Byte) : List Message :=
  if frameHeader sn + data.length ≤ link.capacity then [⟨sn, .frame data⟩]
  else sendFragmentInner link res sn true data

/-- The number after those that were given out for some messages. -/
def snAfter (res sn : Zint) (n : Nat) : Zint := (snIncrement res)^[n] sn

/-- One message behind the other. -/
def stream (link : Link) (res : Zint) : Zint → List (List Byte) → List Message
  | _, [] => []
  | sn, data :: rest =>
    let sent := sendNMsg link res sn data
    sent ++ stream link res (snAfter res sn sent.length) rest

/-- `z_reliability_t`: `Z_RELIABILITY_RELIABLE` is 0, and `Z_RELIABILITY_BEST_EFFORT` is 1. -/
inductive Reliability where
  | reliable | bestEffort
  deriving DecidableEq, Repr

/-- A `bool` where a `z_reliability_t` is asked for. -/
def Reliability.ofBool (b : Bool) : Reliability := if b then .bestEffort else .reliable

/-- The flag that `_z_t_msg_make_frame_header` and `_z_t_msg_make_fragment` set. -/
def Reliability.flag (r : Reliability) : Bool := decide (r = .reliable)

/-- The flag on an item. For a fragment `__unsafe_z_serialize_zenoh_fragment` gives
`reliability == Z_RELIABILITY_RELIABLE` where the header asks for the reliability itself. -/
def itemFlag (r : Reliability) : Item → Bool
  | .frame _ => r.flag
  | .fragment .. => (Reliability.ofBool (decide (r = .reliable))).flag

/-- The numbers that a transport gives out next. -/
structure Counters where
  snTxReliable : Zint
  snTxBestEffort : Zint

/-- `_z_transport_tx_get_sn`, as far as the number goes. -/
def Counters.sn (s : Counters) : Reliability → Zint
  | .reliable => s.snTxReliable
  | .bestEffort => s.snTxBestEffort

/-- So many calls of it. -/
def Counters.advance (res : Zint) (s : Counters) (r : Reliability) (n : Nat) : Counters :=
  match r with
  | .reliable => { s with snTxReliable := snAfter res s.snTxReliable n }
  | .bestEffort => { s with snTxBestEffort := snAfter res s.snTxBestEffort n }

/-- `_z_transport_tx_send_n_msg` for one message after the other: what is sent, each with its flag.
The mutex of the transport is held over all fragments of a message. -/
def transmit (link : Link) (res : Zint) : Counters → List (Reliability × List Byte) →
    List (Bool × Message)
  | _, [] => []
  | s, (r, data) :: rest =>
    let sent := sendNMsg link res (s.sn r) data
    sent.map (fun m => (itemFlag r m.item, m)) ++
      transmit link res (s.advance res r sent.length) rest

/-! ## Receiver -/

/-- `_Z_DBUF_STATE_…` -/
inductive DbufState where
  | null | init | overflow
  deriving DecidableEq, Repr

/-- What a peer keeps for a conduit. -/
structure Conduit where
  snRx : Zint
  dbuf : List Byte
  state : DbufState
  deriving DecidableEq, Repr

/-- `_z_wbuf_clear`, with the state. -/
def Conduit.clear (c : Conduit) : Conduit := { c with dbuf := [], state := .null }

/-- The fragment's bytes into the buffer, and out of it with the last one. -/
def fill (c : Conduit) (more : Bool) (payload : List Byte) : Conduit × List (List Byte) :=
  let c := if c.state = .null then { c with dbuf := [], state := .init } else c
  let c :=
    if c.state = .init then
      if c.dbuf.length + payload.length > fragMaxSize then { c with state := .overflow }
      else { c with dbuf := c.dbuf ++ payload }
    else c
  if more then (c, [])
  else if c.state = .overflow then (c.clear, [])
  else (c.clear, [c.dbuf])

/-- `_z_unicast_handle_fragment_inner` behind the check of the number, and what it gives to the
decoder. `markers` says whether the peers have agreed on them. -/
def handleMarked (markers : Bool) (c : Conduit) (more first drop : Bool) (payload : List Byte) :
    Conduit × List (List Byte) :=
  if markers then
    if first = false ∧ c.dbuf = [] then (c, [])
    else
      let c := if first then { c with dbuf := [] } else c
      if drop then ({ c with dbuf := [] }, []) else fill c more payload
  else fill c more payload

/-- `_z_unicast_handle_fragment_inner` and `_z_unicast_handle_frame` on their conduit, with what they
give to the decoder of network messages. -/
def handle (res : Zint) (markers : Bool) (c : Conduit) (m : Message) : Conduit × List (List Byte) :=
  if snPrecedes res c.snRx m.sn then
    let consecutive := snConsecutive res c.snRx m.sn
    let c := { c with snRx := m.sn }
    match m.item with
    | .frame payload => (c, [payload])
    | .fragment more first drop payload =>
      if consecutive = false ∧ c.dbuf ≠ [] then (c.clear, [])
      else handleMarked markers c more first drop payload
  else (c.clear, [])

/-- `_z_sn_decrement` -/
def snDecrement (res sn : Zint) : Zint := (sn - 1) &&& res

/-- A conduit of a peer with its initial number. -/
def openConduit (res initialSn : Zint) : Conduit := ⟨snDecrement res initialSn, [], .null⟩

/-- A conduit over what is sent, each message with whether it arrives. -/
def receive (res : Zint) (markers : Bool) : Conduit → List (Message × Bool) →
    Conduit × List (List Byte)
  | c, [] => (c, [])
  | c, (_, false) :: rest => receive res markers c rest
  | c, (m, true) :: rest =>
    let (c, out) := handle res markers c m
    let (c, later) := receive res markers c rest
    (c, out ++ later)

/-- The two conduits of a peer. -/
structure Peer where
  reliable : Conduit
  bestEffort : Conduit

def Peer.conduit (p : Peer) (reliable : Bool) : Conduit := if reliable then p.reliable else p.bestEffort

def Peer.setConduit (p : Peer) (reliable : Bool) (c : Conduit) : Peer :=
  if reliable then { p with reliable := c } else { p with bestEffort := c }

/-- A peer over what is sent on either conduit, with what each gives to the decoder. -/
def receivePeer (res : Zint) (markers : Bool) : Peer → List (Bool × Message × Bool) →
    Peer × List (Bool × List Byte)
  | p, [] => (p, [])
  | p, (_, _, false) :: rest => receivePeer res markers p rest
  | p, (reliable, m, true) :: rest =>
    let (c, out) := handle res markers (p.conduit reliable) m
    let (p, later) := receivePeer res markers (p.setConduit reliable c) rest
    (p, out.map (reliable, ·) ++ later)

/-- What is sent, as one conduit sees it: what is for the other one does not arrive. -/
def arrivals (reliable : Bool) (run : List (Bool × Message × Bool)) : List (Message × Bool) :=
  run.map fun e => (e.2.1, e.1 == reliable && e.2.2)

/-! ## Numbers in order -/

/-- How many numbers there are. -/
def modulus (bits : Fin 4) : Nat := (snMax bits).toNat + 1

/-- How far a number may be ahead of the last one. -/
def reach (bits : Fin 4) : Nat := (snHalf (snMax bits)).toNat

theorem modulus_cases (bits : Fin 4) :
    modulus bits = 2 ^ 7 ∨ modulus bits = 2 ^ 14 ∨ modulus bits = 2 ^ 28 ∨ modulus bits = 2 ^ 32 := by
  revert bits
  decide

theorem toNat_and_snMax (bits : Fin 4) (x : Zint) : (x &&& snMax bits).toNat = x.toNat % modulus bits := by
  rw [BitVec.toNat_and]
  match bits with
  | 0 => exact Nat.and_two_pow_sub_one_eq_mod x.toNat 7
  | 1 => exact Nat.and_two_pow_sub_one_eq_mod x.toNat 14
  | 2 => exact Nat.and_two_pow_sub_one_eq_mod x.toNat 28
  | 3 => exact Nat.and_two_pow_sub_one_eq_mod x.toNat 32

section Numbers

variable {bits : Fin 4} {left right sn : Zint} {n k : Nat}

theorem snIncrement_toNat (h : sn.toNat = n % modulus bits) :
    (snIncrement (snMax bits) sn).toNat = (n + 1) % modulus bits := by
  rw [snIncrement, toNat_and_snMax, BitVec.toNat_add, h]
  obtain hm | hm | hm | hm := modulus_cases bits <;> rw [hm] <;> simp

theorem snAfter_toNat (h : sn.toNat = n % modulus bits) (k : Nat) :
    (snAfter (snMax bits) sn k).toNat = (n + k) % modulus bits := by
  induction k with
  | zero => exact h
  | succ k ih =>
    rw [snAfter, Function.iterate_succ_apply']
    exact snIncrement_toNat ih

theorem snDecrement_toNat (h : sn.toNat = (n + 1) % modulus bits) :
    (snDecrement (snMax bits) sn).toNat = n % modulus bits := by
  rw [snDecrement, toNat_and_snMax, BitVec.toNat_sub, h]
  obtain hm | hm | hm | hm := modulus_cases bits <;> rw [hm] <;> simp <;> omega

theorem distance_toNat (hleft : left.toNat = n % modulus bits)
    (hright : right.toNat = (n + k) % modulus bits) :
    ((right - left) &&& snMax bits).toNat = k % modulus bits := by
  rw [toNat_and_snMax, BitVec.toNat_sub, hleft, hright]
  obtain hm | hm | hm | hm := modulus_cases bits <;> rw [hm] <;> omega

theorem snConsecutive_iff (hleft : left.toNat = n % modulus bits)
    (hright : right.toNat = (n + k) % modulus bits) :
    snConsecutive (snMax bits) left right = true ↔ k % modulus bits = 1 := by
  rw [snConsecutive, beq_iff_eq, ← BitVec.toNat_inj, distance_toNat hleft hright]
  rfl

theorem reach_pos (bits : Fin 4) : 0 < reach bits := by
  revert bits
  decide

theorem reach_lt (bits : Fin 4) : reach bits < modulus bits := by
  revert bits
  decide

theorem snPrecedes_of_le (hleft : left.toNat = n % modulus bits)
    (hright : right.toNat = (n + k) % modulus bits) (hpos : 0 < k) (hreach : k ≤ reach bits) :
    snPrecedes (snMax bits) left right = true := by
  have hdistance := distance_toNat hleft hright
  rw [Nat.mod_eq_of_lt (hreach.trans_lt (reach_lt bits))] at hdistance
  rw [snPrecedes, Bool.and_eq_true, decide_eq_true_eq, decide_eq_true_eq]
  constructor
  · rw [BitVec.le_def, hdistance]
    exact hreach
  · rw [ne_eq, ← BitVec.toNat_inj, hdistance]
    exact hpos.ne'

end Numbers

/-- The messages have the numbers from some place on. -/
def Numbered (bits : Fin 4) : Nat → List Message → Prop
  | _, [] => True
  | n, m :: rest => m.sn.toNat = n % modulus bits ∧ Numbered bits (n + 1) rest

theorem numbered_append {bits : Fin 4} {n : Nat} {front back : List Message} :
    Numbered bits n (front ++ back) ↔ Numbered bits n front ∧ Numbered bits (n + front.length) back := by
  induction front generalizing n with
  | nil => simp [Numbered]
  | cons m front ih =>
    rw [List.cons_append, Numbered, Numbered, ih, List.length_cons, and_assoc, Nat.add_assoc,
      Nat.add_comm 1]

/-! ## Messages under way -/

/-- What the message under way carries up to an item, with what it carried before. -/
def grown (under : Option (List Byte)) (first : Bool) (payload : List Byte) : List Byte :=
  (if first then [] else under.getD []) ++ payload

theorem grown_eq {under : Option (List Byte)} {first : Bool} (h : first = true ↔ under = none)
    (payload : List Byte) : grown under first payload = under.getD [] ++ payload := by
  unfold grown
  split
  · rename_i hfirst
    rw [h.mp hfirst]
    rfl
  · rfl

/-- The message under way behind an item. -/
def progress (under : Option (List Byte)) : Item → Option (List Byte)
  | .frame _ => none
  | .fragment more first drop payload =>
    if drop then none else if more then some (grown under first payload) else none

/-- The network messages that an item ends, a frame as one. -/
def completed (under : Option (List Byte)) : Item → List (List Byte)
  | .frame payload => [payload]
  | .fragment more first drop payload =>
    if drop then [] else if more then [] else [grown under first payload]

def progressAll (under : Option (List Byte)) (sent : List Message) : Option (List Byte) :=
  sent.foldl (fun under m => progress under m.item) under

def completions : Option (List Byte) → List Message → List (List Byte)
  | _, [] => []
  | under, m :: rest => completed under m.item ++ completions (progress under m.item) rest

/-- An item in its place: the first fragment and a frame between messages, the others within one. -/
def Placed (under : Option (List Byte)) : Item → Prop
  | .frame _ => under = none
  | .fragment _ first _ _ => first = true ↔ under = none

def WellPlaced : Option (List Byte) → List Message → Prop
  | _, [] => True
  | under, m :: rest => Placed under m.item ∧ WellPlaced (progress under m.item) rest

theorem completions_append (under : Option (List Byte)) (front back : List Message) :
    completions under (front ++ back) =
      completions under front ++ completions (progressAll under front) back := by
  induction front generalizing under with
  | nil => rfl
  | cons m front ih => rw [List.cons_append, completions, completions, ih, List.append_assoc]; rfl

theorem wellPlaced_append {under : Option (List Byte)} {front back : List Message} :
    WellPlaced under (front ++ back) ↔
      WellPlaced under front ∧ WellPlaced (progressAll under front) back := by
  induction front generalizing under with
  | nil => simp [WellPlaced, progressAll]
  | cons m front ih => rw [List.cons_append, WellPlaced, WellPlaced, ih, and_assoc]; rfl

/-! ## What is sent -/

section Sent

variable (link : Link) (bits : Fin 4)

theorem sendFragmentInner_numbered {n : Nat} (sn : Zint) (first : Bool) (data : List Byte)
    (h : sn.toNat = n % modulus bits) :
    Numbered bits n (sendFragmentInner link (snMax bits) sn first data) := by
  fun_induction sendFragmentInner link (snMax bits) sn first data generalizing n with
  | case1 => trivial
  | case2 sn first data _ space =>
    rename_i ih
    exact ⟨h, ih (snIncrement_toNat h)⟩

theorem sendFragmentInner_nil (res sn : Zint) (first : Bool) :
    sendFragmentInner link res sn first [] = [] := by
  rw [sendFragmentInner, if_pos rfl]

/-- The fragments carry a message from where it is to its end. -/
theorem sendFragmentInner_message (res sn : Zint) (first : Bool) (under : Option (List Byte))
    (data : List Byte) (hfirst : first = true ↔ under = none) (hdata : data ≠ []) :
    WellPlaced under (sendFragmentInner link res sn first data) ∧
      progressAll under (sendFragmentInner link res sn first data) = none ∧
      completions under (sendFragmentInner link res sn first data) = [under.getD [] ++ data] := by
  fun_induction sendFragmentInner link res sn first data generalizing under with
  | case1 => exact absurd rfl hdata
  | case2 sn first data _ space ih =>
    have hgrown := grown_eq hfirst
    by_cases hlast : data.length ≤ space
    · have hrest : data.drop space = [] := List.drop_eq_nil_of_le hlast
      rw [hrest, sendFragmentInner_nil]
      simp [WellPlaced, Placed, hfirst, progressAll, progress, completions, completed, hlast, hgrown,
        List.take_of_length_le hlast]
    · have hrest : data.drop space ≠ [] := by
        rw [Ne, List.drop_eq_nil_iff]
        exact hlast
      have hprogress : progress under
          (.fragment (!decide (data.length ≤ space)) first false (data.take space)) =
            some (under.getD [] ++ data.take space) := by simp [progress, hlast, hgrown]
      obtain ⟨hplaced, hend, hcomplete⟩ := ih (some (under.getD [] ++ data.take space)) (by simp) hrest
      refine ⟨⟨hfirst, by rwa [hprogress]⟩, ?_, ?_⟩
      · rw [progressAll, List.foldl_cons, hprogress]
        exact hend
      · rw [completions, hprogress, hcomplete]
        simp [completed, hlast]

/-- A frame, or a fragment with something in it, not more than a batch, of a message that is not
given up. -/
def Plain : Item → Prop
  | .frame payload => payload.length ≤ batchUnicastSize
  | .fragment _ _ drop payload =>
    drop = false ∧ payload ≠ [] ∧ payload.length ≤ batchUnicastSize

theorem sendFragmentInner_plain (res sn : Zint) (first : Bool) (data : List Byte) :
    ∀ m ∈ sendFragmentInner link res sn first data, Plain m.item := by
  fun_induction sendFragmentInner link res sn first data with
  | case1 => simp
  | case2 sn first data hdata space ih =>
    have hspace : 0 < space := link.space_pos sn first
    have hdata : 0 < data.length := List.length_pos_iff.mpr hdata
    have hsmall : space ≤ batchUnicastSize := (Nat.sub_le _ _).trans link.small
    intro m hm
    obtain rfl | hm := List.mem_cons.mp hm
    · refine ⟨rfl, ?_, (List.length_take_le _ _).trans hsmall⟩
      rw [← List.length_pos_iff, List.length_take]
      omega
    · exact ih m hm

/-- A message with its numbers. -/
structure Sends (n : Nat) (sent : List Message) (data : List Byte) : Prop where
  numbered : Numbered bits n sent
  placed : WellPlaced none sent
  ended : progressAll none sent = none
  complete : completions none sent = [data]
  plain : ∀ m ∈ sent, Plain m.item

theorem sendNMsg_sends {n : Nat} {sn : Zint} (h : sn.toNat = n % modulus bits) (data : List Byte) :
    Sends bits n (sendNMsg link (snMax bits) sn data) data := by
  unfold sendNMsg
  split
  · rename_i hfits
    refine ⟨⟨h, trivial⟩, ⟨rfl, trivial⟩, rfl, rfl, fun m hm => ?_⟩
    obtain rfl := List.mem_singleton.mp hm
    exact ((Nat.le_add_left _ _).trans hfits).trans link.small
  · rename_i hlarge
    have hdata : data ≠ [] := by
      rintro rfl
      have hheader := zintLen_le sn
      have hcapacity := link.large
      rw [frameHeader, List.length_nil] at hlarge
      omega
    obtain ⟨hplaced, hend, hcomplete⟩ :=
      sendFragmentInner_message link (snMax bits) sn true none data (by simp) hdata
    refine ⟨sendFragmentInner_numbered link bits sn true data h, hplaced, hend, hcomplete,
      sendFragmentInner_plain link _ sn true data⟩

theorem stream_numbered {n : Nat} {sn : Zint} (h : sn.toNat = n % modulus bits)
    (data : List (List Byte)) : Numbered bits n (stream link (snMax bits) sn data) := by
  induction data generalizing n sn with
  | nil => trivial
  | cons data rest ih =>
    exact numbered_append.mpr ⟨(sendNMsg_sends link bits h data).numbered, ih (snAfter_toNat h _)⟩

/-- The messages are in the stream one behind the other. -/
theorem stream_messages {n : Nat} {sn : Zint} (h : sn.toNat = n % modulus bits)
    (data : List (List Byte)) :
    WellPlaced none (stream link (snMax bits) sn data) ∧
      completions none (stream link (snMax bits) sn data) = data ∧
      ∀ m ∈ stream link (snMax bits) sn data, Plain m.item := by
  induction data generalizing n sn with
  | nil => exact ⟨trivial, rfl, by simp [stream]⟩
  | cons data rest ih =>
    have hsends := sendNMsg_sends link bits h data
    obtain ⟨hplaced, hcomplete, hplain⟩ := ih (snAfter_toNat h (sendNMsg link (snMax bits) sn data).length)
    refine ⟨wellPlaced_append.mpr ⟨hsends.placed, hsends.ended.symm ▸ hplaced⟩, ?_, fun m hm => ?_⟩
    · rw [stream, completions_append, hsends.complete, hsends.ended, hcomplete]
      rfl
    · obtain hm | hm := List.mem_append.mp hm
      · exact hsends.plain m hm
      · exact hplain m hm

theorem counters_sn_advance (res : Zint) (s : Counters) (r : Reliability) (n : Nat) :
    (s.advance res r n).sn r = snAfter res (s.sn r) n := by
  cases r <;> rfl

/-- Where all messages have one reliability, their numbers are those of one counter. -/
theorem transmit_map (res : Zint) (s : Counters) (r : Reliability) (data : List (List Byte)) :
    transmit link res s (data.map (r, ·)) =
      (stream link res (s.sn r) data).map fun m => (itemFlag r m.item, m) := by
  induction data generalizing s with
  | nil => rfl
  | cons data rest ih =>
    rw [List.map_cons, transmit, ih, counters_sn_advance, stream, List.map_append]

/-- The conduit of the frames is not the one of the fragments. -/
theorem itemFlag_fragment (r : Reliability) (more first drop : Bool) (payload : List Byte) :
    itemFlag r (.fragment more first drop payload) = !r.flag := by
  cases r <;> rfl

end Sent

end Genoh.Fragmentation
