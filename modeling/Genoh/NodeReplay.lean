import Genoh.NodeReceive
import Genoh.Run

/-!
# Replays on one channel

Messages reach `decode_secure_message` in any order and any number of times. The rate
limiter, the MAC, the freshness window and the CRC decide which deliveries reach the
sequence checker, and this does not depend on the checker. The checker then knows no
more than the number of the message that reached it last, accepted or not.
-/
namespace Genoh.NodeReplay

open Genoh.Bytes Genoh.Run Genoh.AppZenoh Genoh.NodeReceive
open Genoh.FirmwareE2E Genoh.FirmwareSecOC Genoh.FirmwareIds

/-- One delivery: the wire message, what the caller's header variable happens to hold, and
the tick. -/
structure Delivery where
  raw : List Byte
  hdr : E2eHeader
  tick : BitVec 32

/-- The node and the wire messages accepted so far. -/
structure Receiver where
  app : App
  accepted : List (List Byte)

variable (channel : Channel)

def receive (r : Receiver) (d : Delivery) : Receiver :=
  let (app, _, json) := decodeSecureMessage r.app d.raw d.hdr channel channel.dataId d.tick
  ⟨app, if json.isSome then r.accepted ++ [d.raw] else r.accepted⟩

/-! ## Deliveries that reach the sequence checker -/

/-- The checks in front of the sequence checker, run on their own. -/
structure Front where
  ids : IdsEngine
  reached : List (List Byte)

def front (key : Key) (f : Front) (d : Delivery) : Front :=
  let (allowed, ids) := rateCheck d.raw channel.dataId d.tick f.ids
  ⟨ids, if allowed = true ∧ Authentic key d.raw d.tick then f.reached ++ [d.raw] else f.reached⟩

/-- The wire messages that reach the sequence checker, in order of delivery. -/
def reached (app : App) (deliveries : List Delivery) : List (List Byte) :=
  (run (front channel app.key.nodeKey) ⟨app.ids, []⟩ deliveries).reached

/-! ## Deliveries in turn -/

/-- The `i`-th of the messages is the first one or is numbered one above its predecessor,
and its payload fits the JSON buffer. -/
def InTurn (messages : List (List Byte)) (i : Nat) : Prop :=
  (payloadOf (messages.getD i [])).length < jsonSize ∧
    (i = 0 ∨ sequenceOf (messages.getD i []) = sequenceOf (messages.getD (i - 1) []) + 1)

instance (messages : List (List Byte)) (i : Nat) : Decidable (InTurn messages i) :=
  inferInstanceAs (Decidable (_ ∧ _))

/-- One message stands at two places, in turn at both. -/
def RepeatsInTurn (messages : List (List Byte)) : Prop :=
  ∃ i j, i < j ∧ j < messages.length ∧ messages.getD i [] = messages.getD j [] ∧
    InTurn messages i ∧ InTurn messages j

/-- The places at which a message is in turn. -/
def turns (messages : List (List Byte)) : List Nat :=
  (List.range messages.length).filter fun i => decide (InTurn messages i)

theorem inTurn_append (messages : List (List Byte)) (m : List Byte) (i : Nat)
    (h : i < messages.length) : InTurn (messages ++ [m]) i ↔ InTurn messages i := by
  have hget : ∀ j < messages.length, (messages ++ [m]).getD j [] = messages.getD j [] := by
    intro j hj
    rw [List.getD_append _ _ _ _ hj]
  unfold InTurn
  rw [hget i h, hget (i - 1) (by omega)]

theorem turns_append (messages : List (List Byte)) (m : List Byte) :
    turns (messages ++ [m]) = turns messages ++
      if InTurn (messages ++ [m]) messages.length then [messages.length] else [] := by
  have hpast : (List.range messages.length).filter (fun i => decide (InTurn (messages ++ [m]) i)) =
      turns messages := by
    apply List.filter_congr
    intro i hi
    rw [decide_eq_decide]
    exact inTurn_append messages m i (List.mem_range.mp hi)
  rw [turns, List.length_append, List.length_singleton, List.range_succ, List.filter_append, hpast,
    List.filter_singleton]
  simp

/-- A message in turn twice is a repetition in the list of the messages in turn. -/
theorem nodup_turns_iff (messages : List (List Byte)) :
    ((turns messages).map (messages.getD · [])).Nodup ↔ ¬ RepeatsInTurn messages := by
  have hnodup : (turns messages).Nodup := List.nodup_range.filter _
  have hmem : ∀ i, i ∈ turns messages ↔ i < messages.length ∧ InTurn messages i := by
    simp [turns]
  rw [List.nodup_map_iff_inj_on hnodup]
  constructor
  · rintro hinj ⟨i, j, hij, hj, heq, hi_turn, hj_turn⟩
    have := hinj i ((hmem i).mpr ⟨by omega, hi_turn⟩) j ((hmem j).mpr ⟨hj, hj_turn⟩) heq
    omega
  · intro hnone i hi j hj heq
    rw [hmem] at hi hj
    obtain hlt | rfl | hgt := Nat.lt_trichotomy i j
    · exact absurd ⟨i, j, hlt, hj.1, heq, hi.2, hj.2⟩ hnone
    · rfl
    · exact absurd ⟨j, i, hgt, hi.1, heq.symm, hj.2, hi.2⟩ hnone

/-! ## The sequence checker over a run -/

/-- The checker tolerates no gap and holds the number of the last message it saw. -/
def Holds (chk : E2eSeqChecker) (messages : List (List Byte)) : Prop :=
  chk.maxGap = 1 ∧ chk.lastSeq = match messages.getLast? with
    | none => -1
    | some m => ((sequenceOf m).toNat : Int)

/-- A first number is accepted. -/
theorem seqCheck_first (chk : E2eSeqChecker) (seq : BitVec 16) (h : chk.lastSeq = -1) :
    e2eSeqCheck chk seq = (.ok, { chk with lastSeq := seq.toNat, validCount := 1 }) := by
  rw [e2eSeqCheck, if_pos (by omega)]

/-- With no gap allowed only the next number is accepted; a rejected number is remembered. -/
theorem seqCheck_next (chk : E2eSeqChecker) (last seq : BitVec 16) (hgap : chk.maxGap = 1)
    (hlast : chk.lastSeq = last.toNat) :
    ((e2eSeqCheck chk seq).1 = .ok ↔ seq = last + 1) ∧ (e2eSeqCheck chk seq).2.maxGap = 1 ∧
      (e2eSeqCheck chk seq).2.lastSeq = seq.toNat := by
  have hof : BitVec.ofInt 16 (last.toNat : Int) = last := by simp
  have hdelta : ∀ x : BitVec 16, x ≤ 1 → x = 0 ∨ x = 1 := by
    intro x hx
    rw [BitVec.le_def] at hx
    obtain hzero | hone := Nat.le_one_iff_eq_zero_or_eq_one.mp hx
    · exact .inl (BitVec.eq_of_toNat_eq hzero)
    · exact .inr (BitVec.eq_of_toNat_eq hone)
  have hnext : seq = last + 1 ↔ seq - last = 1 := by
    rw [BitVec.sub_eq_iff_eq_add, BitVec.add_comm]
  have hsame : seq - last = 0 ↔ seq = last := by
    rw [BitVec.sub_eq_iff_eq_add]
    simp
  simp only [e2eSeqCheck, hgap, hlast, hof]
  rw [if_neg (by omega)]
  by_cases hrepeat : seq - last = 0
  · rw [if_pos hrepeat, hnext, hrepeat, hsame.mp hrepeat]
    simp [hgap, hlast]
  · rw [if_neg hrepeat]
    by_cases hin : seq - last ≤ 1
    · rw [if_pos hin, hnext]
      simp [(hdelta _ hin).resolve_left hrepeat]
    · rw [if_neg hin, hnext]
      have hnot : ¬ seq - last = 1 := fun heq => hin (by rw [heq]; decide)
      exact ⟨⟨nofun, fun heq => absurd heq hnot⟩, rfl, rfl⟩

/-- The checker, with the messages seen so far, on one more: it accepts exactly a first
message or a successor of the last one, and holds the new number either way. -/
theorem seqCheck_holds (chk : E2eSeqChecker) (messages : List (List Byte)) (m : List Byte)
    (h : Holds chk messages) :
    Holds (e2eSeqCheck chk (sequenceOf m)).2 (messages ++ [m]) ∧
      ((e2eSeqCheck chk (sequenceOf m)).1 = .ok ↔ messages.length = 0 ∨
        sequenceOf m = sequenceOf (messages.getD (messages.length - 1) []) + 1) := by
  obtain ⟨hgap, hlast⟩ := h
  obtain rfl | ⟨front, last, rfl⟩ := List.eq_nil_or_concat messages
  · rw [seqCheck_first chk _ hlast]
    simp [Holds, hgap]
  · rw [List.concat_eq_append, List.getLast?_concat] at hlast
    obtain ⟨hok, hgap', hlast'⟩ := seqCheck_next chk (sequenceOf last) (sequenceOf m) hgap hlast
    refine ⟨⟨hgap', ?_⟩, ?_⟩
    · rw [List.getLast?_concat, hlast']
    · rw [hok, List.concat_eq_append]
      simp

/-! ## A step and a run -/

/-- The receiver has seen what the checks in front let through, and has accepted the
messages that were in turn. -/
structure Follows (key : Key) (r : Receiver) (f : Front) : Prop where
  key : r.app.key.nodeKey = key
  ids : r.app.ids = f.ids
  checker : Holds (r.app.checker channel) f.reached
  accepted : r.accepted = (turns f.reached).map (f.reached.getD · [])

/-- A delivery that reaches the checker is accepted exactly when it is in turn. -/
theorem receive_reaches (r : Receiver) (d : Delivery)
    (h : Reaches r.app d.raw channel.dataId d.tick) :
    let chk := e2eSeqCheck (r.app.checker channel) (sequenceOf d.raw)
    (receive channel r d).app.key = r.app.key ∧
      (receive channel r d).app.ids = (rateCheck d.raw channel.dataId d.tick r.app.ids).2 ∧
      (receive channel r d).app.checker channel = chk.2 ∧
      (receive channel r d).accepted = r.accepted ++
        if (payloadOf d.raw).length < jsonSize ∧ chk.1 = .ok then [d.raw] else [] := by
  have hdecode := decode_reaches r.app d.raw d.hdr channel channel.dataId d.tick h
  simp only [receive, hdecode]
  by_cases hok : (e2eSeqCheck (r.app.checker channel) (sequenceOf d.raw)).1 = .ok
  · rw [if_neg (not_not.mpr hok)]
    by_cases hfits : (payloadOf d.raw).length < jsonSize
    · rw [if_neg (by omega)]
      simp [hfits, hok]
    · rw [if_pos (by omega)]
      simp [hfits]
  · rw [if_pos hok]
    simp [hok]

/-- A delivery that is stopped earlier changes neither the checker nor what was accepted. -/
theorem receive_stopped (r : Receiver) (d : Delivery)
    (h : ¬ Reaches r.app d.raw channel.dataId d.tick) :
    (receive channel r d).app.key = r.app.key ∧
      (receive channel r d).app.ids = (rateCheck d.raw channel.dataId d.tick r.app.ids).2 ∧
      (receive channel r d).app.checker channel = r.app.checker channel ∧
      (receive channel r d).accepted = r.accepted := by
  obtain ⟨type, code, lastSeq, hdr, hdecode⟩ :=
    decode_stopped r.app d.raw d.hdr channel channel.dataId d.tick h
  simp only [receive, hdecode]
  refine ⟨rfl, rfl, ?_, rfl⟩
  cases channel <;> rfl

theorem step_follows (key : Key) (r : Receiver) (f : Front) (d : Delivery)
    (h : Follows channel key r f) :
    Follows channel key (receive channel r d) (front channel key f d) := by
  obtain ⟨hkey, hids, hchecker, haccepted⟩ := h
  by_cases hreach : Reaches r.app d.raw channel.dataId d.tick
  · have hfront : front channel key f d =
        ⟨(rateCheck d.raw channel.dataId d.tick f.ids).2, f.reached ++ [d.raw]⟩ := by
      rw [front, ← hids, ← hkey]
      exact congrArg _ (if_pos hreach)
    have hnew : (f.reached ++ [d.raw]).getD f.reached.length [] = d.raw := by simp
    have hold : ∀ i < f.reached.length, (f.reached ++ [d.raw]).getD i [] = f.reached.getD i [] :=
      fun i hi => List.getD_append _ _ _ _ hi
    obtain ⟨hkey', hids', hchecker', haccepted'⟩ := receive_reaches channel r d hreach
    obtain ⟨hholds, hverdict⟩ := seqCheck_holds _ f.reached d.raw hchecker
    have hturn : InTurn (f.reached ++ [d.raw]) f.reached.length ↔
        (payloadOf d.raw).length < jsonSize ∧
          (e2eSeqCheck (r.app.checker channel) (sequenceOf d.raw)).1 = .ok := by
      rw [hverdict, InTurn, hnew]
      obtain hempty | hsome := Nat.eq_zero_or_pos f.reached.length
      · simp [hempty]
      · rw [hold _ (by omega)]
    rw [hfront]
    refine ⟨by rw [hkey', hkey], by rw [hids', hids], by rw [hchecker']; exact hholds, ?_⟩
    rw [haccepted', haccepted, turns_append, List.map_append]
    congr 1
    · apply List.map_congr_left
      intro i hi
      have hlt : i < f.reached.length := List.mem_range.mp (List.mem_of_mem_filter hi)
      exact (hold i hlt).symm
    · simp only [hturn]
      split
      · rw [List.map_singleton, hnew]
      · rfl
  · have hfront : front channel key f d =
        ⟨(rateCheck d.raw channel.dataId d.tick f.ids).2, f.reached⟩ := by
      rw [front, ← hids, ← hkey]
      exact congrArg _ (if_neg hreach)
    obtain ⟨hkey', hids', hchecker', haccepted'⟩ := receive_stopped channel r d hreach
    rw [hfront]
    exact ⟨by rw [hkey', hkey], by rw [hids', hids], by rw [hchecker']; exact hchecker,
      by rw [haccepted', haccepted]⟩

/-- Along a run the accepted messages are those that reach the checker in turn. -/
theorem run_accepted (app : App) (hfresh : app.checker channel = e2eSeqCheckerInit e2eAsildMaxGap)
    (deliveries : List Delivery) :
    (run (receive channel) ⟨app, []⟩ deliveries).accepted =
      (turns (reached channel app deliveries)).map ((reached channel app deliveries).getD · []) := by
  have hstart : Follows channel app.key.nodeKey ⟨app, []⟩ ⟨app.ids, []⟩ :=
    ⟨rfl, rfl, by rw [hfresh]; exact ⟨rfl, rfl⟩, rfl⟩
  have hrun : Follows channel app.key.nodeKey (run (receive channel) ⟨app, []⟩ deliveries)
      (run (front channel app.key.nodeKey) ⟨app.ids, []⟩ deliveries) := by
    induction deliveries using List.reverseRecOn with
    | nil => exact hstart
    | append_singleton deliveries d ih =>
      rw [run_concat, run_concat]
      exact step_follows channel _ _ _ d ih
  exact hrun.accepted

/-! ## Two neighbours in the wrong order -/

/-- The rate limiter admits messages of these lengths at these ticks. -/
def admits (ids : IdsEngine) : List (Nat × BitVec 32) → Bool
  | [] => true
  | (length, tick) :: rest =>
    let (allowed, ids) := idsCheckMessage ids channel.dataId (BitVec.ofNat 32 length) tick
    allowed && admits ids rest

/-- Authentic messages at an admissible rate all reach the checker. -/
theorem reached_of_admits (key : Key) (f : Front) (deliveries : List Delivery)
    (hauth : ∀ d ∈ deliveries, Authentic key d.raw d.tick)
    (hadmits : admits channel f.ids (deliveries.map fun d => (d.raw.length, d.tick)) = true) :
    (run (front channel key) f deliveries).reached = f.reached ++ deliveries.map (·.raw) := by
  induction deliveries generalizing f with
  | nil => simp
  | cons d deliveries ih =>
    simp only [List.map_cons, admits, Bool.and_eq_true] at hadmits
    have hd := hauth d List.mem_cons_self
    have hrest : ∀ d' ∈ deliveries, Authentic key d'.raw d'.tick :=
      fun d' hd' => hauth d' (List.mem_cons_of_mem _ hd')
    have hfront : front channel key f d =
        ⟨(rateCheck d.raw channel.dataId d.tick f.ids).2, f.reached ++ [d.raw]⟩ :=
      congrArg _ (if_pos ⟨hadmits.1, hd⟩)
    rw [run_cons, hfront, ih _ hrest hadmits.2, List.append_assoc]
    rfl

/-- `{"state":"on"}`. -/
def switchOn : List Byte := FirmwareKey.ascii "\x7b\"state\":\"on\"\x7d"

/-- A node that has just booted. -/
def booted : App := boot ⟨false, false⟩ 0

/-- The sender's first and second message. -/
def lower : List Byte := sealed booted.key.nodeKey switchOn dataIdHeadlight ⟨0, 0⟩ ⟨0⟩ 100
def upper : List Byte := sealed booted.key.nodeKey switchOn dataIdHeadlight ⟨1, 1⟩ ⟨1⟩ 200

/-- The second message overtakes the first and is replayed after it. -/
def overtaken : List Delivery :=
  [⟨upper, ⟨0, 0, 0, 0, 0⟩, 300⟩, ⟨lower, ⟨0, 0, 0, 0, 0⟩, 400⟩, ⟨upper, ⟨0, 0, 0, 0, 0⟩, 500⟩]

theorem overtaken_reached : reached .headlight booted overtaken = [upper, lower, upper] := by
  have hshort : switchOn.length ≤ 289 := by decide
  have hlower : lower.length = 49 := sealed_length _ _ _ _ _ _ hshort
  have hupper : upper.length = 49 := sealed_length _ _ _ _ _ _ hshort
  apply reached_of_admits
  · intro d hd
    simp only [overtaken, List.mem_cons, List.not_mem_nil, or_false] at hd
    obtain rfl | rfl | rfl := hd <;> exact sealed_authentic _ _ _ _ _ _ _ hshort (by decide)
  · simp only [overtaken, List.map_cons, List.map_nil, hlower, hupper]
    decide

/-- From a fresh checker no wire message is accepted twice exactly when no message reaches
the checker twice in turn. -/
theorem accepted_once_iff (app : App)
    (hfresh : app.checker channel = e2eSeqCheckerInit e2eAsildMaxGap) (deliveries : List Delivery) :
    (run (receive channel) ⟨app, []⟩ deliveries).accepted.Nodup ↔
      ¬ RepeatsInTurn (reached channel app deliveries) := by
  rw [run_accepted channel app hfresh, nodup_turns_iff]

theorem accepted_once_iff_overtaken :
    (run (receive .headlight) ⟨booted, []⟩ overtaken).accepted.Nodup ↔
      ¬ RepeatsInTurn (reached .headlight booted overtaken) :=
  accepted_once_iff .headlight booted rfl overtaken

/-- The second message is acted on twice. -/
theorem overtaken_accepted_twice :
    ¬ (run (receive .headlight) ⟨booted, []⟩ overtaken).accepted.Nodup := by
  have hshort : switchOn.length ≤ 289 := by decide
  have hlower : sequenceOf lower = 0 := sealed_sequenceOf _ _ _ _ _ _ hshort
  have hupper : sequenceOf upper = 1 := sealed_sequenceOf _ _ _ _ _ _ hshort
  have hpayload : payloadOf upper = switchOn := sealed_payloadOf _ _ _ _ _ _ hshort
  have hfits : (payloadOf upper).length < jsonSize := by
    rw [hpayload]
    decide
  rw [run_accepted .headlight booted rfl, overtaken_reached, nodup_turns_iff, not_not]
  refine ⟨0, 2, by decide, by simp, rfl, ⟨hfits, .inl rfl⟩, hfits, .inr ?_⟩
  change sequenceOf upper = sequenceOf lower + 1
  rw [hlower, hupper]
  rfl

end Genoh.NodeReplay
