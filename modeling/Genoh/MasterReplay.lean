import Mathlib.Data.Prod.Lex
import Genoh.PayloadStack
import Genoh.ReplayGuard

/-!
# Replays at the master

`secoc_decode` rejects what is not newer than the freshness value its caller passes in, and the
values of one `FreshnessCounter` increase strictly.
-/
namespace Genoh.MasterReplay

open Genoh.Bytes Genoh.Run Genoh.ReplayGuard Genoh.SecOCWire Genoh.MasterE2E Genoh.MasterSecOC
open Genoh.PayloadStack

/-! ## The order of freshness values -/

def order (fv : FreshnessValue) : ℕ ×ₗ ℕ := toLex (fv.timestampMs, fv.counter)

theorem order_injective : Function.Injective order := by
  rintro ⟨ts, ctr⟩ ⟨ts', ctr'⟩ h
  simpa [order] using h

/-- Freshness values are ordered by timestamp, then by counter. -/
instance : LinearOrder FreshnessValue := LinearOrder.lift' order order_injective

theorem lt_iff (a b : FreshnessValue) : a < b ↔
    a.timestampMs < b.timestampMs ∨ a.timestampMs = b.timestampMs ∧ a.counter < b.counter :=
  Prod.Lex.toLex_lt_toLex

/-- `__le__` is the order. -/
theorem le_iff (a b : FreshnessValue) : a.le b = true ↔ a ≤ b := by
  have horder : a ≤ b ↔
      a.timestampMs < b.timestampMs ∨ a.timestampMs = b.timestampMs ∧ a.counter ≤ b.counter :=
    Prod.Lex.toLex_le_toLex
  rw [horder, FreshnessValue.le]
  split
  · rename_i hlt
    simp [hlt]
  · rename_i hge
    split
    · rename_i heq
      simp [heq]
    · rename_i hne
      simp [hge, hne]

/-- `secoc_decode` on a message of the right sender: the guard and the window decide. -/
theorem secocDecode_secured (key data : List Byte) (fv : FreshnessValue)
    (last : Option FreshnessValue) (windowMs nowMs : Nat) (hts : fv.timestampMs < 256 ^ 6)
    (hctr : fv.counter < 256 ^ 2) :
    secocDecode key (secured key data fv.timestampMs fv.counter) last windowMs nowMs =
      .ok (data, fv, decide (Passes last fv ∧
        ((fv.timestampMs : Int) - nowMs).natAbs ≤ windowMs)) := by
  have hlong : ¬ (secured key data fv.timestampMs fv.counter).length < secocOverhead := by
    rw [secured_length]
    exact Nat.not_lt.mpr (Nat.le_add_left _ _)
  have hcompare := SecOCInterop.master_compare key (secured key data fv.timestampMs fv.counter)
    (by simp)
  rw [secured_timestamp _ _ _ _ hts, secured_counter _ _ _ _ hctr,
    decide_eq_true (secured_macHolds key data _ _ hts hctr)] at hcompare
  have hdata : dataPart (secured key data fv.timestampMs fv.counter) = data := secured_body _ _ _ _
  have hguard : last.any (fun l => fv.le l) = true ↔ ¬ Passes last fv := by
    cases last with
    | none => simp
    | some l => rw [Option.any_some, le_iff, passes_some, not_lt]
  simp only [secocDecode, if_neg hlong, hcompare, hdata, bind, Except.bind, pure, Except.pure,
    Bool.not_true, Bool.false_eq_true, if_false, hguard]
  by_cases hpasses : Passes last fv
  · by_cases hwindow : ((fv.timestampMs : Int) - nowMs).natAbs ≤ windowMs
    · simp [hpasses, hwindow, Nat.not_lt.mpr hwindow]
    · simp [hpasses, hwindow, Nat.not_le.mp hwindow]
  · simp [hpasses]

/-- `is_valid` of a result. -/
def isValid (result : Except PyError (List Byte × FreshnessValue × Bool)) : Bool :=
  match result with
  | .ok (_, _, valid) => valid
  | .error _ => false

/-! ## Drawing freshness values -/

/-- The value drawn last. -/
def current (c : FreshnessCounter) : FreshnessValue := ⟨c.lastTsMs, c.counter⟩

theorem next_current (c : FreshnessCounter) (nowMs : Nat) :
    (c.next nowMs).1 = current (c.next nowMs).2 ∧ (c.next nowMs).2.lastTsMs = nowMs := by
  unfold FreshnessCounter.next current
  dsimp only
  split
  · rename_i hsame
    simp [hsame]
  · simp

/-- The counter after draws at the readings: it is at the latest of them, and its number is
at most that of the draws in this millisecond. -/
structure Drawn (readings : List Nat) (c : FreshnessCounter) : Prop where
  latest : ∀ t ∈ readings, t ≤ c.lastTsMs
  seen : c.lastTsMs = 0 ∨ c.lastTsMs ∈ readings
  number : c.counter ≤ readings.count c.lastTsMs

/-- A draw at a later or equal reading exceeds the value drawn last. -/
theorem drawn_next {readings : List Nat} {c : FreshnessCounter} {nowMs : Nat}
    (h : Drawn readings c) (hlater : ∀ t ∈ readings, t ≤ nowMs)
    (hfew : (readings ++ [nowMs]).count nowMs < 65536) :
    Drawn (readings ++ [nowMs]) (c.next nowMs).2 ∧ current c < (c.next nowMs).1 := by
  have hle : c.lastTsMs ≤ nowMs := by
    obtain hzero | hmem := h.seen
    · omega
    · exact hlater _ hmem
  have hcount : (readings ++ [nowMs]).count nowMs = readings.count nowMs + 1 := by simp
  have hall : ∀ t ∈ readings ++ [nowMs], t ≤ nowMs := by
    intro t ht
    obtain ht | ht := List.mem_append.mp ht
    · exact hlater t ht
    · exact (List.mem_singleton.mp ht).le
  by_cases hsame : nowMs = c.lastTsMs
  · -- the same millisecond: the number counts up and does not wrap
    have hnumber := h.number
    rw [← hsame] at hnumber
    have hnext : c.next nowMs = (⟨nowMs, c.counter + 1⟩, ⟨c.lastTsMs, c.counter + 1⟩) := by
      simp only [FreshnessCounter.next, if_pos hsame]
      rw [Nat.mod_eq_of_lt (by omega)]
    rw [hnext]
    refine ⟨⟨?_, ?_, ?_⟩, ?_⟩
    · change ∀ t ∈ readings ++ [nowMs], t ≤ c.lastTsMs
      rwa [← hsame]
    · exact .inr (by simp [hsame])
    · change c.counter + 1 ≤ (readings ++ [nowMs]).count c.lastTsMs
      rw [← hsame]
      omega
    · rw [lt_iff]
      exact .inr ⟨hsame.symm, Nat.lt_succ_self _⟩
  · have hnext : c.next nowMs = (⟨nowMs, 0⟩, ⟨nowMs, 0⟩) := by
      simp only [FreshnessCounter.next, if_neg hsame]
    rw [hnext]
    refine ⟨⟨hall, .inr (by simp), Nat.zero_le _⟩, ?_⟩
    rw [lt_iff]
    exact .inl (lt_of_le_of_ne hle (Ne.symm hsame))

/-! ## One freshness counter -/

/-- A message on its way, with the freshness value that it was sealed under. -/
structure Sent where
  wire : List Byte
  freshness : FreshnessValue
  deriving DecidableEq, Repr

/-- A sender with one `FreshnessCounter`, the messages it has sent, and a receiver that keeps
the freshness value of the last message it accepted. The numbers of the accepted messages
are kept in order of acceptance. -/
structure Link where
  freshnessCounter : FreshnessCounter
  sent : List Sent
  lastFreshness : Option FreshnessValue
  accepted : List Nat
  deriving DecidableEq, Repr

inductive LinkEvent where
  | send (data : List Byte) (nowMs : Nat)
  | deliver (i : Nat) (nowMs : Nat)
  deriving DecidableEq, Repr

def openLink : Link := ⟨{}, [], none, []⟩

/-- The clock reading of a send. -/
def LinkEvent.reading : LinkEvent → Option Nat
  | .send _ nowMs => some nowMs
  | .deliver _ _ => none

def readings (events : List LinkEvent) : List Nat := events.filterMap LinkEvent.reading

section Link

variable (key : List Byte) (windowMs : Nat)

/-- The sender seals its data, or raises and sends nothing. -/
def send (link : Link) (data : List Byte) (nowMs : Nat) : Link :=
  let freshness := (link.freshnessCounter.next nowMs).1
  let (result, freshnessCounter) := secocEncode key data link.freshnessCounter nowMs
  match result with
  | .ok wire => { link with
      freshnessCounter := freshnessCounter
      sent := link.sent ++ [⟨wire, freshness⟩] }
  | .error _ => { link with freshnessCounter := freshnessCounter }

/-- What `secoc_decode` makes of a message at the receiver. -/
def receive (link : Link) (s : Sent) (nowMs : Nat) :
    Except PyError (List Byte × FreshnessValue × Bool) :=
  secocDecode key s.wire link.lastFreshness windowMs nowMs

def deliver (link : Link) (i nowMs : Nat) : Link :=
  match link.sent[i]? with
  | none => link
  | some s =>
    match receive key windowMs link s nowMs with
    | .ok (_, freshness, true) => { link with
        lastFreshness := some freshness
        accepted := link.accepted ++ [i] }
    | _ => link

def linkStep (link : Link) : LinkEvent → Link
  | .send data nowMs => send key link data nowMs
  | .deliver i nowMs => deliver key windowMs link i nowMs

/-- A message sent after the last accepted one is accepted within the window, one that is
accepted already or was sent before the last accepted one is not accepted. -/
def Protected (link : Link) (e : LinkEvent) : Prop :=
  ∀ i nowMs s, e = .deliver i nowMs → link.sent[i]? = some s →
    ((∀ j ∈ link.accepted.getLast?, j < i) →
      ((s.freshness.timestampMs : Int) - nowMs).natAbs ≤ windowMs →
        isValid (receive key windowMs link s nowMs) = true) ∧
    ((i ∈ link.accepted ∨ ∃ j ∈ link.accepted.getLast?, i < j) →
      isValid (receive key windowMs link s nowMs) = false)

/-- The sender's clock does not go back, and fewer than 65536 messages share a millisecond. -/
def Paced (events : List LinkEvent) : Prop :=
  (readings events).Pairwise (· ≤ ·) ∧ ∀ t, (readings events).count t < 65536

theorem readings_append (front tail : List LinkEvent) :
    readings (front ++ tail) = readings front ++ readings tail := List.filterMap_append

theorem paced_closed (front tail : List LinkEvent) (h : Paced (front ++ tail)) : Paced front := by
  obtain ⟨hordered, hfew⟩ := h
  rw [readings_append] at hordered hfew
  refine ⟨(List.pairwise_append.mp hordered).1, fun t => ?_⟩
  exact lt_of_le_of_lt ((List.sublist_append_left ..).count_le t) (hfew t)

/-- The freshness values increase along the sent messages up to the one drawn last, and the
receiver remembers that of the last message it accepted. -/
structure Consistent (events : List LinkEvent) (link : Link) : Prop where
  drawn : Drawn (readings events) link.freshnessCounter
  intact : ∀ s ∈ link.sent, (s.freshness.timestampMs < 256 ^ 6 ∧ s.freshness.counter < 256 ^ 2) ∧
    ∃ data, s.wire = secured key data s.freshness.timestampMs s.freshness.counter
  increasing : (link.sent.map Sent.freshness).Pairwise (· < ·)
  behind : ∀ s ∈ link.sent, s.freshness ≤ current link.freshnessCounter
  remembered : link.lastFreshness =
    link.accepted.getLast?.bind fun j => (link.sent.map Sent.freshness)[j]?
  forward : link.accepted.Pairwise (· < ·)
  known : ∀ i ∈ link.accepted, i < link.sent.length

theorem openLink_consistent : Consistent key [] openLink where
  drawn := ⟨nofun, .inl rfl, Nat.zero_le _⟩
  intact := nofun
  increasing := List.Pairwise.nil
  behind := nofun
  remembered := rfl
  forward := List.Pairwise.nil
  known := nofun

variable {key windowMs}

theorem send_consistent {past : List LinkEvent} {link : Link} {data : List Byte} {nowMs : Nat}
    (hpaced : Paced (past ++ [.send data nowMs])) (h : Consistent key past link) :
    Consistent key (past ++ [.send data nowMs]) (send key link data nowMs) := by
  have hreadings : readings (past ++ [.send data nowMs]) = readings past ++ [nowMs] :=
    readings_append past [.send data nowMs]
  obtain ⟨hordered, hfew⟩ := hpaced
  rw [hreadings] at hordered hfew
  have hlater : ∀ t ∈ readings past, t ≤ nowMs := fun t ht =>
    (List.pairwise_append.mp hordered).2.2 t ht nowMs (List.mem_singleton_self nowMs)
  obtain ⟨hdrawn, hlt⟩ := drawn_next h.drawn hlater (hfew nowMs)
  obtain ⟨hcurrent, -⟩ := next_current link.freshnessCounter nowMs
  have hbehind : ∀ s ∈ link.sent, s.freshness < (link.freshnessCounter.next nowMs).1 :=
    fun s hs => lt_of_le_of_lt (h.behind s hs) hlt
  rw [← hreadings] at hdrawn
  cases hseal : secocSeal key data (link.freshnessCounter.next nowMs).1 with
  | error error =>
    simp only [send, secocEncode, hseal]
    exact ⟨hdrawn, h.intact, h.increasing, fun s hs => (hcurrent ▸ hbehind s hs).le, h.remembered,
      h.forward, h.known⟩
  | ok wire =>
    obtain ⟨hfits, hwire⟩ := (secocSeal_ok_iff _ _ _ _).mp hseal
    simp only [send, secocEncode, hseal]
    refine ⟨hdrawn, ?_, ?_, ?_, ?_, h.forward, ?_⟩
    · intro s hs
      obtain hs | hs := List.mem_append.mp hs
      · exact h.intact s hs
      · obtain rfl := List.mem_singleton.mp hs
        exact ⟨hfits, data, hwire⟩
    · rw [List.map_append, List.pairwise_append]
      refine ⟨h.increasing, List.pairwise_singleton _ _, ?_⟩
      simpa using hbehind
    · intro s hs
      obtain hs | hs := List.mem_append.mp hs
      · exact (hcurrent ▸ hbehind s hs).le
      · obtain rfl := List.mem_singleton.mp hs
        exact hcurrent.le
    · change link.lastFreshness = _
      rw [h.remembered]
      cases hlast : link.accepted.getLast? with
      | none => rfl
      | some j =>
        have hj := h.known j (List.mem_of_getLast? hlast)
        rw [Option.bind_some, Option.bind_some, List.map_append,
          List.getElem?_append_left (by simpa using hj)]
    · intro i hi
      have := h.known i hi
      simp only [List.length_append, List.length_singleton]
      omega

/-- The receiver's verdict on the messages of a consistent link: the number and the window
decide. -/
theorem receive_consistent {past : List LinkEvent} {link : Link} (h : Consistent key past link)
    (windowMs : Nat) {i : Nat} (nowMs : Nat) {s : Sent} (hs : link.sent[i]? = some s) :
    ∃ data, receive key windowMs link s nowMs = .ok (data, s.freshness,
      decide ((∀ j ∈ link.accepted.getLast?, j < i) ∧
        ((s.freshness.timestampMs : Int) - nowMs).natAbs ≤ windowMs)) := by
  obtain ⟨⟨hts, hctr⟩, data, hwire⟩ := h.intact s (List.mem_of_getElem? hs)
  obtain ⟨hi, hget⟩ := List.getElem?_eq_some_iff.mp hs
  have hguard : Passes link.lastFreshness s.freshness ↔ ∀ j ∈ link.accepted.getLast?, j < i := by
    rw [h.remembered]
    cases hlast : link.accepted.getLast? with
    | none => simp
    | some j =>
      have hj := h.known j (List.mem_of_getLast? hlast)
      have hpasses := passes_getElem h.increasing (i := i) (j := j) (by simpa using hi)
        (by simpa using hj)
      rw [List.getElem_map, List.getElem_map, hget] at hpasses
      simpa [hj] using hpasses
  refine ⟨data, ?_⟩
  rw [receive, hwire, secocDecode_secured key data s.freshness _ windowMs nowMs hts hctr]
  simp only [hguard]

theorem deliver_consistent {past : List LinkEvent} {link : Link} {i nowMs : Nat}
    (h : Consistent key past link) :
    Consistent key (past ++ [.deliver i nowMs]) (deliver key windowMs link i nowMs) := by
  have hreadings : readings (past ++ [.deliver i nowMs]) = readings past := by
    rw [readings_append]
    exact List.append_nil _
  have hkeep : Consistent key (past ++ [.deliver i nowMs]) link :=
    ⟨hreadings ▸ h.drawn, h.intact, h.increasing, h.behind, h.remembered, h.forward, h.known⟩
  rw [deliver]
  cases hs : link.sent[i]? with
  | none => exact hkeep
  | some s =>
    obtain ⟨data, hreceive⟩ := receive_consistent h windowMs nowMs hs
    simp only [hreceive]
    by_cases hvalid : (∀ j ∈ link.accepted.getLast?, j < i) ∧
        ((s.freshness.timestampMs : Int) - nowMs).natAbs ≤ windowMs
    · simp only [decide_eq_true hvalid]
      refine ⟨hkeep.drawn, h.intact, h.increasing, h.behind, ?_, ?_, ?_⟩
      · simp [hs]
      · rw [List.pairwise_append]
        refine ⟨h.forward, List.pairwise_singleton _ _, ?_⟩
        intro j hj k hk
        obtain rfl := List.mem_singleton.mp hk
        obtain ⟨l, hl, hjl⟩ := le_getLast h.forward hj
        exact lt_of_le_of_lt hjl (hvalid.1 l hl)
      · intro j hj
        obtain hj | hj := List.mem_append.mp hj
        · exact h.known j hj
        · obtain rfl := List.mem_singleton.mp hj
          exact (List.getElem?_eq_some_iff.mp hs).1
    · simp only [decide_eq_false hvalid]
      exact hkeep

theorem consistent_protected {past : List LinkEvent} {link : Link} (e : LinkEvent)
    (h : Consistent key past link) : Protected key windowMs link e := by
  rintro i nowMs s - hs
  obtain ⟨data, hreceive⟩ := receive_consistent h windowMs nowMs hs
  rw [hreceive, isValid]
  refine ⟨fun hlater hwindow => decide_eq_true ⟨hlater, hwindow⟩, fun hold => decide_eq_false ?_⟩
  rintro ⟨hlater, -⟩
  obtain hmem | ⟨j, hj, hij⟩ := hold
  · obtain ⟨l, hl, hil⟩ := le_getLast h.forward hmem
    exact absurd (hlater l hl) (Nat.not_lt.mpr hil)
  · exact absurd (hlater j hj) (Nat.not_lt.mpr hij.le)

variable (key windowMs)

/-- With one freshness counter at the sender and the last accepted freshness value at the receiver,
every run of sends and deliveries is protected: in any order, with losses, delays and repetitions. -/
theorem replay_protection (events : List LinkEvent)
    (hclock : (readings events).Pairwise (· ≤ ·))
    (hfew : ∀ t, (readings events).count t < 65536) :
    Always (linkStep key windowMs) openLink (Protected key windowMs) events := by
  refine always_of_history (I := Consistent key) (H := Paced) (openLink_consistent key)
    paced_closed ?_ ?_ events ⟨hclock, hfew⟩
  · intro past e hpaced h
    cases e with
    | send data nowMs => exact send_consistent hpaced h
    | deliver i nowMs => exact deliver_consistent h
  · intro past e hpaced h
    exact consistent_protected e h

/-- Two messages of one millisecond, the second delivered first. -/
theorem replay_protection_overtaken :
    Always (linkStep (List.replicate 32 0) 5000) openLink (Protected (List.replicate 32 0) 5000)
      [.send [1] 100, .send [2] 100, .deliver 1 200, .deliver 0 300, .deliver 1 400] := by
  refine replay_protection (List.replicate 32 0) 5000 _ (by decide) fun t => ?_
  exact lt_of_le_of_lt List.count_le_length (by decide)

end Link

end Genoh.MasterReplay
