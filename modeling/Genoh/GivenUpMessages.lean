import Genoh.Reassembly

/-!
# Messages that are given up

A sender may give up a message within its fragments, and says so with a marker; `zenoh-pico` itself
does not, but it receives the markers of those that do. Where the buffer has overflown by then, the
marker empties it and leaves it overflown.
-/
namespace Genoh.GivenUpMessages

open Genoh.Bytes Genoh.Fragmentation Genoh.Reassembly

/-! ## Behind a message that was given up -/

def framePayload : Item → Option (List Byte)
  | .frame payload => some payload
  | .fragment .. => none

/-- The frames that arrive. -/
def frames (run : List (Message × Bool)) : List (List Byte) :=
  (run.filter (·.2)).filterMap fun e => framePayload e.1.item

/-- A first fragment is not the last one. -/
def Cut : Item → Prop
  | .frame _ => True
  | .fragment more first _ _ => first = true → more = true

/-- The buffer has been emptied, and is still said to have overflown. -/
structure Blocked (bits : Fin 4) (n lost : Nat) (c : Conduit) : Prop where
  last : ∃ a, c.snRx.toNat = a % modulus bits ∧ n = a + (lost + 1)
  state : c.state = .overflow
  empty : c.dbuf = []

section Blocked

variable {bits : Fin 4} {n lost : Nat} {under : Option (List Byte)} {c : Conduit}

/-- A first fragment finds the state as it is, and the others find no first one. -/
theorem handle_blocked {m : Message} (hcut : Cut m.item) (hsn : m.sn.toNat = n % modulus bits)
    (hlost : lost < reach bits) (h : Blocked bits n lost c) :
    Blocked bits (n + 1) 0 (handle (snMax bits) true c m).1 ∧
      (handle (snMax bits) true c m).2 = (framePayload m.item).toList := by
  obtain ⟨sn, item⟩ := m
  obtain ⟨a, ha, rfl⟩ := h.last
  have hlast : ∃ a', sn.toNat = a' % modulus bits ∧ a + (lost + 1) + 1 = a' + (0 + 1) :=
    ⟨a + (lost + 1), hsn, rfl⟩
  rw [handle, if_pos (snPrecedes_of_le ha hsn (Nat.succ_pos lost) hlost)]
  cases item with
  | frame payload => exact ⟨⟨hlast, h.state, h.empty⟩, rfl⟩
  | fragment more first drop payload =>
    dsimp only
    rw [if_neg (by simp [h.empty]), handleMarked, if_pos rfl]
    cases first with
    | false =>
      rw [if_pos ⟨rfl, h.empty⟩]
      exact ⟨⟨hlast, h.state, h.empty⟩, rfl⟩
    | true =>
      obtain rfl : more = true := hcut rfl
      rw [if_neg (by simp)]
      cases drop with
      | true => exact ⟨⟨hlast, h.state, rfl⟩, rfl⟩
      | false =>
        have hover := fill_overflow (c := { c with snRx := sn, dbuf := [] }) true payload h.state
        change Blocked bits _ 0 (fill { c with snRx := sn, dbuf := [] } true payload).1 ∧
          (fill { c with snRx := sn, dbuf := [] } true payload).2 = []
        rw [hover]
        exact ⟨⟨hlast, h.state, rfl⟩, rfl⟩

theorem receive_blocked {run : List (Message × Bool)} (hnumbered : Numbered bits n (run.map Prod.fst))
    (hcut : ∀ e ∈ run, Cut e.1.item) (hloss : LossesBelow (reach bits) lost run)
    (h : Blocked bits n lost c) : (receive (snMax bits) true c run).2 = frames run := by
  induction run generalizing n lost c with
  | nil => rfl
  | cons e rest ih =>
    obtain ⟨m, arrives⟩ := e
    have hrest : ∀ e ∈ rest, Cut e.1.item := fun e he => hcut e (List.mem_cons_of_mem _ he)
    cases arrives with
    | false =>
      obtain ⟨a, ha, rfl⟩ := h.last
      exact ih hnumbered.2 hrest hloss ⟨⟨a, ha, rfl⟩, h.state, h.empty⟩
    | true =>
      obtain ⟨hnext, hout⟩ := handle_blocked (m := m) (hcut _ List.mem_cons_self) hnumbered.1 hloss.1 h
      have hlater := ih hnumbered.2 hrest hloss.2 hnext
      have hframes : frames ((m, true) :: rest) = (framePayload m.item).toList ++ frames rest := by
        cases hitem : m.item <;> simp [frames, framePayload, hitem]
      rw [hframes, ← hout, ← hlater]
      rfl

/-- The marker empties the buffer and leaves the state. -/
theorem handle_drop {data : List Byte} {m : Message} {more first : Bool} {payload : List Byte}
    (hitem : m.item = .fragment more first true payload) (hsn : m.sn.toNat = n % modulus bits)
    (h : InStep bits n 0 (some data) c) (hlarge : fragMaxSize < data.length) :
    Blocked bits (n + 1) 0 (handle (snMax bits) true c m).1 ∧
      (handle (snMax bits) true c m).2 = [] := by
  obtain ⟨hprecedes, hgap⟩ := h.advance (reach_pos bits) hsn
  obtain ⟨hstate, hne⟩ := h.large data rfl hlarge
  have hlast : ∃ a, m.sn.toNat = a % modulus bits ∧ n + 1 = a + (0 + 1) := ⟨n, hsn, rfl⟩
  rw [handle, if_pos hprecedes, hitem]
  dsimp only
  rw [if_neg hgap, handleMarked, if_pos rfl, if_neg (by simp [hne])]
  cases first <;> exact ⟨⟨hlast, hstate, rfl⟩, rfl⟩

end Blocked

/-- A message of which more than the buffer holds has come, and that is then given up, is the last one
in fragments on its conduit: of what comes behind the marker only the frames reach the decoder, as
long as no first fragment is a last one too and the numbers stay in order. -/
theorem no_fragments_behind_a_given_up_message (bits : Fin 4) (initialSn : Zint) {front : List Message}
    {marker : Message} {after : List (Message × Bool)} {data payload : List Byte} {more first : Bool}
    (hnumbered : Numbered bits (initialSn.toNat + modulus bits)
      (front ++ marker :: after.map Prod.fst))
    (hplaced : WellPlaced none front) (hplain : ∀ m ∈ front, Plain m.item)
    (hunder : progressAll none front = some data) (hlarge : fragMaxSize < data.length)
    (hmarker : marker.item = .fragment more first true payload)
    (hcut : ∀ e ∈ after, Cut e.1.item) (hloss : LossesBelow (reach bits) 0 after) :
    (receive (snMax bits) true (openConduit (snMax bits) (firstSn bits initialSn))
      (front.map (·, true) ++ (marker, true) :: after)).2 =
        (completions none front).filter (·.length ≤ fragMaxSize) ++ frames after := by
  rw [numbered_append] at hnumbered
  obtain ⟨hfront, hmarkerSn, hafter⟩ := hnumbered
  obtain ⟨hstep, hout⟩ := receive_inStep true hfront hplaced hplain
    (openConduit_inStep bits initialSn)
  rw [hunder] at hstep
  obtain ⟨hblocked, hsilent⟩ := handle_drop hmarker hmarkerSn hstep hlarge
  have hframes := receive_blocked hafter hcut hloss hblocked
  rw [← List.singleton_append, receive_append, receive_append, receive_singleton, hout, hsilent,
    hframes, List.nil_append]

theorem no_fragments_behind_six_thousand_bytes :
    (receive (snMax 2) true (openConduit (snMax 2) (firstSn 2 0))
      ([⟨0, .fragment true true false (List.replicate 2000 0)⟩,
          ⟨1, .fragment true false false (List.replicate 2000 0)⟩,
          ⟨2, .fragment true false false (List.replicate 2000 0)⟩].map (·, true) ++
        (⟨3, .fragment true false true []⟩, true) ::
          [(⟨4, .frame [5]⟩, true), (⟨5, .fragment true true false [6]⟩, true),
            (⟨6, .fragment false false false [7]⟩, true)])).2 = [] ++ [[5]] := by
  have hlength : (List.replicate 2000 (0 : Byte)).length = 2000 := List.length_replicate
  generalize List.replicate 2000 (0 : Byte) = chunk at hlength ⊢
  have hchunk : chunk ≠ [] := by
    rintro rfl
    cases hlength
  refine no_fragments_behind_a_given_up_message 2 0 ⟨rfl, rfl, rfl, rfl, rfl, rfl, rfl, trivial⟩
    ?_ ?_ (?_ : progressAll none _ = some (chunk ++ chunk ++ chunk)) ?_ rfl ?_
    ⟨by decide, by decide, by decide, trivial⟩
  · simp [WellPlaced, Placed, progress]
  · simp [Plain, batchUnicastSize, hlength, hchunk]
  · simp [progressAll, progress, grown]
  · simp only [List.length_append, hlength]
    decide
  · simp [Cut]

end Genoh.GivenUpMessages
