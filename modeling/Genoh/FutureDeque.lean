import Genoh.Run
import Mathlib.Tactic.Common
import Mathlib.Logic.Function.Basic

/-!
# The deque of ready futures

`collections/deque_template.h` of the vendored client, as the executor uses it: pushes at the back
and pops at the front of an array with a first place and a place behind the last. `push_back` takes
the place behind the last around the end of the array, `pop_front` does not take the first place
around it.
-/
namespace Genoh.FutureDeque

open Genoh.Run

variable {α : Type*}

/-- `_buffer`, `_start` and `_end`. -/
structure Deque (α : Type*) where
  buffer : Nat → α
  start : Nat
  stop : Nat

namespace Deque

variable (capacity : Nat)

/-- `new`. -/
def new (zero : α) : Deque α := ⟨fun _ => zero, 0, 0⟩

def size (d : Deque α) : Nat :=
  if d.start < d.stop then d.stop - d.start
  else if d.start = 0 ∧ d.stop = 0 then 0
  else capacity - d.start + d.stop

/-- `push_back`; nothing where it writes outside of the buffer. -/
def pushBack (d : Deque α) (elem : α) : Option (Deque α × Bool) :=
  if d.size capacity = capacity then some (d, false)
  else
    let stop := if d.stop = capacity then 0 else d.stop
    if stop < capacity then
      some ({ d with buffer := Function.update d.buffer stop elem, stop := stop + 1 }, true)
    else none

/-- `pop_front`; nothing where it reads outside of the buffer. -/
def popFront (d : Deque α) : Option (Deque α × Option α) :=
  if d.size capacity = 0 then some (d, none)
  else if d.start < capacity then
    let start := d.start + 1
    if d.stop = start then some ({ d with start := 0, stop := 0 }, some (d.buffer d.start))
    else some ({ d with start := start }, some (d.buffer d.start))
  else none

end Deque

/-! ## The queue it stands for -/

/-- A queue and how often it was popped since it was last empty. -/
structure Queue (α : Type*) where
  items : List α
  pops : Nat

inductive Operation (α : Type*) where
  | push (elem : α)
  | pop

inductive Answer (α : Type*) where
  | pushed (taken : Bool)
  | popped (elem : Option α)

namespace Queue

def empty : Queue α := ⟨[], 0⟩

def step (capacity : Nat) (q : Queue α) : Operation α → Queue α
  | .push elem => if q.items.length = capacity then q else { q with items := q.items ++ [elem] }
  | .pop => ⟨q.items.tail, if q.items.tail = [] then 0 else q.pops + 1⟩

def answer (capacity : Nat) (q : Queue α) : Operation α → Answer α
  | .push _ => .pushed (q.items.length != capacity)
  | .pop => .popped q.items.head?

/-- The answers of a run. -/
def answers (capacity : Nat) : Queue α → List (Operation α) → List (Answer α)
  | _, [] => []
  | q, op :: ops => q.answer capacity op :: answers capacity (q.step capacity op) ops

end Queue

namespace Deque

def step (capacity : Nat) (d : Deque α) : Operation α → Option (Deque α × Answer α)
  | .push elem => (d.pushBack capacity elem).map fun r => (r.1, .pushed r.2)
  | .pop => (d.popFront capacity).map fun r => (r.1, .popped r.2)

/-- The answers of a run that stays inside of the buffer. -/
def answers (capacity : Nat) : Deque α → List (Operation α) → Option (List (Answer α))
  | _, [] => some []
  | d, op :: ops =>
    (d.step capacity op).bind fun r => (answers capacity r.1 ops).map (r.2 :: ·)

end Deque

/-! ## Places in the buffer -/

/-- The place of an item, around the end of the buffer. -/
def place (capacity start k : Nat) : Nat :=
  if start + k < capacity then start + k else start + k - capacity

theorem place_ne {capacity start k k' : Nat} (hk : k < k') (hk' : k' < capacity) :
    place capacity start k ≠ place capacity start k' := by
  unfold place
  split
  · split
    · omega
    · omega
  · split
    · omega
    · omega

/-- The items stand in their places, and the first place counts the pops. -/
structure Holds (capacity : Nat) (d : Deque α) (q : Queue α) : Prop where
  room : q.items.length ≤ capacity
  start : d.start = q.pops
  inside : d.start ≤ capacity
  empty : q.items = [] → d.start = 0 ∧ d.stop = 0
  stop : q.items ≠ [] → d.stop =
    if d.start + q.items.length ≤ capacity then d.start + q.items.length
    else d.start + q.items.length - capacity
  cells : ∀ k a, q.items[k]? = some a → d.buffer (place capacity d.start k) = a

theorem new_holds (capacity : Nat) (zero : α) : Holds capacity (Deque.new zero) Queue.empty where
  room := Nat.zero_le _
  start := rfl
  inside := Nat.zero_le _
  empty _ := ⟨rfl, rfl⟩
  stop h := absurd rfl h
  cells k a h := absurd h (by simp [Queue.empty])

section Steps

variable {capacity : Nat} {d : Deque α} {q : Queue α}

theorem Holds.size_eq (h : Holds capacity d q) : d.size capacity = q.items.length := by
  have hroom := h.room
  have hinside := h.inside
  rw [Deque.size]
  by_cases hitems : q.items = []
  · obtain ⟨hstart, hstop⟩ := h.empty hitems
    simp [hstart, hstop, hitems]
  · have hpos := List.length_pos_iff.mpr hitems
    rw [h.stop hitems]
    by_cases hend : d.start + q.items.length ≤ capacity
    · rw [if_pos hend, if_pos (by omega)]
      omega
    · rw [if_neg hend, if_neg (by omega), if_neg (by omega)]
      omega

theorem pushBack_full (h : Holds capacity d q) (hfull : q.items.length = capacity) (elem : α) :
    d.pushBack capacity elem = some (d, false) := by
  rw [Deque.pushBack, if_pos (by rw [h.size_eq, hfull])]

theorem place_lt {start k : Nat} (hstart : start ≤ capacity) (hk : k < capacity) :
    place capacity start k < capacity := by
  unfold place
  split
  · assumption
  · omega

/-- The next item goes to the place behind the last one. -/
theorem Holds.next_place (h : Holds capacity d q) (hroom : q.items.length < capacity) :
    (if d.stop = capacity then 0 else d.stop) = place capacity d.start q.items.length := by
  have hinside := h.inside
  unfold place
  by_cases hitems : q.items = []
  · obtain ⟨hstart, hstop⟩ := h.empty hitems
    rw [hitems] at hroom ⊢
    simp only [List.length_nil] at hroom ⊢
    rw [hstart, hstop, if_neg (by omega), if_pos (by omega)]
  · have hstop := h.stop hitems
    by_cases hend : d.start + q.items.length ≤ capacity
    · rw [if_pos hend] at hstop
      rw [hstop]
      by_cases hlast : d.start + q.items.length = capacity
      · rw [if_pos hlast, if_neg (by omega), hlast, Nat.sub_self]
      · rw [if_neg hlast, if_pos (by omega)]
    · rw [if_neg hend] at hstop
      rw [hstop, if_neg (by omega), if_neg (by omega)]

/-- Where there is room a push writes behind the last item, around the end of the buffer. -/
theorem pushBack_room (h : Holds capacity d q) (hroom : q.items.length < capacity) (elem : α) :
    ∃ d', d.pushBack capacity elem = some (d', true) ∧
      Holds capacity d' ⟨q.items ++ [elem], q.pops⟩ := by
  have hinside := h.inside
  have hplace := place_lt hinside hroom
  refine ⟨_, by rw [Deque.pushBack, if_neg (by rw [h.size_eq]; omega), h.next_place hroom,
    if_pos hplace], ?_⟩
  constructor
  case room =>
    rw [List.length_append, List.length_singleton]
    exact hroom
  case start => exact h.start
  case inside => exact hinside
  case empty => exact fun hnil => absurd hnil (by simp)
  case stop =>
    intro _
    simp only [List.length_append, List.length_singleton]
    unfold place
    by_cases hend : d.start + q.items.length < capacity
    · rw [if_pos hend, if_pos (by omega)]
      omega
    · rw [if_neg hend, if_neg (by omega)]
      omega
  case cells =>
    intro k a hget
    change Function.update d.buffer (place capacity d.start q.items.length) elem
      (place capacity d.start k) = a
    rw [List.getElem?_append] at hget
    split at hget
    · rename_i hk
      rw [Function.update_of_ne (place_ne hk hroom)]
      exact h.cells k a hget
    · rename_i hk
      rw [List.getElem?_singleton] at hget
      split at hget
      · have hlast : k = q.items.length := by omega
        rw [hlast, Function.update_self]
        exact Option.some.inj hget
      · exact absurd hget (by simp)

theorem popFront_empty (h : Holds capacity d q) (hitems : q.items = []) :
    d.popFront capacity = some (d, none) := by
  rw [Deque.popFront, if_pos (by rw [h.size_eq, hitems, List.length_nil])]

/-- With the first place behind the end a pop reads outside of the buffer. -/
theorem popFront_outside (h : Holds capacity d q) (hitems : q.items ≠ [])
    (hpops : capacity ≤ q.pops) : d.popFront capacity = none := by
  have hpos := List.length_pos_iff.mpr hitems
  rw [Deque.popFront, if_neg (by rw [h.size_eq]; omega), if_neg (by rw [h.start]; omega)]

theorem place_succ (capacity start k : Nat) : place capacity (start + 1) k =
    place capacity start (k + 1) := by
  unfold place
  rw [Nat.add_assoc, Nat.add_comm 1 k]

theorem popFront_inside (h : Holds capacity d q) {elem : α} {rest : List α}
    (hitems : q.items = elem :: rest) (hpops : q.pops < capacity) :
    ∃ d', d.popFront capacity = some (d', some elem) ∧
      Holds capacity d' ⟨rest, if rest = [] then 0 else q.pops + 1⟩ := by
  have hroom := h.room
  have hstart := h.start
  have hstop := h.stop (by simp [hitems])
  have hfirst : d.buffer d.start = elem := by
    have hcell := h.cells 0 elem (by rw [hitems]; rfl)
    rwa [place, if_pos (by omega), Nat.add_zero] at hcell
  rw [hitems, List.length_cons] at hroom hstop
  have hsize : d.size capacity ≠ 0 := by
    rw [h.size_eq, hitems]
    simp
  rw [Deque.popFront, if_neg hsize, if_pos (by omega), hfirst]
  by_cases hrest : rest = []
  · subst hrest
    rw [List.length_nil, if_pos (by omega)] at hstop
    rw [if_pos rfl]
    refine ⟨_, if_pos (by omega), ?_⟩
    exact ⟨Nat.zero_le _, rfl, Nat.zero_le _, fun _ => ⟨rfl, rfl⟩, fun hne => absurd rfl hne,
      fun k a hget => absurd hget (by simp)⟩
  · have hpos := List.length_pos_iff.mpr hrest
    have hopen : d.stop ≠ d.start + 1 := by
      rw [hstop]
      split
      · omega
      · omega
    rw [if_neg hrest]
    refine ⟨_, if_neg hopen, ?_⟩
    constructor
    case room => exact Nat.le_of_succ_le hroom
    case start => exact congrArg (· + 1) hstart
    case inside =>
      change d.start + 1 ≤ capacity
      omega
    case empty => exact fun hnil => absurd hnil hrest
    case stop =>
      intro _
      change d.stop = if d.start + 1 + rest.length ≤ capacity then d.start + 1 + rest.length
        else d.start + 1 + rest.length - capacity
      rw [hstop, Nat.add_assoc, Nat.add_comm 1]
    case cells =>
      intro k a hget
      change d.buffer (place capacity (d.start + 1) k) = a
      rw [place_succ]
      refine h.cells (k + 1) a ?_
      rw [hitems]
      exact hget

end Steps

/-! ## Runs -/

/-- A pop of an item finds that fewer than the capacity were popped since the queue was last
empty. -/
def Inside (capacity : Nat) (q : Queue α) (op : Operation α) : Prop :=
  op = .pop → q.items ≠ [] → q.pops < capacity

/-- One operation answers as on the queue and keeps the items in their places. -/
theorem step_inside {capacity : Nat} {d : Deque α} {q : Queue α} (h : Holds capacity d q)
    (op : Operation α) (hinside : Inside capacity q op) :
    ∃ d', d.step capacity op = some (d', q.answer capacity op) ∧
      Holds capacity d' (q.step capacity op) := by
  cases op with
  | push elem =>
    by_cases hfull : q.items.length = capacity
    · refine ⟨d, ?_, ?_⟩
      · rw [Deque.step, pushBack_full h hfull]
        simp [Queue.answer, hfull]
      · rwa [Queue.step, if_pos hfull]
    · obtain ⟨d', hpush, hholds⟩ :=
        pushBack_room h (Nat.lt_of_le_of_ne h.room hfull) elem
      refine ⟨d', ?_, ?_⟩
      · rw [Deque.step, hpush]
        simp [Queue.answer, hfull]
      · rwa [Queue.step, if_neg hfull]
  | pop =>
    cases hitems : q.items with
    | nil =>
      refine ⟨d, ?_, ?_⟩
      · rw [Deque.step, popFront_empty h hitems]
        simp [Queue.answer, hitems]
      · have hpops : q.pops = 0 := h.start.symm.trans (h.empty hitems).1
        rw [Queue.step, hitems, List.tail_nil, if_pos rfl, ← hpops, ← hitems]
        exact h
    | cons elem rest =>
      obtain ⟨d', hpop, hholds⟩ := popFront_inside h hitems (hinside rfl (by simp [hitems]))
      refine ⟨d', ?_, ?_⟩
      · rw [Deque.step, hpop]
        simp [Queue.answer, hitems]
      · rwa [Queue.step, hitems]

theorem step_outside {capacity : Nat} {d : Deque α} {q : Queue α} (h : Holds capacity d q)
    {op : Operation α} (houtside : ¬ Inside capacity q op) : d.step capacity op = none := by
  simp only [Inside, Classical.not_imp, Nat.not_lt] at houtside
  obtain ⟨rfl, hitems, hpops⟩ := houtside
  rw [Deque.step, popFront_outside h hitems hpops]
  rfl

theorem answers_iff {capacity : Nat} {d : Deque α} {q : Queue α} (h : Holds capacity d q)
    (ops : List (Operation α)) :
    (Always (Queue.step capacity) q (Inside capacity) ops →
      Deque.answers capacity d ops = some (Queue.answers capacity q ops)) ∧
    (¬ Always (Queue.step capacity) q (Inside capacity) ops →
      Deque.answers capacity d ops = none) := by
  induction ops generalizing d q with
  | nil => exact ⟨fun _ => rfl, fun hnot => absurd (always_nil _ _ _) hnot⟩
  | cons op ops ih =>
    rw [always_cons, Deque.answers]
    by_cases hinside : Inside capacity q op
    · obtain ⟨d', hstep, hholds⟩ := step_inside h op hinside
      rw [hstep, Option.bind_some]
      constructor
      · rintro ⟨-, hrest⟩
        rw [(ih hholds).1 hrest]
        rfl
      · intro hnot
        rw [(ih hholds).2 fun hrest => hnot ⟨hinside, hrest⟩]
        rfl
    · rw [step_outside h hinside, Option.bind_none]
      exact ⟨fun hall => absurd hall.1 hinside, fun _ => rfl⟩

/-- Pushed and popped in any order, a new deque answers as a bounded queue does, and stays inside of its
buffer, as long as it runs empty before more items than its capacity have been popped; the first pop
after that reads outside of the buffer. -/
theorem queue_until_outside (capacity : Nat) (zero : α) (ops : List (Operation α)) :
    (Always (Queue.step capacity) Queue.empty (Inside capacity) ops →
      Deque.answers capacity (Deque.new zero) ops =
        some (Queue.answers capacity Queue.empty ops)) ∧
    (¬ Always (Queue.step capacity) Queue.empty (Inside capacity) ops →
      Deque.answers capacity (Deque.new zero) ops = none) :=
  answers_iff (new_holds capacity zero) ops

/-- Two futures that are always ready, in a buffer of two. -/
example : (Deque.answers 2 (Deque.new 0)
    [.push 1, .push 2, .pop, .push 1, .pop, .push 2, .pop]).isNone = true := by decide

end Genoh.FutureDeque
