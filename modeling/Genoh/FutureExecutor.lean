import Genoh.BinaryHeap
import Genoh.FutureDeque
import Genoh.PooledMap

/-!
# The executor of the client

`runtime/executor.c` of the vendored client: futures in a pooled map, a deque of those that are
ready and a heap of those that sleep. What a future does when it is run is an input: the calls it
makes and how it returns. Futures that spin the executor themselves are left out.
-/
namespace Genoh.FutureExecutor

open Genoh.FutureDeque (Deque Queue Holds)
open Genoh.BinaryHeap (Heap Ordered)
open Genoh.PooledMap (Shape Map WellFormed)
open Genoh.Run

/-! ## Ticks -/

/-- `TickType_t`; there are 1000 ticks in a second. -/
abbrev Tick := UInt32

/-- `zp_clock_elapsed_ms_since` -/
def elapsedMsSince (instant epoch : Tick) : Tick := if instant > epoch then instant - epoch else 0

/-- `pdMS_TO_TICKS` -/
def pdMsToTicks (ms : Tick) : Tick := ms * 1000 / 1000

/-- `z_clock_advance_ms` -/
def advanceMs (clock duration : Tick) : Tick := clock + pdMsToTicks duration

theorem elapsedMsSince_pos_iff (instant epoch : Tick) :
    elapsedMsSince instant epoch > 0 ↔ epoch < instant := by
  rw [elapsedMsSince]
  split
  · rename_i h
    refine iff_of_true ?_ h
    have hlt := UInt32.lt_iff_toNat_lt.mp h
    rw [gt_iff_lt, UInt32.lt_iff_toNat_lt, UInt32.toNat_sub_of_le _ _ (UInt32.le_of_lt h)]
    exact Nat.sub_pos_of_lt hlt
  · rename_i h
    exact iff_of_false (by decide) h

/-! ## Model -/

variable {F : Type*}

inductive Status where
  | running | ready | sleeping | suspended
  deriving DecidableEq, Repr

/-- `_z_fut_schedule_t`: the status and the wake-up time since the epoch, zero unless asleep. -/
structure Schedule where
  status : Status
  wakeUp : Tick
  deriving DecidableEq, Repr

/-- A future without its function is one that was destroyed. -/
structure FutData (F : Type*) where
  fut : Option F
  schedule : Schedule

/-- `_z_fut_data_destroy`. -/
def FutData.destroyed : FutData F := ⟨none, ⟨.ready, 0⟩⟩

structure Executor (F : Type*) where
  readyTasks : Deque Nat
  sleepingTasks : Heap Nat
  tasks : Map Nat (FutData F)
  epoch : Tick
  nextFutId : Nat

/-- A read outside of the deque, or of a node without an entry. -/
inductive Fault where
  | outside | freed
  deriving DecidableEq, Repr

variable (shape : Shape Nat)

/-- `_z_executor_init`. -/
def Executor.init (epoch : Tick) : Executor F := ⟨Deque.new 0, ⟨fun _ => 0, 0⟩, Map.new shape, epoch, 0⟩

namespace Executor

variable (ex : Executor F)

def nodeAt (i : Nat) : Except Fault (Nat × FutData F) := (ex.tasks.pool i).elim (.error .freed) .ok

def setSchedule (i : Nat) (schedule : Schedule) : Executor F :=
  { ex with tasks := ex.tasks.setAt i fun data => { data with schedule := schedule } }

/-- The order of the heap, `_z_sleeping_fut_idx_cmp`. -/
def wakeUpAt (i : Nat) : Nat := ((ex.tasks.pool i).map (·.2.schedule.wakeUp.toNat)).getD 0

/-- The push at the back of the ready tasks, whose answer is not looked at. -/
def pushReady (i : Nat) : Except Fault (Executor F) :=
  (ex.readyTasks.pushBack shape.capacity i).elim (.error .outside) fun r =>
    .ok { ex with readyTasks := r.1 }

def popReady : Except Fault (Executor F × Option Nat) :=
  (ex.readyTasks.popFront shape.capacity).elim (.error .outside) fun r =>
    .ok ({ ex with readyTasks := r.1 }, r.2)

def pushSleeping (i : Nat) : Executor F :=
  if ex.sleepingTasks.size = shape.capacity then ex
  else { ex with sleepingTasks := ex.sleepingTasks.push ex.wakeUpAt i }

def popSleeping : Executor F := { ex with sleepingTasks := ex.sleepingTasks.pop ex.wakeUpAt }

/-- `_z_executor_spawn`: the executor and the handle, zero where the pool is exhausted. -/
def spawn (fut : F) : Except Fault (Executor F × Nat) :=
  let id := if ex.nextFutId = 0 then 1 else ex.nextFutId
  let r := ex.tasks.insert shape id ⟨some fut, ⟨.running, 0⟩⟩
  r.2.elim (.ok ({ ex with tasks := r.1, nextFutId := id }, 0)) fun i =>
    (pushReady shape { ex with tasks := r.1, nextFutId := (id + 1) % 4294967296 } i).map (·, id)

inductive Next where
  | noTasks
  | shouldWait (wakeUp : Tick)
  | execute (i : Nat)
  deriving DecidableEq, Repr

/-- `_z_executor_get_next_fut`. -/
def getNextFut (now : Tick) : Except Fault (Executor F × Next) :=
  if ex.sleepingTasks.size = 0 then
    (popReady shape ex).map fun r => (r.1, r.2.elim .noTasks .execute)
  else
    let i := ex.sleepingTasks.buffer 0
    (ex.nodeAt i).bind fun e =>
      let wakeUp := advanceMs ex.epoch e.2.schedule.wakeUp
      if elapsedMsSince now wakeUp > 0 then
        -- a sleeping task that is due waits behind the ready ones
        (popReady shape ex.popSleeping).bind fun r =>
          r.2.elim (.ok (r.1, .execute i)) fun j =>
            (pushReady shape r.1 i).map fun ex' => (ex'.setSchedule i ⟨.ready, 0⟩, .execute j)
      else (popReady shape ex).map fun r => (r.1, r.2.elim (.shouldWait wakeUp) .execute)

def removeAt (i : Nat) : Except Fault (Executor F) :=
  (ex.tasks.removeAt shape i).elim (.error .freed) fun tasks => .ok { ex with tasks := tasks }

/-- The loop of `_z_executor_spin` up to a task to run, with fuel for every task that is queued. The
clock is read in every turn. -/
def nextTask (clock : Nat → Tick) : Nat → Executor F → Except Fault (Executor F × Next)
  | 0, ex => .ok (ex, .noTasks)
  | fuel + 1, ex =>
    (getNextFut shape ex (clock fuel)).bind fun r =>
      match r.2 with
      | .noTasks => .ok r
      | .shouldWait _ => .ok r
      | .execute i => (r.1.nodeAt i).bind fun e =>
        if e.2.fut.isNone = true then (removeAt shape r.1 i).bind (nextTask clock fuel)
        else if e.2.schedule.status = .suspended then nextTask clock fuel r.1
        else .ok r

/-- `_z_executor_cancel_fut`. -/
def cancelFut (handle : Nat) : Executor F × Bool :=
  if handle = 0 then (ex, false)
  else (ex.tasks.getIdx shape handle).elim (ex, false) fun i =>
    ({ ex with tasks := ex.tasks.setAt i fun _ => .destroyed }, true)

/-- `_z_executor_resume_suspended_fut`. -/
def resumeSuspendedFut (handle : Nat) : Except Fault (Executor F × Bool) :=
  if handle = 0 then .ok (ex, false)
  else (ex.tasks.getIdx shape handle).elim (.ok (ex, false)) fun i =>
    (ex.nodeAt i).bind fun e =>
      if e.2.schedule.status ≠ .suspended then .ok (ex, false)
      else (pushReady shape (ex.setSchedule i ⟨.ready, 0⟩) i).map (·, true)

end Executor

/-- A call of a running future, or of an application. -/
inductive Call (F : Type*) where
  | spawn (fut : F)
  | cancel (handle : Nat)
  | resume (handle : Nat)

def call (ex : Executor F) : Call F → Except Fault (Executor F)
  | .spawn fut => (ex.spawn shape fut).map Prod.fst
  | .cancel handle => .ok (ex.cancelFut shape handle).1
  | .resume handle => (ex.resumeSuspendedFut shape handle).map Prod.fst

def calls : Executor F → List (Call F) → Except Fault (Executor F)
  | ex, [] => .ok ex
  | ex, c :: rest => (call shape ex c).bind fun ex' => calls ex' rest

/-- `_z_fut_fn_result_t`. -/
inductive Result where
  | running | ready | suspended
  | sleeping (wakeUp : Tick)

/-- The end of `_z_executor_spin`, behind the function of the future. -/
def finish (ex : Executor F) (i : Nat) : Result → Except Fault (Executor F)
  | .running => (ex.setSchedule i ⟨.running, 0⟩).pushReady shape i
  | .sleeping wakeUp =>
    .ok ((ex.setSchedule i ⟨.sleeping, elapsedMsSince wakeUp ex.epoch⟩).pushSleeping shape i)
  | .ready => ex.removeAt shape i
  | .suspended => .ok (ex.setSchedule i ⟨.suspended, 0⟩)

/-- The number of tasks that are queued. -/
def queued (ex : Executor F) : Nat := ex.readyTasks.size shape.capacity + ex.sleepingTasks.size

/-- `_z_executor_spin`, with what the clock says and what the future that is run does. -/
def spin (ex : Executor F) (clock : Nat → Tick) (script : List (Call F)) (result : Result) :
    Except Fault (Executor F × Executor.Next) :=
  (Executor.nextTask shape clock (queued shape ex + 1) ex).bind fun r =>
    match r.2 with
    | .execute i => (calls shape r.1 script).bind fun ex' =>
      (finish shape ex' i result).map (·, .execute i)
    | _ => .ok r

/-! ## Where futures are -/

/-- The tasks that are queued or under way are live and in one place each, and every other one is
suspended or was destroyed. -/
structure Places (capacity : Nat) (pool : Nat → Option (Nat × FutData F))
    (ready sleeping out : List Nat) : Prop where
  nodup : (ready ++ sleeping ++ out).Nodup
  live : ∀ i ∈ ready ++ sleeping ++ out, i < capacity ∧ ∃ e, pool i = some e
  awake : ∀ i ∈ ready ++ out, ∀ e, pool i = some e → e.2.schedule.status ≠ .suspended
  asleep : ∀ i ∈ sleeping, ∀ e, pool i = some e →
    e.2.schedule.status = .sleeping ∨ e.2 = .destroyed
  rest : ∀ i < capacity, ∀ e, pool i = some e → i ∉ ready ++ sleeping ++ out →
    e.2.schedule.status = .suspended ∨ e.2 = .destroyed

section Places

variable {capacity : Nat} {pool : Nat → Option (Nat × FutData F)}
variable {ready sleeping out : List Nat} {i : Nat}

/-- Tasks may change places as far as their status allows. -/
theorem Places.move {ready' sleeping' out' : List Nat}
    (h : Places capacity pool ready sleeping out)
    (hperm : (ready' ++ sleeping' ++ out').Perm (ready ++ sleeping ++ out))
    (hawake : ∀ i ∈ ready' ++ out', ∀ e, pool i = some e → e.2.schedule.status ≠ .suspended)
    (hasleep : ∀ i ∈ sleeping', ∀ e, pool i = some e →
      e.2.schedule.status = .sleeping ∨ e.2 = .destroyed) :
    Places capacity pool ready' sleeping' out' where
  nodup := hperm.nodup_iff.mpr h.nodup
  live i hi := h.live i (hperm.mem_iff.mp hi)
  awake := hawake
  asleep := hasleep
  rest i hi e he hout := h.rest i hi e he fun hmem => hout (hperm.mem_iff.mpr hmem)

/-- A new entry starts under way. -/
theorem Places.insert (h : Places capacity pool ready sleeping out) (hi : i < capacity)
    (hempty : pool i = none) {e : Nat × FutData F} (hstatus : e.2.schedule.status ≠ .suspended) :
    Places capacity (Function.update pool i (some e)) ready sleeping (i :: out) := by
  have hne : ∀ j ∈ ready ++ sleeping ++ out, j ≠ i := by
    rintro j hj rfl
    obtain ⟨-, e', he'⟩ := h.live j hj
    exact absurd (he'.symm.trans hempty) (by simp)
  have hperm : (ready ++ sleeping ++ i :: out).Perm (i :: (ready ++ sleeping ++ out)) :=
    List.perm_middle
  constructor
  · rw [hperm.nodup_iff, List.nodup_cons]
    exact ⟨fun hmem => hne i hmem rfl, h.nodup⟩
  · intro j hj
    obtain rfl | hj := List.mem_cons.mp (hperm.mem_iff.mp hj)
    · exact ⟨hi, e, Function.update_self _ _ _⟩
    · rw [Function.update_of_ne (hne j hj)]
      exact h.live j hj
  · intro j hj e' he'
    by_cases hji : j = i
    · rw [hji, Function.update_self, Option.some.injEq] at he'
      exact he' ▸ hstatus
    · rw [Function.update_of_ne hji] at he'
      refine h.awake j ?_ e' he'
      obtain hj | hj := List.mem_append.mp hj
      · exact List.mem_append_left _ hj
      · exact List.mem_append_right _ ((List.mem_cons.mp hj).resolve_left hji)
  · intro j hj e' he'
    rw [Function.update_of_ne
      (hne j (List.mem_append_left _ (List.mem_append_right _ hj)))] at he'
    exact h.asleep j hj e' he'
  · intro j hj e' he' hout
    have hji : j ≠ i := by
      rintro rfl
      exact hout (hperm.mem_iff.mpr List.mem_cons_self)
    rw [Function.update_of_ne hji] at he'
    exact h.rest j hj e' he' fun hmem => hout (hperm.mem_iff.mpr (List.mem_cons_of_mem _ hmem))

/-- What stands in front of the tasks under way is in no other place. -/
theorem Places.first_out (h : Places capacity pool ready sleeping (i :: out)) :
    i ∉ ready ++ sleeping ++ out ∧ (ready ++ sleeping ++ out).Nodup :=
  List.nodup_cons.mp (List.perm_middle.nodup_iff.mp h.nodup)

/-- The entry of a task under way goes, or stays suspended or destroyed. -/
theorem Places.leave (h : Places capacity pool ready sleeping (i :: out))
    {after : Option (Nat × FutData F)}
    (hafter : ∀ e, after = some e → e.2.schedule.status = .suspended ∨ e.2 = .destroyed) :
    Places capacity (Function.update pool i after) ready sleeping out := by
  obtain ⟨hfirst, hnodup⟩ := h.first_out
  have hperm : (ready ++ sleeping ++ i :: out).Perm (i :: (ready ++ sleeping ++ out)) :=
    List.perm_middle
  have hne : ∀ j ∈ ready ++ sleeping ++ out, j ≠ i := by
    rintro j hj rfl
    exact hfirst hj
  constructor
  · exact hnodup
  · intro j hj
    rw [Function.update_of_ne (hne j hj)]
    exact h.live j (hperm.mem_iff.mpr (List.mem_cons_of_mem _ hj))
  · intro j hj e he
    have hmem : j ∈ ready ++ sleeping ++ out ∧ j ∈ ready ++ i :: out := by
      obtain hj | hj := List.mem_append.mp hj
      · exact ⟨List.mem_append_left _ (List.mem_append_left _ hj), List.mem_append_left _ hj⟩
      · exact ⟨List.mem_append_right _ hj, List.mem_append_right _ (List.mem_cons_of_mem _ hj)⟩
    rw [Function.update_of_ne (hne j hmem.1)] at he
    exact h.awake j hmem.2 e he
  · intro j hj e he
    rw [Function.update_of_ne
      (hne j (List.mem_append_left _ (List.mem_append_right _ hj)))] at he
    exact h.asleep j hj e he
  · intro j hj e he hout
    by_cases hji : j = i
    · rw [hji, Function.update_self] at he
      exact hafter e he
    · rw [Function.update_of_ne hji] at he
      refine h.rest j hj e he fun hmem => hout ?_
      exact (List.mem_cons.mp (hperm.mem_iff.mp hmem)).resolve_left hji

/-- An entry may change where it is, as far as its place allows. -/
theorem Places.set (h : Places capacity pool ready sleeping out) {e' : Nat × FutData F}
    (hawake : i ∈ ready ++ out → e'.2.schedule.status ≠ .suspended)
    (hasleep : i ∈ sleeping → e'.2.schedule.status = .sleeping ∨ e'.2 = .destroyed)
    (hrest : i ∉ ready ++ sleeping ++ out →
      e'.2.schedule.status = .suspended ∨ e'.2 = .destroyed) :
    Places capacity (Function.update pool i (some e')) ready sleeping out where
  nodup := h.nodup
  live j hj := by
    by_cases hji : j = i
    · rw [hji, Function.update_self]
      exact ⟨hji ▸ (h.live j hj).1, e', rfl⟩
    · rw [Function.update_of_ne hji]
      exact h.live j hj
  awake j hj e he := by
    by_cases hji : j = i
    · rw [hji, Function.update_self, Option.some.injEq] at he
      exact he ▸ hawake (hji ▸ hj)
    · rw [Function.update_of_ne hji] at he
      exact h.awake j hj e he
  asleep j hj e he := by
    by_cases hji : j = i
    · rw [hji, Function.update_self, Option.some.injEq] at he
      exact he ▸ hasleep (hji ▸ hj)
    · rw [Function.update_of_ne hji] at he
      exact h.asleep j hj e he
  rest j hj e he hout := by
    by_cases hji : j = i
    · rw [hji, Function.update_self, Option.some.injEq] at he
      exact he ▸ hrest (hji ▸ hout)
    · rw [Function.update_of_ne hji] at he
      exact h.rest j hj e he hout

/-- A task that is in no place is taken up again. -/
theorem Places.claim (h : Places capacity pool ready sleeping out) {e e' : Nat × FutData F}
    (hi : i < capacity) (he : pool i = some e) (hout : i ∉ ready ++ sleeping ++ out)
    (hstatus : e'.2.schedule.status ≠ .suspended) :
    Places capacity (Function.update pool i (some e')) ready sleeping (i :: out) := by
  have hperm : (ready ++ sleeping ++ i :: out).Perm (i :: (ready ++ sleeping ++ out)) :=
    List.perm_middle
  have hgone : Places capacity (Function.update pool i none) ready sleeping out := by
    have hne : ∀ j ∈ ready ++ sleeping ++ out, j ≠ i := by
      rintro j hj rfl
      exact hout hj
    constructor
    · exact h.nodup
    · intro j hj
      rw [Function.update_of_ne (hne j hj)]
      exact h.live j hj
    · intro j hj f hf
      by_cases hji : j = i
      · rw [hji, Function.update_self] at hf
        exact absurd hf (by simp)
      · rw [Function.update_of_ne hji] at hf
        exact h.awake j hj f hf
    · intro j hj f hf
      by_cases hji : j = i
      · rw [hji, Function.update_self] at hf
        exact absurd hf (by simp)
      · rw [Function.update_of_ne hji] at hf
        exact h.asleep j hj f hf
    · intro j hj f hf hmem
      by_cases hji : j = i
      · rw [hji, Function.update_self] at hf
        exact absurd hf (by simp)
      · rw [Function.update_of_ne hji] at hf
        exact h.rest j hj f hf hmem
  have hagain := hgone.insert (e := e') hi (Function.update_self _ _ _) hstatus
  rwa [Function.update_idem] at hagain

/-- No task that is queued or under way is suspended. -/
theorem Places.not_queued (h : Places capacity pool ready sleeping out) {e : Nat × FutData F}
    (he : pool i = some e) (hstatus : e.2.schedule.status = .suspended) :
    i ∉ ready ++ sleeping ++ out := by
  intro hmem
  simp only [List.mem_append] at hmem
  obtain (hmem | hmem) | hmem := hmem
  · exact h.awake i (List.mem_append_left _ hmem) e he hstatus
  · obtain hsleeping | hdestroyed := h.asleep i hmem e he
    · exact absurd (hsleeping.symm.trans hstatus) (by decide)
    · rw [hdestroyed] at hstatus
      exact absurd hstatus (by simp [FutData.destroyed])
  · exact h.awake i (List.mem_append_right _ hmem) e he hstatus

/-- There is room for one more task in a queue. -/
theorem Places.room (h : Places capacity pool ready sleeping (i :: out)) :
    ready.length < capacity ∧ sleeping.length < capacity := by
  have hle := PooledMap.length_le_of_nodup h.nodup fun j hj => (h.live j hj).1
  simp only [List.length_append, List.length_cons] at hle
  omega

end Places

/-! ## The invariant -/

/-- The heap is in order, and what it holds is asleep. -/
structure Sorted (key : Nat → Nat) (pool : Nat → Option (Nat × FutData F)) (heap : Heap Nat) : Prop where
  ordered : Ordered key heap.buffer heap.size
  asleep : ∀ i ∈ heap.items, ∀ e, pool i = some e → e.2.schedule.status = .sleeping

/-- The executor with its ready tasks as a queue and the tasks that are under way, after at most so
many spawns. The heap is in order as long as things are calm. -/
structure Inv (calm : Prop) (ex : Executor F) (q : Queue Nat) (out : List Nat) (spawns : Nat) :
    Prop where
  formed : WellFormed shape ex.tasks
  holds : Holds shape.capacity ex.readyTasks q
  places : Places shape.capacity ex.tasks.pool q.items ex.sleepingTasks.items out
  ids : ∀ i < shape.capacity, ∀ e, ex.tasks.pool i = some e → 0 < e.1 ∧ e.1 < ex.nextFutId
  spawned : ex.nextFutId ≤ spawns + 1
  sorted : calm → Sorted ex.wakeUpAt ex.tasks.pool ex.sleepingTasks

/-- The result is as it should be, or the deque was read outside of its buffer. -/
def Safe {α : Type*} (P : α → Prop) (r : Except Fault α) : Prop :=
  r = .error .outside ∨ ∃ a, r = .ok a ∧ P a

theorem Safe.ok {α : Type*} {P : α → Prop} {a : α} (h : P a) : Safe P (.ok a) := .inr ⟨a, rfl, h⟩

theorem Safe.bind {α β : Type*} {P : α → Prop} {Q : β → Prop} {r : Except Fault α}
    {f : α → Except Fault β} (h : Safe P r) (next : ∀ a, P a → Safe Q (f a)) : Safe Q (r.bind f) := by
  obtain rfl | ⟨a, rfl, ha⟩ := h
  · exact .inl rfl
  · exact next a ha

theorem Safe.map {α β : Type*} {P : α → Prop} {Q : β → Prop} {r : Except Fault α} {f : α → β}
    (h : Safe P r) (next : ∀ a, P a → Q (f a)) : Safe Q (r.map f) := by
  obtain rfl | ⟨a, rfl, ha⟩ := h
  · exact .inl rfl
  · exact .ok (next a ha)

theorem Safe.mono {α : Type*} {P Q : α → Prop} {r : Except Fault α} (h : Safe P r)
    (next : ∀ a, P a → Q a) : Safe Q r :=
  h.imp id fun ⟨a, hr, ha⟩ => ⟨a, hr, next a ha⟩

section Steps

variable {shape} {calm : Prop} {ex : Executor F} {q : Queue Nat} {out : List Nat} {n i : Nat}

theorem Inv.nodeAt (h : Inv shape calm ex q out n)
    (hi : i ∈ q.items ++ ex.sleepingTasks.items ++ out) :
    ∃ e, ex.tasks.pool i = some e ∧ ex.nodeAt i = .ok e := by
  obtain ⟨-, e, he⟩ := h.places.live i hi
  exact ⟨e, he, by rw [Executor.nodeAt, he]; rfl⟩

/-- An entry of a task that is not asleep may change. -/
theorem Inv.sorted_update (h : Inv shape calm ex q out n) (hi : i ∉ ex.sleepingTasks.items)
    {ex' : Executor F} (hheap : ex'.sleepingTasks = ex.sleepingTasks)
    {after : Option (Nat × FutData F)}
    (hpool : ex'.tasks.pool = Function.update ex.tasks.pool i after) (hc : calm) :
    Sorted ex'.wakeUpAt ex'.tasks.pool ex'.sleepingTasks := by
  have hsame : ∀ j ∈ ex.sleepingTasks.items, ex'.tasks.pool j = ex.tasks.pool j := by
    intro j hj
    rw [hpool, Function.update_of_ne]
    rintro rfl
    exact hi hj
  constructor
  · rw [hheap]
    refine (h.sorted hc).ordered.congr fun j hj => ?_
    rw [Executor.wakeUpAt, Executor.wakeUpAt, hsame j hj]
  · intro j hj e he
    rw [hheap] at hj
    exact (h.sorted hc).asleep j hj e (hsame j hj ▸ he)

/-- A task under way goes to the back of the ready ones. -/
theorem Inv.pushReady (h : Inv shape calm ex q (i :: out) n) :
    ∃ ex', ex.pushReady shape i = .ok ex' ∧ Inv shape calm ex' ⟨q.items ++ [i], q.pops⟩ out n ∧
      ex'.tasks = ex.tasks ∧ ex'.sleepingTasks = ex.sleepingTasks ∧ ex'.epoch = ex.epoch := by
  obtain ⟨d, hpush, hholds⟩ := FutureDeque.pushBack_room h.holds h.places.room.1 i
  refine ⟨{ ex with readyTasks := d }, by rw [Executor.pushReady, hpush]; rfl, ?_, rfl, rfl, rfl⟩
  refine ⟨h.formed, hholds, h.places.move ?_ ?_ h.places.asleep, h.ids, h.spawned, h.sorted⟩
  · have hback : (q.items ++ [i] ++ ex.sleepingTasks.items ++ out).Perm
        (i :: (q.items ++ ex.sleepingTasks.items ++ out)) := by
      rw [List.append_assoc, List.append_assoc, List.append_assoc]
      exact List.perm_middle
    exact hback.trans List.perm_middle.symm
  · intro j hj
    refine h.places.awake j ?_
    simp only [List.mem_append, List.mem_cons] at hj ⊢
    tauto

theorem Inv.popReady_nil (h : Inv shape calm ex q out n) (hitems : q.items = []) :
    ex.popReady shape = .ok (ex, none) := by
  rw [Executor.popReady, FutureDeque.popFront_empty h.holds hitems]
  rfl

/-- The first of the ready tasks comes under way, unless it is read outside of the deque. -/
theorem Inv.popReady_cons (h : Inv shape calm ex q out n) {rest : List Nat} (hitems : q.items = i :: rest) :
    Safe (fun r => r.2 = some i ∧ (∃ pops, Inv shape calm r.1 ⟨rest, pops⟩ (i :: out) n) ∧
      r.1.tasks = ex.tasks ∧ r.1.sleepingTasks = ex.sleepingTasks ∧ r.1.epoch = ex.epoch)
      (ex.popReady shape) := by
  by_cases hpops : q.pops < shape.capacity
  · obtain ⟨d, hpop, hholds⟩ := FutureDeque.popFront_inside h.holds hitems hpops
    refine .inr ⟨({ ex with readyTasks := d }, some i), by rw [Executor.popReady, hpop]; rfl, rfl,
      ⟨if rest = [] then 0 else q.pops + 1, ?_⟩, rfl, rfl, rfl⟩
    have hplaces := h.places
    rw [hitems] at hplaces
    refine ⟨h.formed, hholds, hplaces.move ?_ ?_ hplaces.asleep, h.ids, h.spawned, h.sorted⟩
    · exact List.perm_middle
    · intro j hj
      refine hplaces.awake j ?_
      simp only [List.mem_append, List.mem_cons] at hj ⊢
      tauto
  · left
    rw [Executor.popReady, FutureDeque.popFront_outside h.holds (by simp [hitems]) (by omega)]
    rfl

/-- A task under way that is asleep goes into the heap. -/
theorem Inv.pushSleeping (h : Inv shape calm ex q (i :: out) n)
    (hasleep : ∀ e, ex.tasks.pool i = some e → e.2.schedule.status = .sleeping) :
    Inv shape calm (ex.pushSleeping shape i) q out n := by
  have hroom := h.places.room.2
  rw [Heap.items, List.length_map, List.length_range] at hroom
  have hperm := BinaryHeap.push_perm ex.wakeUpAt ex.sleepingTasks i
  rw [Executor.pushSleeping, if_neg hroom.ne]
  refine ⟨h.formed, h.holds, h.places.move ?_ ?_ ?_, h.ids, h.spawned, fun hc =>
    ⟨BinaryHeap.push_ordered (h.sorted hc).ordered i, ?_⟩⟩
  · have hall := ((hperm.append_left q.items).append_right out).trans
      (List.perm_middle.append_right out)
    exact hall.trans List.perm_middle.symm
  · intro j hj
    refine h.places.awake j ?_
    simp only [List.mem_append, List.mem_cons] at hj ⊢
    tauto
  · intro j hj e he
    obtain rfl | hj := List.mem_cons.mp (hperm.mem_iff.mp hj)
    · exact .inl (hasleep e he)
    · exact h.places.asleep j hj e he
  · intro j hj e he
    obtain rfl | hj := List.mem_cons.mp (hperm.mem_iff.mp hj)
    · exact hasleep e he
    · exact (h.sorted hc).asleep j hj e he

/-- The root of the heap comes under way. -/
theorem Inv.popSleeping (h : Inv shape calm ex q out n) (hpos : 0 < ex.sleepingTasks.size) :
    Inv shape calm ex.popSleeping q (ex.sleepingTasks.buffer 0 :: out) n := by
  have hperm := BinaryHeap.pop_perm ex.wakeUpAt ex.sleepingTasks hpos
  refine ⟨h.formed, h.holds, h.places.move ?_ ?_ ?_, h.ids, h.spawned, fun hc =>
    ⟨BinaryHeap.pop_ordered (h.sorted hc).ordered, fun j hj =>
      (h.sorted hc).asleep j (hperm.mem_iff.mpr (List.mem_cons_of_mem _ hj))⟩⟩
  · have hall := (((hperm.append_left q.items).append_right out).trans
      (List.perm_middle.append_right out)).symm
    exact List.perm_middle.trans hall
  · intro j hj e he
    simp only [List.mem_append, List.mem_cons] at hj
    obtain hj | rfl | hj := hj
    · exact h.places.awake j (List.mem_append_left _ hj) e he
    · intro hsuspended
      have hmem := hperm.mem_iff.mpr List.mem_cons_self
      exact h.places.not_queued he hsuspended
        (List.mem_append_left _ (List.mem_append_right _ hmem))
    · exact h.places.awake j (List.mem_append_right _ hj) e he
  · exact fun j hj => h.places.asleep j (hperm.mem_iff.mpr (List.mem_cons_of_mem _ hj))

theorem setSchedule_pool (ex : Executor F) (i : Nat) (schedule : Schedule) :
    (ex.setSchedule i schedule).tasks.pool = Function.update ex.tasks.pool i
      ((ex.tasks.pool i).map fun e => (e.1, { e.2 with schedule := schedule })) := rfl

theorem setAt_ids {pool : Nat → Option (Nat × FutData F)} {capacity next : Nat}
    (h : ∀ j < capacity, ∀ e, pool j = some e → 0 < e.1 ∧ e.1 < next) {e : Nat × FutData F}
    (he : pool i = some e) (data : FutData F) :
    ∀ j < capacity, ∀ e', Function.update pool i (some (e.1, data)) j = some e' →
      0 < e'.1 ∧ e'.1 < next := by
  intro j hj e' he'
  by_cases hji : j = i
  · rw [hji, Function.update_self, Option.some.injEq] at he'
    rw [← he']
    exact h j hj e (hji ▸ he)
  · rw [Function.update_of_ne hji] at he'
    exact h j hj e' he'

theorem Places.not_asleep {capacity : Nat} {pool : Nat → Option (Nat × FutData F)}
    {ready sleeping out : List Nat} (h : Places capacity pool ready sleeping out)
    (hi : i ∈ ready ++ out) : i ∉ sleeping := by
  have hnodup := h.nodup
  rw [List.append_assoc, List.nodup_append', List.nodup_append'] at hnodup
  obtain ⟨-, ⟨-, -, hout⟩, hready⟩ := hnodup
  intro hsleeping
  obtain hi | hi := List.mem_append.mp hi
  · exact hready hi (List.mem_append_left _ hsleeping)
  · exact hout hsleeping hi

/-- A task that is ready or under way gets another status. -/
theorem Inv.setSchedule (h : Inv shape calm ex q out n) (hi : i ∈ q.items ++ out) {schedule : Schedule}
    (hstatus : schedule.status ≠ .suspended) : Inv shape calm (ex.setSchedule i schedule) q out n := by
  have hmem : i ∈ q.items ++ ex.sleepingTasks.items ++ out := by
    simp only [List.mem_append] at hi ⊢
    tauto
  obtain ⟨e, he, -⟩ := h.nodeAt hmem
  have hpool := setSchedule_pool ex i schedule
  rw [he, Option.map_some] at hpool
  refine ⟨h.formed.setAt i fun data => { data with schedule := schedule }, h.holds, ?_, ?_,
    h.spawned, h.sorted_update (h.places.not_asleep hi) rfl hpool⟩
  · rw [hpool]
    exact h.places.set (fun _ => hstatus) (fun hsleeping => absurd hsleeping (h.places.not_asleep hi))
      fun hout => absurd hmem hout
  · rw [hpool]
    exact setAt_ids h.ids he _

/-- The entry of a task under way is removed. -/
theorem Inv.removeAt (h : Inv shape calm ex q (i :: out) n) :
    ∃ ex', ex.removeAt shape i = .ok ex' ∧ Inv shape calm ex' q out n ∧
      ex'.sleepingTasks = ex.sleepingTasks := by
  have hmem : i ∈ q.items ++ ex.sleepingTasks.items ++ i :: out :=
    List.mem_append_right _ List.mem_cons_self
  obtain ⟨e, he, -⟩ := h.nodeAt hmem
  obtain ⟨tasks, hremove, hpool, -, -, hformed⟩ :=
    h.formed.removeAt_eq (h.places.live i hmem).1 he
  refine ⟨{ ex with tasks := tasks }, by rw [Executor.removeAt, hremove]; rfl, ?_, rfl⟩
  have hasleep := h.places.not_asleep (List.mem_append_right q.items List.mem_cons_self)
  refine ⟨hformed, h.holds, ?_, ?_, h.spawned, h.sorted_update hasleep rfl hpool⟩
  · change Places _ tasks.pool _ _ _
    rw [hpool]
    exact h.places.leave fun e he => absurd he (by simp)
  · intro j hj e' he'
    change tasks.pool j = some e' at he'
    rw [hpool] at he'
    by_cases hji : j = i
    · rw [hji, Function.update_self] at he'
      exact absurd he' (by simp)
    · rw [Function.update_of_ne hji] at he'
      exact h.ids j hj e' he'

/-- A task under way is suspended. -/
theorem Inv.suspend (h : Inv shape calm ex q (i :: out) n) :
    Inv shape calm (ex.setSchedule i ⟨.suspended, 0⟩) q out n := by
  obtain ⟨e, he, -⟩ := h.nodeAt (i := i) (List.mem_append_right _ List.mem_cons_self)
  have hpool := setSchedule_pool ex i ⟨.suspended, 0⟩
  rw [he, Option.map_some] at hpool
  have hasleep := h.places.not_asleep (List.mem_append_right q.items List.mem_cons_self)
  refine ⟨h.formed.setAt i fun data => { data with schedule := ⟨.suspended, 0⟩ }, h.holds, ?_, ?_,
    h.spawned, h.sorted_update hasleep rfl hpool⟩
  · rw [hpool]
    refine h.places.leave fun e' he' => .inl ?_
    rw [← Option.some.inj he']
  · rw [hpool]
    exact setAt_ids h.ids he _

/-! ## Calls -/

/-- A spawn finds a fresh number and queues the future, if there is room for it. -/
theorem Inv.spawn (h : Inv shape calm ex q out n) (hn : n + 2 < 4294967296) (fut : F) :
    ∃ r, ex.spawn shape fut = .ok r ∧ ∃ q', Inv shape calm r.1 q' out (n + 1) := by
  have hspawned := h.spawned
  rw [Executor.spawn]
  generalize hid : (if ex.nextFutId = 0 then 1 else ex.nextFutId) = id
  have hpos : 0 < id ∧ ex.nextFutId ≤ id ∧ id ≤ n + 1 := by
    split at hid
    · omega
    · omega
  have hfresh : ex.tasks.getIdx shape id = none := by
    refine (h.formed.getIdx_eq_none_iff id).mpr fun j hj hkey => ?_
    obtain ⟨e, he, hsame⟩ := Option.map_eq_some_iff.mp hkey
    have hlt := (h.ids j hj e he).2
    omega
  obtain ⟨-, hinsert⟩ | ⟨j, hj, -, hempty, hsome, hpool, -, hformed⟩ :=
    h.formed.insert_new hfresh ⟨some fut, ⟨.running, 0⟩⟩
  · refine ⟨_, by rw [hinsert]; rfl, q, ?_⟩
    refine ⟨h.formed, h.holds, h.places, fun j hj e he => ?_, Nat.le_succ_of_le hpos.2.2, h.sorted⟩
    obtain ⟨hkey, hlt⟩ := h.ids j hj e he
    exact ⟨hkey, lt_of_lt_of_le hlt hpos.2.1⟩
  · have hnext : (id + 1) % 4294967296 = id + 1 := Nat.mod_eq_of_lt (by omega)
    rw [hsome, Option.elim_some, hnext]
    have hinv : Inv shape calm { ex with
        tasks := (ex.tasks.insert shape id ⟨some fut, ⟨.running, 0⟩⟩).1, nextFutId := id + 1 }
        q (j :: out) (n + 1) := by
      have hasleep : j ∉ ex.sleepingTasks.items := by
        intro hmem
        obtain ⟨-, e, he⟩ :=
          h.places.live j (List.mem_append_left _ (List.mem_append_right _ hmem))
        exact absurd (he.symm.trans hempty) (by simp)
      refine ⟨hformed, h.holds, ?_, ?_, Nat.succ_le_succ hpos.2.2,
        h.sorted_update hasleep rfl hpool⟩
      · rw [hpool]
        exact h.places.insert hj hempty (by simp)
      · intro k hk e he
        change Map.pool _ k = some e at he
        rw [hpool] at he
        by_cases hkj : k = j
        · rw [hkj, Function.update_self, Option.some.injEq] at he
          rw [← he]
          exact ⟨hpos.1, Nat.lt_succ_self id⟩
        · rw [Function.update_of_ne hkj] at he
          obtain ⟨hkey, hlt⟩ := h.ids k hk e he
          exact ⟨hkey, Nat.lt_succ_of_lt (lt_of_lt_of_le hlt hpos.2.1)⟩
    obtain ⟨ex', hpush, hinv', -⟩ := hinv.pushReady
    exact ⟨(ex', id), by rw [hpush]; rfl, _, hinv'⟩

/-- The future of the handle is in the heap. -/
def Executor.Asleep (shape : Shape Nat) (ex : Executor F) (handle : Nat) : Prop :=
  ∃ i, ex.tasks.getIdx shape handle = some i ∧ i ∈ ex.sleepingTasks.items

/-- A cancelled future stays where it is. -/
theorem Inv.cancelFut (h : Inv shape calm ex q out n) (handle : Nat)
    (hcalm : calm → ¬ ex.Asleep shape handle) :
    Inv shape calm (ex.cancelFut shape handle).1 q out n := by
  rw [Executor.cancelFut]
  split
  · exact h
  · cases hidx : ex.tasks.getIdx shape handle with
    | none => exact h
    | some i =>
      obtain ⟨-, hkey⟩ := (h.formed.getIdx_iff handle i).mp hidx
      obtain ⟨e, he, -⟩ := Option.map_eq_some_iff.mp hkey
      have hpool : (ex.tasks.setAt i fun _ => .destroyed).pool =
          Function.update ex.tasks.pool i (some (e.1, .destroyed)) := by
        change Function.update ex.tasks.pool i _ = _
        rw [he]
        rfl
      refine ⟨h.formed.setAt i fun _ => .destroyed, h.holds, ?_, ?_, h.spawned, fun hc =>
        h.sorted_update (fun hmem => hcalm hc ⟨i, hidx, hmem⟩) rfl hpool hc⟩
      · change Places _ (ex.tasks.setAt i fun _ => .destroyed).pool _ _ _
        rw [hpool]
        exact h.places.set (fun _ => by simp [FutData.destroyed]) (fun _ => .inr rfl)
          fun _ => .inr rfl
      · change ∀ j < shape.capacity, ∀ e,
          (ex.tasks.setAt i fun _ => .destroyed).pool j = some e → _
        rw [hpool]
        exact setAt_ids h.ids he _

/-- A suspended future goes to the back of the ready tasks. -/
theorem Inv.resumeSuspendedFut (h : Inv shape calm ex q out n) (handle : Nat) :
    ∃ r, ex.resumeSuspendedFut shape handle = .ok r ∧ ∃ q', Inv shape calm r.1 q' out n := by
  rw [Executor.resumeSuspendedFut]
  split
  · exact ⟨_, rfl, q, h⟩
  · cases hidx : ex.tasks.getIdx shape handle with
    | none => exact ⟨_, rfl, q, h⟩
    | some i =>
      obtain ⟨hi, hkey⟩ := (h.formed.getIdx_iff handle i).mp hidx
      obtain ⟨e, he, -⟩ := Option.map_eq_some_iff.mp hkey
      have hnode : ex.nodeAt i = .ok e := by
        rw [Executor.nodeAt, he]
        rfl
      rw [Option.elim_some, hnode]
      change ∃ r, (if e.2.schedule.status ≠ .suspended then Except.ok (ex, false)
        else ((ex.setSchedule i ⟨.ready, 0⟩).pushReady shape i).map (·, true)) = _ ∧ _
      by_cases hstatus : e.2.schedule.status = .suspended
      · have hout := h.places.not_queued he hstatus
        have hpool := setSchedule_pool ex i ⟨.ready, 0⟩
        rw [he, Option.map_some] at hpool
        have hinv : Inv shape calm (ex.setSchedule i ⟨.ready, 0⟩) q (i :: out) n := by
          have hasleep : i ∉ ex.sleepingTasks.items := fun hmem =>
            hout (List.mem_append_left _ (List.mem_append_right _ hmem))
          refine ⟨h.formed.setAt i fun data => { data with schedule := ⟨.ready, 0⟩ }, h.holds, ?_, ?_,
            h.spawned, h.sorted_update hasleep rfl hpool⟩
          · rw [hpool]
            exact h.places.claim hi he hout (by simp)
          · rw [hpool]
            exact setAt_ids h.ids he _
        obtain ⟨ex', hpush, hinv', -⟩ := hinv.pushReady
        rw [if_neg (fun hne => hne hstatus), hpush]
        exact ⟨_, rfl, _, hinv'⟩
      · rw [if_pos hstatus]
        exact ⟨_, rfl, q, h⟩

end Steps

def Call.spawns : Call F → Nat
  | .spawn _ => 1
  | .cancel _ => 0
  | .resume _ => 0

def spawnsOf : List (Call F) → Nat
  | [] => 0
  | c :: script => c.spawns + spawnsOf script

/-- The call does not cancel a future that is in the heap. -/
def Gentle (shape : Shape Nat) (ex : Executor F) (c : Call F) : Prop :=
  ∀ handle, c = .cancel handle → ¬ ex.Asleep shape handle

/-- No call of the script does, where it is made. -/
def GentleCalls (shape : Shape Nat) : Executor F → List (Call F) → Prop
  | _, [] => True
  | ex, c :: rest => Gentle shape ex c ∧ ∀ ex', call shape ex c = .ok ex' → GentleCalls shape ex' rest

theorem Inv.call {shape : Shape Nat} {calm : Prop} {ex : Executor F} {q : Queue Nat}
    {out : List Nat} {n : Nat} (h : Inv shape calm ex q out n) (c : Call F)
    (hn : n + c.spawns + 1 < 4294967296) (hcalm : calm → Gentle shape ex c) :
    ∃ ex', call shape ex c = .ok ex' ∧ ∃ q', Inv shape calm ex' q' out (n + c.spawns) := by
  cases c with
  | spawn fut =>
    obtain ⟨r, hspawn, q', hinv⟩ := h.spawn hn fut
    exact ⟨r.1, by rw [FutureExecutor.call, hspawn]; rfl, q', hinv⟩
  | cancel handle => exact ⟨_, rfl, q, h.cancelFut handle fun hc => hcalm hc handle rfl⟩
  | resume handle =>
    obtain ⟨r, hresume, q', hinv⟩ := h.resumeSuspendedFut handle
    exact ⟨r.1, by rw [FutureExecutor.call, hresume]; rfl, q', hinv⟩

theorem spawnsOf_cons (c : Call F) (script : List (Call F)) :
    spawnsOf (c :: script) = c.spawns + spawnsOf script := rfl

theorem Inv.calls {shape : Shape Nat} {calm : Prop} {ex : Executor F} {q : Queue Nat}
    {out : List Nat} {n : Nat} (h : Inv shape calm ex q out n) (script : List (Call F))
    (hn : n + spawnsOf script + 1 < 4294967296) (hcalm : calm → GentleCalls shape ex script) :
    ∃ ex', calls shape ex script = .ok ex' ∧
      ∃ q', Inv shape calm ex' q' out (n + spawnsOf script) := by
  induction script generalizing ex q n with
  | nil => exact ⟨ex, rfl, q, h⟩
  | cons c script ih =>
    rw [spawnsOf_cons, ← Nat.add_assoc] at hn ⊢
    obtain ⟨ex', hcall, q', hinv⟩ := h.call c (by omega) fun hc => (hcalm hc).1
    obtain ⟨ex'', hcalls, hinv'⟩ := ih hinv hn fun hc => (hcalm hc).2 ex' hcall
    exact ⟨ex'', by rw [FutureExecutor.calls, hcall]; exact hcalls, hinv'⟩

/-! ## Spinning -/

/-- What a search for a task stops at. -/
inductive Stopped (calm : Prop) (out : List Nat) (clock : Nat → Tick) (n : Nat) :
    Executor F × Executor.Next → Prop where
  | noTasks {ex : Executor F} {q : Queue Nat} (inv : Inv shape calm ex q out n) (ready : q.items = [])
      (sleeping : ex.sleepingTasks.size = 0) : Stopped calm out clock n (ex, .noTasks)
  | shouldWait {ex : Executor F} {q : Queue Nat} (inv : Inv shape calm ex q out n) (ready : q.items = [])
      (i : Nat) (e : Nat × FutData F) (root : i = ex.sleepingTasks.buffer 0)
      (inside : i ∈ ex.sleepingTasks.items) (entry : ex.tasks.pool i = some e) (turn : Nat)
      (due : clock turn ≤ advanceMs ex.epoch e.2.schedule.wakeUp) :
      Stopped calm out clock n (ex, .shouldWait (advanceMs ex.epoch e.2.schedule.wakeUp))
  | execute {ex : Executor F} {q : Queue Nat} {i : Nat} (inv : Inv shape calm ex q (i :: out) n) :
      Stopped calm out clock n (ex, .execute i)

section Spin

variable {shape} {calm : Prop} {ex : Executor F} {q : Queue Nat} {out : List Nat} {n : Nat}

theorem Inv.queued_eq (h : Inv shape calm ex q out n) :
    queued shape ex = q.items.length + ex.sleepingTasks.size := by
  rw [queued, h.holds.size_eq]

/-- Where a task is ready, one is taken from the queue. -/
theorem Inv.popReady_stopped (h : Inv shape calm ex q out n) (clock : Nat → Tick) {rest : List Nat}
    (hitems : q.items = i :: rest) (otherwise : Executor.Next) :
    Safe (fun r => Stopped shape calm out clock n r ∧ ∀ i, r.2 = .execute i →
        queued shape r.1 + 1 = queued shape ex)
      ((ex.popReady shape).map fun r => (r.1, r.2.elim otherwise .execute)) := by
  refine (h.popReady_cons hitems).map fun r ⟨hr, ⟨pops, hinv⟩, _, hsleeping, _⟩ => ?_
  rw [hr]
  refine ⟨.execute hinv, fun _ _ => ?_⟩
  rw [hinv.queued_eq, h.queued_eq, hsleeping, hitems, List.length_cons]
  exact Nat.add_right_comm _ _ _

/-- `_z_executor_get_next_fut` stops, and takes one task from the queues if it stops at one. -/
theorem Inv.getNextFut (h : Inv shape calm ex q out n) (clock : Nat → Tick) (turn : Nat) :
    Safe (fun r => Stopped shape calm out clock n r ∧ ∀ i, r.2 = .execute i →
      queued shape r.1 + 1 = queued shape ex) (ex.getNextFut shape (clock turn)) := by
  rw [Executor.getNextFut]
  by_cases hnone : ex.sleepingTasks.size = 0
  · rw [if_pos hnone]
    cases hitems : q.items with
    | nil =>
      rw [h.popReady_nil hitems]
      exact .ok ⟨.noTasks h hitems hnone, fun i hi => by cases hi⟩
    | cons i rest => exact h.popReady_stopped clock hitems _
  · have hpos := Nat.pos_of_ne_zero hnone
    have hroot : ex.sleepingTasks.buffer 0 ∈ ex.sleepingTasks.items :=
      (BinaryHeap.pop_perm ex.wakeUpAt ex.sleepingTasks hpos).mem_iff.mpr List.mem_cons_self
    obtain ⟨e, he, hnode⟩ := h.nodeAt (i := ex.sleepingTasks.buffer 0)
      (List.mem_append_left _ (List.mem_append_right _ hroot))
    rw [if_neg hnone]
    dsimp only
    rw [hnode]
    change Safe _ (if elapsedMsSince (clock turn) (advanceMs ex.epoch e.2.schedule.wakeUp) > 0
      then _ else _)
    by_cases hdue : elapsedMsSince (clock turn) (advanceMs ex.epoch e.2.schedule.wakeUp) > 0
    · rw [if_pos hdue]
      have hpop := h.popSleeping hpos
      have hpopsize : ex.popSleeping.sleepingTasks.size + 1 = ex.sleepingTasks.size :=
        Nat.sub_add_cancel hpos
      cases hitems : q.items with
      | nil =>
        rw [hpop.popReady_nil hitems]
        refine .ok ⟨.execute hpop, fun _ _ => ?_⟩
        rw [hpop.queued_eq, h.queued_eq, Nat.add_assoc, hpopsize]
      | cons i rest =>
        refine (hpop.popReady_cons hitems).bind
          fun r ⟨hr, ⟨pops, hinv⟩, _, hsleeping, _⟩ => ?_
        rw [hr, Option.elim_some]
        -- the sleeping task moves in front of the ready one and to the back of the ready ones
        have hswap : Inv shape calm r.1 ⟨rest, pops⟩ (ex.sleepingTasks.buffer 0 :: i :: out) n := by
          refine ⟨hinv.formed, hinv.holds, hinv.places.move ?_ ?_ hinv.places.asleep, hinv.ids,
            hinv.spawned, hinv.sorted⟩
          · exact (List.Perm.swap _ _ _).append_left _
          · intro j hj
            refine hinv.places.awake j ?_
            simp only [List.mem_append, List.mem_cons] at hj ⊢
            tauto
        obtain ⟨ex', hpush, hinv', -, hsleeping', -⟩ := hswap.pushReady
        have hmem : ex.sleepingTasks.buffer 0 ∈
            rest ++ [ex.sleepingTasks.buffer 0] ++ i :: out := by simp
        have hstatus : (⟨.ready, 0⟩ : Schedule).status ≠ .suspended := by simp
        have hready := hinv'.setSchedule hmem hstatus
        rw [hpush]
        refine .ok ⟨.execute hready, fun _ _ => ?_⟩
        rw [hready.queued_eq]
        change (rest ++ [ex.sleepingTasks.buffer 0]).length + ex'.sleepingTasks.size + 1 = _
        rw [h.queued_eq, hitems, hsleeping', hsleeping, Nat.add_assoc, hpopsize,
          List.length_append, List.length_singleton, List.length_cons]
    · rw [if_neg hdue]
      cases hitems : q.items with
      | nil =>
        rw [h.popReady_nil hitems]
        have hwait : clock turn ≤ advanceMs ex.epoch e.2.schedule.wakeUp :=
          UInt32.not_lt.mp fun hlt => hdue ((elapsedMsSince_pos_iff _ _).mpr hlt)
        exact .ok ⟨.shouldWait h hitems _ e rfl hroot he turn hwait, fun i hi => by cases hi⟩
      | cons i rest => exact h.popReady_stopped clock hitems _

/-- The search drops the tasks that were destroyed, and finds one to run if there is one. -/
theorem Inv.nextTask (h : Inv shape calm ex q out n) (clock : Nat → Tick) (fuel : Nat)
    (hfuel : queued shape ex < fuel) :
    Safe (Stopped shape calm out clock n) (Executor.nextTask shape clock fuel ex) := by
  induction fuel generalizing ex q with
  | zero => exact absurd hfuel (Nat.not_lt_zero _)
  | succ fuel ih =>
    rw [Executor.nextTask]
    refine (h.getNextFut clock fuel).bind fun r ⟨hstop, hless⟩ => ?_
    cases hstop with
    | noTasks inv ready sleeping => exact .ok (.noTasks inv ready sleeping)
    | shouldWait inv ready i e root inside entry turn due =>
      exact .ok (.shouldWait inv ready i e root inside entry turn due)
    | @execute ex' q' i inv =>
      have hone : queued shape ex' + 1 = queued shape ex := hless i rfl
      have hfuel' : queued shape ex' < fuel := by omega
      have hmem : i ∈ q'.items ++ ex'.sleepingTasks.items ++ i :: out := by simp
      obtain ⟨e, he, hnode⟩ := inv.nodeAt hmem
      change Safe _ ((ex'.nodeAt i).bind _)
      rw [hnode]
      change Safe _ (if e.2.fut.isNone = true then _ else _)
      split
      · obtain ⟨ex'', hremove, inv', hsleeping⟩ := inv.removeAt
        rw [hremove]
        refine ih inv' ?_
        rw [inv'.queued_eq, hsleeping, ← inv.queued_eq]
        exact hfuel'
      · -- no task that was queued is suspended
        rw [if_neg (inv.places.awake i (by simp) e he)]
        exact .ok (.execute inv)

theorem Inv.finish {i : Nat} (h : Inv shape calm ex q (i :: out) n) (result : Result) :
    ∃ ex', finish shape ex i result = .ok ex' ∧ ∃ q', Inv shape calm ex' q' out n := by
  have hmem : i ∈ q.items ++ i :: out := by simp
  cases result with
  | running =>
    have hstatus : (⟨.running, 0⟩ : Schedule).status ≠ .suspended := by simp
    have hset := h.setSchedule hmem hstatus
    obtain ⟨ex', hpush, hinv, -⟩ := hset.pushReady
    exact ⟨ex', hpush, _, hinv⟩
  | ready =>
    obtain ⟨ex', hremove, hinv, -⟩ := h.removeAt
    exact ⟨ex', hremove, q, hinv⟩
  | suspended => exact ⟨_, rfl, q, h.suspend⟩
  | sleeping wakeUp =>
    have hstatus : (⟨.sleeping, elapsedMsSince wakeUp ex.epoch⟩ : Schedule).status ≠ .suspended := by
      simp
    have hset := h.setSchedule hmem hstatus
    refine ⟨_, rfl, q, hset.pushSleeping fun e he => ?_⟩
    rw [setSchedule_pool, Function.update_self, Option.map_eq_some_iff] at he
    obtain ⟨e', -, rfl⟩ := he
    rfl

/-- The calls of the script, where the future that is run makes them. -/
def GentleSpin (shape : Shape Nat) (ex : Executor F) (clock : Nat → Tick) (script : List (Call F)) :
    Prop :=
  ∀ ex' i, Executor.nextTask shape clock (queued shape ex + 1) ex = .ok (ex', .execute i) →
    GentleCalls shape ex' script

theorem Inv.mono {m : Nat} (h : Inv shape calm ex q out n) (hle : n ≤ m) :
    Inv shape calm ex q out m :=
  ⟨h.formed, h.holds, h.places, h.ids, h.spawned.trans (Nat.succ_le_succ hle), h.sorted⟩

theorem Inv.spin (h : Inv shape calm ex q out n) (clock : Nat → Tick) (script : List (Call F))
    (result : Result) (hn : n + spawnsOf script + 1 < 4294967296)
    (hcalm : calm → GentleSpin shape ex clock script) :
    Safe (fun r => ∃ q', Inv shape calm r.1 q' out (n + spawnsOf script))
      (spin shape ex clock script result) := by
  have hsearch := h.nextTask clock _ (Nat.lt_succ_self (queued shape ex))
  rw [FutureExecutor.spin]
  obtain hfault | ⟨r, hr, hstop⟩ := hsearch
  · rw [hfault]
    exact .inl rfl
  · rw [hr]
    cases hstop with
    | noTasks inv _ _ => exact .ok ⟨_, inv.mono (Nat.le_add_right _ _)⟩
    | shouldWait inv _ _ _ _ _ _ _ _ => exact .ok ⟨_, inv.mono (Nat.le_add_right _ _)⟩
    | @execute ex' q' i inv =>
      obtain ⟨exCalled, hcalls, qCalled, hinv⟩ := inv.calls script hn fun hc => hcalm hc ex' i hr
      obtain ⟨exFinished, hfinish, qFinished, hinv'⟩ := hinv.finish result
      change Safe _ ((FutureExecutor.calls shape ex' script).bind fun exCalled =>
        (FutureExecutor.finish shape exCalled i result).map (·, Executor.Next.execute i))
      rw [hcalls]
      change Safe _ ((FutureExecutor.finish shape exCalled i result).map (·, Executor.Next.execute i))
      rw [hfinish]
      exact .ok ⟨qFinished, hinv'⟩

end Spin

/-! ## Runs -/

inductive Event (F : Type*) where
  | call (c : Call F)
  | spin (clock : Nat → Tick) (script : List (Call F)) (result : Result)

def Event.spawns : Event F → Nat
  | .call c => c.spawns
  | .spin _ script _ => spawnsOf script

def step (ex : Executor F) : Event F → Except Fault (Executor F)
  | .call c => call shape ex c
  | .spin clock script result => (spin shape ex clock script result).map Prod.fst

def steps : Executor F → List (Event F) → Except Fault (Executor F)
  | ex, [] => .ok ex
  | ex, e :: events => (step shape ex e).bind fun ex' => steps ex' events

def spawnsIn : List (Event F) → Nat
  | [] => 0
  | e :: events => e.spawns + spawnsIn events

def GentleEvent (ex : Executor F) : Event F → Prop
  | .call c => Gentle shape ex c
  | .spin clock script _ => GentleSpin shape ex clock script

/-- No call of the run cancels a future that is in the heap. -/
def GentleRun : Executor F → List (Event F) → Prop
  | _, [] => True
  | ex, e :: events =>
    GentleEvent shape ex e ∧ ∀ ex', step shape ex e = .ok ex' → GentleRun ex' events

variable {shape}

theorem Inv.step {calm : Prop} {ex : Executor F} {q : Queue Nat}
    {out : List Nat} {n : Nat} (h : Inv shape calm ex q out n) (e : Event F) (hn : n + e.spawns + 1 < 4294967296)
    (hcalm : calm → GentleEvent shape ex e) :
    Safe (fun ex' => ∃ q', Inv shape calm ex' q' out (n + e.spawns)) (step shape ex e) := by
  cases e with
  | call c =>
    obtain ⟨ex', hcall, hinv⟩ := h.call c hn hcalm
    rw [FutureExecutor.step, hcall]
    exact .ok hinv
  | spin clock script result => exact (h.spin clock script result hn hcalm).map fun _ hinv => hinv

theorem Inv.steps {calm : Prop} {ex : Executor F} {q : Queue Nat}
    {out : List Nat} {n : Nat} (h : Inv shape calm ex q out n) (events : List (Event F))
    (hn : n + spawnsIn events + 1 < 4294967296) (hcalm : calm → GentleRun shape ex events) :
    Safe (fun ex' => ∃ q', Inv shape calm ex' q' out (n + spawnsIn events))
      (steps shape ex events) := by
  induction events generalizing ex q n with
  | nil => exact .ok ⟨q, h⟩
  | cons e events ih =>
    have hsum : spawnsIn (e :: events) = e.spawns + spawnsIn events := rfl
    rw [hsum, ← Nat.add_assoc] at hn ⊢
    rw [FutureExecutor.steps]
    obtain hfault | ⟨ex', hstep, q', hinv⟩ := h.step e (by omega) fun hc => (hcalm hc).1
    · rw [hfault]
      exact .inl rfl
    · rw [hstep]
      exact ih hinv hn fun hc => (hcalm hc).2 ex' hstep

theorem init_inv (shape : Shape Nat) (calm : Prop) (epoch : Tick) :
    Inv shape calm (Executor.init shape epoch : Executor F) Queue.empty [] 0 where
  formed := ⟨_, _, PooledMap.new_layout shape⟩
  holds := FutureDeque.new_holds shape.capacity 0
  places := by
    constructor
    · exact List.nodup_nil
    · exact fun i hi => absurd hi List.not_mem_nil
    · exact fun i hi => absurd hi List.not_mem_nil
    · exact fun i hi => absurd hi List.not_mem_nil
    · exact fun i _ e he => absurd he (by simp [Executor.init, Map.new])
  ids i _ e he := absurd he (by simp [Executor.init, Map.new])
  spawned := Nat.zero_le _
  sorted _ := ⟨fun j _ hj => absurd hj (Nat.not_lt_zero j), fun i hi => absurd hi List.not_mem_nil⟩

/-- In a run with fewer than 2^32 - 1 spawns, whatever is spawned, cancelled and resumed, by applications
and by futures that run, and however these return: unless the deque is read outside of its buffer, the
queues hold distinct live tasks, each future that was not destroyed is queued or suspended, and no node
without an entry is read. -/
theorem futures_in_place (epoch : Tick) (events : List (Event F))
    (hspawns : spawnsIn events + 1 < 4294967296) :
    Safe (fun ex => ∃ q, Holds shape.capacity ex.readyTasks q ∧
      Places shape.capacity ex.tasks.pool q.items ex.sleepingTasks.items [])
      (steps shape (Executor.init shape epoch) events) := by
  have hrun := (init_inv shape False epoch).steps events (by omega) False.elim
  exact hrun.mono fun ex ⟨q, hinv⟩ => ⟨q, hinv.holds, hinv.places⟩

/-- The client's shape: an identifier is its own hash. -/
def clientShape : Shape Nat where
  hash := id
  bucketCount := 96
  capacity := 64
  positive := by decide
  counted := by decide
  nodes := by decide
  indexed := by decide

theorem spawned_future_in_place :
    Safe (fun ex => ∃ q, Holds 64 ex.readyTasks q ∧
      Places 64 ex.tasks.pool q.items ex.sleepingTasks.items [])
      (steps clientShape (Executor.init clientShape 0)
        [.call (.spawn 'r'), .spin (fun _ => 5) [.spawn 'l'] .running, .call (.cancel 1)]) :=
  futures_in_place 0 [.call (.spawn 'r'), .spin (fun _ => 5) [.spawn 'l'] .running, .call (.cancel 1)]
    (by decide)

/-- The node of a future that is cancelled while it is suspended is not freed: it stays live and in no
queue whatever is done after it, as long as there have been fewer than 2^32 - 1 spawns. -/
theorem cancelled_suspended_kept (epoch : Tick) (handle i : Nat) (data : FutData F)
    (events more : List (Event F)) (hspawns : spawnsIn events + spawnsIn more + 1 < 4294967296)
    (hsuspended : data.schedule.status = .suspended) (hi : i < shape.capacity) (hhandle : handle ≠ 0) :
    Safe (fun ex => ex.tasks.pool i = some (handle, data) →
        Safe (fun ex' => ∃ q, Holds shape.capacity ex'.readyTasks q ∧
          (ex'.tasks.pool i).isSome = true ∧ i ∉ q.items ++ ex'.sleepingTasks.items)
          (steps shape ex (.call (.cancel handle) :: more)))
      (steps shape (Executor.init shape epoch) events) := by
  have hrun := (init_inv shape False epoch).steps events (by omega) False.elim
  refine hrun.mono fun ex ⟨q, hinv⟩ he => ?_
  have hcancelled : Inv shape False (ex.cancelFut shape handle).1 q [i] (0 + spawnsIn events) := by
    have hidx := (hinv.formed.getIdx_iff handle i).mpr ⟨hi, by rw [he]; rfl⟩
    have hout := hinv.places.not_queued he hsuspended
    have hpool : (ex.tasks.setAt i fun _ => .destroyed).pool =
        Function.update ex.tasks.pool i (some (handle, .destroyed)) := by
      change Function.update ex.tasks.pool i _ = _
      rw [he]
      rfl
    rw [Executor.cancelFut, if_neg hhandle, hidx]
    refine ⟨hinv.formed.setAt i fun _ => .destroyed, hinv.holds, ?_, ?_, hinv.spawned, False.elim⟩
    · change Places _ (ex.tasks.setAt i fun _ => .destroyed).pool _ _ _
      rw [hpool]
      exact hinv.places.claim hi he hout (by simp [FutData.destroyed])
    · change ∀ j < shape.capacity, ∀ e,
        (ex.tasks.setAt i fun _ => .destroyed).pool j = some e → _
      rw [hpool]
      exact setAt_ids hinv.ids he _
  have hrest := hcancelled.steps more (by omega) False.elim
  rw [steps]
  refine Safe.mono hrest fun ex' ⟨q', hinv'⟩ => ⟨q', hinv'.holds, ?_, ?_⟩
  · obtain ⟨-, e, he'⟩ := hinv'.places.live i (by simp)
    rw [he']
    rfl
  · have hout := hinv'.places.first_out.1
    rwa [List.append_nil] at hout

theorem suspended_future_kept :
    Safe (fun ex => ex.tasks.pool 0 = some (1, ⟨some 'r', ⟨.suspended, 0⟩⟩) →
        Safe (fun ex' => ∃ q, Holds 64 ex'.readyTasks q ∧
          (ex'.tasks.pool 0).isSome = true ∧ 0 ∉ q.items ++ ex'.sleepingTasks.items)
          (steps clientShape ex [.call (.cancel 1), .call (.resume 1), .spin (fun _ => 9) [] .ready]))
      (steps clientShape (Executor.init clientShape 0)
        [.call (.spawn 'r'), .spin (fun _ => 5) [] .suspended]) :=
  cancelled_suspended_kept 0 1 0 ⟨some 'r', ⟨.suspended, 0⟩⟩
    [.call (.spawn 'r'), .spin (fun _ => 5) [] .suspended] [.call (.resume 1), .spin (fun _ => 9) [] .ready]
    (by decide) rfl (by decide) (by decide)

/-- The future of the run is there, and suspended. -/
example : ((steps clientShape (Executor.init clientShape 0)
    [.call (.spawn 'r'), .spin (fun _ => 5) [] .suspended]).toOption.bind fun ex =>
      (ex.tasks.pool 0).map fun e => (e.1, e.2.schedule.status)) = some (1, .suspended) := by
  decide +kernel

end Genoh.FutureExecutor
