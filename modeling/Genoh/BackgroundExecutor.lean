import Genoh.FutureExecutor
import Mathlib.Algebra.BigOperators.Group.Finset.Piecewise
import Mathlib.Algebra.Order.BigOperators.Group.Finset
import Mathlib.Data.Fintype.Basic
import Mathlib.Logic.Relation
import Mathlib.Tactic.Ring

/-!
# The background executor

`runtime/background_executor.c` of the vendored client over the mutexes and condition variables of
`system/freertos/system.c`: one thread spins the executor, and any number of threads call on it. A
condition variable is a count of waiters and a counting semaphore. The section that its own mutex
guards is one step, and so is each load or change of the atomic counter. Left out are a start after a
stop, the join, and calls from the executor's own thread, which are the script of a spin. A run ends
where a spin or a call reads outside of the deque.
-/
namespace Genoh.BackgroundExecutor

open Genoh.FutureExecutor
open Genoh.PooledMap (Shape)

variable {F : Type*} {ι : Type*}

/-! ## Threads and the mutex -/

inductive Agent (ι : Type*) where
  | runner
  | thread (t : ι)
  deriving DecidableEq

/-- How a step of an agent passes the mutex, by whether it holds it before and behind the step. -/
inductive Passes (a : Agent ι) : Bool → Bool → Option (Agent ι) → Option (Agent ι) → Prop where
  | lock : Passes a false true none (some a)
  | unlock {owner : Option (Agent ι)} : Passes a true false owner none
  | keep {held : Bool} {owner : Option (Agent ι)} : Passes a held held owner owner

/-- The mutex stays with the one who holds it. -/
theorem owner_step {a : Agent ι} {holds holds' : Agent ι → Bool} {owner owner' : Option (Agent ι)}
    (h : ∀ b, owner = some b ↔ holds b = true) (hpass : Passes a (holds a) (holds' a) owner owner')
    (hother : ∀ b, b ≠ a → holds' b = holds b) (b : Agent ι) :
    owner' = some b ↔ holds' b = true := by
  generalize hbefore : holds a = before at hpass
  generalize hafter : holds' a = after at hpass
  cases hpass with
  | lock =>
    by_cases hb : b = a
    · rw [hb, hafter]
      simp
    · rw [hother b hb, ← h b]
      simp [Ne.symm hb]
  | unlock =>
    by_cases hb : b = a
    · rw [hb, hafter]
      simp
    · have howner := (h a).mpr hbefore
      rw [hother b hb, ← h b, howner]
      simp [Ne.symm hb]
  | keep =>
    by_cases hb : b = a
    · rw [hb, hafter, ← hbefore]
      exact h a
    · rw [hother b hb]
      exact h b

/-! ## The executor's thread and the callers -/

/-- Where `run_forever` is: in front of its lock, at the head of the loop, about to spin, in a wait
with or without a deadline (about to enlist, enlisted, blocked, about to lock again), behind a wait
that timed out, about to unlock for good, and done. -/
inductive Runner where
  | start | top | spinning
  | wait (deadline : Option Tick)
  | enlisted (deadline : Option Tick)
  | blocked (deadline : Option Tick)
  | relock (timedOut : Bool)
  | leaving | exit | done

/-- What a caller does with the executor. -/
inductive Op (F : Type*) where
  | call (c : Call F)
  | suspend | stop

/-- Where a caller is: about to lock, behind its lock, suspending, about to lock in `resume`, and in
`unlock_and_resume`. -/
inductive Caller (F : Type*) where
  | idle
  | announced (op : Op F)
  | inside (op : Op F)
  | suspended | resuming | operated | lowered | signalled

structure State (F ι : Type*) where
  waiters : Nat
  owner : Option (Agent ι)
  cvWaiters : Int
  sem : Nat
  stopping : Bool
  executor : Executor F
  runner : Runner
  callers : ι → Caller F

def init (shape : Shape Nat) (epoch : Tick) : State F ι where
  waiters := 0
  owner := none
  cvWaiters := 0
  sem := 0
  stopping := false
  executor := Executor.init shape epoch
  runner := .start
  callers _ := .idle

/-- Steps of the executor's thread. -/
inductive RunnerStep (shape : Shape Nat) : State F ι → State F ι → Prop where
  | lock {s : State F ι} (at_ : s.runner = .start) (free : s.owner = none) :
      RunnerStep shape s { s with runner := .top, owner := some .runner }
  | yield {s : State F ι} (at_ : s.runner = .top) (waiting : 0 < s.waiters)
      (goes : s.stopping = false) : RunnerStep shape s { s with runner := .wait none }
  | stop {s : State F ι} (at_ : s.runner = .top) (stops : s.stopping = true) :
      RunnerStep shape s { s with runner := .exit }
  | spin {s : State F ι} (at_ : s.runner = .top) (alone : s.waiters = 0)
      (goes : s.stopping = false) : RunnerStep shape s { s with runner := .spinning }
  | executed {s : State F ι} (at_ : s.runner = .spinning) (clock : Nat → Tick) (script : List (Call F))
      (result : Result) (executor : Executor F) (i : Nat)
      (spun : FutureExecutor.spin shape s.executor clock script result = .ok (executor, .execute i)) :
      RunnerStep shape s { s with runner := .top, executor := executor }
  | noTasks {s : State F ι} (at_ : s.runner = .spinning) (clock : Nat → Tick) (script : List (Call F))
      (result : Result) (executor : Executor F)
      (spun : FutureExecutor.spin shape s.executor clock script result = .ok (executor, .noTasks)) :
      RunnerStep shape s { s with runner := .wait none, executor := executor }
  | shouldWait {s : State F ι} (at_ : s.runner = .spinning) (clock : Nat → Tick) (script : List (Call F))
      (result : Result) (executor : Executor F) (wakeUp : Tick)
      (spun : FutureExecutor.spin shape s.executor clock script result =
        .ok (executor, .shouldWait wakeUp)) :
      RunnerStep shape s { s with runner := .wait (some wakeUp), executor := executor }
  | soon {s : State F ι} (at_ : s.runner = .spinning) (clock : Nat → Tick) (script : List (Call F))
      (result : Result) (executor : Executor F) (wakeUp : Tick)
      (spun : FutureExecutor.spin shape s.executor clock script result =
        .ok (executor, .shouldWait wakeUp)) :
      RunnerStep shape s { s with runner := .top, executor := executor }
  | enlist {s : State F ι} {deadline : Option Tick} (at_ : s.runner = .wait deadline) :
      RunnerStep shape s { s with runner := .enlisted deadline, cvWaiters := s.cvWaiters + 1 }
  | block {s : State F ι} {deadline : Option Tick} (at_ : s.runner = .enlisted deadline) :
      RunnerStep shape s { s with runner := .blocked deadline, owner := none }
  | wake {s : State F ι} {deadline : Option Tick} (at_ : s.runner = .blocked deadline)
      (permit : 0 < s.sem) :
      RunnerStep shape s { s with runner := .relock false, sem := s.sem - 1 }
  | timeout {s : State F ι} {wakeUp : Tick} (at_ : s.runner = .blocked (some wakeUp))
      (permits : s.sem = 0) : RunnerStep shape s { s with runner := .relock true }
  | relock {s : State F ι} {timedOut : Bool} (at_ : s.runner = .relock timedOut)
      (free : s.owner = none) :
      RunnerStep shape s { s with
        runner := if timedOut then .leaving else .top, owner := some .runner }
  | leave {s : State F ι} (at_ : s.runner = .leaving) :
      RunnerStep shape s { s with runner := .top, cvWaiters := s.cvWaiters - 1 }
  | unlock {s : State F ι} (at_ : s.runner = .exit) :
      RunnerStep shape s { s with runner := .done, owner := none }

variable [DecidableEq ι]

/-- A caller at another place. -/
def State.move (s : State F ι) (t : ι) (caller : Caller F) : State F ι :=
  { s with callers := Function.update s.callers t caller }

/-- Steps of a caller. -/
inductive CallerStep (shape : Shape Nat) (t : ι) : State F ι → State F ι → Prop where
  | announce {s : State F ι} (at_ : s.callers t = .idle) (op : Op F) :
      CallerStep shape t s { s.move t (.announced op) with waiters := s.waiters + 1 }
  | lock {s : State F ι} {op : Op F} (at_ : s.callers t = .announced op) (free : s.owner = none) :
      CallerStep shape t s { s.move t (.inside op) with owner := some (.thread t) }
  | call {s : State F ι} {c : Call F} (at_ : s.callers t = .inside (.call c))
      (executor : Executor F) (called : FutureExecutor.call shape s.executor c = .ok executor) :
      CallerStep shape t s { s.move t .operated with executor := executor }
  | stop {s : State F ι} (at_ : s.callers t = .inside .stop) :
      CallerStep shape t s { s.move t .operated with stopping := true }
  | suspend {s : State F ι} (at_ : s.callers t = .inside .suspend) :
      CallerStep shape t s { s.move t .suspended with owner := none }
  | resume {s : State F ι} (at_ : s.callers t = .suspended) :
      CallerStep shape t s (s.move t .resuming)
  | relock {s : State F ι} (at_ : s.callers t = .resuming) (free : s.owner = none) :
      CallerStep shape t s { s.move t .operated with owner := some (.thread t) }
  | lower {s : State F ι} (at_ : s.callers t = .operated) :
      CallerStep shape t s { s.move t .lowered with waiters := s.waiters - 1 }
  | signalAll {s : State F ι} (at_ : s.callers t = .lowered) :
      CallerStep shape t s { s.move t .signalled with
        sem := s.sem + s.cvWaiters.toNat, cvWaiters := s.cvWaiters - s.cvWaiters.toNat }
  | unlock {s : State F ι} (at_ : s.callers t = .signalled) :
      CallerStep shape t s { s.move t .idle with owner := none }

inductive Step (shape : Shape Nat) (s s' : State F ι) : Prop where
  | runner (step : RunnerStep shape s s')
  | caller (t : ι) (step : CallerStep shape t s s')

def Reachable (shape : Shape Nat) (epoch : Tick) (s : State F ι) : Prop :=
  Relation.ReflTransGen (Step shape) (init shape epoch) s

/-! ## What a step does -/

def Runner.holds : Runner → Bool
  | .top | .spinning | .wait _ | .enlisted _ | .leaving | .exit => true
  | .start | .blocked _ | .relock _ | .done => false

/-- The executor's thread has enlisted and has taken no permit since. -/
def Runner.enlistments : Runner → Int
  | .enlisted _ | .blocked _ | .relock true | .leaving => 1
  | .start | .top | .spinning | .wait _ | .relock false | .exit | .done => 0

def Caller.holds : Caller F → Bool
  | .inside _ | .operated | .lowered | .signalled => true
  | .idle | .announced _ | .suspended | .resuming => false

/-- The caller is counted as a waiter. -/
def Caller.counts : Caller F → Nat
  | .announced _ | .inside _ | .suspended | .resuming | .operated => 1
  | .idle | .lowered | .signalled => 0

/-- The caller has yet to signal. -/
def Caller.Pending (c : Caller F) : Prop := c.counts = 1 ∨ c = .lowered

def State.holds (s : State F ι) : Agent ι → Bool
  | .runner => s.runner.holds
  | .thread t => (s.callers t).holds

variable {shape : Shape Nat} {s s' : State F ι}

omit [DecidableEq ι] in
/-- The executor's thread changes no caller and no count of waiters. -/
theorem runner_effect (h : RunnerStep shape s s') :
    (s'.callers = s.callers ∧ s'.waiters = s.waiters ∧ s'.stopping = s.stopping) ∧
    Passes .runner s.runner.holds s'.runner.holds s.owner s'.owner ∧
    s'.cvWaiters + s'.sem + s.runner.enlistments =
      s.cvWaiters + s.sem + s'.runner.enlistments := by
  cases h with
  | lock hat hfree =>
    rw [hat, hfree]
    exact ⟨⟨rfl, rfl, rfl⟩, .lock, rfl⟩
  | yield hat _ _ =>
    rw [hat]
    exact ⟨⟨rfl, rfl, rfl⟩, .keep, rfl⟩
  | stop hat _ =>
    rw [hat]
    exact ⟨⟨rfl, rfl, rfl⟩, .keep, rfl⟩
  | spin hat _ _ =>
    rw [hat]
    exact ⟨⟨rfl, rfl, rfl⟩, .keep, rfl⟩
  | executed hat _ _ _ _ _ _ =>
    rw [hat]
    exact ⟨⟨rfl, rfl, rfl⟩, .keep, rfl⟩
  | noTasks hat _ _ _ _ _ =>
    rw [hat]
    exact ⟨⟨rfl, rfl, rfl⟩, .keep, rfl⟩
  | shouldWait hat _ _ _ _ _ _ =>
    rw [hat]
    exact ⟨⟨rfl, rfl, rfl⟩, .keep, rfl⟩
  | soon hat _ _ _ _ _ _ =>
    rw [hat]
    exact ⟨⟨rfl, rfl, rfl⟩, .keep, rfl⟩
  | enlist hat =>
    rw [hat]
    refine ⟨⟨rfl, rfl, rfl⟩, .keep, ?_⟩
    change s.cvWaiters + 1 + s.sem + 0 = s.cvWaiters + s.sem + 1
    omega
  | block hat =>
    rw [hat]
    exact ⟨⟨rfl, rfl, rfl⟩, .unlock, rfl⟩
  | wake hat hpermit =>
    rw [hat]
    refine ⟨⟨rfl, rfl, rfl⟩, .keep, ?_⟩
    change s.cvWaiters + (s.sem - 1 : Nat) + 1 = s.cvWaiters + s.sem + 0
    omega
  | timeout hat _ =>
    rw [hat]
    exact ⟨⟨rfl, rfl, rfl⟩, .keep, rfl⟩
  | @relock timedOut hat hfree =>
    rw [hat, hfree]
    cases timedOut with
    | false => exact ⟨⟨rfl, rfl, rfl⟩, .lock, rfl⟩
    | true => exact ⟨⟨rfl, rfl, rfl⟩, .lock, rfl⟩
  | leave hat =>
    rw [hat]
    refine ⟨⟨rfl, rfl, rfl⟩, .keep, ?_⟩
    change s.cvWaiters - 1 + s.sem + 1 = s.cvWaiters + s.sem + 0
    omega
  | unlock hat =>
    rw [hat]
    exact ⟨⟨rfl, rfl, rfl⟩, .unlock, rfl⟩

/-- A caller moves alone, counts itself, and leaves the executor's thread where it is. -/
theorem caller_effect {t : ι} (h : CallerStep shape t s s') (hcount : (s.callers t).counts ≤ s.waiters) :
    ∃ caller, s'.callers = Function.update s.callers t caller ∧ s'.runner = s.runner ∧
      s'.waiters + (s.callers t).counts = s.waiters + caller.counts ∧
      Passes (.thread t) (s.callers t).holds caller.holds s.owner s'.owner ∧
      s'.cvWaiters + s'.sem = s.cvWaiters + s.sem := by
  cases h with
  | announce hat op =>
    rw [hat]
    exact ⟨.announced op, rfl, rfl, rfl, .keep, rfl⟩
  | @lock op hat hfree =>
    rw [hat, hfree]
    exact ⟨.inside op, rfl, rfl, rfl, .lock, rfl⟩
  | call hat executor _ =>
    rw [hat]
    exact ⟨.operated, rfl, rfl, rfl, .keep, rfl⟩
  | stop hat =>
    rw [hat]
    exact ⟨.operated, rfl, rfl, rfl, .keep, rfl⟩
  | suspend hat =>
    rw [hat]
    exact ⟨.suspended, rfl, rfl, rfl, .unlock, rfl⟩
  | resume hat =>
    rw [hat]
    exact ⟨.resuming, rfl, rfl, rfl, .keep, rfl⟩
  | relock hat hfree =>
    rw [hat, hfree]
    exact ⟨.operated, rfl, rfl, rfl, .lock, rfl⟩
  | lower hat =>
    rw [hat] at hcount ⊢
    exact ⟨.lowered, rfl, rfl, Nat.sub_add_cancel hcount, .keep, rfl⟩
  | signalAll hat =>
    rw [hat]
    refine ⟨.signalled, rfl, rfl, rfl, .keep, ?_⟩
    change s.cvWaiters - s.cvWaiters.toNat + (s.sem + s.cvWaiters.toNat : Nat) = s.cvWaiters + s.sem
    omega
  | unlock hat =>
    rw [hat]
    exact ⟨.idle, rfl, rfl, rfl, .unlock, rfl⟩

/-! ## The invariant -/

variable [Fintype ι]

/-- The executor is as the last spin left it when it found nothing to do until the deadline. -/
def Left (shape : Shape Nat) (executor : Executor F) (deadline : Option Tick) : Prop :=
  ∃ before clock script result, FutureExecutor.spin shape before clock script result =
    .ok (executor, deadline.elim .noTasks .shouldWait)

structure Inv (shape : Shape Nat) (s : State F ι) : Prop where
  owner : ∀ a, s.owner = some a ↔ s.holds a = true
  waiters : s.waiters = ∑ t, (s.callers t).counts
  permits : s.cvWaiters + s.sem = s.runner.enlistments
  spinning : s.runner = .spinning → s.stopping = false ∧
    ∀ t, s.callers t = .idle ∨ ∃ op, s.callers t = .announced op
  asleep : ∀ deadline, s.runner = .wait deadline ∨ s.runner = .enlisted deadline ∨
      s.runner = .blocked deadline ∧ s.sem = 0 →
    (∃ t, (s.callers t).Pending) ∨ s.stopping = false ∧ Left shape s.executor deadline

omit [DecidableEq ι] in
theorem init_inv (epoch : Tick) : Inv shape (init shape epoch : State F ι) where
  owner a := by
    cases a with
    | runner => exact iff_of_false (by simp [init]) (by simp [State.holds, init, Runner.holds])
    | thread t => exact iff_of_false (by simp [init]) (by simp [State.holds, init, Caller.holds])
  waiters := (Finset.sum_const_zero (s := (Finset.univ : Finset ι))).symm
  permits := rfl
  spinning h := absurd h (by simp [init])
  asleep deadline h := absurd h (by simp [init])

omit [DecidableEq ι] in
theorem counts_le_waiters (h : Inv shape s) (t : ι) : (s.callers t).counts ≤ s.waiters := by
  rw [h.waiters]
  exact Finset.single_le_sum (f := fun t => (s.callers t).counts) (fun _ _ => Nat.zero_le _)
    (Finset.mem_univ t)

omit [DecidableEq ι] in
/-- With the mutex at the executor's thread every caller is outside of it. -/
theorem callers_outside (h : Inv shape s) (hholds : s.runner.holds = true) (t : ι) :
    (s.callers t).holds = false := by
  have howner := (h.owner .runner).mpr hholds
  rw [← Bool.not_eq_true]
  intro hcaller
  exact absurd (howner.symm.trans ((h.owner (.thread t)).mpr hcaller)) (by simp)

omit [DecidableEq ι] in
theorem runner_outside (h : Inv shape s) {t : ι} (hholds : (s.callers t).holds = true) :
    s.runner.holds = false := by
  rw [← Bool.not_eq_true]
  intro hrunner
  rw [callers_outside h hrunner t] at hholds
  exact absurd hholds (by decide)

/-- A caller that does not hold the mutex and is not counted is idle. -/
theorem idle_of_uncounted {c : Caller F} (hholds : c.holds = false) (hcounts : c.counts = 0) :
    c = .idle := by
  cases c with
  | idle => rfl
  | announced op => exact absurd hcounts (by simp [Caller.counts])
  | inside op => exact absurd hcounts (by simp [Caller.counts])
  | suspended => exact absurd hcounts (by simp [Caller.counts])
  | resuming => exact absurd hcounts (by simp [Caller.counts])
  | operated => exact absurd hcounts (by simp [Caller.counts])
  | lowered => exact absurd hholds (by simp [Caller.holds])
  | signalled => exact absurd hholds (by simp [Caller.holds])

omit [DecidableEq ι] in
theorem exists_pending (h : Inv shape s) (hpos : 0 < s.waiters) : ∃ t, (s.callers t).Pending := by
  rw [h.waiters] at hpos
  obtain ⟨t, -, hcount⟩ := Finset.exists_ne_zero_of_sum_ne_zero hpos.ne'
  have hone : (s.callers t).counts ≤ 1 := by
    generalize s.callers t = c
    cases c with
    | idle => exact Nat.zero_le 1
    | announced op => exact le_rfl
    | inside op => exact le_rfl
    | suspended => exact le_rfl
    | resuming => exact le_rfl
    | operated => exact le_rfl
    | lowered => exact Nat.zero_le 1
    | signalled => exact Nat.zero_le 1
  exact ⟨t, .inl (le_antisymm hone (Nat.one_le_iff_ne_zero.mpr hcount))⟩

omit [DecidableEq ι] in
theorem idle_of_alone (h : Inv shape s) (hholds : s.runner.holds = true) (halone : s.waiters = 0)
    (t : ι) : s.callers t = .idle :=
  idle_of_uncounted (callers_outside h hholds t)
    (Nat.le_zero.mp (halone ▸ counts_le_waiters h t))

/-! ## Steps keep the invariant -/

omit [DecidableEq ι] in
/-- A spin begins where no caller is counted. -/
theorem runner_spinning (h : Inv shape s) (hstep : RunnerStep shape s s')
    (hspinning : s'.runner = .spinning) : s'.stopping = false ∧
      ∀ t, s'.callers t = .idle ∨ ∃ op, s'.callers t = .announced op := by
  obtain ⟨⟨hcallers, -, hstopping⟩, -⟩ := runner_effect hstep
  rw [hstopping, hcallers]
  cases hstep with
  | spin hat halone hgoes =>
    have hholds : s.runner.holds = true := by rw [hat]; rfl
    exact ⟨hgoes, fun t => .inl (idle_of_alone h hholds halone t)⟩
  | @relock timedOut hat hfree =>
    change (if timedOut then Runner.leaving else .top) = .spinning at hspinning
    split at hspinning
    · exact absurd hspinning (by simp)
    · exact absurd hspinning (by simp)
  | _ => exact absurd hspinning (by simp)

omit [DecidableEq ι] in
/-- A wait begins behind a spin that found nothing to do, or with a caller that is counted. -/
theorem runner_asleep (h : Inv shape s) (hstep : RunnerStep shape s s') {deadline : Option Tick}
    (hasleep : s'.runner = .wait deadline ∨ s'.runner = .enlisted deadline ∨
      s'.runner = .blocked deadline ∧ s'.sem = 0) :
    (∃ t, (s'.callers t).Pending) ∨ s'.stopping = false ∧ Left shape s'.executor deadline := by
  obtain ⟨⟨hcallers, -, hstopping⟩, -⟩ := runner_effect hstep
  rw [hstopping, hcallers]
  cases hstep with
  | yield hat hwaiting hgoes => exact .inl (exists_pending h hwaiting)
  | noTasks hat clock script result executor hspun =>
    obtain hwait | henlisted | ⟨hblocked, -⟩ := hasleep
    · obtain rfl := Runner.wait.inj hwait
      exact .inr ⟨(h.spinning hat).1, s.executor, clock, script, result, hspun⟩
    · exact absurd henlisted (by simp)
    · exact absurd hblocked (by simp)
  | shouldWait hat clock script result executor wakeUp hspun =>
    obtain hwait | henlisted | ⟨hblocked, -⟩ := hasleep
    · obtain rfl := Runner.wait.inj hwait
      exact .inr ⟨(h.spinning hat).1, s.executor, clock, script, result, hspun⟩
    · exact absurd henlisted (by simp)
    · exact absurd hblocked (by simp)
  | @enlist deadline' hat =>
    obtain hwait | henlisted | ⟨hblocked, -⟩ := hasleep
    · exact absurd hwait (by simp)
    · obtain rfl := Runner.enlisted.inj henlisted
      exact h.asleep deadline' (.inl hat)
    · exact absurd hblocked (by simp)
  | @block deadline' hat =>
    obtain hwait | henlisted | ⟨hblocked, -⟩ := hasleep
    · exact absurd hwait (by simp)
    · exact absurd henlisted (by simp)
    · obtain rfl := Runner.blocked.inj hblocked
      exact h.asleep deadline' (.inr (.inl hat))
  | @relock timedOut hat hfree =>
    cases timedOut with
    | false => simp at hasleep
    | true => simp at hasleep
  | _ => simp at hasleep

omit [DecidableEq ι] in
theorem runner_inv (h : Inv shape s) (hstep : RunnerStep shape s s') : Inv shape s' := by
  obtain ⟨⟨hcallers, hwaiters, -⟩, hpass, hpermits⟩ := runner_effect hstep
  constructor
  case owner =>
    refine owner_step h.owner hpass fun b hb => ?_
    cases b with
    | runner => exact absurd rfl hb
    | thread t => rw [State.holds, State.holds, hcallers]
  case waiters =>
    rw [hwaiters, hcallers]
    exact h.waiters
  case permits =>
    have hbefore := h.permits
    omega
  case spinning => exact runner_spinning h hstep
  case asleep => exact fun _ hasleep => runner_asleep h hstep hasleep

omit [Fintype ι] in
theorem pending_update {callers : ι → Caller F} {t : ι} {caller : Caller F} (h : caller.Pending) :
    ∃ t', (Function.update callers t caller t').Pending :=
  ⟨t, by rwa [Function.update_self]⟩

/-- The count of one caller is exchanged. -/
theorem sum_counts_update (callers : ι → Caller F) (t : ι) (caller : Caller F) :
    ∑ t', (Function.update callers t caller t').counts + (callers t).counts =
      ∑ t', (callers t').counts + caller.counts := by
  have hfun : (fun t' => (Function.update callers t caller t').counts) =
      Function.update (fun t' => (callers t').counts) t caller.counts :=
    Function.comp_update Caller.counts callers t caller
  rw [hfun, Finset.sum_update_of_mem (Finset.mem_univ t),
    ← Finset.add_sum_erase Finset.univ _ (Finset.mem_univ t), Finset.sdiff_singleton_eq_erase]
  ring

/-- While the executor's thread spins, a caller gets no further than to the mutex. -/
theorem caller_spinning {t : ι} (h : Inv shape s) (hstep : CallerStep shape t s s')
    (hspinning : s.runner = .spinning) : s'.stopping = false ∧
      ∀ t', s'.callers t' = .idle ∨ ∃ op, s'.callers t' = .announced op := by
  obtain ⟨hgoes, houtside⟩ := h.spinning hspinning
  have howner : s.owner = some .runner := (h.owner .runner).mpr (by rw [State.holds, hspinning]; rfl)
  have hnot : ∀ c, s.callers t = c → c = .idle ∨ ∃ op, c = .announced op := by
    rintro c rfl
    exact houtside t
  cases hstep with
  | announce hat op =>
    refine ⟨hgoes, fun t' => ?_⟩
    change Function.update s.callers t (.announced op) t' = .idle ∨ _
    by_cases htt : t' = t
    · exact .inr ⟨op, by rw [htt]; exact Function.update_self _ _ _⟩
    · rw [Function.update_of_ne htt]
      refine (houtside t').imp_right fun ⟨op', hop⟩ => ⟨op', ?_⟩
      exact (Function.update_of_ne htt _ _).trans hop
  | lock hat hfree => exact absurd (howner.symm.trans hfree) (by simp)
  | relock hat hfree => exact absurd (howner.symm.trans hfree) (by simp)
  | call hat _ _ => exact absurd (hnot _ hat) (by simp)
  | stop hat => exact absurd (hnot _ hat) (by simp)
  | suspend hat => exact absurd (hnot _ hat) (by simp)
  | resume hat => exact absurd (hnot _ hat) (by simp)
  | lower hat => exact absurd (hnot _ hat) (by simp)
  | signalAll hat => exact absurd (hnot _ hat) (by simp)
  | unlock hat => exact absurd (hnot _ hat) (by simp)

/-- A caller that moves in front of its signal is pending, its signal gives a permit to the thread that
waits, and behind it the caller touches nothing. -/
theorem caller_asleep {t : ι} (h : Inv shape s) (hstep : CallerStep shape t s s')
    {deadline : Option Tick} (hasleep : s.runner = .wait deadline ∨ s.runner = .enlisted deadline ∨
      s.runner = .blocked deadline ∧ s'.sem = 0) :
    (∃ t, (s'.callers t).Pending) ∨ s'.stopping = false ∧ Left shape s'.executor deadline := by
  cases hstep with
  | announce hat op => exact .inl (pending_update (.inl rfl))
  | lock hat hfree => exact .inl (pending_update (.inl rfl))
  | call hat _ _ => exact .inl (pending_update (.inl rfl))
  | stop hat => exact .inl (pending_update (.inl rfl))
  | suspend hat => exact .inl (pending_update (.inl rfl))
  | resume hat => exact .inl (pending_update (.inl rfl))
  | relock hat hfree => exact .inl (pending_update (.inl rfl))
  | lower hat => exact .inl (pending_update (.inr rfl))
  | signalAll hat =>
    have houtside := runner_outside h (t := t) (by rw [hat]; rfl)
    have hbefore := h.permits
    obtain hwait | henlisted | ⟨hblocked, hsem⟩ := hasleep
    · rw [hwait] at houtside
      exact absurd houtside (by simp [Runner.holds])
    · rw [henlisted] at houtside
      exact absurd houtside (by simp [Runner.holds])
    · rw [hblocked] at hbefore
      change s.sem + s.cvWaiters.toNat = 0 at hsem
      change s.cvWaiters + s.sem = 1 at hbefore
      omega
  | unlock hat =>
    refine (h.asleep deadline hasleep).imp_left ?_
    rintro ⟨t', hpending⟩
    have htt : t' ≠ t := by
      rintro rfl
      rw [hat] at hpending
      exact absurd hpending (by simp [Caller.Pending, Caller.counts])
    refine ⟨t', ?_⟩
    change (Function.update s.callers t .idle t').Pending
    rwa [Function.update_of_ne htt]

theorem caller_inv {t : ι} (h : Inv shape s) (hstep : CallerStep shape t s s') : Inv shape s' := by
  obtain ⟨caller, hcallers, hrunner, hwaiters, hpass, hpermits⟩ :=
    caller_effect hstep (counts_le_waiters h t)
  constructor
  case owner =>
    refine owner_step (a := .thread t) h.owner ?_ fun b hb => ?_
    · rw [State.holds, State.holds, hcallers, Function.update_self]
      exact hpass
    · cases b with
      | runner => rw [State.holds, State.holds, hrunner]
      | thread t' =>
        have hne : t' ≠ t := fun htt => hb (congrArg Agent.thread htt)
        rw [State.holds, State.holds, hcallers, Function.update_of_ne hne]
  case waiters =>
    have hbefore := h.waiters
    have hsum := sum_counts_update s.callers t caller
    rw [← hcallers] at hsum
    omega
  case permits =>
    rw [hrunner, hpermits]
    exact h.permits
  case spinning => exact fun hspinning => caller_spinning h hstep (hrunner ▸ hspinning)
  case asleep => exact fun _ hasleep => caller_asleep h hstep (hrunner ▸ hasleep)

theorem reachable_inv {epoch : Tick} (h : Reachable shape epoch s) : Inv shape s := by
  induction h with
  | refl => exact init_inv epoch
  | tail _ hstep ih =>
    cases hstep with
    | runner hstep => exact runner_inv ih hstep
    | caller t hstep => exact caller_inv ih hstep

/-- Two callers and a new executor, whose thread is about to spin it. -/
def firstSpin : State Char (Fin 2) :=
  { init clientShape 0 with runner := .spinning, owner := some .runner }

theorem firstSpin_reachable : Reachable clientShape 0 firstSpin := by
  have htop : Reachable clientShape 0
      ({ init clientShape 0 with runner := .top, owner := some .runner } : State Char (Fin 2)) :=
    .tail .refl (.runner (.lock rfl rfl))
  exact .tail htop (.runner (.spin rfl rfl rfl))

def firstSleep : State Char (Fin 2) :=
  { init clientShape 0 with runner := .blocked none, cvWaiters := 1 }

theorem firstSleep_reachable : Reachable clientShape 0 firstSleep := by
  have hwait : Reachable clientShape 0 { firstSpin with runner := .wait none } :=
    .tail firstSpin_reachable
      (.runner (.noTasks rfl (fun _ => 0) [] .ready (Executor.init clientShape 0) rfl))
  have henlisted : Reachable clientShape 0
      { firstSpin with runner := .enlisted none, cvWaiters := 1 } :=
    .tail hwait (.runner (.enlist rfl))
  exact .tail henlisted (.runner (.block rfl))

/-- However the calls of any number of threads fall, the executor's thread that is blocked without a
permit has a caller that will still signal, or the executor is as the last spin left it, with nothing to
do until the deadline, and was not told to stop. -/
theorem blocked_with_nothing_to_do {epoch : Tick} {deadline : Option Tick} (h : Reachable shape epoch s)
    (hblocked : s.runner = .blocked deadline) (hsem : s.sem = 0) :
    (∃ t, (s.callers t).Pending) ∨ s.stopping = false ∧ Left shape s.executor deadline :=
  (reachable_inv h).asleep deadline (.inr (.inr ⟨hblocked, hsem⟩))

theorem first_sleep_with_nothing_to_do :
    (∃ t, (firstSleep.callers t).Pending) ∨
      firstSleep.stopping = false ∧ Left clientShape firstSleep.executor none :=
  blocked_with_nothing_to_do firstSleep_reachable rfl rfl

/-- While the executor's thread runs a task every other thread is idle or waits for the mutex: none is
inside of a call, and none has suspended the executor. -/
theorem alone_while_spinning {epoch : Tick} (h : Reachable shape epoch s)
    (hspinning : s.runner = .spinning) (t : ι) :
    s.callers t = .idle ∨ ∃ op, s.callers t = .announced op :=
  ((reachable_inv h).spinning hspinning).2 t

theorem alone_at_first_spin :
    firstSpin.callers 0 = .idle ∨ ∃ op, firstSpin.callers 0 = .announced op :=
  alone_while_spinning firstSpin_reachable rfl 0

end Genoh.BackgroundExecutor
