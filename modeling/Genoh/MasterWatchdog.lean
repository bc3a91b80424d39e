import Genoh.Run
import Mathlib.Data.Rat.Defs
import Mathlib.Algebra.Order.Ring.Rat
import Mathlib.Tactic.Linarith

/-!
# The watchdog

`Watchdog` of `watchdog.py` under any interleaving of the threads that feed it, the one that starts
and stops it, and its monitor threads. `stop` waits a limited time for the monitor thread, so that a
later `start` may find it still at work. `start` and `stop` take no lock: they are single steps as one
thread calls them. A step of a monitor thread reads the clock once, and the lock is free between its
look at the last kick and its call of the callback.
-/
namespace Genoh.MasterWatchdog

open Genoh.Run

/-! ## Model -/

/-- Where a monitor thread is in `_monitor_loop`: before the test of the loop, in the wait, behind the
test behind it, behind a look that found the last kick too old, in the expiry callback, or out of the
loop. -/
inductive Pc where
  | top | waiting | awake | expired | calling | ended
  deriving DecidableEq, Repr

/-- The watchdog, with a monitor thread for each `start` that made one. -/
structure Watchdog where
  timeoutSec : ℚ
  lastKick : ℚ
  running : Bool
  stopEvent : Bool
  monitors : List Pc
  deriving DecidableEq, Repr

def init (timeoutSec : ℚ) : Watchdog := ⟨timeoutSec, 0, false, false, []⟩

/-- `check_interval` -/
def checkInterval (timeoutSec : ℚ) : ℚ := min (timeoutSec / 4) 1

def kick (wd : Watchdog) (now : ℚ) : Watchdog := { wd with lastKick := now }

def start (wd : Watchdog) (now : ℚ) : Watchdog :=
  if wd.running then wd
  else
    { wd with
      running := true
      stopEvent := false
      lastKick := now
      monitors := wd.monitors ++ [.top] }

/-- `stop` without the wait for the thread. -/
def stop (wd : Watchdog) : Watchdog :=
  if wd.running then { wd with running := false, stopEvent := true } else wd

/-- The next step of a monitor thread, and whether it calls `_expiry_callback`. -/
def monitorStep (wd : Watchdog) (pc : Pc) (now : ℚ) : Watchdog × Pc × Bool :=
  match pc with
  | .top => (wd, if wd.stopEvent then .ended else .waiting, false)
  | .waiting => (wd, if wd.stopEvent then .ended else .awake, false)
  | .awake => (wd, if now - wd.lastKick > wd.timeoutSec then .expired else .top, false)
  | .expired => (wd, .calling, true)
  | .calling => ({ wd with lastKick := now }, .top, false)
  | .ended => (wd, .ended, false)

inductive Action where
  | kick | start | stop
  | monitor (i : Nat)
  deriving DecidableEq, Repr

/-- A step of a thread, and what the clock says at it. -/
structure Event where
  now : ℚ
  action : Action
  deriving DecidableEq, Repr

def act (wd : Watchdog) (e : Event) : Watchdog :=
  match e.action with
  | .kick => kick wd e.now
  | .start => start wd e.now
  | .stop => stop wd
  | .monitor i =>
    match wd.monitors[i]? with
    | none => wd
    | some pc =>
      let (wd, pc, _) := monitorStep wd pc e.now
      { wd with monitors := wd.monitors.set i pc }

/-- The event makes a monitor thread call the callback. -/
def alarms (wd : Watchdog) (e : Event) : Bool :=
  match e.action with
  | .monitor i => (wd.monitors[i]?).elim false fun pc => (monitorStep wd pc e.now).2.2
  | _ => false

/-- The event sets the time of the last kick: a kick, a start, or the end of a callback. -/
def feeds (wd : Watchdog) (e : Event) : Bool :=
  match e.action with
  | .kick => true
  | .start => !wd.running
  | .stop => false
  | .monitor i => wd.monitors[i]? == some .calling

/-! ## Steps -/

section Steps

variable {wd : Watchdog} {i : Nat} {pc : Pc}

theorem act_none (now : ℚ) (h : wd.monitors[i]? = none) : act wd ⟨now, .monitor i⟩ = wd := by
  simp only [act, h]

theorem act_some (now : ℚ) (h : wd.monitors[i]? = some pc) :
    act wd ⟨now, .monitor i⟩ =
      { wd with
        lastKick := if pc = .calling then now else wd.lastKick
        monitors := wd.monitors.set i (monitorStep wd pc now).2.1 } := by
  cases pc <;> simp only [act, h, monitorStep] <;> rfl

/-- What a step does to the time of the last kick. -/
theorem act_lastKick (wd : Watchdog) (e : Event) :
    (act wd e).lastKick = if feeds wd e then e.now else wd.lastKick := by
  obtain ⟨now, action⟩ := e
  cases action with
  | kick => rfl
  | start =>
    obtain ⟨timeoutSec, lastKick, running, stopEvent, monitors⟩ := wd
    cases running <;> rfl
  | stop =>
    simp only [act, stop, feeds]
    split <;> rfl
  | monitor i =>
    obtain h | ⟨pc, h⟩ := Option.eq_none_or_eq_some wd.monitors[i]?
    · simp [act_none now h, feeds, h]
    · rw [act_some now h, feeds]
      cases pc <;> simp [h]

theorem act_timeoutSec (wd : Watchdog) (e : Event) : (act wd e).timeoutSec = wd.timeoutSec := by
  obtain ⟨now, action⟩ := e
  cases action with
  | kick => rfl
  | start =>
    simp only [act, start]
    split <;> rfl
  | stop =>
    simp only [act, stop]
    split <;> rfl
  | monitor i =>
    cases h : wd.monitors[i]? with
    | none => rw [act_none now h]
    | some pc => rw [act_some now h]

/-- A monitor thread calls the callback behind a look that found the last kick too old. -/
theorem alarms_iff (wd : Watchdog) (e : Event) : alarms wd e = true ↔
    ∃ i, e.action = .monitor i ∧ wd.monitors[i]? = some .expired := by
  obtain ⟨now, action⟩ := e
  cases action with
  | monitor i =>
    simp only [alarms, Action.monitor.injEq, exists_eq_left']
    cases wd.monitors[i]? with
    | none => simp
    | some pc => cases pc <;> simp [monitorStep]
  | _ => simp [alarms]

theorem monitorStep_expired {now : ℚ} (h : (monitorStep wd pc now).2.1 = .expired) :
    pc = .awake ∧ wd.timeoutSec < now - wd.lastKick := by
  cases pc with
  | awake =>
    refine ⟨rfl, ?_⟩
    by_contra hle
    simp [monitorStep, hle] at h
  | top =>
    simp only [monitorStep] at h
    split at h <;> cases h
  | waiting =>
    simp only [monitorStep] at h
    split at h <;> cases h
  | expired => cases h
  | calling => cases h
  | ended => cases h

theorem monitorStep_calling {now : ℚ} (h : (monitorStep wd pc now).2.1 = .calling) :
    pc = .expired := by
  cases pc with
  | expired => rfl
  | top | waiting | awake =>
    simp only [monitorStep] at h
    split at h <;> cases h
  | calling => cases h
  | ended => cases h

/-- A monitor thread is at a place behind the test of the loop where it was before and has not moved, or
that it has just come to. -/
theorem act_monitor {e : Event} (h : (act wd e).monitors[i]? = some pc) (hpc : pc ≠ .top) :
    (wd.monitors[i]? = some pc ∧ e.action ≠ .monitor i) ∨
      ∃ pc₀, e.action = .monitor i ∧ wd.monitors[i]? = some pc₀ ∧
        (monitorStep wd pc₀ e.now).2.1 = pc := by
  obtain ⟨now, action⟩ := e
  cases action with
  | kick => exact .inl ⟨h, by simp⟩
  | stop =>
    refine .inl ⟨?_, by simp⟩
    simp only [act, stop] at h
    split at h <;> exact h
  | start =>
    refine .inl ⟨?_, by simp⟩
    simp only [act, start] at h
    split at h
    · exact h
    · rw [List.getElem?_append] at h
      split at h
      · exact h
      · rw [List.getElem?_singleton] at h
        split at h
        · exact absurd (Option.some.inj h).symm hpc
        · cases h
  | monitor k =>
    obtain hk | ⟨pc₀, hk⟩ := Option.eq_none_or_eq_some wd.monitors[k]?
    · rw [act_none now hk] at h
      refine .inl ⟨h, ?_⟩
      rintro ⟨⟩
      exact absurd (hk.symm.trans h) (by simp)
    · rw [act_some now hk] at h
      by_cases heq : k = i
      · subst heq
        have hlt : k < wd.monitors.length := (List.getElem?_eq_some_iff.mp hk).1
        rw [List.getElem?_set_self hlt, Option.some.injEq] at h
        exact .inr ⟨pc₀, rfl, hk, h⟩
      · rw [List.getElem?_set_ne heq] at h
        exact .inl ⟨h, by simpa using heq⟩

/-- A monitor thread is about to call the callback that was before and has not moved, or that has
just looked and found the last kick too old. -/
theorem act_expired {e : Event} (h : (act wd e).monitors[i]? = some .expired) :
    (wd.monitors[i]? = some .expired ∧ e.action ≠ .monitor i) ∨
      (e.action = .monitor i ∧ wd.timeoutSec < e.now - wd.lastKick) := by
  obtain hbefore | ⟨pc₀, haction, -, hstep⟩ := act_monitor h (by decide)
  · exact .inl hbefore
  · exact .inr ⟨haction, (monitorStep_expired hstep).2⟩

/-- A monitor thread is in the callback that was before, or that has just called it. -/
theorem act_called {e : Event} (h : (act wd e).monitors[i]? = some .calling) :
    wd.monitors[i]? = some .calling ∨ (e.action = .monitor i ∧ wd.monitors[i]? = some .expired) := by
  obtain ⟨hbefore, -⟩ | ⟨pc₀, haction, hfrom, hstep⟩ := act_monitor h (by decide)
  · exact .inl hbefore
  · obtain rfl := monitorStep_calling hstep
    exact .inr ⟨haction, hfrom⟩

end Steps

/-! ## Feeding -/

/-- Events in the order of the clock. -/
def InOrder (events : List Event) : Prop := events.Pairwise fun e e' => e.now ≤ e'.now

theorem run_timeoutSec (wd : Watchdog) (events : List Event) :
    (run act wd events).timeoutSec = wd.timeoutSec :=
  run_invariant (I := fun wd' => wd'.timeoutSec = wd.timeoutSec) rfl
    (fun wd' e h => (act_timeoutSec wd' e).trans h) events

/-- The last kick is not before a time that neither a later event nor the last kick is before. -/
theorem run_lastKick_ge {wd : Watchdog} {t : ℚ} (h : t ≤ wd.lastKick) (events : List Event)
    (hlater : ∀ e ∈ events, t ≤ e.now) : t ≤ (run act wd events).lastKick :=
  run_invariant_of (I := fun wd' : Watchdog => t ≤ wd'.lastKick) (A := fun e => t ≤ e.now) h
    (fun wd' e he h => by
      rw [act_lastKick]
      split
      · exact he
      · exact h)
    events hlater

/-- The look of a monitor thread that is about to call the callback, behind which it has not moved. -/
theorem run_expired {timeoutSec : ℚ} {events : List Event} {i : Nat}
    (h : (run act (init timeoutSec) events).monitors[i]? = some .expired) :
    ∃ before look after, events = before ++ look :: after ∧ look.action = .monitor i ∧
      (∀ e ∈ after, e.action ≠ .monitor i) ∧
        timeoutSec < look.now - (run act (init timeoutSec) before).lastKick := by
  induction events using List.reverseRecOn with
  | nil => cases h
  | append_singleton events e ih =>
    rw [run_concat] at h
    obtain ⟨hbefore, hother⟩ | ⟨hlook, hold⟩ := act_expired h
    · obtain ⟨before, look, after, rfl, haction, hafter, hold⟩ := ih hbefore
      refine ⟨before, look, after ++ [e], by simp, haction, ?_, hold⟩
      intro e' he'
      obtain he' | he' := List.mem_append.mp he'
      · exact hafter e' he'
      · rwa [List.mem_singleton.mp he']
    · rw [run_timeoutSec] at hold
      exact ⟨events, e, [], rfl, hlook, by simp, hold⟩

/-- A monitor thread up to its first look, and that look. -/
def firstLook : List Event := [⟨0, .monitor 0⟩, ⟨1, .monitor 0⟩, ⟨6, .monitor 0⟩]

/-- At most one monitor thread has not come to its end. -/
def OneAtWork (wd : Watchdog) : Prop :=
  ∀ (i j : Nat) (p q : Pc), wd.monitors[i]? = some p → p ≠ .ended → wd.monitors[j]? = some q → q ≠ .ended → i = j

/-- A start that makes a thread finds none at work: every `stop` has waited long enough. -/
def Waited (wd : Watchdog) (e : Event) : Prop :=
  e.action = .start → wd.running = false → ∀ p ∈ wd.monitors, p = .ended

theorem monitorStep_ended {wd : Watchdog} {pc : Pc} {now : ℚ}
    (h : (monitorStep wd pc now).2.1 ≠ .ended) : pc ≠ .ended := by
  rintro rfl
  exact h rfl

theorem act_oneAtWork {wd : Watchdog} {e : Event} (h : OneAtWork wd) (hwaited : Waited wd e) :
    OneAtWork (act wd e) := by
  obtain ⟨now, action⟩ := e
  cases action with
  | kick => exact h
  | stop =>
    simp only [act, stop]
    split <;> exact h
  | start =>
    simp only [act, start]
    split
    · exact h
    · rename_i hrunning
      have hended := hwaited rfl (Bool.not_eq_true _ ▸ hrunning)
      have hlast : ∀ (i : Nat) (p : Pc), (wd.monitors ++ [.top])[i]? = some p → p ≠ .ended →
          i = wd.monitors.length := by
        intro i p hi hp
        obtain hlt | hge := Nat.lt_or_ge i wd.monitors.length
        · rw [List.getElem?_append_left hlt] at hi
          exact absurd (hended p (List.mem_of_getElem? hi)) hp
        · rw [List.getElem?_append_right hge, List.getElem?_singleton] at hi
          split at hi
          · omega
          · cases hi
      exact fun i j p q hi hp hj hq => (hlast i p hi hp).trans (hlast j q hj hq).symm
  | monitor k =>
    obtain hk | ⟨pc, hk⟩ := Option.eq_none_or_eq_some wd.monitors[k]?
    · rwa [act_none now hk]
    · rw [act_some now hk]
      -- a thread at work after the step was at work before it
      have hbefore : ∀ (i : Nat) (p : Pc),
          (wd.monitors.set k (monitorStep wd pc now).2.1)[i]? = some p → p ≠ .ended →
            ∃ p', wd.monitors[i]? = some p' ∧ p' ≠ .ended := by
        intro i p hi hp
        rw [List.getElem?_set] at hi
        split at hi
        · rename_i heq
          split at hi
          · obtain rfl := Option.some.inj hi
            exact ⟨pc, heq ▸ hk, monitorStep_ended hp⟩
          · cases hi
        · exact ⟨p, hi, hp⟩
      intro i j p q hi hp hj hq
      obtain ⟨p', hi', hp'⟩ := hbefore i p hi hp
      obtain ⟨q', hj', hq'⟩ := hbefore j q hj hq
      exact h i j p' q' hi' hp' hj' hq'

theorem run_oneAtWork (timeoutSec : ℚ) (events : List Event)
    (h : Always act (init timeoutSec) Waited events) :
    OneAtWork (run act (init timeoutSec) events) :=
  run_invariant_always (I := OneAtWork) (fun i j p q hi => by simp [init] at hi)
    (fun _ _ hwaited hone => act_oneAtWork hone hwaited) events h

/-- At the time `last`, a callback is under way, or the watchdog has been fed since `t` and a look that
found the last kick too old is that much later. -/
def Answered (t : ℚ) (wd : Watchdog) (last : ℚ) : Prop :=
  (∃ i : Nat, wd.monitors[i]? = some .calling) ∨
    t ≤ wd.lastKick ∧ ∀ i : Nat, wd.monitors[i]? = some .expired → t + wd.timeoutSec < last

/-- A callback goes on until its thread moves. -/
theorem act_calling {wd : Watchdog} {e : Event} {i : Nat} (h : wd.monitors[i]? = some .calling)
    (hother : e.action ≠ .monitor i) : (act wd e).monitors[i]? = some .calling := by
  obtain ⟨now, action⟩ := e
  cases action with
  | kick => exact h
  | stop =>
    simp only [act, stop]
    split <;> exact h
  | start =>
    simp only [act, start]
    split
    · exact h
    · exact (List.getElem?_append_left (List.getElem?_eq_some_iff.mp h).1).trans h
  | monitor k =>
    obtain hk | ⟨pc, hk⟩ := Option.eq_none_or_eq_some wd.monitors[k]?
    · rwa [act_none now hk]
    · rw [act_some now hk]
      have hne : k ≠ i := fun heq => hother (congrArg Action.monitor heq)
      exact (List.getElem?_set_ne hne).trans h

theorem act_answered {t last : ℚ} {wd : Watchdog} {e : Event} (h : Answered t wd last)
    (hone : OneAtWork wd) (ht : t ≤ e.now) (hlast : last ≤ e.now) : Answered t (act wd e) e.now := by
  have htimeout := act_timeoutSec wd e
  obtain ⟨i, hi⟩ | ⟨hkick, hlooks⟩ := h
  · by_cases hmoves : e.action = .monitor i
    · -- the callback ends, and no other thread is about to call it
      right
      have hfeeds : feeds wd e = true := by simp [feeds, hmoves, hi]
      rw [act_lastKick, hfeeds]
      refine ⟨ht, fun j hj => ?_⟩
      obtain ⟨hbefore, hne⟩ | ⟨hlook, -⟩ := act_expired hj
      · have hij := hone i j _ _ hi (by decide) hbefore (by decide)
        exact absurd (hij ▸ hmoves) hne
      · obtain rfl : i = j := by simpa [hmoves] using hlook
        obtain ⟨now, action⟩ := e
        obtain rfl : action = .monitor i := hmoves
        rw [act_some now hi, List.getElem?_set_self (List.getElem?_eq_some_iff.mp hi).1] at hj
        cases hj
    · exact .inl ⟨i, act_calling hi hmoves⟩
  · right
    constructor
    · rw [act_lastKick]
      split
      · exact ht
      · exact hkick
    · intro j hj
      rw [htimeout]
      obtain ⟨hbefore, -⟩ | ⟨-, hold⟩ := act_expired hj
      · exact (hlooks j hbefore).trans_le hlast
      · linarith

theorem run_answered {t last : ℚ} {wd : Watchdog} {events : List Event} (h : Answered t wd last)
    (hone : OneAtWork wd) (hwaited : Always act wd Waited events) (ht : t ≤ last)
    (horder : InOrder events) (hlater : ∀ e ∈ events, last ≤ e.now) {now : ℚ} (hnow : last ≤ now)
    (hbefore : ∀ e ∈ events, e.now ≤ now) : Answered t (run act wd events) now := by
  induction events generalizing wd last with
  | nil =>
    obtain hcalling | ⟨hkick, hlooks⟩ := h
    · exact .inl hcalling
    · exact .inr ⟨hkick, fun i hi => (hlooks i hi).trans_le hnow⟩
  | cons e events ih =>
    obtain ⟨hwait, hwaited⟩ := always_cons.mp hwaited
    obtain ⟨hfirst, horder⟩ := List.pairwise_cons.mp horder
    have hlast := hlater e List.mem_cons_self
    exact ih (act_answered h hone (ht.trans hlast) hlast) (act_oneAtWork hone hwait) hwaited
      (ht.trans hlast) horder hfirst (hbefore e List.mem_cons_self)
      fun e' he' => hbefore e' (List.mem_cons_of_mem e he')

/-- Where every `stop` has waited for its thread, two calls of the callback are more than the timeout
apart. -/
theorem alarms_are_apart (timeoutSec : ℚ) (before between : List Event) (first second : Event)
    (horder : InOrder (before ++ first :: between ++ [second]))
    (hwaited : Always act (init timeoutSec) Waited (before ++ first :: between))
    (hfirst : alarms (run act (init timeoutSec) before) first = true)
    (hsecond : alarms (run act (init timeoutSec) (before ++ first :: between)) second = true) :
    first.now + timeoutSec < second.now := by
  obtain ⟨hpast, -, hlast⟩ := List.pairwise_append.mp horder
  obtain ⟨hlater, hbetween⟩ := List.pairwise_cons.mp (List.pairwise_append.mp hpast).2.1
  have hnow : ∀ e ∈ first :: between, e.now ≤ second.now := fun e he =>
    hlast e (List.mem_append_right _ he) second (List.mem_singleton_self _)
  obtain ⟨i, haction, hi⟩ := (alarms_iff _ first).mp hfirst
  have hcalling : (act (run act (init timeoutSec) before) first).monitors[i]? = some .calling := by
    obtain ⟨now, action⟩ := first
    obtain rfl : action = .monitor i := haction
    rw [act_some now hi, List.getElem?_set_self (List.getElem?_eq_some_iff.mp hi).1]
    rfl
  have hrun : run act (init timeoutSec) (before ++ first :: between) =
      run act (act (run act (init timeoutSec) before) first) between := by
    rw [run_append, run_cons]
  obtain ⟨hwaitedBefore, hwaitedAfter⟩ := always_append.mp hwaited
  obtain ⟨hwaitedFirst, hwaitedBetween⟩ := always_cons.mp hwaitedAfter
  have hone := act_oneAtWork (run_oneAtWork timeoutSec before hwaitedBefore) hwaitedFirst
  have hanswered := run_answered (t := first.now) (.inl ⟨i, hcalling⟩) hone hwaitedBetween
    (le_refl first.now) hbetween hlater (hnow first List.mem_cons_self)
    fun e he => hnow e (List.mem_cons_of_mem first he)
  rw [← hrun] at hanswered
  obtain ⟨j, -, hj⟩ := (alarms_iff _ second).mp hsecond
  obtain ⟨i', hi'⟩ | ⟨-, hlooks⟩ := hanswered
  · obtain rfl := run_oneAtWork timeoutSec _ hwaited i' j _ _ hi' (by decide) hj (by decide)
    rw [hi'] at hj
    cases hj
  · have hlong := hlooks j hj
    rwa [run_timeoutSec] at hlong

/-- From one alarm to behind the next look. -/
def nextLook : List Event :=
  [⟨6, .monitor 0⟩, ⟨6, .monitor 0⟩, ⟨7, .monitor 0⟩, ⟨12, .monitor 0⟩]

theorem two_alarms_are_apart : (6 : ℚ) + 5 < 12 :=
  alarms_are_apart 5 (⟨0, .start⟩ :: firstLook) nextLook ⟨6, .monitor 0⟩ ⟨12, .monitor 0⟩
    (by unfold InOrder firstLook nextLook; decide)
    (by
      have hmonitor : ∀ (wd : Watchdog) (now : ℚ), Waited wd ⟨now, .monitor 0⟩ := by
        intro wd now haction
        cases haction
      simp only [firstLook, nextLook, List.cons_append, List.nil_append, always_cons, hmonitor,
        and_true, always_nil]
      simp [Waited, init])
    (by decide +kernel) (by decide +kernel)

/-- A `stop` that gives up waiting for a callback, and a `start` behind it: two threads look. -/
example :
    let restart : List Event := [⟨7, .stop⟩, ⟨20, .start⟩, ⟨20, .monitor 0⟩, ⟨20, .monitor 0⟩,
      ⟨20, .monitor 1⟩, ⟨21, .monitor 0⟩, ⟨21, .monitor 1⟩, ⟨26, .monitor 0⟩, ⟨26, .monitor 1⟩]
    let wd := run act (init 5) (⟨0, .start⟩ :: firstLook ++ ⟨6, .monitor 0⟩ :: restart)
    alarms wd ⟨26, .monitor 0⟩ = true ∧
      alarms (act wd ⟨26, .monitor 0⟩) ⟨26, .monitor 1⟩ = true := by decide +kernel

/-! ## Silence -/

/-- The event ends a turn of the monitor thread: a look that finds the watchdog fed, the call, or the
end of the callback. -/
def endsTurn (i : Nat) (wd : Watchdog) (e : Event) : Bool :=
  e.action == .monitor i &&
    (wd.monitors[i]? == some .expired || wd.monitors[i]? == some .calling ||
      wd.monitors[i]? == some .awake && decide (e.now - wd.lastKick ≤ wd.timeoutSec))

/-- Outside the callback the monitor thread ends a turn at least once in a period, as far as the events
go, where its last one ended at `last`. The period is for the wait and for the way from a look to the
call. -/
def Prompt (period : ℚ) (i : Nat) : Watchdog → ℚ → List Event → Prop
  | _, _, [] => True
  | wd, last, e :: events =>
    (wd.monitors[i]? ≠ some .calling → e.now ≤ last + period) ∧
      Prompt period i (act wd e) (if endsTurn i wd e then e.now else last) events

/-- The monitor thread is not in the callback, and calls it behind the timeout only. -/
structure Watches (i : Nat) (wd : Watchdog) (events : List Event) : Prop where
  outside : wd.monitors[i]? ≠ some .calling
  late : wd.monitors[i]? = some .expired → ∀ e ∈ events, wd.lastKick + wd.timeoutSec < e.now

section Watches

variable {i : Nat} {wd : Watchdog} {e : Event} {events : List Event}

/-- Behind the timeout a turn does not end with a look. -/
theorem Watches.alarm (h : Watches i wd (e :: events)) (hends : endsTurn i wd e = true)
    (hold : wd.lastKick + wd.timeoutSec < e.now) : alarms wd e = true := by
  rw [endsTurn, Bool.and_eq_true, Bool.or_eq_true, Bool.or_eq_true, Bool.and_eq_true, beq_iff_eq,
    beq_iff_eq, beq_iff_eq, beq_iff_eq, decide_eq_true_eq] at hends
  obtain ⟨haction, (hexpired | hcalling) | ⟨-, hfed⟩⟩ := hends
  · exact (alarms_iff wd e).mpr ⟨i, haction, hexpired⟩
  · exact absurd hcalling h.outside
  · linarith

/-- A step that neither feeds the watchdog nor calls the callback behind the timeout. -/
theorem Watches.act (h : Watches i wd (e :: events)) (horder : ∀ e' ∈ events, e.now ≤ e'.now)
    (hfeed : feeds wd e = false)
    (hcall : ¬ (endsTurn i wd e = true ∧ wd.lastKick + wd.timeoutSec < e.now)) :
    Watches i (MasterWatchdog.act wd e) events := by
  have hkick : (MasterWatchdog.act wd e).lastKick = wd.lastKick := by
    rw [act_lastKick, hfeed]
    rfl
  constructor
  · intro hcalling
    obtain hbefore | ⟨haction, hexpired⟩ := act_called hcalling
    · exact h.outside hbefore
    · exact hcall ⟨by simp [endsTurn, haction, hexpired], h.late hexpired e List.mem_cons_self⟩
  · intro hexpired e' he'
    rw [hkick, act_timeoutSec]
    obtain ⟨hbefore, -⟩ | ⟨-, hlook⟩ := act_expired hexpired
    · exact h.late hbefore e' (List.mem_cons_of_mem e he')
    · have hle := horder e' he'
      linarith

end Watches

/-- Once nothing has fed the watchdog for its timeout, a monitor thread that takes no more than
`check_interval` and `late` for a turn calls the callback within a quarter of the timeout, and `late`,
more. -/
theorem silence_raises_an_alarm (late : ℚ) (i : Nat) (wd : Watchdog) (last : ℚ) (events : List Event)
    (horder : InOrder events) (hquiet : Always act wd (fun wd e => feeds wd e = false) events)
    (hwatches : Watches i wd events)
    (hprompt : Prompt (checkInterval wd.timeoutSec + late) i wd last events)
    (hlast : last ≤ wd.lastKick + wd.timeoutSec) (final : Event) (hfinal : final ∈ events)
    (hlong : wd.lastKick + wd.timeoutSec + (checkInterval wd.timeoutSec + late) < final.now) :
    ∃ before e after, events = before ++ e :: after ∧ alarms (run act wd before) e = true ∧
      wd.lastKick + wd.timeoutSec < e.now ∧
      e.now ≤ wd.lastKick + wd.timeoutSec + wd.timeoutSec / 4 + late := by
  induction events generalizing wd last with
  | nil => cases hfinal
  | cons e events ih =>
    obtain ⟨hsoon, hprompt⟩ := hprompt
    obtain ⟨hfeed, hquiet⟩ := always_cons.mp hquiet
    obtain ⟨hlater, horder⟩ := List.pairwise_cons.mp horder
    have hsoon := hsoon hwatches.outside
    have hquarter : checkInterval wd.timeoutSec ≤ wd.timeoutSec / 4 := min_le_left _ _
    have hkick : (act wd e).lastKick = wd.lastKick := by
      rw [act_lastKick, hfeed]
      rfl
    have htimeout := act_timeoutSec wd e
    by_cases halarm : endsTurn i wd e = true ∧ wd.lastKick + wd.timeoutSec < e.now
    · refine ⟨[], e, events, rfl, hwatches.alarm halarm.1 halarm.2, halarm.2, ?_⟩
      linarith
    · have hnext : (if endsTurn i wd e then e.now else last) ≤ wd.lastKick + wd.timeoutSec := by
        split
        · rename_i hends
          exact le_of_not_gt fun hlt => halarm ⟨hends, hlt⟩
        · exact hlast
      have hrest : final ∈ events := by
        obtain rfl | hrest := List.mem_cons.mp hfinal
        · exact absurd hlong (by linarith)
        · exact hrest
      have hwatches' := hwatches.act hlater hfeed halarm
      rw [← hkick, ← htimeout] at hnext hlong
      rw [← htimeout] at hprompt
      obtain ⟨before, e', after, heq, hcalls, hafter, hbound⟩ :=
        ih (act wd e) _ horder hquiet hwatches' hprompt hnext hrest hlong
      rw [hkick, htimeout] at hafter hbound
      exact ⟨e :: before, e', after, by rw [heq, List.cons_append], hcalls, hafter, hbound⟩

/-- The monitor thread from a start at 0 on, with a look each second and a call behind the second, and
a stop while the callback runs. -/
def twoLooks : List Event := [⟨0, .monitor 0⟩, ⟨1, .monitor 0⟩, ⟨1, .monitor 0⟩, ⟨1, .monitor 0⟩,
  ⟨2, .monitor 0⟩, ⟨2, .monitor 0⟩, ⟨2, .monitor 0⟩, ⟨9, .stop⟩]

theorem second_look_raises_an_alarm :
    ∃ before e after, twoLooks = before ++ e :: after ∧
      alarms (run act (start (init 1) 0) before) e = true ∧
        (start (init 1) 0).lastKick + (start (init 1) 0).timeoutSec < e.now ∧
          e.now ≤ (start (init 1) 0).lastKick + (start (init 1) 0).timeoutSec +
            (start (init 1) 0).timeoutSec / 4 + 3 / 4 := by
  refine silence_raises_an_alarm (3 / 4) 0 (start (init 1) 0) 0 twoLooks
    (by unfold InOrder twoLooks; decide) ?_ ⟨by decide +kernel, fun h => ?_⟩ ?_ (by decide +kernel)
    ⟨9, .stop⟩ (by decide +kernel) (by decide +kernel)
  · simp only [twoLooks, always_cons, always_nil, and_true]
    decide +kernel
  · revert h
    decide +kernel
  · simp only [twoLooks, Prompt, and_true]
    decide +kernel

end Genoh.MasterWatchdog
