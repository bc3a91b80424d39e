import Genoh.FutureExecutor

/-!
# Wake-up times

For when the executor of the client waits. It keeps a wake-up time as an offset to its epoch, and turns
it back into a tick by a product that wraps at 32 bits.
-/
namespace Genoh.FutureWakeUps

open Genoh.FutureExecutor
open Genoh.PooledMap (Shape Map)

/-! ## Ticks -/

/-- The product of a long time wraps, which makes it shorter. -/
theorem pdMsToTicks_le (ms : Tick) : (pdMsToTicks ms).toNat ≤ ms.toNat := by
  have hproduct : (ms * 1000).toNat ≤ ms.toNat * 1000 := Nat.mod_le _ _
  rw [pdMsToTicks, UInt32.toNat_div]
  exact Nat.div_le_of_le_mul (hproduct.trans_eq (Nat.mul_comm _ _))

theorem pdMsToTicks_eq {ms : Tick} (h : ms.toNat < 4294968) : pdMsToTicks ms = ms := by
  have hproduct : (ms * 1000).toNat = ms.toNat * 1000 := by
    rw [UInt32.toNat_mul]
    exact Nat.mod_eq_of_lt (by change ms.toNat * 1000 < _; omega)
  rw [← UInt32.toNat_inj, pdMsToTicks, UInt32.toNat_div, hproduct]
  exact Nat.mul_div_cancel _ (by decide)

/-- Behind the epoch, the time since then brings back the later of the two. -/
theorem epoch_add_elapsed (instant epoch : Tick) :
    epoch.toNat + (elapsedMsSince instant epoch).toNat = max epoch.toNat instant.toNat := by
  rw [elapsedMsSince]
  split
  · rename_i h
    have hle := UInt32.le_of_lt h
    rw [UInt32.toNat_sub_of_le _ _ hle, max_eq_right (UInt32.le_iff_toNat_le.mp hle)]
    exact Nat.add_sub_cancel' (UInt32.le_iff_toNat_le.mp hle)
  · rename_i h
    have hle := UInt32.le_iff_toNat_le.mp (UInt32.not_lt.mp h)
    rw [max_eq_left hle]
    rfl

theorem advanceMs_toNat {clock duration : Tick} (h : clock.toNat + duration.toNat < 4294967296) :
    (advanceMs clock duration).toNat = clock.toNat + (pdMsToTicks duration).toNat := by
  rw [advanceMs, UInt32.toNat_add]
  exact Nat.mod_eq_of_lt (lt_of_le_of_lt (Nat.add_le_add_left (pdMsToTicks_le duration) _) h)

variable {F : Type*} (shape : Shape Nat)

/-! ## Schedules -/

/-- What is returned, if anything is, has the property. -/
def Yields {α : Type*} (P : α → Prop) (r : Except Fault α) : Prop := ∀ a, r = .ok a → P a

section Yields

variable {α β γ : Type*} {P : α → Prop} {Q : β → Prop}

theorem Yields.ok {a : α} (h : P a) : Yields P (.ok a) := fun _ heq => Except.ok.inj heq ▸ h

theorem Yields.error (fault : Fault) : Yields P (.error fault) := fun _ heq => by cases heq

theorem Yields.bind {r : Except Fault α} {f : α → Except Fault β} (h : Yields P r)
    (next : ∀ a, P a → Yields Q (f a)) : Yields Q (r.bind f) := by
  cases r with
  | error fault => exact .error fault
  | ok a => exact next a (h a rfl)

theorem Yields.map {r : Except Fault α} {f : α → β} (h : Yields P r) (next : ∀ a, P a → Q (f a)) :
    Yields Q (r.map f) := by
  cases r with
  | error fault => exact .error fault
  | ok a => exact .ok (next a (h a rfl))

theorem Yields.elim {o : Option γ} {r : Except Fault α} {f : γ → Except Fault α} (none : Yields P r)
    (some : ∀ a, o = .some a → Yields P (f a)) : Yields P (o.elim r f) := by
  cases o with
  | none => exact none
  | some a => exact some a rfl

end Yields

/-- No task falls asleep, and those that sleep keep their schedules. -/
structure Quiet (ex ex' : Executor F) : Prop where
  epoch : ex'.epoch = ex.epoch
  asleep : ∀ i e', ex'.tasks.pool i = some e' → e'.2.schedule.status = .sleeping →
    ∃ e, ex.tasks.pool i = some e ∧ e.2.schedule = e'.2.schedule

section Quiet

variable {shape} {ex ex' ex'' : Executor F} {i : Nat}

theorem Quiet.trans (h : Quiet ex ex') (h' : Quiet ex' ex'') : Quiet ex ex'' := by
  refine ⟨h'.epoch.trans h.epoch, fun i e he hstatus => ?_⟩
  obtain ⟨e', he', hsame'⟩ := h'.asleep i e he hstatus
  obtain ⟨e'', he'', hsame''⟩ := h.asleep i e' he' (hsame' ▸ hstatus)
  exact ⟨e'', he'', hsame''.trans hsame'⟩

theorem quiet_of_pool (hepoch : ex'.epoch = ex.epoch) (hpool : ex'.tasks.pool = ex.tasks.pool) :
    Quiet ex ex' :=
  ⟨hepoch, fun _ e he _ => ⟨e, hpool ▸ he, rfl⟩⟩

theorem quiet_update (hepoch : ex'.epoch = ex.epoch) {after : Option (Nat × FutData F)}
    (hpool : ex'.tasks.pool = Function.update ex.tasks.pool i after)
    (hafter : ∀ e, after = some e → e.2.schedule.status ≠ .sleeping) : Quiet ex ex' := by
  refine ⟨hepoch, fun j e he hstatus => ?_⟩
  rw [hpool] at he
  by_cases hji : j = i
  · rw [hji, Function.update_self] at he
    exact absurd hstatus (hafter e he)
  · rw [Function.update_of_ne hji] at he
    exact ⟨e, he, rfl⟩

theorem setSchedule_quiet (ex : Executor F) (i : Nat) {schedule : Schedule}
    (hstatus : schedule.status ≠ .sleeping) : Quiet ex (ex.setSchedule i schedule) := by
  refine quiet_update rfl (setSchedule_pool ex i schedule) fun e he => ?_
  obtain ⟨e', -, rfl⟩ := Option.map_eq_some_iff.mp he
  exact hstatus

theorem pushReady_quiet (ex : Executor F) (i : Nat) : Yields (Quiet ex) (ex.pushReady shape i) :=
  .elim (.error .outside) fun _ _ => .ok (quiet_of_pool rfl rfl)

theorem popReady_quiet (ex : Executor F) : Yields (fun r => Quiet ex r.1) (ex.popReady shape) :=
  .elim (.error .outside) fun _ _ => .ok (quiet_of_pool rfl rfl)

theorem removeAt_quiet (ex : Executor F) (i : Nat) : Yields (Quiet ex) (ex.removeAt shape i) :=
  .elim (.error .freed) fun _ htasks =>
    .ok (quiet_update rfl (PooledMap.removeAt_pool htasks) fun _ he => by cases he)

theorem nodeAt_yields (ex : Executor F) (i : Nat) : Yields (fun _ => True) (ex.nodeAt i) :=
  fun _ _ => trivial

theorem spawn_quiet (ex : Executor F) (fut : F) : Yields (fun r => Quiet ex r.1) (ex.spawn shape fut) := by
  rw [Executor.spawn]
  generalize (if ex.nextFutId = 0 then 1 else ex.nextFutId) = id
  have hinsert : ∀ next, Quiet ex
      { ex with tasks := (ex.tasks.insert shape id ⟨some fut, ⟨.running, 0⟩⟩).1, nextFutId := next } := by
    intro next
    obtain hsame | ⟨i, hpool⟩ := PooledMap.insert_pool shape ex.tasks id ⟨some fut, ⟨.running, 0⟩⟩
    · exact quiet_of_pool rfl hsame
    · refine quiet_update rfl hpool fun e he => ?_
      rw [← Option.some.inj he]
      simp
  exact .elim (.ok (hinsert id)) fun i _ =>
    (pushReady_quiet _ i).map fun _ h => (hinsert _).trans h

theorem cancelFut_quiet (ex : Executor F) (handle : Nat) : Quiet ex (ex.cancelFut shape handle).1 := by
  rw [Executor.cancelFut]
  split
  · exact quiet_of_pool rfl rfl
  · cases ex.tasks.getIdx shape handle with
    | none => exact quiet_of_pool rfl rfl
    | some i =>
      refine quiet_update rfl (show _ = Function.update ex.tasks.pool i
        ((ex.tasks.pool i).map fun e => (e.1, .destroyed)) from rfl) ?_
      intro e he
      obtain ⟨e', -, rfl⟩ := Option.map_eq_some_iff.mp he
      simp [FutData.destroyed]

theorem resumeSuspendedFut_quiet (ex : Executor F) (handle : Nat) :
    Yields (fun r => Quiet ex r.1) (ex.resumeSuspendedFut shape handle) := by
  rw [Executor.resumeSuspendedFut]
  split
  · exact .ok (quiet_of_pool rfl rfl)
  · refine .elim (.ok (quiet_of_pool rfl rfl)) fun i _ => (nodeAt_yields ex i).bind fun e _ => ?_
    split
    · exact .ok (quiet_of_pool rfl rfl)
    · exact (pushReady_quiet _ i).map fun _ h => (setSchedule_quiet ex i (by simp)).trans h

theorem call_quiet (ex : Executor F) (c : Call F) : Yields (Quiet ex) (call shape ex c) := by
  cases c with
  | spawn fut => exact (spawn_quiet ex fut).map fun _ h => h
  | cancel handle => exact .ok (cancelFut_quiet ex handle)
  | resume handle => exact (resumeSuspendedFut_quiet ex handle).map fun _ h => h

theorem calls_quiet (script : List (Call F)) (ex : Executor F) :
    Yields (Quiet ex) (calls shape ex script) := by
  induction script generalizing ex with
  | nil => exact .ok (quiet_of_pool rfl rfl)
  | cons c script ih =>
    exact (call_quiet ex c).bind fun ex' h ex'' heq => h.trans (ih ex' ex'' heq)

theorem getNextFut_quiet (ex : Executor F) (now : Tick) :
    Yields (fun r => Quiet ex r.1) (ex.getNextFut shape now) := by
  rw [Executor.getNextFut]
  split
  · exact (popReady_quiet ex).map fun _ h => h
  · refine (nodeAt_yields ex _).bind fun e _ => ?_
    dsimp only
    split
    · refine (popReady_quiet ex.popSleeping).bind fun r h => ?_
      have hpopped : Quiet ex r.1 := ⟨h.epoch, h.asleep⟩
      exact .elim (.ok hpopped) fun j _ => (pushReady_quiet r.1 _).map fun ex' h' =>
        (hpopped.trans h').trans (setSchedule_quiet ex' _ (by simp))
    · exact (popReady_quiet ex).map fun _ h => h

theorem nextTask_quiet (clock : Nat → Tick) (fuel : Nat) (ex : Executor F) :
    Yields (fun r => Quiet ex r.1) (Executor.nextTask shape clock fuel ex) := by
  induction fuel generalizing ex with
  | zero => exact .ok (quiet_of_pool rfl rfl)
  | succ fuel ih =>
    rw [Executor.nextTask]
    refine (getNextFut_quiet ex (clock fuel)).bind fun r h => ?_
    cases hnext : r.2 with
    | noTasks => exact .ok h
    | shouldWait wakeUp => exact .ok h
    | execute i =>
      refine (nodeAt_yields r.1 i).bind fun e _ => ?_
      split
      · exact (removeAt_quiet r.1 i).bind fun ex' h' r' heq => (h.trans h').trans (ih ex' r' heq)
      · split
        · exact fun r' heq => h.trans (ih r.1 r' heq)
        · exact .ok h

end Quiet

/-! ## Wake-up times -/

/-- A future that is run and goes to sleep asks for a time to wake up. -/
def noted (asked : Nat → Tick) : Executor.Next → Result → Nat → Tick
  | .execute i, .sleeping wakeUp => Function.update asked i wakeUp
  | _, _ => asked

/-- Those that sleep are kept with the time that they asked for, or none if the epoch is later. -/
def Kept (asked : Nat → Tick) (ex : Executor F) : Prop :=
  ∀ i e, ex.tasks.pool i = some e → e.2.schedule.status = .sleeping →
    e.2.schedule.wakeUp = elapsedMsSince (asked i) ex.epoch

section Kept

variable {shape} {asked : Nat → Tick} {ex ex' : Executor F}

theorem Kept.quiet (h : Kept asked ex) (hquiet : Quiet ex ex') : Kept asked ex' := by
  intro i e he hstatus
  obtain ⟨e', he', hsame⟩ := hquiet.asleep i e he hstatus
  rw [← hsame, hquiet.epoch]
  exact h i e' he' (hsame ▸ hstatus)

theorem Kept.finish (h : Kept asked ex) (i : Nat) (result : Result) :
    Yields (Kept (noted asked (.execute i) result)) (finish shape ex i result) := by
  cases result with
  | running =>
    intro ex' heq
    have hpush : (ex.setSchedule i ⟨.running, 0⟩).pushReady shape i = .ok ex' := heq
    exact h.quiet ((setSchedule_quiet ex i (by simp)).trans (pushReady_quiet _ i ex' hpush))
  | ready => exact fun ex' heq => h.quiet (removeAt_quiet ex i ex' heq)
  | suspended => exact .ok (h.quiet (setSchedule_quiet ex i (by simp)))
  | sleeping wakeUp =>
    refine .ok ?_
    intro j e he hstatus
    have hpool : (((ex.setSchedule i ⟨.sleeping, elapsedMsSince wakeUp ex.epoch⟩).pushSleeping shape
        i).tasks.pool) = Function.update ex.tasks.pool i ((ex.tasks.pool i).map fun e =>
          (e.1, { e.2 with schedule := ⟨.sleeping, elapsedMsSince wakeUp ex.epoch⟩ })) := by
      rw [Executor.pushSleeping]
      split <;> rfl
    have hepoch : ((ex.setSchedule i ⟨.sleeping, elapsedMsSince wakeUp ex.epoch⟩).pushSleeping shape
        i).epoch = ex.epoch := by
      rw [Executor.pushSleeping]
      split <;> rfl
    rw [hpool] at he
    rw [hepoch, noted]
    by_cases hji : j = i
    · subst hji
      rw [Function.update_self] at he ⊢
      obtain ⟨e', -, rfl⟩ := Option.map_eq_some_iff.mp he
      rfl
    · rw [Function.update_of_ne hji] at he ⊢
      exact h j e he hstatus

theorem Kept.spin (h : Kept asked ex) (clock : Nat → Tick) (script : List (Call F)) (result : Result) :
    Yields (fun r => Kept (noted asked r.2 result) r.1) (spin shape ex clock script result) := by
  rw [FutureExecutor.spin]
  refine (nextTask_quiet clock _ ex).bind fun r hquiet => ?_
  have hkept := h.quiet hquiet
  cases hnext : r.2 with
  | noTasks => exact .ok (by rwa [hnext])
  | shouldWait wakeUp => exact .ok (by rwa [hnext])
  | execute i =>
    refine (calls_quiet script r.1).bind fun ex' hcalls => ?_
    exact ((hkept.quiet hcalls).finish i result).map fun _ hfinished => hfinished

end Kept

/-! ## Runs -/

/-- For when each task asked last along a run. -/
def askedIn : Executor F → (Nat → Tick) → List (Event F) → Nat → Tick
  | _, asked, [] => asked
  | ex, asked, .call c :: events =>
    (call shape ex c).toOption.elim asked fun ex' => askedIn ex' asked events
  | ex, asked, .spin clock script result :: events =>
    (spin shape ex clock script result).toOption.elim asked fun r =>
      askedIn r.1 (noted asked r.2 result) events

variable {shape}

theorem Kept.steps {asked : Nat → Tick} {ex : Executor F} (h : Kept asked ex) (events : List (Event F)) :
    Yields (Kept (askedIn shape ex asked events)) (steps shape ex events) := by
  induction events generalizing ex asked with
  | nil => exact .ok h
  | cons e events ih =>
    cases e with
    | call c =>
      cases hcall : call shape ex c with
      | error fault =>
        rw [FutureExecutor.steps, FutureExecutor.step, hcall]
        exact .error fault
      | ok ex' =>
        rw [FutureExecutor.steps, FutureExecutor.step, askedIn, hcall]
        exact ih (h.quiet (call_quiet ex c ex' hcall))
    | spin clock script result =>
      cases hspin : FutureExecutor.spin shape ex clock script result with
      | error fault =>
        rw [FutureExecutor.steps, FutureExecutor.step, hspin]
        exact .error fault
      | ok r =>
        rw [FutureExecutor.steps, FutureExecutor.step, askedIn, hspin]
        exact ih (h.spin clock script result r hspin)

/-- The executor has nothing to run, and names a time that had not passed at one of the readings. It is
not behind the one that any sleeping future asked for, or the epoch if that is later, and it is the
first of these as long as that is less than 2^32 / 1000 ms behind the epoch. -/
structure WaitsForFirst (shape : Shape Nat) (clock asked : Nat → Tick) (ex : Executor F)
    (wakeUp : Tick) : Prop where
  ahead : ∃ turn, clock turn ≤ wakeUp
  settled : ∀ i < shape.capacity, ∀ e, ex.tasks.pool i = some e →
    e.2.schedule.status = .suspended ∨ e.2 = .destroyed ∨
      e.2.schedule.status = .sleeping ∧ wakeUp.toNat ≤ max ex.epoch.toNat (asked i).toNat
  first : ∃ i < shape.capacity, ∃ e, ex.tasks.pool i = some e ∧ e.2.schedule.status = .sleeping ∧
    ((asked i).toNat < ex.epoch.toNat + 4294968 →
      wakeUp.toNat = max ex.epoch.toNat (asked i).toNat)

/-- An executor that asks to wait is as the search for a task left it. -/
theorem spin_shouldWait (ex : Executor F) (clock : Nat → Tick) (script : List (Call F))
    (result : Result) :
    Yields (fun r => ∀ wakeUp, r.2 = .shouldWait wakeUp →
        Executor.nextTask shape clock (queued shape ex + 1) ex = .ok r)
      (spin shape ex clock script result) := by
  rw [spin]
  refine Yields.bind (P := fun r => Executor.nextTask shape clock (queued shape ex + 1) ex = .ok r)
    (fun r heq => heq) fun r hfound => ?_
  cases r.2 with
  | noTasks => exact .ok fun _ _ => hfound
  | shouldWait wakeUp => exact .ok fun _ _ => hfound
  | execute i =>
    refine (calls_quiet script r.1).bind fun ex' _ => ?_
    exact Yields.map (P := fun _ => True) (fun _ _ => trivial) fun _ _ _ hwait => by cases hwait

theorem waitsForFirst_of_stopped {asked clock : Nat → Tick} {n : Nat} {ex : Executor F} {wakeUp : Tick}
    (h : Stopped shape True [] clock n (ex, .shouldWait wakeUp)) (hkept : Kept asked ex) :
    WaitsForFirst shape clock asked ex wakeUp := by
  cases h with
  | @shouldWait _ q inv ready i e root inside entry turn due =>
    obtain ⟨hordered, hasleep⟩ := inv.sorted trivial
    have hkey : ∀ {j : Nat} {e' : Nat × FutData F}, ex.tasks.pool j = some e' →
        ex.wakeUpAt j = e'.2.schedule.wakeUp.toNat := by
      intro j e' he'
      rw [Executor.wakeUpAt, he']
      rfl
    -- the sum of the epoch and an offset is no tick that has wrapped
    have hsum : ∀ {j : Nat} {e' : Nat × FutData F}, j ∈ ex.sleepingTasks.items →
        ex.tasks.pool j = some e' →
        ex.epoch.toNat + e'.2.schedule.wakeUp.toNat = max ex.epoch.toNat (asked j).toNat := by
      intro j e' hj he'
      rw [hkept j e' he' (hasleep j hj e' he')]
      exact epoch_add_elapsed _ _
    have hnamed : (advanceMs ex.epoch e.2.schedule.wakeUp).toNat =
        ex.epoch.toNat + (pdMsToTicks e.2.schedule.wakeUp).toNat := by
      refine advanceMs_toNat ?_
      rw [hsum inside entry]
      exact max_lt ex.epoch.toNat_lt (asked i).toNat_lt
    have hlive := inv.places.live i (List.mem_append_left _ (List.mem_append_right _ inside))
    refine ⟨⟨turn, due⟩, fun j hj e' he' => ?_, i, hlive.1, e, entry, hasleep i inside e entry,
      fun hsoon => ?_⟩
    · by_cases hmem : j ∈ ex.sleepingTasks.items
      · refine .inr (.inr ⟨hasleep j hmem e' he', ?_⟩)
        obtain ⟨k, hk, hcell⟩ := List.mem_map.mp hmem
        have hfirst := BinaryHeap.root_le _ hordered k (List.mem_range.mp hk)
        rw [hcell, ← root, hkey entry, hkey he'] at hfirst
        rw [hnamed, ← hsum hmem he']
        exact Nat.add_le_add_left ((pdMsToTicks_le _).trans hfirst) _
      · have hrest := inv.places.rest j hj e' he'
        rw [ready, List.nil_append, List.append_nil] at hrest
        exact (hrest hmem).imp_right .inl
    · have hoffset : e.2.schedule.wakeUp.toNat < 4294968 := by
        have := hsum inside entry
        omega
      rw [hnamed, pdMsToTicks_eq hoffset, hsum inside entry]

/-- The time that an executor names at 9 behind a run. -/
def namedAtNine (epoch : Tick) (events : List (Event Char)) : Option Executor.Next :=
  (steps clientShape (Executor.init clientShape epoch) events).toOption.bind fun ex =>
    (spin clientShape ex (fun _ => 9) [] .ready).toOption.map Prod.snd

/-- The future that sleeps until 5 waits behind one that was cancelled in the heap, and at 9 the
executor still waits for the one that sleeps until 10. -/
example : namedAtNine 0 [.call (.spawn 'a'), .spin (fun _ => 1) [] (.sleeping 10), .call (.spawn 'b'),
    .spin (fun _ => 1) [] (.sleeping 20), .call (.spawn 'c'), .spin (fun _ => 1) [] (.sleeping 30),
    .call (.cancel 2), .call (.spawn 'd'), .spin (fun _ => 1) [] (.sleeping 5)] =
      some (.shouldWait 10) := by
  decide +kernel

/-- Seventy-two minutes behind the epoch the time that is named is far too early. -/
example : namedAtNine 0 [.call (.spawn 'k'), .spin (fun _ => 1) [] (.sleeping 5000100)] =
    some (.shouldWait 705132) := by
  decide +kernel

end Genoh.FutureWakeUps
