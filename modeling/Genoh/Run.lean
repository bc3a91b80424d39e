import Mathlib.Data.List.Induction

/-!
# Runs of a step function

A machine is a step function on a state type, and a run feeds it a list of events. What
one step preserves, a run preserves; where a property speaks of the past, the state
carries the counts it needs as ghost fields.
-/
namespace Genoh.Run

variable {State Event : Type*}

/-- The state after the events, oldest first. -/
def run (step : State → Event → State) (s : State) (events : List Event) : State :=
  events.foldl step s

@[simp] theorem run_nil (step : State → Event → State) (s : State) : run step s [] = s := rfl

@[simp] theorem run_cons (step : State → Event → State) (s : State) (e : Event)
    (events : List Event) : run step s (e :: events) = run step (step s e) events := rfl

theorem run_append (step : State → Event → State) (s : State) (front tail : List Event) :
    run step s (front ++ tail) = run step (run step s front) tail := List.foldl_append

theorem run_concat (step : State → Event → State) (s : State) (events : List Event) (e : Event) :
    run step s (events ++ [e]) = step (run step s events) e := by
  rw [run_append, run_cons, run_nil]

/-- A property that every admissible step keeps holds at the end of a run of such steps. -/
theorem run_invariant_of {step : State → Event → State} {s : State} {I : State → Prop}
    {A : Event → Prop} (start : I s) (keep : ∀ s' e, A e → I s' → I (step s' e))
    (events : List Event) (admissible : ∀ e ∈ events, A e) : I (run step s events) := by
  induction events using List.reverseRecOn with
  | nil => exact start
  | append_singleton events e ih =>
    rw [run_concat]
    refine keep _ e (admissible e (by simp)) (ih fun e' he' => admissible e' ?_)
    exact List.mem_append_left _ he'

/-- A property that every step keeps holds at the end of a run. -/
theorem run_invariant {step : State → Event → State} {s : State} {I : State → Prop}
    (start : I s) (keep : ∀ s' e, I s' → I (step s' e)) (events : List Event) :
    I (run step s events) :=
  run_invariant_of (A := fun _ => True) start (fun s' e _ => keep s' e) events fun _ _ => trivial

/-- What the steps keep while the history stays admissible holds at the end of a run with an
admissible history. The invariant may speak of the history. -/
theorem run_invariant_history {step : State → Event → State} {s : State}
    {I : List Event → State → Prop} {H : List Event → Prop} (start : I [] s)
    (closed : ∀ front tail, H (front ++ tail) → H front)
    (keep : ∀ past e, H (past ++ [e]) → I past (run step s past) →
      I (past ++ [e]) (step (run step s past) e))
    (events : List Event) (admissible : H events) : I events (run step s events) := by
  induction events using List.reverseRecOn with
  | nil => exact start
  | append_singleton events e ih =>
    rw [run_concat]
    exact keep events e admissible (ih (closed events [e] admissible))

/-- Every step of the run, taken from the state its past leads to, satisfies `P`. -/
def Always (step : State → Event → State) (s : State) (P : State → Event → Prop)
    (events : List Event) : Prop :=
  ∀ past e future, events = past ++ e :: future → P (run step s past) e

theorem always_nil (step : State → Event → State) (s : State) (P : State → Event → Prop) :
    Always step s P [] := by
  intro past e future h
  exact absurd h (by simp)

theorem always_cons {step : State → Event → State} {s : State} {P : State → Event → Prop}
    {e : Event} {events : List Event} :
    Always step s P (e :: events) ↔ P s e ∧ Always step (step s e) P events := by
  constructor
  · intro h
    refine ⟨h [] e events rfl, fun past e' future heq => ?_⟩
    exact h (e :: past) e' future (by rw [heq, List.cons_append])
  · rintro ⟨hhead, htail⟩ past e' future heq
    cases past with
    | nil =>
      rw [List.nil_append, List.cons.injEq] at heq
      exact heq.1 ▸ hhead
    | cons e'' past =>
      rw [List.cons_append, List.cons.injEq] at heq
      obtain ⟨rfl, heq⟩ := heq
      exact htail past e' future heq

theorem always_append {step : State → Event → State} {s : State} {P : State → Event → Prop}
    {front back : List Event} :
    Always step s P (front ++ back) ↔ Always step s P front ∧ Always step (run step s front) P back := by
  induction front generalizing s with
  | nil => exact (and_iff_right (always_nil _ _ _)).symm
  | cons e front ih => rw [List.cons_append, always_cons, always_cons, run_cons, ih, and_assoc]

/-- A property that the steps of a run keep, each where it is taken, holds at its end. -/
theorem run_invariant_always {step : State → Event → State} {s : State} {I : State → Prop}
    {P : State → Event → Prop} (start : I s) (keep : ∀ s' e, P s' e → I s' → I (step s' e))
    (events : List Event) (h : Always step s P events) : I (run step s events) := by
  induction events generalizing s with
  | nil => exact start
  | cons e events ih =>
    rw [always_cons] at h
    exact ih (keep s e h.1 start) h.2

/-- A machine whose admissible events act through what another machine sees of them asks of a
run what the other machine asks of what it sees. -/
theorem always_filterMap {Value : Type*} {step : State → Event → State}
    {step' : State → Value → State} {see : Event → Option Value} {A : Event → Prop}
    {P : State → Event → Prop} {P' : State → Value → Prop}
    (moves : ∀ s e, A e → step s e = (see e).elim s (step' s))
    (asks : ∀ s e, A e → (P s e ↔ ∀ v ∈ see e, P' s v)) (s : State) (events : List Event)
    (admissible : ∀ e ∈ events, A e) :
    Always step s P events ↔ Always step' s P' (events.filterMap see) := by
  induction events generalizing s with
  | nil => exact iff_of_true (always_nil _ _ _) (always_nil _ _ _)
  | cons e events ih =>
    have he := admissible e List.mem_cons_self
    have hrest : ∀ e' ∈ events, A e' := fun e' he' => admissible e' (List.mem_cons_of_mem _ he')
    rw [always_cons, moves s e he, asks s e he, ih _ hrest]
    cases hsee : see e with
    | none => simp [hsee]
    | some v => simp [hsee, always_cons]

/-- What an invariant gives for one admissible step it gives for all of a run. -/
theorem always_of_invariant {step : State → Event → State} {s : State} {I : State → Prop}
    {A : Event → Prop} {P : State → Event → Prop} (start : I s)
    (keep : ∀ s' e, A e → I s' → I (step s' e)) (give : ∀ s' e, A e → I s' → P s' e)
    (events : List Event) (admissible : ∀ e ∈ events, A e) : Always step s P events := by
  rintro past e future rfl
  have hpast : ∀ e' ∈ past, A e' := fun e' he' => admissible e' (List.mem_append_left _ he')
  exact give _ e (admissible e (by simp)) (run_invariant_of start keep past hpast)

/-- The same for an invariant that speaks of the history. -/
theorem always_of_history {step : State → Event → State} {s : State}
    {I : List Event → State → Prop} {H : List Event → Prop} {P : State → Event → Prop}
    (start : I [] s) (closed : ∀ front tail, H (front ++ tail) → H front)
    (keep : ∀ past e, H (past ++ [e]) → I past (run step s past) →
      I (past ++ [e]) (step (run step s past) e))
    (give : ∀ past e, H (past ++ [e]) → I past (run step s past) → P (run step s past) e)
    (events : List Event) (admissible : H events) : Always step s P events := by
  rintro past e future rfl
  have hstep : H (past ++ [e]) := closed (past ++ [e]) future (by simpa using admissible)
  exact give past e hstep
    (run_invariant_history start closed keep past (closed past [e] hstep))

/-- Step properties that are equivalent as long as they have held are equivalent along runs. -/
theorem always_congr_while {step : State → Event → State} {s : State} {I : State → Prop}
    {P Q : State → Event → Prop} (start : I s) (keep : ∀ s' e, I s' → Q s' e → I (step s' e))
    (same : ∀ s' e, I s' → (P s' e ↔ Q s' e)) (events : List Event) :
    Always step s P events ↔ Always step s Q events := by
  induction events generalizing s with
  | nil => exact iff_of_true (always_nil _ _ _) (always_nil _ _ _)
  | cons e events ih =>
    rw [always_cons, always_cons, same s e start]
    refine and_congr_right fun hq => ?_
    exact ih (keep s e start hq)

/-- Step properties that are equivalent in the reachable states are equivalent along runs. -/
theorem always_congr {step : State → Event → State} {s : State} {I : State → Prop}
    {P Q : State → Event → Prop} (start : I s) (keep : ∀ s' e, I s' → I (step s' e))
    (same : ∀ s' e, I s' → (P s' e ↔ Q s' e)) (events : List Event) :
    Always step s P events ↔ Always step s Q events :=
  always_congr_while start (fun s' e h _ => keep s' e h) same events

/-- What a history says of the state behind it holds all along a run just when every step asks what
it has to, where the answers keep an invariant under which the two are the same. -/
theorem prefixes_iff_always {step : State → Event → State} {s : State}
    {I P : List Event → State → Prop} {Q : State → Event → Prop} (start : I [] s)
    (give : ∀ past, I past (run step s past) → P past (run step s past))
    (same : ∀ past e, I past (run step s past) →
      (P (past ++ [e]) (run step s (past ++ [e])) ↔ Q (run step s past) e))
    (keep : ∀ past e, I past (run step s past) → Q (run step s past) e →
      I (past ++ [e]) (run step s (past ++ [e])))
    (events : List Event) :
    (∀ past, past <+: events → P past (run step s past)) ↔ Always step s Q events := by
  have hall : (∀ past e, past ++ [e] <+: events → I past (run step s past) → Q (run step s past) e) →
      ∀ past, past <+: events → I past (run step s past) := by
    intro hasks past
    induction past using List.reverseRecOn with
    | nil => exact fun _ => start
    | append_singleton past e ih =>
      intro hpast
      have hinv := ih ((List.prefix_append past [e]).trans hpast)
      exact keep past e hinv (hasks past e hpast hinv)
  constructor
  · rintro h past e future rfl
    have hasks : ∀ front e', front ++ [e'] <+: past ++ e :: future → I front (run step s front) →
        Q (run step s front) e' := fun front e' hle hinv => (same front e' hinv).mp (h _ hle)
    have hstep : past ++ [e] <+: past ++ e :: future := ⟨future, by simp⟩
    exact hasks past e hstep (hall hasks past (List.prefix_append past (e :: future)))
  · intro h past hpast
    refine give past (hall (fun front e hle _ => ?_) past hpast)
    obtain ⟨future, heq⟩ := hle
    exact h front e future (by rw [← heq, List.append_assoc, List.singleton_append])

end Genoh.Run
