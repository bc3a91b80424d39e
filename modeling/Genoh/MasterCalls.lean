import Genoh.MasterSafety

/-!
# What the safety manager asks of others

The calls that a method adds, seen through a filter that picks the ones of interest: those to
the escalation timers or those to the DTC manager. Each method has one lemma that says what it
does to the state, the timer and the calls.
-/
namespace Genoh.MasterCalls

open Genoh.MasterSafety Genoh.MasterSafety.SafetyManager

/-! ## Added calls -/

/-- The calls added between two states of the manager. -/
def newCalls (before after : SafetyManager) : List Call := after.calls.drop before.calls.length

/-- Only calls were added, and the filter sees these of them. -/
def Did {β : Type} (f : Call → Option β) (before after : SafetyManager) (seen : List β) : Prop :=
  ∃ calls, after.calls = before.calls ++ calls ∧ calls.filterMap f = seen

section Did

variable {β : Type} {f : Call → Option β}

theorem Did.newCalls {before after : SafetyManager} {seen : List β} (h : Did f before after seen) :
    (newCalls before after).filterMap f = seen := by
  obtain ⟨calls, hcalls, hseen⟩ := h
  rw [MasterCalls.newCalls, hcalls, List.drop_left, hseen]

theorem did_nothing {before after : SafetyManager} (h : after.calls = before.calls) :
    Did f before after [] := ⟨[], by rw [h, List.append_nil], rfl⟩

theorem did_call (sm : SafetyManager) (c : Call) : Did f sm (sm.call c) (f c).toList := by
  refine ⟨[c], rfl, ?_⟩
  cases hc : f c <;> simp [hc]

theorem Did.trans {a b c : SafetyManager} {first second : List β} (h : Did f a b first)
    (h' : Did f b c second) : Did f a c (first ++ second) := by
  obtain ⟨calls, hcalls, hseen⟩ := h
  obtain ⟨calls', hcalls', hseen'⟩ := h'
  refine ⟨calls ++ calls', ?_, ?_⟩
  · rw [hcalls', hcalls, List.append_assoc]
  · rw [List.filterMap_append, hseen, hseen']

/-- A call that the filter does not see. -/
theorem Did.call {before after : SafetyManager} {seen : List β} (h : Did f before after seen)
    (c : Call) (hc : f c = none) : Did f before (after.call c) seen := by
  simpa [hc] using h.trans (did_call after c)

end Did

/-! ## The timers -/

inductive TimerOp where
  | start (id : Nat)
  | cancel (id : Nat)
  deriving DecidableEq, Repr

def timerOp : Call → Option TimerOp
  | .startTimer id => some (.start id)
  | .cancelTimer id => some (.cancel id)
  | _ => none

/-- What cancelling asks of the timers. -/
def cancelOps (sm : SafetyManager) : List TimerOp := sm.safeStateTimer.toList.map .cancel

section Methods

variable (sm : SafetyManager)

/-- The timer is cancelled and forgotten. -/
structure Cancelled (before after : SafetyManager) : Prop where
  did : Did timerOp before after (cancelOps before)
  timer : after.safeStateTimer = none
  started : after.timersStarted = before.timersStarted
  total : after.totalNodes = before.totalNodes

theorem cancel_cancelled : Cancelled sm sm.cancelSafeStateTimer := by
  refine ⟨?_, ?_, ?_, cancel_totalNodes sm⟩
  · cases htimer : sm.safeStateTimer with
    | none => exact ⟨[], by simp [cancelSafeStateTimer, htimer], by simp [cancelOps, htimer]⟩
    | some id =>
      refine ⟨[.cancelTimer id], ?_, by simp [cancelOps, htimer, timerOp]⟩
      simp [cancelSafeStateTimer, htimer, call]
  · cases htimer : sm.safeStateTimer with
    | none => simp [cancelSafeStateTimer, htimer]
    | some id => simp [cancelSafeStateTimer, htimer, call]
  · cases htimer : sm.safeStateTimer with
    | none => simp [cancelSafeStateTimer, htimer]
    | some id => simp [cancelSafeStateTimer, htimer, call]

/-- A manager that is in another state, or not, and asks nothing of the timers. -/
structure Quiet (before after : SafetyManager) : Prop where
  did : Did timerOp before after []
  timer : after.safeStateTimer = before.safeStateTimer
  started : after.timersStarted = before.timersStarted
  total : after.totalNodes = before.totalNodes

theorem Quiet.trans {a b c : SafetyManager} (h : Quiet a b) (h' : Quiet b c) : Quiet a c :=
  ⟨h.did.trans h'.did, h'.timer.trans h.timer, h'.started.trans h.started,
    h'.total.trans h.total⟩

/-- The calls other than to timers are quiet. -/
theorem quiet_call (c : Call) (h : timerOp c = none) : Quiet sm (sm.call c) :=
  ⟨(did_nothing rfl).call c h, rfl, rfl, rfl⟩

variable (new : SafetyState) (faultType : FaultType) (source : String) (details : Details)

/-- The end of a transition, after the state and the timer are set. -/
theorem announce_quiet (old : SafetyState) (severity : SafetyLogSeverity) (event : String) :
    Quiet sm (((sm.call (.warning old new faultType source)).call (.stateChange old new)).call
      (.logEvent severity event source details new)) :=
  ((quiet_call sm _ rfl).trans (quiet_call _ _ rfl)).trans (quiet_call _ _ rfl)

theorem transitionTo_refused (h : isValidTransition sm.state new = false) :
    sm.transitionTo new faultType source details = sm := by
  rw [transitionTo, if_pos h]

theorem isValidTransition_self (state : SafetyState) : isValidTransition state state = false := by
  cases state <;> rfl

/-- Only the safe state has a timer to start. -/
theorem transitionTo_quiet (h : new ≠ .safeState) :
    Quiet sm (sm.transitionTo new faultType source details) := by
  by_cases hvalid : isValidTransition sm.state new = false
  · rw [transitionTo_refused sm new faultType source details hvalid]
    exact ⟨did_nothing rfl, rfl, rfl, rfl⟩
  · have hne : sm.state ≠ new := fun heq => hvalid (heq ▸ isValidTransition_self sm.state)
    simp only [transitionTo, if_neg hvalid, if_neg h, ne_eq, hne, not_false_eq_true, if_true]
    have hset : Quiet sm { sm with state := new } := ⟨did_nothing rfl, rfl, rfl, rfl⟩
    exact hset.trans (announce_quiet _ new faultType source details _ _ _)

/-- The old timer is cancelled and the next one is started. -/
structure Restarted (before after : SafetyManager) : Prop where
  did : Did timerOp before after (cancelOps before ++ [.start before.timersStarted])
  timer : after.safeStateTimer = some before.timersStarted
  started : after.timersStarted = before.timersStarted + 1
  total : after.totalNodes = before.totalNodes

theorem start_restarted : Restarted sm sm.startSafeStateTimer := by
  obtain ⟨hdid, -, hstarted, htotal⟩ := cancel_cancelled sm
  refine ⟨hdid.trans ⟨[.startTimer sm.timersStarted], ?_, rfl⟩, ?_, ?_, htotal⟩
  · simp only [startSafeStateTimer, call, hstarted]
  · simp only [startSafeStateTimer, call, hstarted]
  · simp only [startSafeStateTimer, call, hstarted]

theorem transitionTo_restarted (h : isValidTransition sm.state .safeState = true) :
    Restarted sm (sm.transitionTo .safeState faultType source details) := by
  have hvalid : ¬ isValidTransition sm.state .safeState = false := by simp [h]
  have hne : sm.state ≠ .safeState := fun heq => by
    rw [heq, isValidTransition_self] at h
    cases h
  simp only [transitionTo, if_neg hvalid, ne_eq, hne, not_false_eq_true, if_true]
  have hstart := start_restarted { sm with state := .safeState }
  have hannounce := announce_quiet (startSafeStateTimer { sm with state := .safeState })
    .safeState faultType source details sm.state .safetyCritical (stateToEventType .safeState)
  refine ⟨?_, hannounce.timer.trans hstart.timer, hannounce.started.trans hstart.started,
    hannounce.total.trans hstart.total⟩
  obtain ⟨calls, hcalls, hseen⟩ := hstart.did.trans hannounce.did
  rw [List.append_nil] at hseen
  exact ⟨calls, hcalls, hseen⟩

/-! ## Faults -/

/-- What a fault can do to the state and the timer. -/
inductive Faulted (before after : SafetyManager) : Prop where
  | stays (quiet : Quiet before after) (same : after.state = before.state)
  | degrades (quiet : Quiet before after) (old : before.state = .normal)
      (new : after.state = .degraded)
  | escalates (restarted : Restarted before after)
      (old : before.state = .normal ∨ before.state = .degraded) (new : after.state = .safeState)

theorem Quiet.restarted {a b c : SafetyManager} (h : Quiet a b) (h' : Restarted b c) :
    Restarted a c := by
  obtain ⟨hdid, htimer, hstarted, htotal⟩ := h'
  rw [h.started] at hdid htimer hstarted
  refine ⟨?_, htimer, hstarted, htotal.trans h.total⟩
  have hops : cancelOps b = cancelOps a := by rw [cancelOps, cancelOps, h.timer]
  rw [hops] at hdid
  exact h.did.trans hdid

theorem Restarted.quiet {a b c : SafetyManager} (h : Restarted a b) (h' : Quiet b c) :
    Restarted a c := by
  refine ⟨?_, h'.timer.trans h.timer, h'.started.trans h.started, h'.total.trans h.total⟩
  simpa using h.did.trans h'.did

theorem Faulted.trans {a b c : SafetyManager} (h : Faulted a b) (h' : Faulted b c) :
    Faulted a c := by
  cases h with
  | stays quiet same =>
    cases h' with
    | stays quiet' same' => exact .stays (quiet.trans quiet') (same'.trans same)
    | degrades quiet' old new => exact .degrades (quiet.trans quiet') (same ▸ old) new
    | escalates restarted old new =>
      exact .escalates (quiet.restarted restarted) (same ▸ old) new
  | degrades quiet old new =>
    cases h' with
    | stays quiet' same' => exact .degrades (quiet.trans quiet') old (same'.trans new)
    | degrades quiet' old' new' =>
      rw [new] at old'
      cases old'
    | escalates restarted old' new' => exact .escalates (quiet.restarted restarted) (.inl old) new'
  | escalates restarted old new =>
    cases h' with
    | stays quiet' same' => exact .escalates (restarted.quiet quiet') old (same'.trans new)
    | degrades quiet' old' new' =>
      rw [new] at old'
      cases old'
    | escalates restarted' old' new' =>
      rw [new] at old'
      obtain old' | old' := old' <;> cases old'

theorem Faulted.total {before after : SafetyManager} (h : Faulted before after) :
    after.totalNodes = before.totalNodes := by
  cases h with
  | stays quiet _ => exact quiet.total
  | degrades quiet _ _ => exact quiet.total
  | escalates restarted _ _ => exact restarted.total

theorem faulted_call (c : Call) (h : timerOp c = none) : Faulted sm (sm.call c) :=
  .stays (quiet_call sm c h) rfl

theorem transitionTo_degraded :
    Faulted sm (sm.transitionTo .degraded faultType source details) := by
  have hquiet := transitionTo_quiet sm .degraded faultType source details (by decide)
  have hstate := transitionTo_state sm .degraded faultType source details
  cases hs : sm.state with
  | normal =>
    rw [hs] at hstate
    exact .degrades hquiet hs hstate
  | degraded | safeState | failSilent =>
    rw [hs] at hstate
    exact .stays hquiet (hstate.trans hs.symm)

theorem transitionTo_safeState :
    Faulted sm (sm.transitionTo .safeState faultType source details) := by
  cases hs : sm.state with
  | degraded =>
    have hvalid : isValidTransition sm.state .safeState = true := by rw [hs]; rfl
    refine .escalates (transitionTo_restarted sm faultType source details hvalid) (.inr hs) ?_
    rw [transitionTo_state, hvalid, if_pos rfl]
  | normal | safeState | failSilent =>
    have hinvalid : isValidTransition sm.state .safeState = false := by rw [hs]; rfl
    rw [transitionTo_refused sm .safeState faultType source details hinvalid]
    exact .stays ⟨did_nothing rfl, rfl, rfl, rfl⟩ rfl

theorem faulted_refl : Faulted sm sm := .stays ⟨did_nothing rfl, rfl, rfl, rfl⟩ rfl

theorem requests_faulted {before after : SafetyManager} (h : Requests source details before after) :
    Faulted before after := by
  induction h with
  | none sm => exact faulted_refl sm
  | more new faultType hnew rest ih =>
    obtain rfl | rfl := hnew
    · exact (transitionTo_degraded _ faultType source details).trans ih
    · exact (transitionTo_safeState _ faultType source details).trans ih

theorem handleFault_faulted (sm' : SafetyManager)
    (h : sm.handleFault faultType source details = some sm') : Faulted sm sm' := by
  have hbooked : Faulted sm { sm with crcFailureCounts :=
      if faultType = .crcFailure then bump sm.crcFailureCounts source
      else sm.crcFailureCounts } := .stays ⟨did_nothing rfl, rfl, rfl, rfl⟩ rfl
  exact hbooked.trans (requests_faulted source details (handleFault_requests h))

/-- Every fault, from every state. -/
theorem notifyFault_faulted : Faulted sm (sm.notifyFault faultType source details).1 := by
  have hmark : Faulted sm (if faultType = .nodeOffline then
      { sm with offlineNodes := insert source sm.offlineNodes } else sm) := by
    split
    · exact .stays ⟨did_nothing rfl, rfl, rfl, rfl⟩ rfl
    · exact faulted_refl sm
  simp only [notifyFault]
  generalize (if faultType = .nodeOffline then
    { sm with offlineNodes := insert source sm.offlineNodes } else sm) = marked at hmark ⊢
  cases hhandle : marked.handleFault faultType source details with
  | none => exact hmark
  | some sm' =>
    have hhandled := handleFault_faulted marked faultType source details sm' hhandle
    exact ((hmark.trans hhandled).trans (faulted_call sm' _ rfl)).trans (faulted_call _ _ rfl)

/-! ## Recovery, restart and expiry -/

theorem Cancelled.quiet {a b c : SafetyManager} (h : Cancelled a b) (h' : Quiet b c) :
    Cancelled a c := by
  refine ⟨?_, h'.timer.trans h.timer, h'.started.trans h.started, h'.total.trans h.total⟩
  simpa using h.did.trans h'.did

/-- What a recovery can do to the state and the timer. -/
inductive Recovered (before after : SafetyManager) : Prop where
  | stays (quiet : Quiet before after) (same : after.state = before.state)
  | restores (quiet : Quiet before after) (old : before.state = .degraded)
      (new : after.state = .normal)
  | disarms (cancelled : Cancelled before after) (old : before.state = .safeState)
      (new : after.state = .normal)

variable {sm}

theorem Cancelled.call {after : SafetyManager} (h : Cancelled sm after) (c : Call)
    (hc : timerOp c = none) : Cancelled sm (after.call c) := h.quiet (quiet_call after c hc)

theorem Recovered.call {after : SafetyManager} (h : Recovered sm after) (c : Call)
    (hc : timerOp c = none) : Recovered sm (after.call c) := by
  have hquiet := quiet_call after c hc
  cases h with
  | stays quiet same => exact .stays (quiet.trans hquiet) same
  | restores quiet old new => exact .restores (quiet.trans hquiet) old new
  | disarms cancelled old new => exact .disarms (cancelled.quiet hquiet) old new

theorem Recovered.total {after : SafetyManager} (h : Recovered sm after) :
    after.totalNodes = sm.totalNodes := by
  cases h with
  | stays quiet _ => exact quiet.total
  | restores quiet _ _ => exact quiet.total
  | disarms cancelled _ _ => exact cancelled.total

theorem recovered_degraded {forgotten : SafetyManager} (h : Quiet sm forgotten)
    (hold : sm.state = .degraded) (hstate : forgotten.state = .degraded) :
    Recovered sm (forgotten.transitionTo .normal faultType source details) := by
  have hquiet := transitionTo_quiet forgotten .normal faultType source details (by decide)
  refine .restores (h.trans hquiet) hold ?_
  rw [transitionTo_state, hstate]
  rfl

theorem recovered_safeState {forgotten : SafetyManager} (h : Cancelled sm forgotten)
    (hold : sm.state = .safeState) (hstate : forgotten.state = .safeState) :
    Recovered sm (forgotten.transitionTo .normal faultType source details) := by
  have hquiet := transitionTo_quiet forgotten .normal faultType source details (by decide)
  refine .disarms (h.quiet hquiet) hold ?_
  rw [transitionTo_state, hstate]
  rfl

variable (sm)

theorem notifyRecovery_recovered : Recovered sm (sm.notifyRecovery source).1 := by
  simp only [notifyRecovery]
  refine Recovered.call ?_ _ rfl
  have hstays : Recovered sm { sm with
      offlineNodes := sm.offlineNodes.erase source
      crcFailureCounts := sm.crcFailureCounts.erase source } :=
    .stays ⟨did_nothing rfl, rfl, rfl, rfl⟩ rfl
  split
  · rename_i hdegraded
    split
    · exact recovered_degraded _ _ _ ⟨did_nothing rfl, rfl, rfl, rfl⟩ hdegraded hdegraded
    · exact hstays
  · split
    · rename_i hsafe
      split
      · have hcancelled := cancel_cancelled { sm with
          offlineNodes := sm.offlineNodes.erase source
          crcFailureCounts := sm.crcFailureCounts.erase source }
        refine recovered_safeState _ _ _ ⟨hcancelled.did, hcancelled.timer,
          hcancelled.started, hcancelled.total⟩ hsafe ?_
        rw [cancel_state]
        exact hsafe
      · exact hstays
    · exact hstays

theorem reset_cancelled : Cancelled sm sm.reset ∧ sm.reset.state = .normal := by
  obtain ⟨hdid, htimer, hstarted, htotal⟩ := cancel_cancelled sm
  have hcleared : Cancelled sm { sm.cancelSafeStateTimer with
      state := .normal, offlineNodes := ∅, crcFailureCounts := ∅ } :=
    ⟨hdid, htimer, hstarted, htotal⟩
  rw [SafetyManager.reset]
  split
  · exact ⟨hcleared.call _ rfl, rfl⟩
  · exact ⟨hcleared, rfl⟩

theorem timeoutHandler_quiet : Quiet sm sm.safeStateTimeoutHandler ∧
    sm.safeStateTimeoutHandler.state =
      if sm.state = .safeState then .failSilent else sm.state := by
  rw [safeStateTimeoutHandler]
  split
  · rename_i hsafe
    refine ⟨transitionTo_quiet sm .failSilent _ _ _ (by decide), ?_⟩
    rw [transitionTo_state, hsafe]
    rfl
  · exact ⟨⟨did_nothing rfl, rfl, rfl, rfl⟩, rfl⟩

/-! ## Every method -/

/-- What a fault, a recovery or a restart can do to the timer, and in which states. -/
inductive Changed (before after : SafetyManager) : Prop where
  | quietly (quiet : Quiet before after)
      (safe : after.state = .safeState ↔ before.state = .safeState)
      (below : after.state = .normal ∨ after.state = .degraded →
        before.state = .normal ∨ before.state = .degraded)
  | entering (restarted : Restarted before after)
      (old : before.state = .normal ∨ before.state = .degraded) (new : after.state = .safeState)
  | restoring (cancelled : Cancelled before after) (new : after.state = .normal)

theorem Faulted.changed {before after : SafetyManager} (h : Faulted before after) :
    Changed before after := by
  cases h with
  | stays quiet same => exact .quietly quiet (by rw [same]) (by rw [same]; exact id)
  | degrades quiet old new => exact .quietly quiet (by rw [old, new]; decide) fun _ => .inl old
  | escalates restarted old new => exact .entering restarted old new

theorem Recovered.changed {before after : SafetyManager} (h : Recovered before after) :
    Changed before after := by
  cases h with
  | stays quiet same => exact .quietly quiet (by rw [same]) (by rw [same]; exact id)
  | restores quiet old new => exact .quietly quiet (by rw [old, new]; decide) fun _ => .inr old
  | disarms cancelled old new => exact .restoring cancelled new

theorem notifyFault_changed : Changed sm (sm.notifyFault faultType source details).1 :=
  (notifyFault_faulted sm faultType source details).changed

theorem notifyRecovery_changed : Changed sm (sm.notifyRecovery source).1 :=
  (notifyRecovery_recovered sm source).changed

theorem reset_changed : Changed sm sm.reset := by
  obtain ⟨hcancelled, hstate⟩ := reset_cancelled sm
  exact .restoring hcancelled hstate

/-! ## The DTC manager -/

def dtcOp : Call → Option (Nat × String)
  | .setDtc code description => some (code, description)
  | _ => none

theorem cancel_noDtc : Did dtcOp sm sm.cancelSafeStateTimer [] := by
  cases htimer : sm.safeStateTimer with
  | none => exact did_nothing (by simp [cancelSafeStateTimer, htimer])
  | some id => exact ⟨[.cancelTimer id], by simp [cancelSafeStateTimer, htimer, call], rfl⟩

theorem start_noDtc : Did dtcOp sm sm.startSafeStateTimer [] :=
  (cancel_noDtc sm).trans ⟨[.startTimer sm.cancelSafeStateTimer.timersStarted], rfl, rfl⟩

/-- A transition sets no code. -/
theorem transitionTo_noDtc : Did dtcOp sm (sm.transitionTo new faultType source details) [] := by
  by_cases hvalid : isValidTransition sm.state new = false
  · rw [transitionTo_refused sm new faultType source details hvalid]
    exact did_nothing rfl
  · have hne : sm.state ≠ new := fun heq => hvalid (heq ▸ isValidTransition_self sm.state)
    simp only [transitionTo, if_neg hvalid, ne_eq, hne, not_false_eq_true, if_true]
    refine Did.call (Did.call (Did.call ?_ _ rfl) _ rfl) _ rfl
    split
    · exact start_noDtc { sm with state := new }
    · exact did_nothing rfl

theorem requests_noDtc {before after : SafetyManager} (h : Requests source details before after) :
    Did dtcOp before after [] := by
  induction h with
  | none sm => exact did_nothing rfl
  | more new faultType hnew rest ih =>
    exact (transitionTo_noDtc _ new faultType source details).trans ih

/-- The handlers set no code: `notify_fault` sets that of the fault after them. -/
theorem handleFault_noDtc (sm' : SafetyManager)
    (h : sm.handleFault faultType source details = some sm') : Did dtcOp sm sm' [] := by
  have hbooked : Did dtcOp sm { sm with crcFailureCounts :=
      if faultType = .crcFailure then bump sm.crcFailureCounts source
      else sm.crcFailureCounts } [] := did_nothing rfl
  exact hbooked.trans (requests_noDtc source details (handleFault_requests h))

/-- Every fault that is not a node going offline sets its code, once. -/
theorem notifyFault_dtc (h : faultType ≠ .nodeOffline) :
    Did dtcOp sm (sm.notifyFault faultType source details).1
      [(SafetyManager.dtcCode faultType, faultType.value)] := by
  simp only [notifyFault, if_neg h]
  cases hhandle : sm.handleFault faultType source details with
  | none => exact absurd (handleFault_none hhandle) h
  | some sm' =>
    have hhandled := handleFault_noDtc sm faultType source details sm' hhandle
    exact (hhandled.call _ rfl).trans (did_call _ (.setDtc _ _))

end Methods

end Genoh.MasterCalls
