import Genoh.MasterSupervisor
import Genoh.Run

/-!
# Runs of the E2E supervisor

Registrations, messages and timeout checks in any order: what holds of the status and the counters of
every channel, and when a channel leaves its initial status.
-/
namespace Genoh.ChannelRuns

open Genoh.Bytes Genoh.OrderedDict Genoh.Run Genoh.MasterE2E Genoh.MasterSupervisor

inductive Event where
  | register (dataId : Nat) (deadlineMs : Int) (maxSeqGap : Nat) (now : ℚ)
  | receive (header : E2EHeader) (payload : List Byte) (now : ℚ)
  | checkTimeouts (now : ℚ)

def Event.now : Event → ℚ
  | .register _ _ _ now => now
  | .receive _ _ now => now
  | .checkTimeouts now => now

/-- The data id the operation is on. -/
def Event.target : Event → Option Nat
  | .register dataId _ _ _ => some dataId
  | .receive header _ _ => some header.dataId
  | .checkTimeouts _ => none

def step (sup : E2ESupervisor) : Event → E2ESupervisor
  | .register dataId deadlineMs maxSeqGap now => registerChannel sup dataId deadlineMs maxSeqGap now
  | .receive header payload now => (onMessageReceived sup header payload now).1
  | .checkTimeouts now => (checkTimeouts sup now).1

/-! ## What a step does to a channel -/

theorem register_get? (sup : E2ESupervisor) (dataId : Nat) (deadlineMs : Int) (maxSeqGap : Nat)
    (now : ℚ) (other : Nat) :
    (step sup (.register dataId deadlineMs maxSeqGap now)).channels.get? other =
      if other = dataId then some (newChannel dataId deadlineMs maxSeqGap now)
      else sup.channels.get? other := Dict.get?_set _ _ _ _

theorem receive_get? (sup : E2ESupervisor) (header : E2EHeader) (payload : List Byte) (now : ℚ)
    (other : Nat) :
    (step sup (.receive header payload now)).channels.get? other =
      if other = header.dataId then
        (sup.channels.get? header.dataId).map fun ch => (receiveOn ch header payload now).1
      else sup.channels.get? other := by
  rw [step, onMessageReceived]
  cases hget : sup.channels.get? header.dataId with
  | none =>
    dsimp only
    split
    · rename_i hother
      rw [hother, hget]
      rfl
    · rfl
  | some ch => exact Dict.get?_set _ _ _ _

theorem checkTimeouts_get? (sup : E2ESupervisor) (now : ℚ) (other : Nat) :
    (step sup (.checkTimeouts now)).channels.get? other =
      (sup.channels.get? other).map fun ch => if Overdue now ch then timeOut ch else ch :=
  Dict.get?_mapValues _ _ _

/-- What becomes of a channel: nothing, or what the message or the timeout makes of it. A
registration is a new one. -/
theorem step_cases {sup : E2ESupervisor} {e : Event} {dataId : Nat} {after : E2EChannelState}
    (h : (step sup e).channels.get? dataId = some after) :
    (∃ deadlineMs maxSeqGap, e = .register dataId deadlineMs maxSeqGap e.now ∧
      after = newChannel dataId deadlineMs maxSeqGap e.now) ∨
    ∃ before, sup.channels.get? dataId = some before ∧
      ((after = before ∧ e.target ≠ some dataId) ∨
        (∃ header payload, e = .receive header payload e.now ∧ header.dataId = dataId ∧
          after = (receiveOn before header payload e.now).1) ∨
        (e = .checkTimeouts e.now ∧ Overdue e.now before ∧ after = timeOut before)) := by
  cases e with
  | register target deadlineMs maxSeqGap now =>
    rw [register_get?] at h
    split at h
    · rename_i hid
      subst hid
      exact .inl ⟨deadlineMs, maxSeqGap, rfl, (Option.some.inj h).symm⟩
    · rename_i hid
      exact .inr ⟨after, h, .inl ⟨rfl, fun htarget => hid (Option.some.inj htarget).symm⟩⟩
  | receive header payload now =>
    rw [receive_get?] at h
    split at h
    · rename_i hid
      subst hid
      obtain ⟨before, hbefore, rfl⟩ := Option.map_eq_some_iff.mp h
      exact .inr ⟨before, hbefore, .inr (.inl ⟨header, payload, rfl, rfl, rfl⟩)⟩
    · rename_i hid
      exact .inr ⟨after, h, .inl ⟨rfl, fun htarget => hid (Option.some.inj htarget).symm⟩⟩
  | checkTimeouts now =>
    have htarget : (Event.checkTimeouts now).target ≠ some dataId := by
      intro htarget
      cases htarget
    rw [checkTimeouts_get?] at h
    obtain ⟨before, hbefore, hafter⟩ := Option.map_eq_some_iff.mp h
    split at hafter
    · rename_i hoverdue
      exact .inr ⟨before, hbefore, .inr (.inr ⟨rfl, hoverdue, hafter.symm⟩)⟩
    · exact .inr ⟨before, hbefore, .inl ⟨hafter.symm, htarget⟩⟩

/-- A message fails its checksum, or the verdict on its number is applied; a header that cannot be
packed only counts. -/
theorem receiveOn_cases (ch : E2EChannelState) (header : E2EHeader) (payload : List Byte) (now : ℚ) :
    (receiveOn ch header payload now).1 = { ch with totalReceived := ch.totalReceived + 1 } ∨
    (receiveOn ch header payload now).1 = updateStatus { ch with
        totalReceived := ch.totalReceived + 1
        totalCrcFailures := ch.totalCrcFailures + 1
        consecutiveFailures := ch.consecutiveFailures + 1 } .invalid ∨
    ∃ verdict checker, ch.seqChecker.check header.sequenceCounter = (verdict, checker) ∧
      e2eVerify header payload = .ok true ∧
      (receiveOn ch header payload now).1 = (applyVerdict { ch with
        totalReceived := ch.totalReceived + 1, seqChecker := checker } header.dataId now verdict).1 := by
  cases hverify : e2eVerify header payload with
  | error error =>
    left
    simp only [receiveOn, hverify]
  | ok valid =>
    cases valid with
    | false =>
      right; left
      simp only [receiveOn, hverify]
    | true =>
      right; right
      refine ⟨(ch.seqChecker.check header.sequenceCounter).1,
        (ch.seqChecker.check header.sequenceCounter).2, rfl, rfl, ?_⟩
      simp only [receiveOn, hverify]

/-- No step removes a channel. -/
theorem step_keeps {sup : E2ESupervisor} (e : Event) {dataId : Nat} {before : E2EChannelState}
    (h : sup.channels.get? dataId = some before) :
    ∃ after, (step sup e).channels.get? dataId = some after := by
  cases e with
  | register target deadlineMs maxSeqGap now =>
    rw [register_get?]
    split
    · exact ⟨_, rfl⟩
    · exact ⟨before, h⟩
  | receive header payload now =>
    rw [receive_get?]
    split
    · rename_i hid
      rw [← hid, h]
      exact ⟨_, rfl⟩
    · exact ⟨before, h⟩
  | checkTimeouts now =>
    rw [checkTimeouts_get?, h]
    exact ⟨_, rfl⟩

/-! ## Status and counters -/

/-- The status goes with the failures in a row, and the failures with the counters. -/
structure InStep (ch : E2EChannelState) : Prop where
  error : ch.status = .error ↔ 3 ≤ ch.consecutiveFailures
  healthy : ch.status = .init ∨ ch.status = .valid → ch.consecutiveFailures = 0
  failing : ch.status = .invalid ∨ ch.status = .timeout →
    ch.consecutiveFailures = 1 ∨ ch.consecutiveFailures = 2
  received : ch.totalCrcFailures + ch.totalSeqErrors ≤ ch.totalReceived
  failures : ch.consecutiveFailures ≤ ch.totalCrcFailures + ch.totalSeqErrors + ch.totalTimeouts

/-- Behind a failure the status is the failing one or the error. -/
theorem inStep_failing (ch : E2EChannelState) {new : E2EStatus} (hnew : new = .invalid ∨ new = .timeout)
    (hpositive : 1 ≤ ch.consecutiveFailures)
    (hreceived : ch.totalCrcFailures + ch.totalSeqErrors ≤ ch.totalReceived)
    (hfailures : ch.consecutiveFailures ≤
      ch.totalCrcFailures + ch.totalSeqErrors + ch.totalTimeouts) :
    InStep (updateStatus ch new) := by
  have hthree : errorThreshold = 3 := rfl
  by_cases hmany : ch.consecutiveFailures ≥ errorThreshold
  · have hstatus : (updateStatus ch new).status = .error := if_pos hmany
    constructor
    · exact iff_of_true hstatus hmany
    · rw [hstatus]
      rintro (h | h) <;> cases h
    · rw [hstatus]
      rintro (h | h) <;> cases h
    · exact hreceived
    · exact hfailures
  · have hstatus : (updateStatus ch new).status = new := if_neg hmany
    have hfew : ch.consecutiveFailures = 1 ∨ ch.consecutiveFailures = 2 := by omega
    constructor
    · rw [hstatus]
      apply iff_of_false _ hmany
      rintro rfl
      obtain h | h := hnew <;> cases h
    · rw [hstatus]
      rintro (rfl | rfl) <;> obtain h | h := hnew <;> cases h
    · exact fun _ => hfew
    · exact hreceived
    · exact hfailures

/-- A good message makes the channel valid. -/
theorem inStep_valid (ch : E2EChannelState) (hnone : ch.consecutiveFailures = 0)
    (hreceived : ch.totalCrcFailures + ch.totalSeqErrors ≤ ch.totalReceived) :
    InStep (updateStatus ch .valid) := by
  have hfew : ¬ 3 ≤ ch.consecutiveFailures := by omega
  have hstatus : (updateStatus ch .valid).status = .valid := if_neg hfew
  constructor
  · rw [hstatus]
    apply iff_of_false _ hfew
    intro h
    cases h
  · exact fun _ => hnone
  · rw [hstatus]
    rintro (h | h) <;> cases h
  · exact hreceived
  · exact hnone.trans_le (Nat.zero_le _)

theorem newChannel_inStep (dataId : Nat) (deadlineMs : Int) (maxSeqGap : Nat) (now : ℚ) :
    InStep (newChannel dataId deadlineMs maxSeqGap now) where
  error := by
    apply iff_of_false
    · intro h
      cases h
    · exact (by decide : ¬ 3 ≤ 0)
  healthy := fun _ => rfl
  failing := by rintro (h | h) <;> cases h
  received := Nat.le_refl 0
  failures := Nat.le_refl 0

theorem applyVerdict_inStep {ch : E2EChannelState} (dataId : Nat) (now : ℚ) (verdict : SeqVerdict)
    (h : InStep ch) (hroom : ch.totalCrcFailures + ch.totalSeqErrors < ch.totalReceived) :
    InStep (applyVerdict ch dataId now verdict).1 := by
  have hfailures := h.failures
  cases verdict with
  | ok => exact inStep_valid _ rfl (Nat.le_of_lt hroom)
  | init => exact inStep_valid _ rfl (Nat.le_of_lt hroom)
  | okSomeLost => exact inStep_valid _ rfl hroom
  | repeated => exact h
  | error =>
    apply inStep_failing _ (.inl rfl)
    · exact Nat.le_add_left 1 _
    · exact hroom
    · dsimp only
      omega

theorem receiveOn_inStep {ch : E2EChannelState} (header : E2EHeader) (payload : List Byte) (now : ℚ)
    (h : InStep ch) : InStep (receiveOn ch header payload now).1 := by
  have hmore : InStep { ch with totalReceived := ch.totalReceived + 1 } :=
    ⟨h.error, h.healthy, h.failing, Nat.le_succ_of_le h.received, h.failures⟩
  have hreceived := h.received
  have hfailures := h.failures
  obtain hraised | hcrc | ⟨verdict, checker, -, -, hverdict⟩ :=
    receiveOn_cases ch header payload now
  · rw [hraised]
    exact hmore
  · rw [hcrc]
    apply inStep_failing _ (.inl rfl)
    · exact Nat.le_add_left 1 _
    · dsimp only
      omega
    · dsimp only
      omega
  · rw [hverdict]
    apply applyVerdict_inStep
    · exact ⟨hmore.error, hmore.healthy, hmore.failing, hmore.received, hmore.failures⟩
    · exact Nat.lt_succ_of_le h.received

theorem timeOut_inStep {ch : E2EChannelState} (h : InStep ch) : InStep (timeOut ch) := by
  have hfailures := h.failures
  apply inStep_failing _ (.inr rfl)
  · exact Nat.le_add_left 1 _
  · exact h.received
  · dsimp only
    omega

def AllInStep (sup : E2ESupervisor) : Prop :=
  ∀ dataId ch, sup.channels.get? dataId = some ch → InStep ch

theorem step_inStep (sup : E2ESupervisor) (e : Event) (h : AllInStep sup) : AllInStep (step sup e) := by
  intro dataId after hafter
  obtain ⟨deadlineMs, maxSeqGap, -, rfl⟩ | ⟨before, hbefore, hcases⟩ := step_cases hafter
  · exact newChannel_inStep dataId deadlineMs maxSeqGap e.now
  · have hin := h dataId before hbefore
    obtain ⟨rfl, -⟩ | ⟨header, payload, -, -, rfl⟩ | ⟨-, -, rfl⟩ := hcases
    · exact hin
    · exact receiveOn_inStep header payload e.now hin
    · exact timeOut_inStep hin

theorem run_inStep (events : List Event) : AllInStep (run step E2ESupervisor.init events) := by
  apply run_invariant _ step_inStep
  intro dataId ch h
  cases h

/-! ## Times and other channels -/

/-- A step on one data id leaves the other channels as they are. -/
theorem step_other (sup : E2ESupervisor) {e : Event} {target other : Nat}
    (htarget : e.target = some target) (hne : other ≠ target) :
    (step sup e).channels.get? other = sup.channels.get? other := by
  cases e with
  | register dataId deadlineMs maxSeqGap now =>
    obtain rfl := Option.some.inj htarget
    rw [register_get?, if_neg hne]
  | receive header payload now =>
    obtain rfl := Option.some.inj htarget
    rw [receive_get?, if_neg hne]
  | checkTimeouts now => cases htarget

theorem receiveOn_lastValidTime (ch : E2EChannelState) (header : E2EHeader) (payload : List Byte)
    (now : ℚ) :
    (receiveOn ch header payload now).1.lastValidTime = ch.lastValidTime ∨
      (receiveOn ch header payload now).1.lastValidTime = now := by
  obtain hraised | hcrc | ⟨verdict, checker, -, -, hverdict⟩ :=
    receiveOn_cases ch header payload now
  · rw [hraised]
    exact .inl rfl
  · rw [hcrc]
    exact .inl rfl
  · rw [hverdict]
    cases verdict with
    | ok | init | okSomeLost => exact .inr rfl
    | repeated | error => exact .inl rfl

/-- The time of the last valid message is that before the step or that of the step. -/
theorem step_lastValidTime {sup : E2ESupervisor} {e : Event} {dataId : Nat} {after : E2EChannelState}
    (h : (step sup e).channels.get? dataId = some after) :
    after.lastValidTime = e.now ∨
      ∃ before, sup.channels.get? dataId = some before ∧
        after.lastValidTime = before.lastValidTime := by
  obtain ⟨deadlineMs, maxSeqGap, -, rfl⟩ | ⟨before, hbefore, hcases⟩ := step_cases h
  · exact .inl rfl
  · obtain ⟨rfl, -⟩ | ⟨header, payload, -, -, rfl⟩ | ⟨-, -, rfl⟩ := hcases
    · exact .inr ⟨_, hbefore, rfl⟩
    · obtain hold | hnew := receiveOn_lastValidTime before header payload e.now
      · exact .inr ⟨before, hbefore, hold⟩
      · exact .inl hnew
    · exact .inr ⟨before, hbefore, rfl⟩

/-- Every such time is that of an event of the past. -/
theorem run_lastValidTime (past : List Event) :
    ∀ dataId ch, (run step E2ESupervisor.init past).channels.get? dataId = some ch →
      ∃ e ∈ past, ch.lastValidTime = e.now := by
  induction past using List.reverseRecOn with
  | nil =>
    intro dataId ch h
    cases h
  | append_singleton past e ih =>
    intro dataId ch h
    rw [run_concat] at h
    obtain hnow | ⟨before, hbefore, hsame⟩ := step_lastValidTime h
    · exact ⟨e, by simp, hnow⟩
    · obtain ⟨e', he', htime⟩ := ih dataId before hbefore
      exact ⟨e', List.mem_append_left _ he', hsame.trans htime⟩

/-- Over every run of registrations, messages and timeout checks in nondecreasing time the status and
the counters of every channel are in step, the time of its last valid message does not go back, and a
step on one data id leaves the other channels as they are. -/
theorem channels_in_step (events : List Event) (htimes : (events.map Event.now).Pairwise (· ≤ ·)) :
    (∀ dataId ch, (run step E2ESupervisor.init events).channels.get? dataId = some ch → InStep ch) ∧
    Always step E2ESupervisor.init (fun sup e =>
      (∀ dataId before, sup.channels.get? dataId = some before →
        ∃ after, (step sup e).channels.get? dataId = some after ∧
          before.lastValidTime ≤ after.lastValidTime) ∧
      ∀ target, e.target = some target → ∀ other, other ≠ target →
        (step sup e).channels.get? other = sup.channels.get? other) events := by
  refine ⟨run_inStep events, ?_⟩
  rintro past e future rfl
  rw [List.map_append, List.map_cons, List.pairwise_append] at htimes
  obtain ⟨-, -, hle⟩ := htimes
  constructor
  · intro dataId before hbefore
    obtain ⟨after, hafter⟩ := step_keeps e hbefore
    refine ⟨after, hafter, ?_⟩
    obtain hnow | ⟨before', hbefore', hsame⟩ := step_lastValidTime hafter
    · obtain ⟨e', he', htime⟩ := run_lastValidTime past dataId before hbefore
      rw [hnow, htime]
      exact hle e'.now (List.mem_map_of_mem he') e.now List.mem_cons_self
    · obtain rfl := Option.some.inj (hbefore'.symm.trans hbefore)
      exact hsame.ge
  · exact fun target htarget other hne => step_other _ htarget hne

/-- A channel that is registered and times out, and another one. -/
theorem channels_in_step_timeout :
    (∀ dataId ch, (run step E2ESupervisor.init [.register 0x1001 5000 3 0,
      .register 0x1002 10000 3 1, .checkTimeouts 6]).channels.get? dataId = some ch → InStep ch) ∧
    Always step E2ESupervisor.init (fun sup e =>
      (∀ dataId before, sup.channels.get? dataId = some before →
        ∃ after, (step sup e).channels.get? dataId = some after ∧
          before.lastValidTime ≤ after.lastValidTime) ∧
      ∀ target, e.target = some target → ∀ other, other ≠ target →
        (step sup e).channels.get? other = sup.channels.get? other)
      [.register 0x1001 5000 3 0, .register 0x1002 10000 3 1, .checkTimeouts 6] :=
  channels_in_step _ (by decide +kernel)

/-! ## The initial status -/

/-- The checksum of the message is the one in its header. -/
def isGood (header : E2EHeader) (payload : List Byte) : Bool :=
  match e2eVerify header payload with
  | .ok valid => valid
  | .error _ => false

theorem isGood_iff (header : E2EHeader) (payload : List Byte) :
    isGood header payload = true ↔ e2eVerify header payload = .ok true := by
  rw [isGood]
  cases hverify : e2eVerify header payload with
  | ok valid => simp
  | error error => simp

/-- The supervisor, and for each data id the numbers of the messages with a good checksum since its
registration, oldest first. -/
structure Watched where
  sup : E2ESupervisor
  verified : Nat → List Nat

def watch (w : Watched) (e : Event) : Watched :=
  { sup := step w.sup e
    verified :=
      match e with
      | .register dataId _ _ _ => Function.update w.verified dataId []
      | .receive header payload _ =>
        if isGood header payload then Function.update w.verified header.dataId
          (w.verified header.dataId ++ [header.sequenceCounter])
        else w.verified
      | .checkTimeouts _ => w.verified }

def unwatched : Watched := ⟨E2ESupervisor.init, fun _ => []⟩

/-- The latest three numbers follow on each other. -/
def Completes (numbers : List Nat) : Prop :=
  ∃ front n, numbers = front ++ [n, (n + 1) % 65536, (n + 2) % 65536]

/-- At some time they have. -/
def Completed (numbers : List Nat) : Prop := ∃ past, past <+: numbers ∧ Completes past

/-- A channel goes from its initial status to the valid one on a message that completes three in
sequence, and is in one of the other statuses as long as no message has. -/
structure Synchronises (w : Watched) (e : Event) : Prop where
  completing : ∀ dataId before after, w.sup.channels.get? dataId = some before →
    (watch w e).sup.channels.get? dataId = some after →
    before.status = .init → after.status = .valid → Completes ((watch w e).verified dataId)
  waiting : ∀ dataId after, (watch w e).sup.channels.get? dataId = some after →
    ¬ Completed ((watch w e).verified dataId) →
    after.status = .init ∨ after.status = .invalid ∨ after.status = .timeout ∨ after.status = .error

/-- A message with a good checksum comes to a registered channel. -/
def GoodMessage (w : Watched) (e : Event) : Prop :=
  ∃ header payload ch, e = .receive header payload e.now ∧
    w.sup.channels.get? header.dataId = some ch ∧ isGood header payload = true

/-- No channel has had a good message. -/
def Silent (w : Watched) : Prop :=
  ∀ dataId ch, w.sup.channels.get? dataId = some ch →
    ch.seqChecker.lastSeq = none ∧ ch.status ≠ .valid ∧ w.verified dataId = []

theorem ne_valid_iff (status : E2EStatus) :
    status ≠ .valid ↔
      status = .init ∨ status = .invalid ∨ status = .timeout ∨ status = .error := by
  cases status <;> decide

/-- The status behind an update is the error or the new one. -/
theorem updateStatus_ne_valid (ch : E2EChannelState) {new : E2EStatus} (hnew : new ≠ .valid) :
    (updateStatus ch new).status ≠ .valid := by
  rw [updateStatus]
  dsimp only
  split
  · decide
  · exact hnew

/-- The first good message makes a channel valid, whatever its number. -/
theorem receiveOn_first {ch : E2EChannelState} {header : E2EHeader} {payload : List Byte}
    (now : ℚ) (hfirst : ch.seqChecker.lastSeq = none) (hgood : e2eVerify header payload = .ok true) :
    (receiveOn ch header payload now).1.status = .valid := by
  simp only [receiveOn, hgood, SequenceChecker.check, hfirst]
  rfl

/-- A message that is not good does not reach the checker of a channel. -/
theorem receiveOn_bad {ch : E2EChannelState} {header : E2EHeader} {payload : List Byte} (now : ℚ)
    (hch : ch.status ≠ .valid) (hbad : ¬ isGood header payload = true) :
    (receiveOn ch header payload now).1.seqChecker = ch.seqChecker ∧
      (receiveOn ch header payload now).1.status ≠ .valid := by
  obtain hraised | hcrc | ⟨verdict, checker, -, hgood, -⟩ := receiveOn_cases ch header payload now
  · rw [hraised]
    exact ⟨rfl, hch⟩
  · rw [hcrc]
    exact ⟨rfl, updateStatus_ne_valid _ (by decide)⟩
  · exact absurd ((isGood_iff header payload).mpr hgood) hbad

theorem watch_verified_other (w : Watched) {e : Event} {dataId : Nat} (h : e.target ≠ some dataId) :
    (watch w e).verified dataId = w.verified dataId := by
  cases e with
  | register target deadlineMs maxSeqGap now =>
    exact Function.update_of_ne (fun hid => h (congrArg some hid.symm)) _ _
  | receive header payload now =>
    rw [watch]
    dsimp only
    split
    · exact Function.update_of_ne (fun hid => h (congrArg some hid.symm)) _ _
    · rfl
  | checkTimeouts now => rfl

theorem watch_verified_bad (w : Watched) {header : E2EHeader} {payload : List Byte} (now : ℚ)
    (hbad : ¬ isGood header payload = true) :
    (watch w (.receive header payload now)).verified = w.verified := by
  rw [watch]
  dsimp only
  rw [if_neg hbad]

theorem watch_silent (w : Watched) (e : Event) (h : Silent w) (hbad : ¬ GoodMessage w e) :
    Silent (watch w e) := by
  intro dataId after hafter
  obtain ⟨deadlineMs, maxSeqGap, he, rfl⟩ | ⟨before, hbefore, hcases⟩ := step_cases hafter
  · rw [he]
    refine ⟨rfl, ?_, Function.update_self _ _ _⟩
    change E2EStatus.init ≠ .valid
    decide
  · obtain ⟨hlast, hstatus, hnone⟩ := h dataId before hbefore
    obtain ⟨rfl, hother⟩ | ⟨header, payload, he, rfl, rfl⟩ | ⟨he, -, rfl⟩ := hcases
    · rw [watch_verified_other w hother]
      exact ⟨hlast, hstatus, hnone⟩
    · have hnot : ¬ isGood header payload = true := fun hgood =>
        hbad ⟨header, payload, before, he, hbefore, hgood⟩
      obtain ⟨hchecker, hafterStatus⟩ := receiveOn_bad e.now hstatus hnot
      rw [hchecker, he, watch_verified_bad w _ hnot]
      exact ⟨hlast, hafterStatus, hnone⟩
    · rw [he]
      exact ⟨hlast, updateStatus_ne_valid _ (by decide), hnone⟩

theorem unwatched_silent : Silent unwatched := by
  intro dataId ch h
  cases h

/-- One number does not complete three. -/
theorem not_completed_singleton (seq : Nat) : ¬ Completed [seq] := by
  rintro ⟨past, hpast, front, n, rfl⟩
  have hlength := hpast.length_le
  simp only [List.length_append, List.length_cons, List.length_nil] at hlength
  omega

/-- While no channel has had a good message, the next one that has is trusted too early. -/
theorem synchronises_iff (w : Watched) (e : Event) (h : Silent w) :
    Synchronises w e ↔ ¬ GoodMessage w e := by
  constructor
  · rintro hsync ⟨header, payload, ch, he, hch, hgood⟩
    obtain ⟨hfirst, -, hnone⟩ := h header.dataId ch hch
    have hafter : (watch w e).sup.channels.get? header.dataId =
        some (receiveOn ch header payload e.now).1 := by
      rw [he]
      change (step w.sup (.receive header payload _)).channels.get? header.dataId = _
      rw [receive_get?, if_pos rfl, hch]
      rfl
    have hverified : (watch w e).verified header.dataId = [header.sequenceCounter] := by
      rw [he, watch]
      dsimp only
      rw [if_pos hgood, Function.update_self, hnone, List.nil_append]
    have hvalid := receiveOn_first e.now hfirst ((isGood_iff header payload).mp hgood)
    have hwaiting := hsync.waiting header.dataId _ hafter
      (hverified ▸ not_completed_singleton header.sequenceCounter)
    exact (ne_valid_iff _).mpr hwaiting hvalid
  · intro hbad
    have hsilent := watch_silent w e h hbad
    constructor
    · intro dataId before after hbefore hafter hinit hvalid
      exact absurd hvalid (hsilent dataId after hafter).2.1
    · intro dataId after hafter hnot
      exact (ne_valid_iff _).mp (hsilent dataId after hafter).2.1

/-- Over every run, the channels go from their initial status to the valid one only with three
messages in sequence, and are not valid before, exactly as long as no good message comes to a
registered channel. -/
theorem channels_synchronise_iff (events : List Event) :
    Always watch unwatched Synchronises events ↔
      Always watch unwatched (fun w e => ¬ GoodMessage w e) events := by
  apply always_congr_while unwatched_silent watch_silent synchronises_iff

/-- The first message of a channel makes it valid. -/
theorem first_message_trusted : ¬ Always watch unwatched Synchronises
    [.register 0x1001 5000 3 0, .receive ⟨0x1001, 0, 0, 0, 837718037⟩ [] 1] := by
  intro h
  have hlast := h [.register 0x1001 5000 3 0] (.receive ⟨0x1001, 0, 0, 0, 837718037⟩ [] 1) [] rfl
  have hgood : isGood ⟨0x1001, 0, 0, 0, 837718037⟩ [] = true := by decide +kernel
  have hch : (watch unwatched (.register 0x1001 5000 3 0)).sup.channels.get? 0x1001 =
      some (newChannel 0x1001 5000 3 0) := register_get? _ _ _ _ _ _
  have hregistered : Silent (watch unwatched (.register 0x1001 5000 3 0)) := by
    apply watch_silent _ _ unwatched_silent
    rintro ⟨header, payload, ch, he, -, -⟩
    cases he
  rw [run_cons, run_nil, synchronises_iff _ _ hregistered] at hlast
  exact hlast ⟨_, _, _, rfl, hch, hgood⟩

end Genoh.ChannelRuns
