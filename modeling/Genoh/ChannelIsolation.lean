import Genoh.NodeActuators

/-!
# Channels of the node

What a message with the data id of another channel does to a channel. `decode_secure_message`
runs the sequence check before the handler compares the data id.
-/
namespace Genoh.ChannelIsolation

open Genoh.Bytes Genoh.Run Genoh.SecOCWire Genoh.E2EWire Genoh.SecOCInterop
open Genoh.AppZenoh Genoh.NodeReceive Genoh.NodeActuators
open Genoh.FirmwareE2E Genoh.FirmwareSecOC Genoh.FirmwareSafety Genoh.FirmwareIds

/-! ## The sequence checkers of a reachable state -/

/-- No number yet, or a 16-bit one. -/
def Numbered (chk : E2eSeqChecker) : Prop :=
  chk.lastSeq = -1 ∨ ∃ n : BitVec 16, chk.lastSeq = n.toNat

/-- A number is rejected as repeated only when it is the last one, and every other number becomes
the last one. -/
theorem seqCheck_lastSeq {chk : E2eSeqChecker} (h : Numbered chk) (seq : BitVec 16) :
    e2eSeqCheck chk seq = (.errSeqRepeated, chk) ∧ chk.lastSeq = seq.toNat ∨
      chk.lastSeq ≠ seq.toNat ∧ (e2eSeqCheck chk seq).2.lastSeq = seq.toNat := by
  obtain hnone | ⟨n, hlast⟩ := h
  · refine .inr ⟨by omega, ?_⟩
    rw [e2eSeqCheck, if_pos (by omega)]
  · have hof : BitVec.ofInt 16 (n.toNat : Int) = n := by simp
    have hsame : seq - n = 0 ↔ seq = n := by
      rw [BitVec.sub_eq_iff_eq_add]
      simp
    simp only [e2eSeqCheck, hlast, hof]
    rw [if_neg (by omega)]
    by_cases hrepeat : seq = n
    · rw [if_pos (hsame.mpr hrepeat), hrepeat]
      exact .inl ⟨rfl, rfl⟩
    · rw [if_neg (mt hsame.mp hrepeat)]
      refine .inr ⟨fun heq => hrepeat (BitVec.eq_of_toNat_eq (by omega)), ?_⟩
      split <;> rfl

theorem seqCheck_numbered {chk : E2eSeqChecker} (h : Numbered chk) (seq : BitVec 16) :
    Numbered (e2eSeqCheck chk seq).2 := by
  obtain ⟨hrepeat, -⟩ | ⟨-, hnew⟩ := seqCheck_lastSeq h seq
  · rw [hrepeat]
    exact h
  · exact .inr ⟨seq, hnew⟩

/-- Both checkers of the application. -/
def AllNumbered (app : App) : Prop := ∀ channel, Numbered (app.checker channel)

section Checkers

variable {app : App} (h : AllNumbered app) (raw : List Byte) (hdr : E2eHeader)
variable (channel : Channel) (tick : BitVec 32)
include h

theorem sequenced_numbered : AllNumbered (sequenced app raw channel channel.dataId tick) := by
  have hnew := seqCheck_numbered (h channel) (sequenceOf raw)
  intro other
  cases channel with
  | headlight =>
    cases other with
    | headlight => exact hnew
    | hazard => exact h .hazard
  | hazard =>
    cases other with
    | headlight => exact h .headlight
    | hazard => exact hnew

theorem decode_numbered :
    AllNumbered (decodeSecureMessage app raw hdr channel channel.dataId tick).1 := by
  by_cases hreach : Reaches app raw channel.dataId tick
  · rw [decode_reaches app raw hdr channel channel.dataId tick hreach]
    have hsequenced := sequenced_numbered h raw channel tick
    intro other
    split
    · rw [recordDtc_checker, fault_checker]
      exact hsequenced other
    · split
      · exact hsequenced other
      · rw [accept_checker]
        exact hsequenced other
  · obtain ⟨type, code, lastSeq, hdr', hdecode⟩ :=
      decode_stopped app raw hdr channel channel.dataId tick hreach
    rw [hdecode]
    intro other
    rw [recordDtc_checker, fault_checker]
    cases other with
    | headlight => exact h .headlight
    | hazard => exact h .hazard

theorem secureCommand_numbered : AllNumbered (secureCommand app raw hdr channel tick).1 := by
  have hdecode := decode_numbered h raw hdr channel tick
  unfold secureCommand
  split
  · generalize decodeSecureMessage app raw hdr channel channel.dataId tick = decoded at hdecode ⊢
    obtain ⟨app', hdr', json⟩ := decoded
    cases json with
    | none => exact hdecode
    | some json =>
      dsimp only
      split
      · intro other
        rw [fault_checker]
        exact hdecode other
      · split <;> exact hdecode
  · exact h

end Checkers

/-- What follows the shared part of a handler leaves the checkers alone. -/
theorem handler_checker (app : App) (channel other : Channel) (raw : List Byte) (hdr : E2eHeader)
    (tick : BitVec 32) :
    (handler app channel raw hdr tick).checker other =
      (secureCommand app raw hdr channel tick).1.checker other := by
  cases hcommand : secureCommand app raw hdr channel tick with
  | mk app' json =>
    cases json with
    | none => rw [handler_none app channel raw hdr tick hcommand]
    | some json =>
      cases channel with
      | headlight =>
        simp only [handler, headlightHandler, hcommand]
        split
        · cases other <;> rfl
        · split
          · cases other <;> rfl
          · rfl
      | hazard =>
        simp only [handler, hazardHandler, hcommand]
        split
        · cases other <;> rfl
        · split
          · cases other <;> rfl
          · rfl

/-- A call into the safety manager leaves the checkers alone. -/
theorem supervised_checker (app : App) (sm : SafetyManager) (leds : Leds) (other : Channel) :
    ({ app with safety := sm, leds := leds } : App).checker other = app.checker other := by
  cases other <;> rfl

theorem superviseStep_checker (app : App) (input : LoopInput) (other : Channel) :
    (superviseStep app input).checker other = app.checker other := by
  have htick : (app.safetyTick input.now).checker other = app.checker other :=
    supervised_checker app _ _ other
  have htest : ((app.safetyTick input.now).periodicTest input.ram input.tick).checker other =
      (app.safetyTick input.now).checker other := supervised_checker _ _ _ other
  have hset : ∀ app : App, (app.setLastSelfTest input.now).checker other = app.checker other := by
    intro app
    cases other <;> rfl
  unfold superviseStep
  dsimp only
  split
  · rw [hset, htest, htick]
  · exact htick

theorem flowStep_checker (app : App) (input : LoopInput) (other : Channel) :
    (flowStep app input).checker other = app.checker other := by
  unfold flowStep
  dsimp only
  split
  · cases other <;> rfl
  · rw [recordDtc_checker, fault_checker]
    cases other <;> rfl

theorem blinkStep_checker (app : App) (input : LoopInput) (other : Channel) :
    (blinkStep app input).checker other = app.checker other := by
  unfold blinkStep
  split
  · split
    · cases other <;> rfl
    · rfl
  · rfl

theorem mainLoop_checker (app : App) (input : LoopInput) (other : Channel) :
    (mainLoop app input).1.checker other = app.checker other := by
  have hpublish : ∀ app : App, (publishStep app input).1.checker other = app.checker other := by
    intro app
    cases other <;> rfl
  have hcount : ∀ (app : App) (count : BitVec 32),
      ({ app with msgCount := count } : App).checker other = app.checker other := by
    intro app count
    cases other <;> rfl
  simp only [mainLoop]
  rw [hcount, blinkStep_checker, flowStep_checker, hpublish, superviseStep_checker]

theorem step_numbered {app : App} (h : AllNumbered app) (e : Event) :
    AllNumbered (step app e) := by
  intro other
  cases e with
  | message channel raw hdr tick =>
    rw [step, handler_checker]
    exact secureCommand_numbered h raw hdr channel tick other
  | loop input =>
    rw [step, mainLoop_checker]
    exact h other

theorem boot_numbered (leds : Leds) (tick : BitVec 32) : AllNumbered (boot leds tick) := by
  intro channel
  cases channel <;> exact .inl rfl

theorem run_numbered (leds : Leds) (bootTick : BitVec 32) (events : List Event) :
    AllNumbered (run step (boot leds bootTick) events) :=
  run_invariant (boot_numbered leds bootTick) (fun _ e h => step_numbered h e) events

/-! ## A foreign message -/

/-- The channel and its way back to NORMAL are as they were. -/
structure Untouched (channel : Channel) (app app' : App) : Prop where
  checker : app'.checker channel = app.checker channel
  recovery : app.safety.state = .degraded → app'.safety.state ≠ .normal
  progress : app'.safety.consecutiveOk ≤ app.safety.consecutiveOk
  deadline : app'.flow.lastActuatorTick = app.flow.lastActuatorTick
  verdict : ∀ seq, (e2eSeqCheck (app'.checker channel) seq).1 =
    (e2eSeqCheck (app.checker channel) seq).1

/-- The message does not get past the length checks, the rate limiter or the sequence check as a
new number. -/
def Stopped (app : App) (channel : Channel) (raw : List Byte) (tick : BitVec 32) : Prop :=
  raw.length ≤ e2eHeaderSize + secocOverhead ∨
    (rateCheck raw channel.dataId tick app.ids).1 = false ∨
    (body raw).length ≠ 11 + declaredLength (body raw) ∨ 11 + 512 < (body raw).length ∨
    (app.checker channel).lastSeq = (sequenceOf raw).toNat

theorem untouched_refl (channel : Channel) (app : App) : Untouched channel app app :=
  ⟨rfl, fun hdegraded => by rw [hdegraded]; decide, BitVec.le_refl _, rfl, fun _ => rfl⟩

/-- A fault is no progress. -/
theorem fault_untouched {channel : Channel} {app app' : App} (hsafety : app'.safety = app.safety)
    (hflow : app'.flow = app.flow) (hchecker : app'.checker channel = app.checker channel)
    (type : FaultType) (code lastSeq : BitVec 16) (tick : BitVec 32) :
    Untouched channel app ((app'.fault type tick).recordDtc code lastSeq tick) := by
  have hsame : ((app'.fault type tick).recordDtc code lastSeq tick).checker channel =
      app.checker channel := by rw [recordDtc_checker, fault_checker, hchecker]
  have hreported : ((app'.fault type tick).recordDtc code lastSeq tick).safety =
      (safetyReportFault app.safety app'.leds type tick).1 := by
    rw [← hsafety]
    rfl
  refine ⟨hsame, ?_, ?_, congrArg _ hflow, fun seq => by rw [hsame]⟩
  · intro hdegraded
    rw [hreported, safetyReportFault_state, hdegraded]
    dsimp only
    split <;> decide
  · rw [hreported]
    exact safetyReportFault_consecutiveOk app.safety app'.leds type tick

section Foreign

variable (app : App) (raw : List Byte) (hdr : E2eHeader) (channel : Channel) (tick : BitVec 32)

/-- A foreign message is no command, and a short one is ignored. -/
theorem handler_foreign (hforeign : dataIdOf raw ≠ channel.dataId) :
    handler app channel raw hdr tick =
      if raw.length ≤ e2eHeaderSize + secocOverhead then app
      else match decodeSecureMessage app raw hdr channel channel.dataId tick with
        | (app', _, none) => app'
        | (app', _, some _) => app'.fault .crcFailure tick := by
  apply handler_none
  unfold secureCommand
  by_cases hshort : raw.length ≤ e2eHeaderSize + secocOverhead
  · rw [if_neg (not_lt.mpr hshort), if_pos hshort]
  · rw [if_pos (not_le.mp hshort), if_neg hshort]
    cases hdecode : decodeSecureMessage app raw hdr channel channel.dataId tick with
    | mk app' rest =>
      obtain ⟨hdr', json⟩ := rest
      cases json with
      | none => rfl
      | some json =>
        obtain ⟨-, -, hhdr, -⟩ := decode_some app raw hdr channel tick _ _ _ hdecode
        have hid : hdr'.dataId ≠ channel.dataId := by
          rw [hhdr]
          exact hforeign
        exact if_pos hid

/-- The checker has taken the number of a message that reaches it, foreign or not. -/
theorem reaches_checker (hforeign : dataIdOf raw ≠ channel.dataId)
    (hlong : ¬ raw.length ≤ e2eHeaderSize + secocOverhead)
    (hreach : Reaches app raw channel.dataId tick) :
    (handler app channel raw hdr tick).checker channel =
      (e2eSeqCheck (app.checker channel) (sequenceOf raw)).2 := by
  rw [handler_foreign app raw hdr channel tick hforeign, if_neg hlong,
    decode_reaches app raw hdr channel channel.dataId tick hreach]
  split_ifs
  · rw [recordDtc_checker, fault_checker, sequenced_checker]
  · exact sequenced_checker app raw channel channel.dataId tick
  · rw [fault_checker, accept_checker, sequenced_checker]

theorem stopped_untouched (hforeign : dataIdOf raw ≠ channel.dataId)
    (hreach : ¬ Reaches app raw channel.dataId tick) :
    Untouched channel app (handler app channel raw hdr tick) := by
  obtain ⟨type, code, lastSeq, hdr', hdecode⟩ :=
    decode_stopped app raw hdr channel channel.dataId tick hreach
  rw [handler_foreign app raw hdr channel tick hforeign, hdecode]
  split
  · exact untouched_refl channel app
  · have hchecker : ({ app with ids := (rateCheck raw channel.dataId tick app.ids).2 } :
        App).checker channel = app.checker channel := by cases channel <;> rfl
    dsimp only
    apply fault_untouched
    · rfl
    · rfl
    · exact hchecker

/-- A repeated number is rejected without a trace. -/
theorem repeated_untouched (hforeign : dataIdOf raw ≠ channel.dataId)
    (hreach : Reaches app raw channel.dataId tick)
    (hrepeat : e2eSeqCheck (app.checker channel) (sequenceOf raw) =
      (.errSeqRepeated, app.checker channel)) :
    Untouched channel app (handler app channel raw hdr tick) := by
  have hverdict : (e2eSeqCheck (app.checker channel) (sequenceOf raw)).1 ≠ .ok := by
    rw [hrepeat]
    exact E2eStatus.noConfusion
  rw [handler_foreign app raw hdr channel tick hforeign,
    decode_reaches app raw hdr channel channel.dataId tick hreach, if_pos hverdict]
  split
  · exact untouched_refl channel app
  · apply fault_untouched
    · cases channel <;> rfl
    · cases channel <;> rfl
    · rw [sequenced_checker, hrepeat]

end Foreign

/-- In every reachable state an authentic message with a foreign data id leaves the channel alone
just when it is stopped in front of the sequence check or repeats the last number. -/
theorem channel_isolation_iff (leds : Leds) (bootTick : BitVec 32) (events : List Event)
    (channel : Channel) (raw : List Byte) (hdr : E2eHeader) (tick : BitVec 32)
    (hmac : MacHolds (run step (boot leds bootTick) events).key.nodeKey.val raw)
    (hfresh : InWindow raw tick) (hcrc : CrcHolds (body raw))
    (hforeign : dataIdOf raw ≠ channel.dataId) :
    let app := run step (boot leds bootTick) events
    Untouched channel app (handler app channel raw hdr tick) ↔ Stopped app channel raw tick := by
  intro app
  have hnumbered : Numbered (app.checker channel) := run_numbered leds bootTick events channel
  have hseq := seqCheck_lastSeq hnumbered (sequenceOf raw)
  by_cases hshort : raw.length ≤ e2eHeaderSize + secocOverhead
  · rw [handler_foreign app raw hdr channel tick hforeign, if_pos hshort]
    exact iff_of_true (untouched_refl channel app) (.inl hshort)
  · by_cases hreach : Reaches app raw channel.dataId tick
    · have hlength := hreach.2.length
      have hbounded := hreach.2.bounded
      constructor
      · intro huntouched
        have hchecker := huntouched.checker
        rw [reaches_checker app raw hdr channel tick hforeign hshort hreach] at hchecker
        obtain ⟨-, hlast⟩ | ⟨hne, hnew⟩ := hseq
        · exact .inr (.inr (.inr (.inr hlast)))
        · rw [hchecker] at hnew
          exact absurd hnew hne
      · intro hstopped
        obtain ⟨hrepeat, -⟩ | ⟨hne, -⟩ := hseq
        · exact repeated_untouched app raw hdr channel tick hforeign hreach hrepeat
        · obtain h | h | h | h | h := hstopped
          · exact absurd h hshort
          · exact absurd (hreach.1.symm.trans h) (by decide)
          · exact absurd hlength h
          · exact absurd hbounded (not_le.mpr h)
          · exact absurd h hne
    · refine iff_of_true (stopped_untouched app raw hdr channel tick hforeign hreach) ?_
      by_contra hnone
      simp only [Stopped, not_or, not_not, not_lt] at hnone
      obtain ⟨-, hrate, hlength, hbounded, -⟩ := hnone
      exact hreach ⟨Bool.eq_true_of_not_eq_false hrate, hmac, hfresh, hlength, hbounded, hcrc⟩

/-! ## A command for the hazard light at the headlight's handler -/

def switchOn : List Byte := FirmwareKey.ascii "\x7b\"state\":\"on\"\x7d"

/-- A node that has just booted. -/
def booted : App := run step (boot ⟨false, false⟩ 0) []

/-- The sender's eleventh message. -/
def foreign : List Byte := sealed booted.key.nodeKey switchOn dataIdHazard ⟨10, 10⟩ ⟨10⟩ 100

theorem switchOn_short : switchOn.length ≤ 289 := by decide

theorem foreign_authentic : Authentic booted.key.nodeKey foreign 150 :=
  sealed_authentic _ _ _ _ _ _ _ switchOn_short (by decide)

theorem foreign_dataId : dataIdOf foreign ≠ dataIdHeadlight := by
  rw [foreign, sealed_dataIdOf _ _ _ _ _ _ switchOn_short]
  decide

theorem channel_isolation_iff_foreign :
    dataIdOf foreign ≠ dataIdHeadlight ∧
      (Untouched .headlight booted (handler booted .headlight foreign ⟨0, 0, 0, 0, 0⟩ 150) ↔
        Stopped booted .headlight foreign 150) :=
  ⟨foreign_dataId, channel_isolation_iff ⟨false, false⟩ 0 [] .headlight foreign ⟨0, 0, 0, 0, 0⟩ 150
    foreign_authentic.mac foreign_authentic.fresh foreign_authentic.crc foreign_dataId⟩

/-- After it a number the channel would have taken is a gap. -/
theorem foreign_message_counts :
    Authentic booted.key.nodeKey foreign 150 ∧ dataIdOf foreign ≠ dataIdHeadlight ∧
      (e2eSeqCheck (booted.checker .headlight) 5).1 = .ok ∧
      (e2eSeqCheck ((handler booted .headlight foreign ⟨0, 0, 0, 0, 0⟩ 150).checker .headlight)
        5).1 = .errSeqGap := by
  refine ⟨foreign_authentic, foreign_dataId, by decide, ?_⟩
  have hlength : foreign.length = 49 := sealed_length _ _ _ _ _ _ switchOn_short
  have hlong : ¬ foreign.length ≤ e2eHeaderSize + secocOverhead := by
    rw [hlength]
    decide
  have hrate : (rateCheck foreign dataIdHeadlight 150 booted.ids).1 = true := by
    rw [rateCheck, hlength]
    decide
  have hseq : sequenceOf foreign = 10 := sealed_sequenceOf _ _ _ _ _ _ switchOn_short
  rw [reaches_checker booted foreign ⟨0, 0, 0, 0, 0⟩ .headlight 150 foreign_dataId hlong
    ⟨hrate, foreign_authentic⟩, hseq]
  decide

end Genoh.ChannelIsolation
