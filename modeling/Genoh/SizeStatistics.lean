import Genoh.CheckedWords
import Genoh.RateLimit

/-!
# Size statistics

The arithmetic of the running average in `ids_check_message`, a second time over checked words. The
divisor of the baseline phase is the lifetime counter of the channel.
-/
namespace Genoh.SizeStatistics

open Genoh.Checked Genoh.CheckedWords Genoh.Run Genoh.FirmwareClock Genoh.FirmwareIds Genoh.RateLimit

/-! ## The function over checked words -/

/-- The size statistics after a message was counted. The threshold is only computed for an average
that is not zero. -/
def sizeCheckChecked (ch : IdsChannel) (msgSize : BitVec 32) : Checked Fault (IdsChannel × Bool) :=
  if ch.totalMsgs ≤ 10 then do
    let product ← mul ch.avgSize (ch.totalMsgs - 1)
    let sum ← add product msgSize
    let avgSize ← div sum ch.totalMsgs
    return ({ ch with avgSize := avgSize }, false)
  else do
    let threshold ← if ch.avgSize > 0 then mul ch.avgSize idsSizeAnomalyFactor else .ok 0
    let anomaly := decide (ch.avgSize > 0) && decide (msgSize > threshold)
    let ch := if anomaly then { ch with anomalyCount := ch.anomalyCount + 1 } else ch
    let product ← mul ch.avgSize 7
    let sum ← add product msgSize
    let avgSize ← div sum 8
    return ({ ch with avgSize := avgSize }, anomaly)

def checkChannelChecked (ch : IdsChannel) (msgSize currentTick : BitVec 32) :
    Checked Fault (Bool × IdsChannel × Bool) :=
  let ch := { ch with totalMsgs := ch.totalMsgs + 1 }
  if countInWindow ch currentTick ≥ idsRateMaxMsg then
    return (false, { ch with totalDropped := ch.totalDropped + 1 }, true)
  else do
    let (ch, alert) ← sizeCheckChecked (recordTimestamp ch currentTick) msgSize
    return (true, ch, alert)

theorem bounded_set (ids : IdsEngine) (i : Nat) (ch : IdsChannel) :
    (ids.channels.set i ch).length ≤ idsMaxChannels := by
  rw [List.length_set]
  exact ids.bounded

/-- `ids_check_message`. -/
def idsCheckMessageChecked (ids : IdsEngine) (dataId : BitVec 16) (msgSize currentTick : BitVec 32) :
    Checked Fault (Bool × IdsEngine) :=
  match ids.channels.findIdx? (·.dataId == dataId) with
  | none => return (true, ids)
  | some i => match ids.channels[i]? with
    | none => return (true, ids)
    | some ch => do
      let (allowed, ch, alert) ← checkChannelChecked ch msgSize currentTick
      return (allowed,
        { channels := ids.channels.set i ch
          bounded := bounded_set ids i ch
          totalAlerts := if alert then ids.totalAlerts + 1 else ids.totalAlerts })

/-! ## Bounds -/

/-- The largest message. -/
def maxSize : Nat := 65535

/-- In the baseline phase the average is one of sizes. -/
theorem baseline_bounds (avg total size : BitVec 32) (havg : avg.toNat ≤ maxSize)
    (hsize : size.toNat ≤ maxSize) (htotal : total ≤ 10) (hpos : total ≠ 0) :
    avg.toNat * (total - 1).toNat < 4294967296 ∧
      (avg * (total - 1)).toNat + size.toNat < 4294967296 ∧
      ((avg * (total - 1) + size) / total).toNat ≤ maxSize := by
  have hmax : maxSize = 65535 := rfl
  have hten : total.toNat ≤ 10 := htotal
  have hone : (total - 1).toNat = total.toNat - 1 := by bv_omega
  have htotalPos : 0 < total.toNat := by bv_omega
  have hproduct : avg.toNat * (total.toNat - 1) ≤ maxSize * (total.toNat - 1) :=
    Nat.mul_le_mul_right _ havg
  have hsum : maxSize * (total.toNat - 1) + maxSize = maxSize * total.toNat := by
    rw [← Nat.mul_succ]
    congr 1
    omega
  have hfits : maxSize * total.toNat ≤ maxSize * 10 := Nat.mul_le_mul_left _ hten
  have hmul : avg.toNat * (total - 1).toNat < 4294967296 := by
    rw [hone]
    omega
  have hadd : (avg * (total - 1)).toNat + size.toNat < 4294967296 := by
    rw [toNat_mul hmul, hone]
    omega
  refine ⟨hmul, hadd, ?_⟩
  rw [BitVec.toNat_udiv, toNat_add hadd, toNat_mul hmul, hone]
  apply Nat.div_le_of_le_mul
  rw [Nat.mul_comm total.toNat]
  omega

/-- In the running phase it stays one. -/
theorem running_bounds (avg size : BitVec 32) (havg : avg.toNat ≤ maxSize)
    (hsize : size.toNat ≤ maxSize) :
    avg.toNat * (7 : BitVec 32).toNat < 4294967296 ∧
      (avg * 7).toNat + size.toNat < 4294967296 ∧ ((avg * 7 + size) / 8).toNat ≤ maxSize := by
  have hmax : maxSize = 65535 := rfl
  have hseven : (7 : BitVec 32).toNat = 7 := rfl
  have height : (8 : BitVec 32).toNat = 8 := rfl
  have hmul : avg.toNat * (7 : BitVec 32).toNat < 4294967296 := by
    rw [hseven]
    omega
  have hadd : (avg * 7).toNat + size.toNat < 4294967296 := by
    rw [toNat_mul hmul, hseven]
    omega
  refine ⟨hmul, hadd, ?_⟩
  rw [BitVec.toNat_udiv, toNat_add hadd, toNat_mul hmul, hseven, height]
  omega

section Channel

variable {ch : IdsChannel} {msgSize : BitVec 32}

/-- The checked arithmetic has the values of the unchecked one. -/
theorem sizeCheckChecked_ok (havg : ch.avgSize.toNat ≤ maxSize) (hsize : msgSize.toNat ≤ maxSize)
    (hpositive : ch.totalMsgs ≠ 0) :
    sizeCheckChecked ch msgSize = .ok (sizeCheck ch msgSize) := by
  by_cases htotal : ch.totalMsgs ≤ 10
  · obtain ⟨hmul, hadd, -⟩ :=
      baseline_bounds ch.avgSize ch.totalMsgs msgSize havg hsize htotal hpositive
    rw [sizeCheckChecked, if_pos htotal, mul_ok hmul, ok_bind, add_ok hadd, ok_bind,
      div_ok hpositive, ok_bind, sizeCheck, if_pos htotal]
    rfl
  · obtain ⟨hmul, hadd, -⟩ := running_bounds ch.avgSize msgSize havg hsize
    have hfactor : ch.avgSize.toNat * idsSizeAnomalyFactor.toNat < 4294967296 := by
      have hthree : idsSizeAnomalyFactor.toNat = 3 := rfl
      have hmax : maxSize = 65535 := rfl
      rw [hthree]
      omega
    have height : (8 : BitVec 32) ≠ 0 := by decide
    rw [sizeCheckChecked, if_neg htotal, sizeCheck, if_neg htotal]
    by_cases hpos : ch.avgSize > 0
    · rw [if_pos hpos, mul_ok hfactor, ok_bind]
      dsimp only
      cases hanomaly : decide (ch.avgSize > 0) &&
          decide (msgSize > ch.avgSize * idsSizeAnomalyFactor) with
      | true =>
        rw [if_pos rfl, mul_ok hmul, ok_bind, add_ok hadd, ok_bind, div_ok height]
        rfl
      | false =>
        rw [if_neg Bool.false_ne_true, mul_ok hmul, ok_bind, add_ok hadd, ok_bind, div_ok height]
        rfl
    · rw [if_neg hpos, ok_bind, decide_eq_false hpos]
      dsimp only
      rw [Bool.false_and, Bool.false_and, if_neg Bool.false_ne_true, mul_ok hmul, ok_bind,
        add_ok hadd, ok_bind, div_ok height]
      rfl

/-- A counter that came round to zero is in the baseline phase, and divides. -/
theorem sizeCheckChecked_zero (hzero : ch.totalMsgs = 0) :
    ∃ fault, sizeCheckChecked ch msgSize = .error fault := by
  have htotal : (0 : BitVec 32) ≤ 10 := by decide
  rw [sizeCheckChecked, hzero, if_pos htotal]
  cases hmul : mul ch.avgSize (0 - 1) with
  | error fault => exact ⟨fault, rfl⟩
  | ok product => exact bind_div_zero _ _

theorem sizeCheck_avgSize (havg : ch.avgSize.toNat ≤ maxSize) (hsize : msgSize.toNat ≤ maxSize) :
    (sizeCheck ch msgSize).1.avgSize.toNat ≤ maxSize := by
  rw [sizeCheck]
  split
  · rename_i htotal
    by_cases hzero : ch.totalMsgs = 0
    · simp [hzero]
    · exact (baseline_bounds _ _ _ havg hsize htotal hzero).2.2
  · dsimp only
    split
    · exact (running_bounds _ _ havg hsize).2.2
    · exact (running_bounds _ _ havg hsize).2.2

theorem sizeCheck_totalMsgs : (sizeCheck ch msgSize).1.totalMsgs = ch.totalMsgs := by
  rw [sizeCheck]
  split
  · rfl
  · dsimp only
    split <;> rfl

theorem recordTimestamp_statistics (tick : BitVec 32) :
    (recordTimestamp ch tick).totalMsgs = ch.totalMsgs ∧
      (recordTimestamp ch tick).avgSize = ch.avgSize := by
  unfold recordTimestamp
  dsimp only
  split <;> exact ⟨rfl, rfl⟩

/-- A message counts one more, and the average stays one of sizes. -/
theorem checkChannel_statistics (havg : ch.avgSize.toNat ≤ maxSize)
    (hsize : msgSize.toNat ≤ maxSize) (tick : BitVec 32) :
    (checkChannel ch msgSize tick).2.1.totalMsgs = ch.totalMsgs + 1 ∧
      (checkChannel ch msgSize tick).2.1.avgSize.toNat ≤ maxSize := by
  obtain ⟨htotal, hsame⟩ :=
    @recordTimestamp_statistics { ch with totalMsgs := ch.totalMsgs + 1 } tick
  unfold checkChannel
  dsimp only
  split
  · exact ⟨rfl, havg⟩
  · constructor
    · rw [sizeCheck_totalMsgs, htotal]
    · apply sizeCheck_avgSize _ hsize
      rw [hsame]
      exact havg

/-- A check has its value unless it goes on with a counter that came round to zero. -/
theorem checkChannelChecked_cases (havg : ch.avgSize.toNat ≤ maxSize)
    (hsize : msgSize.toNat ≤ maxSize) (tick : BitVec 32) :
    if ch.totalMsgs + 1 = 0 ∧ countInWindow ch tick < idsRateMaxMsg then
      ∃ fault, checkChannelChecked ch msgSize tick = .error fault
    else checkChannelChecked ch msgSize tick = .ok (checkChannel ch msgSize tick) := by
  have hcount : countInWindow { ch with totalMsgs := ch.totalMsgs + 1 } tick =
      countInWindow ch tick := rfl
  obtain ⟨htotal, hsame⟩ :=
    @recordTimestamp_statistics { ch with totalMsgs := ch.totalMsgs + 1 } tick
  unfold checkChannelChecked checkChannel
  dsimp only
  rw [hcount]
  by_cases hmany : countInWindow ch tick ≥ idsRateMaxMsg
  · rw [if_neg fun h => absurd hmany (Nat.not_le.mpr h.2), if_pos hmany, if_pos hmany]
    rfl
  · rw [if_neg hmany, if_neg hmany]
    by_cases hzero : ch.totalMsgs + 1 = 0
    · rw [if_pos ⟨hzero, Nat.not_le.mp hmany⟩]
      obtain ⟨fault, hfault⟩ := @sizeCheckChecked_zero
        (recordTimestamp { ch with totalMsgs := ch.totalMsgs + 1 } tick) msgSize (htotal.trans hzero)
      rw [hfault]
      exact ⟨fault, rfl⟩
    · have hbound : (recordTimestamp { ch with totalMsgs := ch.totalMsgs + 1 } tick).avgSize.toNat ≤
          maxSize := by
        rw [hsame]
        exact havg
      have hpositive : (recordTimestamp { ch with totalMsgs := ch.totalMsgs + 1 } tick).totalMsgs ≠
          0 := by
        rw [htotal]
        exact hzero
      rw [if_neg fun h => hzero h.1, sizeCheckChecked_ok hbound hsize hpositive]
      rfl

end Channel

/-! ## Runs -/

/-- No product and no sum of the call wraps and nothing is divided by zero. -/
def Computes (w : Watched) (c : Call) : Prop :=
  idsCheckMessageChecked w.ids c.dataId c.msgSize (tickAt c.time) =
    .ok (idsCheckMessage w.ids c.dataId c.msgSize (tickAt c.time))

/-- The call finds as many timestamps in the window as the rate limiter lets through. -/
def RateLimited (w : Watched) (c : Call) : Prop :=
  ∃ ch, channelOf w.ids c.dataId = some ch ∧ idsRateMaxMsg ≤ countInWindow ch (tickAt c.time)

/-- The number of calls on a channel. -/
def callsOn (dataId : BitVec 16) (calls : List Call) : Nat := calls.countP (·.dataId = dataId)

/-- The statistics of a channel behind a history. -/
def Counted (dataId : BitVec 16) (past : List Call) (w : Watched) : Prop :=
  ∃ ch, channelOf w.ids dataId = some ch ∧ ch.totalMsgs = BitVec.ofNat 32 (callsOn dataId past) ∧
    ch.avgSize.toNat ≤ maxSize

theorem step_counted {dataId : BitVec 16} {past : List Call} {w : Watched} {c : Call}
    (hsize : c.dataId = dataId → c.msgSize.toNat ≤ maxSize) (hw : Counted dataId past w) :
    Counted dataId (past ++ [c]) (step w c) := by
  obtain ⟨ch, hch, htotal, havg⟩ := hw
  by_cases hid : c.dataId = dataId
  · subst hid
    obtain ⟨-, hchannel⟩ := checkMessage_channel w.ids c.dataId c.msgSize (tickAt c.time) hch
    obtain ⟨hmore, hbound⟩ := checkChannel_statistics havg (hsize rfl) (tickAt c.time)
    have hcalls : callsOn c.dataId (past ++ [c]) = callsOn c.dataId past + 1 := by
      simp [callsOn, List.countP_append]
    refine ⟨_, by rw [step, hchannel, if_pos rfl], ?_, hbound⟩
    rw [hmore, htotal, hcalls, BitVec.ofNat_add]
    rfl
  · have hcalls : callsOn dataId (past ++ [c]) = callsOn dataId past := by
      simp [callsOn, List.countP_append, hid]
    refine ⟨ch, ?_, by rw [hcalls, htotal], havg⟩
    rw [step, checkMessage_other _ _ _ _ _ (Ne.symm hid)]
    exact hch

theorem run_counted {dataIds : List (BitVec 16)} {dataId : BitVec 16}
    (hregistered : dataId ∈ (registerAll dataIds).channels.map IdsChannel.dataId)
    {calls : List Call} (hsizes : ∀ c ∈ calls, c.dataId = dataId → c.msgSize.toNat ≤ maxSize) :
    Counted dataId calls (run step (start dataIds) calls) := by
  induction calls using List.reverseRecOn with
  | nil => exact ⟨_, channelOf_registerAll hregistered, rfl, Nat.zero_le _⟩
  | append_singleton calls c ih =>
    rw [run_concat]
    apply step_counted (hsizes c (by simp))
    exact ih fun c' hc' => hsizes c' (List.mem_append_left _ hc')

/-- Only a call whose number is a multiple of 2^32 can fail, and does unless it is rate-limited. -/
theorem computes_iff {past : List Call} {w : Watched} {c : Call}
    (hsize : c.msgSize.toNat ≤ maxSize) (hw : Counted c.dataId past w) :
    Computes w c ↔ (4294967296 ∣ callsOn c.dataId past + 1 → RateLimited w c) := by
  obtain ⟨ch, hch, htotal, havg⟩ := hw
  have hzero : ch.totalMsgs + 1 = 0 ↔ 4294967296 ∣ callsOn c.dataId past + 1 := by
    rw [htotal, ← BitVec.toNat_inj, BitVec.toNat_add, BitVec.toNat_ofNat, Nat.dvd_iff_mod_eq_zero]
    simp
  have hlimited : RateLimited w c ↔ idsRateMaxMsg ≤ countInWindow ch (tickAt c.time) := by
    rw [RateLimited, hch]
    simp
  have hcases := checkChannelChecked_cases havg hsize (tickAt c.time)
  have hfound := findIdx_find IdsChannel.dataId w.ids.channels c.dataId
  rw [Computes, idsCheckMessageChecked, idsCheckMessage, hlimited, ← hzero]
  cases hindex : w.ids.channels.findIdx? (·.dataId == c.dataId) with
  | none =>
    rw [hindex] at hfound
    rw [channelOf, hfound] at hch
    cases hch
  | some i =>
    rw [hindex] at hfound
    obtain ⟨found, hget, hfind, -⟩ := hfound
    obtain rfl : found = ch := Option.some.inj (hfind.symm.trans hch)
    simp only [hget]
    split at hcases
    · rename_i hfails
      obtain ⟨fault, hfault⟩ := hcases
      rw [hfault]
      apply iff_of_false
      · intro h
        cases h
      · intro h
        exact absurd (h hfails.1) (Nat.not_le.mpr hfails.2)
    · rename_i hgood
      rw [hcases]
      apply iff_of_true rfl
      intro hwrapped
      exact Nat.not_lt.mp fun hfew => hgood ⟨hwrapped, hfew⟩

/-- On every registered channel whose messages have at most 65535 bytes, over every run of calls, the
checked arithmetic of the average comes to no fault exactly as long as every call whose number is a
multiple of 2^32 is rate-limited. -/
theorem statistics_compute_iff (dataIds : List (BitVec 16)) (dataId : BitVec 16)
    (hregistered : dataId ∈ (registerAll dataIds).channels.map IdsChannel.dataId)
    (calls : List Call) (hsizes : ∀ c ∈ calls, c.dataId = dataId → c.msgSize.toNat ≤ maxSize) :
    Always step (start dataIds) (fun w c => c.dataId = dataId → Computes w c) calls ↔
      ∀ past c future, calls = past ++ c :: future → c.dataId = dataId →
        4294967296 ∣ callsOn dataId past + 1 → RateLimited (run step (start dataIds) past) c := by
  apply forall_congr'
  intro past
  apply forall_congr'
  intro c
  apply forall_congr'
  intro future
  apply forall_congr'
  rintro rfl
  apply forall_congr'
  rintro rfl
  apply computes_iff (hsizes c (by simp) rfl)
  exact run_counted hregistered fun c' hc' => hsizes c' (List.mem_append_left _ hc')

/-- The largest message and then a small one. -/
theorem statistics_compute_two : Always step (start [0x2010])
    (fun w c => c.dataId = 0x2010 → Computes w c) [⟨0x2010, 65535, 0⟩, ⟨0x2010, 64, 10⟩] := by
  apply (statistics_compute_iff [0x2010] 0x2010 (by decide) _ (by decide)).mpr
  intro past c future heq _ hmultiple
  have hlength : past.length + 1 + future.length = 2 := by
    have := congrArg List.length heq
    simp only [List.length_append, List.length_cons, List.length_nil] at this
    omega
  have hcalls : callsOn 0x2010 past ≤ past.length := List.countP_le_length
  exact absurd (Nat.le_of_dvd (Nat.succ_pos _) hmultiple) (by omega)

/-- Messages at one time, and one two seconds later whose number is a multiple of 2^32: its window is
empty and it is let through. -/
theorem wrapped_counter_fails (n : Nat) (h : 4294967296 ∣ n + 1) :
    ¬ Always step (start [0x2010]) (fun w c => c.dataId = 0x2010 → Computes w c)
      (List.replicate n ⟨0x2010, 64, 0⟩ ++ [⟨0x2010, 64, 2000⟩]) := by
  intro hall
  have hlast := hall (List.replicate n ⟨0x2010, 64, 0⟩) ⟨0x2010, 64, 2000⟩ [] rfl rfl
  have hregistered : (0x2010 : BitVec 16) ∈
      (registerAll [0x2010]).channels.map IdsChannel.dataId := by decide
  have hsame : ∀ c ∈ List.replicate n (⟨0x2010, 64, 0⟩ : Call), c = ⟨0x2010, 64, 0⟩ :=
    fun c hc => List.eq_of_mem_replicate hc
  have hcalls : callsOn 0x2010 (List.replicate n ⟨0x2010, 64, 0⟩) = n := by
    simp [callsOn, List.countP_replicate]
  have hsizes : ∀ c ∈ List.replicate n (⟨0x2010, 64, 0⟩ : Call), c.dataId = 0x2010 →
      c.msgSize.toNat ≤ maxSize := by
    intro c hc _
    rw [hsame c hc]
    decide
  have hsorted : ((List.replicate n (⟨0x2010, 64, 0⟩ : Call)).map Call.time).Pairwise (· ≤ ·) := by
    simp [List.pairwise_replicate]
  rw [computes_iff (by decide) (run_counted hregistered hsizes)] at hlast
  obtain ⟨ch, hch, hmany⟩ := hlast (hcalls.symm ▸ h)
  obtain ⟨⟨ch', hch', hring⟩, -, -⟩ := run_tracked [0x2010] 0x2010 hregistered _ hsorted
  obtain rfl : ch' = ch := Option.some.inj (hch'.symm.trans hch)
  have hnone : countInWindow ch' (tickAt 2000) = 0 := by
    rw [countInWindow_times 2000 hring, List.countP_eq_zero]
    intro s hs
    obtain ⟨c, hc, rfl⟩ := admittedTo_past [0x2010] 0x2010 _ s (List.mem_of_mem_drop hs)
    rw [hsame c hc]
    decide
  rw [hnone] at hmany
  exact absurd hmany (by decide)

/-- 4294967295 messages at one time, and another two seconds later. -/
theorem counter_of_zero_fails :
    ¬ Always step (start [0x2010]) (fun w c => c.dataId = 0x2010 → Computes w c)
      (List.replicate 4294967295 ⟨0x2010, 64, 0⟩ ++ [⟨0x2010, 64, 2000⟩]) :=
  wrapped_counter_fails 4294967295 (by decide)

end Genoh.SizeStatistics
