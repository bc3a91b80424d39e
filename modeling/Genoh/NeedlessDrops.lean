import Genoh.RateLimit

/-!
# Needless drops of the rate limiter

Nothing ever leaves the ring of a channel but by being overwritten, and its timestamps are judged by
a signed difference of 32 bits: behind a long idle time old ones look young.
-/
namespace Genoh.NeedlessDrops

open Genoh.Run Genoh.FirmwareClock Genoh.FirmwareIds Genoh.RateLimit Genoh.SlidingWindow

/-- The time lies in the second before `now`, ends included. -/
def InWindow (now s : Nat) : Prop := now ≤ s + windowMs ∧ s ≤ now

/-- The time lies before the window, by a number of milliseconds that is negative as a signed
number of 32 bits, or a multiple of 2^32. -/
def LooksYoung (now s : Nat) : Prop :=
  s + windowMs < now ∧ ((now - (s + windowMs)) % 4294967296 = 0 ∨
    2147483648 < (now - (s + windowMs)) % 4294967296)

instance (now : Nat) : DecidablePred (InWindow now) := fun _ => inferInstanceAs (Decidable (_ ∧ _))

instance (now : Nat) : DecidablePred (LooksYoung now) := fun _ => inferInstanceAs (Decidable (_ ∧ _))

/-- The call is denied only if twenty messages of its channel were admitted in the window. -/
def Justified (w : Watched) (c : Call) : Prop :=
  (idsCheckMessage w.ids c.dataId c.msgSize (tickAt c.time)).1 = false →
    idsRateMaxMsg ≤ (w.admittedTo c.dataId).countP fun s => InWindow c.time s

/-- Fewer than twenty were, but with the old ones that look young there are twenty among the latest
twenty-four. -/
def Mistaken (w : Watched) (c : Call) : Prop :=
  ((w.admittedTo c.dataId).countP fun s => InWindow c.time s) < idsRateMaxMsg ∧
    idsRateMaxMsg ≤ ((w.admittedTo c.dataId).rtake ringSize).countP fun s =>
      InWindow c.time s ∨ LooksYoung c.time s

/-! ## The test -/

theorem reachesWindow_iff (now s : Nat) (h : s ≤ now) :
    reachesWindow (tickAt now) (tickAt s) = true ↔ InWindow now s ∨ LooksYoung now s := by
  have hrate : idsRateWindowMs.toNat = 1000 := rfl
  have hdiff : ((tickAt s - (tickAt now - idsRateWindowMs)).toNat : Int) =
      ((s : Int) + 1000 - now) % 4294967296 := by
    rw [tickAt, tickAt, BitVec.toNat_sub, BitVec.toNat_sub, BitVec.toNat_ofNat, BitVec.toNat_ofNat,
      hrate]
    omega
  rw [reachesWindow, decide_eq_true_eq, BitVec.toInt_eq_toNat_cond]
  simp only [InWindow, LooksYoung, windowMs]
  split
  · omega
  · omega

theorem checkChannel_denied_iff (ch : IdsChannel) (msgSize tick : BitVec 32) :
    (checkChannel ch msgSize tick).1 = false ↔ idsRateMaxMsg ≤ countInWindow ch tick := by
  have hcount : countInWindow { ch with totalMsgs := ch.totalMsgs + 1 } tick =
      countInWindow ch tick := rfl
  simp only [checkChannel, hcount]
  split
  · rename_i hmany
    simpa using hmany
  · rename_i hfew
    simpa using hfew

/-- A call is denied exactly when twenty of the latest times pass the test. -/
theorem denied_iff {w : Watched} {dataId : BitVec 16} (hw : Tracked w dataId) (msgSize : BitVec 32)
    (now : Nat) (hpast : ∀ s ∈ w.admittedTo dataId, s ≤ now) :
    (idsCheckMessage w.ids dataId msgSize (tickAt now)).1 = false ↔
      idsRateMaxMsg ≤ ((w.admittedTo dataId).rtake ringSize).countP fun s =>
        InWindow now s ∨ LooksYoung now s := by
  obtain ⟨⟨ch, hch, hring⟩, -, -⟩ := hw
  have hsame : ((w.admittedTo dataId).rtake ringSize).countP
      (fun s => reachesWindow (tickAt now) (tickAt s)) =
      ((w.admittedTo dataId).rtake ringSize).countP fun s => InWindow now s ∨ LooksYoung now s := by
    apply List.countP_congr
    intro s hs
    rw [reachesWindow_iff now s (hpast s (List.mem_of_mem_drop hs)), decide_eq_true_iff]
  rw [(checkMessage_channel w.ids dataId msgSize (tickAt now) hch).1, checkChannel_denied_iff,
    countInWindow_times now hring, hsame]

theorem justified_iff {w : Watched} {c : Call} (hw : Tracked w c.dataId)
    (hpast : ∀ s ∈ w.admittedTo c.dataId, s ≤ c.time) : Justified w c ↔ ¬ Mistaken w c := by
  rw [Justified, Mistaken, denied_iff hw c.msgSize c.time hpast]
  omega

/-! ## Runs -/

/-- On every registered channel, over every run of calls in nondecreasing real time, a call is denied
only with twenty admitted messages in its window exactly as long as no call comes where old ones that
look young make up the twenty. -/
theorem drops_justified_iff (dataIds : List (BitVec 16)) (dataId : BitVec 16)
    (hregistered : dataId ∈ (registerAll dataIds).channels.map IdsChannel.dataId)
    (calls : List Call) (htimes : (calls.map Call.time).Pairwise (· ≤ ·)) :
    Always step (start dataIds) (fun w c => c.dataId = dataId → Justified w c) calls ↔
      Always step (start dataIds) (fun w c => c.dataId = dataId → ¬ Mistaken w c) calls := by
  apply forall_congr'
  intro past
  apply forall_congr'
  intro c
  apply forall_congr'
  intro future
  apply forall_congr'
  rintro rfl
  rw [List.map_append, List.map_cons, List.pairwise_append] at htimes
  obtain ⟨hbefore, -, hle⟩ := htimes
  apply imp_congr_right
  rintro rfl
  apply justified_iff (run_tracked dataIds c.dataId hregistered past hbefore)
  intro s hs
  obtain ⟨c', hc', rfl⟩ := admittedTo_past dataIds c.dataId past s hs
  exact hle c'.time (List.mem_map_of_mem hc') c.time List.mem_cons_self

/-- A second message behind an idle time of 2^31 ms and more. -/
theorem drops_justified_idle : Always step (start [0x2010]) (fun w c => c.dataId = 0x2010 → Justified w c)
    [⟨0x2010, 64, 0⟩, ⟨0x2010, 64, 2147484649⟩] := by
  apply (drops_justified_iff [0x2010] 0x2010 (by decide) _ (by decide)).mpr
  rw [always_cons, always_cons]
  constructor
  · intro _ hmistaken
    exact absurd hmistaken.2 (by decide)
  · constructor
    · intro _ hmistaken
      exact absurd hmistaken.2 (by decide +kernel)
    · exact always_nil _ _ _

/-- Twenty messages, silence for 2^31 ms and a second, and the next message is denied. -/
theorem idle_channel_denies :
    ¬ Always step (start [0x2010]) (fun w c => c.dataId = 0x2010 → Justified w c)
      (List.replicate 20 ⟨0x2010, 64, 0⟩ ++ [⟨0x2010, 64, 2147484649⟩]) := by
  intro h
  have hlast := h (List.replicate 20 ⟨0x2010, 64, 0⟩) ⟨0x2010, 64, 2147484649⟩ [] rfl rfl
  have hdenied : (idsCheckMessage (run step (start [0x2010])
      (List.replicate 20 ⟨0x2010, 64, 0⟩)).ids 0x2010 64 (tickAt 2147484649)).1 = false := by
    decide +kernel
  exact absurd (hlast hdenied) (by decide +kernel)

end Genoh.NeedlessDrops
