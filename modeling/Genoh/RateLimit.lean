import Genoh.FirmwareClock
import Genoh.FirmwareIds
import Genoh.Run
import Genoh.SlidingWindow

/-!
# The rate limit of the node

Runs of `ids_check_message` over all channels in real time. The ring of a channel holds the
ticks of its latest admitted messages, which are enough to see twenty in the window.
-/
namespace Genoh.RateLimit

open Genoh.Run Genoh.FirmwareClock Genoh.FirmwareIds Genoh.LastElements Genoh.SlidingWindow

/-! ## The ring of a channel -/

def ringOf (ch : IdsChannel) : Ring (BitVec 32) ringSize := ⟨ch.timestamps, ch.tsHead, ch.tsCount⟩

/-- The test of `count_in_window` on one timestamp. -/
def reachesWindow (now ts : BitVec 32) : Bool := decide (0 ≤ (ts - (now - idsRateWindowMs)).toInt)

theorem countInWindow_contents (ch : IdsChannel) (now : BitVec 32) :
    countInWindow ch now = (ringOf ch).contents.countP (reachesWindow now) := by
  rw [Ring.contents, List.countP_map]
  rfl

theorem recordTimestamp_ring (ch : IdsChannel) (tick : BitVec 32) :
    ringOf (recordTimestamp ch tick) = (ringOf ch).push tick := by
  unfold recordTimestamp Ring.push
  dsimp only
  by_cases hroom : ch.tsCount.val < ringSize
  · rw [dif_pos hroom, dif_pos (show (ringOf ch).count.val < ringSize from hroom)]
    rfl
  · rw [dif_neg hroom, dif_neg (show ¬ (ringOf ch).count.val < ringSize from hroom)]
    rfl

theorem sizeCheck_ring (ch : IdsChannel) (msgSize : BitVec 32) :
    ringOf (sizeCheck ch msgSize).1 = ringOf ch ∧ (sizeCheck ch msgSize).1.dataId = ch.dataId := by
  unfold sizeCheck
  split
  · exact ⟨rfl, rfl⟩
  · dsimp only
    split <;> exact ⟨rfl, rfl⟩

theorem recordTimestamp_dataId (ch : IdsChannel) (tick : BitVec 32) :
    (recordTimestamp ch tick).dataId = ch.dataId := by
  unfold recordTimestamp
  dsimp only
  split <;> rfl

/-- A message is admitted while fewer than twenty timestamps reach the window, and then its own
goes into the ring. -/
theorem checkChannel_spec (ch : IdsChannel) (msgSize tick : BitVec 32) :
    (checkChannel ch msgSize tick).2.1.dataId = ch.dataId ∧
      (((checkChannel ch msgSize tick).1 = true ∧ countInWindow ch tick < idsRateMaxMsg ∧
          ringOf (checkChannel ch msgSize tick).2.1 = (ringOf ch).push tick) ∨
        ((checkChannel ch msgSize tick).1 = false ∧
          ringOf (checkChannel ch msgSize tick).2.1 = ringOf ch)) := by
  have hcount : countInWindow { ch with totalMsgs := ch.totalMsgs + 1 } tick =
      countInWindow ch tick := rfl
  unfold checkChannel
  dsimp only
  rw [hcount]
  split
  · exact ⟨rfl, .inr ⟨rfl, rfl⟩⟩
  · rename_i hfew
    obtain ⟨hring, hdataId⟩ := sizeCheck_ring
      (recordTimestamp { ch with totalMsgs := ch.totalMsgs + 1 } tick) msgSize
    rw [recordTimestamp_ring] at hring
    rw [recordTimestamp_dataId] at hdataId
    exact ⟨hdataId, .inl ⟨rfl, Nat.not_le.mp hfew, hring⟩⟩

/-! ## The channel of a data id -/

section Find

variable {α κ : Type} [DecidableEq κ] (key : α → κ)

/-- The first entry of a key, and what replacing it does to the first entries of all keys. -/
theorem findIdx_find (entries : List α) (k : κ) :
    match entries.findIdx? (key · == k) with
    | none => entries.find? (key · == k) = none
    | some i => ∃ e, entries[i]? = some e ∧ entries.find? (key · == k) = some e ∧
        ∀ e', key e' = k → ∀ k', (entries.set i e').find? (key · == k') =
          if k' = k then some e' else entries.find? (key · == k') := by
  induction entries with
  | nil => rfl
  | cons e entries ih =>
    rw [List.findIdx?_cons]
    by_cases hkey : key e = k
    · rw [if_pos (beq_iff_eq.mpr hkey)]
      refine ⟨e, rfl, by simp [hkey], fun e' he' k' => ?_⟩
      by_cases hk : k' = k
      · simp [hk, he']
      · have hfirst : ¬ key e' = k' := fun h => hk (h.symm.trans he')
        have hfirst' : ¬ key e = k' := fun h => hk (h.symm.trans hkey)
        simp [hk, hfirst, hfirst']
    · have hskip : (e :: entries).find? (key · == k) = entries.find? (key · == k) := by simp [hkey]
      rw [if_neg (by simpa using hkey), hskip]
      cases hindex : entries.findIdx? (key · == k) with
      | none =>
        rw [hindex] at ih
        exact ih
      | some i =>
        rw [hindex] at ih
        obtain ⟨found, hget, hfind, hset⟩ := ih
        refine ⟨found, hget, hfind, fun e' he' k' => ?_⟩
        rw [List.set_cons_succ, List.find?_cons, List.find?_cons]
        by_cases hk : key e = k'
        · have hne : ¬ k' = k := fun h => hkey (hk.trans h)
          simp [hk, hne]
        · have hother : (key e == k') = false := by simp [hk]
          simp only [hother, hset e' he' k']

end Find

/-- The channel that a message of this data id is counted on. -/
def channelOf (ids : IdsEngine) (dataId : BitVec 16) : Option IdsChannel :=
  ids.channels.find? (·.dataId == dataId)

/-- Nothing but the channel of the message changes. -/
theorem checkMessage_channel (ids : IdsEngine) (dataId : BitVec 16) (msgSize tick : BitVec 32)
    {ch : IdsChannel} (h : channelOf ids dataId = some ch) :
    (idsCheckMessage ids dataId msgSize tick).1 = (checkChannel ch msgSize tick).1 ∧
      ∀ other, channelOf (idsCheckMessage ids dataId msgSize tick).2 other =
        if other = dataId then some (checkChannel ch msgSize tick).2.1 else channelOf ids other := by
  have hfound := findIdx_find IdsChannel.dataId ids.channels dataId
  unfold idsCheckMessage
  cases hindex : ids.channels.findIdx? (·.dataId == dataId) with
  | none =>
    rw [hindex] at hfound
    rw [channelOf, hfound] at h
    cases h
  | some i =>
    rw [hindex] at hfound
    obtain ⟨found, hget, hfind, hset⟩ := hfound
    obtain rfl : found = ch := Option.some.inj (hfind.symm.trans h)
    have hdataId : found.dataId = dataId := by simpa using List.find?_some hfind
    simp only [hget, true_and]
    exact hset _ ((checkChannel_spec found msgSize tick).1.trans hdataId)

theorem checkMessage_other (ids : IdsEngine) (dataId other : BitVec 16) (msgSize tick : BitVec 32)
    (h : other ≠ dataId) :
    channelOf (idsCheckMessage ids dataId msgSize tick).2 other = channelOf ids other := by
  cases hch : channelOf ids dataId with
  | some ch =>
    rw [(checkMessage_channel ids dataId msgSize tick hch).2 other, if_neg h]
  | none =>
    have hnone : ids.channels.findIdx? (·.dataId == dataId) = none := by
      rw [List.findIdx?_eq_none_iff]
      simpa [channelOf] using hch
    simp only [idsCheckMessage, hnone]

/-! ## Runs in real time -/

/-- One call of `ids_check_message`, at a time. -/
structure Call where
  dataId : BitVec 16
  msgSize : BitVec 32
  time : Nat
  deriving DecidableEq, Repr

/-- The engine, and the data ids and times of the messages it has admitted, oldest first. -/
structure Watched where
  ids : IdsEngine
  admitted : List (BitVec 16 × Nat)

def step (w : Watched) (c : Call) : Watched :=
  let checked := idsCheckMessage w.ids c.dataId c.msgSize (tickAt c.time)
  { ids := checked.2
    admitted := if checked.1 then w.admitted ++ [(c.dataId, c.time)] else w.admitted }

/-- The engine with these channels registered, in their order. -/
def registerAll (dataIds : List (BitVec 16)) : IdsEngine := dataIds.foldl idsRegisterChannel idsInit

def start (dataIds : List (BitVec 16)) : Watched := ⟨registerAll dataIds, []⟩

/-- The times of the messages admitted on a channel. -/
def Watched.admittedTo (w : Watched) (dataId : BitVec 16) : List Nat :=
  (w.admitted.filter (·.1 = dataId)).map Prod.snd

theorem step_admittedTo (w : Watched) (c : Call) (dataId : BitVec 16) :
    (step w c).admittedTo dataId =
      if (idsCheckMessage w.ids c.dataId c.msgSize (tickAt c.time)).1 = true ∧ c.dataId = dataId then
        w.admittedTo dataId ++ [c.time]
      else w.admittedTo dataId := by
  by_cases hchecked : (idsCheckMessage w.ids c.dataId c.msgSize (tickAt c.time)).1 = true
  · have hmore : (step w c).admitted = w.admitted ++ [(c.dataId, c.time)] := if_pos hchecked
    rw [Watched.admittedTo, hmore, List.filter_append, List.map_append]
    by_cases hid : c.dataId = dataId
    · rw [if_pos ⟨hchecked, hid⟩, List.filter_cons_of_pos (by simpa using hid)]
      rfl
    · rw [if_neg (fun h => hid h.2), List.filter_cons_of_neg (by simpa using hid), List.filter_nil,
        List.map_nil, List.append_nil]
      rfl
  · have hsame : (step w c).admitted = w.admitted := if_neg hchecked
    rw [Watched.admittedTo, hsame, if_neg fun h => hchecked h.1]
    rfl

/-! ## The ring and the history -/

def windowMs : Nat := 1000

/-- What the ring holds of the admitted times, and that they came in order and spaced. -/
structure Tracked (w : Watched) (dataId : BitVec 16) : Prop where
  channel : ∃ ch, channelOf w.ids dataId = some ch ∧
    (ringOf ch).contents = ((w.admittedTo dataId).map tickAt).rtake ringSize
  spaced : Spaced idsRateMaxMsg windowMs (w.admittedTo dataId)
  sorted : (w.admittedTo dataId).Pairwise (· ≤ ·)

/-- A timestamp of the window passes the test, wherever the tick count wraps. -/
theorem reachesWindow_of_mem (now past : Nat) (hpast : past ≤ now) (hwindow : now ≤ past + windowMs) :
    reachesWindow (tickAt now) (tickAt past) = true := by
  have hsmall : (tickAt past - (tickAt now - idsRateWindowMs)).toNat < 2147483648 := by
    simp only [windowMs] at hwindow
    have hrate : idsRateWindowMs.toNat = 1000 := rfl
    rw [tickAt, tickAt, BitVec.toNat_sub, BitVec.toNat_sub, BitVec.toNat_ofNat, BitVec.toNat_ofNat,
      hrate]
    omega
  rw [reachesWindow, decide_eq_true_eq, BitVec.toInt_eq_toNat_of_lt (by omega)]
  exact Int.natCast_nonneg _

/-- What `count_in_window` counts are the latest admitted times that pass its test. -/
theorem countInWindow_times {times : List Nat} {ch : IdsChannel} (now : Nat)
    (hring : (ringOf ch).contents = (times.map tickAt).rtake ringSize) :
    countInWindow ch (tickAt now) =
      (times.rtake ringSize).countP fun s => reachesWindow (tickAt now) (tickAt s) := by
  rw [countInWindow_contents, hring, rtake_map, List.countP_map]
  rfl

/-- The test passes at least the timestamps of the window that the ring still has. -/
theorem countInWindow_ge {times : List Nat} {ch : IdsChannel} (now : Nat)
    (hring : (ringOf ch).contents = (times.map tickAt).rtake ringSize)
    (hpast : ∀ s ∈ times, s ≤ now) :
    (times.rtake ringSize).countP (fun s => now ≤ s + windowMs) ≤ countInWindow ch (tickAt now) := by
  rw [countInWindow_times now hring]
  apply List.countP_mono_left
  intro s hs hwindow
  exact reachesWindow_of_mem now s (hpast s (List.mem_of_mem_drop hs)) (of_decide_eq_true hwindow)

/-- An admitted message had fewer than twenty admitted ones in the window before it: of twenty the
ring would still have had all. -/
theorem admitted_few {times : List Nat} {ch : IdsChannel} (now : Nat)
    (hring : (ringOf ch).contents = (times.map tickAt).rtake ringSize)
    (hsorted : times.Pairwise (· ≤ ·)) (hpast : ∀ s ∈ times, s ≤ now)
    (hfew : countInWindow ch (tickAt now) < idsRateMaxMsg) :
    times.countP (fun s => now ≤ s + windowMs) < idsRateMaxMsg := by
  have hseen := countInWindow_ge now hring hpast
  rw [rtake_countP _ _ _ hsorted] at hseen
  have hsize : ringSize = idsRateMaxMsg + 4 := rfl
  omega

theorem step_tracked (w : Watched) (c : Call) (dataId : BitVec 16) (hw : Tracked w dataId)
    (hpast : ∀ s ∈ w.admittedTo dataId, s ≤ c.time) : Tracked (step w c) dataId := by
  obtain ⟨⟨ch, hch, hring⟩, hspaced, hsorted⟩ := hw
  by_cases hid : c.dataId = dataId
  · subst hid
    obtain ⟨hanswer, hchannel⟩ := checkMessage_channel w.ids c.dataId c.msgSize (tickAt c.time) hch
    have hafter : channelOf (step w c).ids c.dataId =
        some (checkChannel ch c.msgSize (tickAt c.time)).2.1 := by
      rw [step, hchannel, if_pos rfl]
    have htimes := step_admittedTo w c c.dataId
    rw [hanswer] at htimes
    obtain ⟨-, ⟨htrue, hfew, hpush⟩ | ⟨hfalse, hsame⟩⟩ :=
      checkChannel_spec ch c.msgSize (tickAt c.time)
    · rw [if_pos ⟨htrue, rfl⟩] at htimes
      constructor
      · refine ⟨_, hafter, ?_⟩
        rw [hpush, Ring.push_contents, hring, rtake_concat_rtake, htimes, List.map_append,
          List.map_singleton]
      · rw [htimes, spaced_concat]
        exact ⟨hspaced, admitted_few c.time hring hsorted hpast hfew⟩
      · rw [htimes, List.pairwise_append]
        refine ⟨hsorted, List.pairwise_singleton _ _, fun s hs t ht => ?_⟩
        rw [List.mem_singleton.mp ht]
        exact hpast s hs
    · rw [if_neg (fun h => by rw [hfalse] at h; cases h.1)] at htimes
      constructor
      · exact ⟨_, hafter, by rw [hsame, htimes, hring]⟩
      · rw [htimes]
        exact hspaced
      · rw [htimes]
        exact hsorted
  · have htimes : (step w c).admittedTo dataId = w.admittedTo dataId := by
      rw [step_admittedTo, if_neg fun h => hid h.2]
    constructor
    · refine ⟨ch, ?_, by rw [htimes, hring]⟩
      rw [step, checkMessage_other _ _ _ _ _ (Ne.symm hid)]
      exact hch
    · rw [htimes]
      exact hspaced
    · rw [htimes]
      exact hsorted

/-! ## Registration -/

/-- Registration adds channels that have not seen a message. -/
theorem registerAll_fresh (dataIds : List (BitVec 16)) :
    ∀ ch ∈ (registerAll dataIds).channels, ch = IdsChannel.fresh ch.dataId := by
  induction dataIds using List.reverseRecOn with
  | nil =>
    intro ch hch
    cases hch
  | append_singleton dataIds dataId ih =>
    have hlast : registerAll (dataIds ++ [dataId]) =
        idsRegisterChannel (registerAll dataIds) dataId := by
      rw [registerAll, List.foldl_append]
      rfl
    rw [hlast, idsRegisterChannel]
    split
    · exact ih
    · intro ch hch
      obtain hold | hnew := List.mem_append.mp hch
      · exact ih ch hold
      · rw [List.mem_singleton.mp hnew]
        rfl

theorem channelOf_registerAll {dataIds : List (BitVec 16)} {dataId : BitVec 16}
    (hregistered : dataId ∈ (registerAll dataIds).channels.map IdsChannel.dataId) :
    channelOf (registerAll dataIds) dataId = some (IdsChannel.fresh dataId) := by
  obtain ⟨ch, hch, hid⟩ := List.mem_map.mp hregistered
  cases hfind : channelOf (registerAll dataIds) dataId with
  | none =>
    rw [channelOf, List.find?_eq_none] at hfind
    exact absurd (beq_iff_eq.mpr hid) (hfind ch hch)
  | some found =>
    have hfound : found.dataId = dataId := by simpa using List.find?_some hfind
    rw [registerAll_fresh dataIds found (List.mem_of_find?_eq_some hfind), hfound]

theorem start_tracked (dataIds : List (BitVec 16)) (dataId : BitVec 16)
    (hregistered : dataId ∈ (registerAll dataIds).channels.map IdsChannel.dataId) :
    Tracked (start dataIds) dataId := by
  have hnone : (start dataIds).admittedTo dataId = [] := rfl
  constructor
  · refine ⟨IdsChannel.fresh dataId, channelOf_registerAll hregistered, ?_⟩
    rw [hnone]
    rfl
  · rw [hnone]
    exact spaced_nil _ _
  · rw [hnone]
    exact List.Pairwise.nil

/-! ## The bound -/

/-- What is admitted came in a call. -/
theorem admittedTo_past (dataIds : List (BitVec 16)) (dataId : BitVec 16) (past : List Call) :
    ∀ s ∈ (run step (start dataIds) past).admittedTo dataId, ∃ c ∈ past, c.time = s := by
  induction past using List.reverseRecOn with
  | nil =>
    intro s hs
    cases hs
  | append_singleton past c ih =>
    intro s hs
    rw [run_concat, step_admittedTo] at hs
    split at hs
    · obtain hold | hnew := List.mem_append.mp hs
      · obtain ⟨c', hc', htime⟩ := ih s hold
        exact ⟨c', List.mem_append_left _ hc', htime⟩
      · exact ⟨c, by simp, (List.mem_singleton.mp hnew).symm⟩
    · obtain ⟨c', hc', htime⟩ := ih s hs
      exact ⟨c', List.mem_append_left _ hc', htime⟩

theorem run_tracked (dataIds : List (BitVec 16)) (dataId : BitVec 16)
    (hregistered : dataId ∈ (registerAll dataIds).channels.map IdsChannel.dataId)
    (calls : List Call) (htimes : (calls.map Call.time).Pairwise (· ≤ ·)) :
    Tracked (run step (start dataIds) calls) dataId := by
  induction calls using List.reverseRecOn with
  | nil => exact start_tracked dataIds dataId hregistered
  | append_singleton calls c ih =>
    rw [List.map_append, List.pairwise_append] at htimes
    obtain ⟨hcalls, -, hle⟩ := htimes
    rw [run_concat]
    apply step_tracked _ c dataId (ih hcalls)
    intro s hs
    obtain ⟨c', hc', rfl⟩ := admittedTo_past dataIds dataId calls s hs
    exact hle c'.time (List.mem_map_of_mem hc') c.time (by simp)

/-- On every registered channel, over every run of calls in nondecreasing real time, at most twenty
messages are admitted in any second, ends included. -/
theorem rate_limit (dataIds : List (BitVec 16)) (dataId : BitVec 16)
    (hregistered : dataId ∈ (registerAll dataIds).channels.map IdsChannel.dataId)
    (calls : List Call) (htimes : (calls.map Call.time).Pairwise (· ≤ ·)) (t : Nat) :
    ((run step (start dataIds) calls).admittedTo dataId).countP
      (fun s => t ≤ s + windowMs ∧ s ≤ t) ≤ idsRateMaxMsg :=
  spaced_window _ _ (run_tracked dataIds dataId hregistered calls htimes).spaced t

/-- Thirty messages in the milliseconds around the wrap of the tick count. -/
theorem rate_limit_wrap :
    ((run step (start [0x2010, 0x2011]) ((List.range 30).map fun i =>
      ⟨0x2010, 64, 4294967280 + i⟩)).admittedTo 0x2010).countP
        (fun s => 4294967300 ≤ s + windowMs ∧ s ≤ 4294967300) ≤ idsRateMaxMsg :=
  rate_limit [0x2010, 0x2011] 0x2010 (by decide) _ (by decide) 4294967300

end Genoh.RateLimit
