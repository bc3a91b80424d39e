import Mathlib.Data.BitVec

/-!
# Firmware intrusion detection

The sliding-window rate limiter and the size statistics of `ids_engine.c`. The engine
keeps at most four channels, each with a ring of the ticks of its latest messages.
-/
namespace Genoh.FirmwareIds

def idsMaxChannels : Nat := 4
def idsRateWindowMs : BitVec 32 := 1000
def idsRateMaxMsg : Nat := 20
def idsSizeAnomalyFactor : BitVec 32 := 3

/-- The number of slots of the timestamp ring. -/
def ringSize : Nat := idsRateMaxMsg + 4

/-- `ids_channel_t`. -/
structure IdsChannel where
  dataId : BitVec 16
  timestamps : Vector (BitVec 32) ringSize
  tsHead : Fin ringSize
  tsCount : Fin (ringSize + 1)
  totalMsgs : BitVec 32
  totalDropped : BitVec 32
  avgSize : BitVec 32
  anomalyCount : BitVec 32
  deriving DecidableEq, Repr

/-- A channel as `memset` and the assignment of its id leave it. -/
def IdsChannel.fresh (dataId : BitVec 16) : IdsChannel :=
  ⟨dataId, Vector.replicate ringSize 0, ⟨0, by decide⟩, 0, 0, 0, 0, 0⟩

/-- `ids_engine_t`, with the used part of its channel array. -/
structure IdsEngine where
  channels : List IdsChannel
  bounded : channels.length ≤ idsMaxChannels
  totalAlerts : BitVec 32

def idsInit : IdsEngine := ⟨[], Nat.zero_le _, 0⟩

def idsRegisterChannel (ids : IdsEngine) (dataId : BitVec 16) : IdsEngine :=
  if h : ids.channels.length ≥ idsMaxChannels then ids
  else
    { ids with
      channels := ids.channels ++ [IdsChannel.fresh dataId]
      bounded := by
        rw [List.length_append, List.length_singleton]
        omega }

/-- The place of the `i`-th oldest timestamp. -/
def ringSlot (ch : IdsChannel) (i : Nat) : Fin ringSize :=
  ⟨(ch.tsHead.val + i) % ringSize, Nat.mod_lt _ (by decide)⟩

/-- `count_in_window`. -/
def countInWindow (ch : IdsChannel) (now : BitVec 32) : Nat :=
  let windowStart := now - idsRateWindowMs
  (List.range ch.tsCount).countP fun i =>
    decide (0 ≤ (ch.timestamps[ringSlot ch i] - windowStart).toInt)

/-- The tick goes behind the youngest one; a full ring loses its oldest. -/
def recordTimestamp (ch : IdsChannel) (currentTick : BitVec 32) : IdsChannel :=
  let ch' := { ch with timestamps := ch.timestamps.set (ringSlot ch ch.tsCount) currentTick }
  if h : ch.tsCount.val < ringSize then { ch' with tsCount := ⟨ch.tsCount.val + 1, by omega⟩ }
  else { ch' with tsHead := ringSlot ch 1 }

/-- The size statistics after a message was counted, and whether they raise an alert. The
first ten messages build the average. -/
def sizeCheck (ch : IdsChannel) (msgSize : BitVec 32) : IdsChannel × Bool :=
  if ch.totalMsgs ≤ 10 then
    ({ ch with avgSize := (ch.avgSize * (ch.totalMsgs - 1) + msgSize) / ch.totalMsgs }, false)
  else
    let anomaly := decide (ch.avgSize > 0) && decide (msgSize > ch.avgSize * idsSizeAnomalyFactor)
    let ch := if anomaly then { ch with anomalyCount := ch.anomalyCount + 1 } else ch
    ({ ch with avgSize := (ch.avgSize * 7 + msgSize) / 8 }, anomaly)

/-- `ids_check_message` on the channel it found: the answer, the channel and whether
an alert is counted. -/
def checkChannel (ch : IdsChannel) (msgSize currentTick : BitVec 32) : Bool × IdsChannel × Bool :=
  let ch := { ch with totalMsgs := ch.totalMsgs + 1 }
  if countInWindow ch currentTick ≥ idsRateMaxMsg then
    (false, { ch with totalDropped := ch.totalDropped + 1 }, true)
  else
    let (ch, alert) := sizeCheck (recordTimestamp ch currentTick) msgSize
    (true, ch, alert)

/-- `ids_check_message`. A data id nobody registered is let through. -/
def idsCheckMessage (ids : IdsEngine) (dataId : BitVec 16) (msgSize currentTick : BitVec 32) :
    Bool × IdsEngine :=
  match ids.channels.findIdx? (·.dataId == dataId) with
  | none => (true, ids)
  | some i => match ids.channels[i]? with
    | none => (true, ids)
    | some ch =>
      let (allowed, ch, alert) := checkChannel ch msgSize currentTick
      (allowed,
        { channels := ids.channels.set i ch
          bounded := by
            rw [List.length_set]
            exact ids.bounded
          totalAlerts := if alert then ids.totalAlerts + 1 else ids.totalAlerts })

end Genoh.FirmwareIds
