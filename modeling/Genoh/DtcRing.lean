import Mathlib.Data.List.Rotate
import Genoh.FirmwareDiagnostics
import Genoh.Run
import Genoh.SlidingWindow

/-!
# The trouble-code ring

`dtc_record` and `dtc_clear` over whole runs. Oldest first the ring is a bounded list of entries with
distinct codes: a known code changes its entry in place, a new one goes behind the youngest and
pushes out the oldest.
-/
namespace Genoh.DtcRing

open Genoh.Run Genoh.FirmwareDiagnostics Genoh.LastElements Genoh.SlidingWindow

/-! ## The bounded list -/

/-- The entry after another record of its code. -/
def seenAgain (e : DtcEntry) (freeze : DtcFreezeFrame) : DtcEntry :=
  { e with
    occurrenceCount :=
      if e.occurrenceCount < 255 then e.occurrenceCount + 1 else e.occurrenceCount
    freeze := freeze }

/-- A record on entries that are listed oldest first. -/
def recordIn (entries : List DtcEntry) (code : BitVec 16) (freeze : DtcFreezeFrame) :
    List DtcEntry :=
  if entries.any (·.code == code) then
    entries.map fun e => if e.code = code then seenAgain e freeze else e
  else (entries ++ [DtcEntry.mk code 1 freeze]).rtake dtcMaxEntries

theorem seenAgain_code (e : DtcEntry) (freeze : DtcFreezeFrame) :
    (seenAgain e freeze).code = e.code := rfl

theorem any_code (entries : List DtcEntry) (code : BitVec 16) :
    entries.any (·.code == code) = true ↔ code ∈ entries.map DtcEntry.code := by
  simp [List.any_eq_true]

/-- A known code leaves all codes where they are. -/
theorem recordIn_known {entries : List DtcEntry} {code : BitVec 16} (freeze : DtcFreezeFrame)
    (h : code ∈ entries.map DtcEntry.code) :
    (recordIn entries code freeze).map DtcEntry.code = entries.map DtcEntry.code := by
  rw [recordIn, if_pos ((any_code entries code).mpr h), List.map_map]
  apply List.map_congr_left
  intro e _
  by_cases hcode : e.code = code
  · simp [hcode, seenAgain_code]
  · simp [hcode]

theorem recordIn_new {entries : List DtcEntry} {code : BitVec 16} (freeze : DtcFreezeFrame)
    (h : code ∉ entries.map DtcEntry.code) :
    recordIn entries code freeze = (entries ++ [DtcEntry.mk code 1 freeze]).rtake dtcMaxEntries :=
  if_neg fun hany => h ((any_code entries code).mp hany)

/-! ## The ring as a bounded list -/

theorem dtcMaxEntries_pos : 0 < dtcMaxEntries := by decide

/-- The ring starts at the first slot until it is full. -/
def ringOf (dm : DtcManager) : Ring DtcEntry dtcMaxEntries :=
  ⟨dm.entries, if dm.count.val < dtcMaxEntries then ⟨0, dtcMaxEntries_pos⟩ else dm.writeIdx, dm.count⟩

/-- The stored entries: those of the indices that `dtc_get_entry` answers. -/
def stored (dm : DtcManager) : List DtcEntry := dm.entries.toList.take dm.count

/-- Until the ring is full the next entry goes behind the stored ones. -/
def Aligned (dm : DtcManager) : Prop := dm.count.val < dtcMaxEntries → dm.writeIdx.val = dm.count.val

theorem stored_getElem? (dm : DtcManager) (i : Nat) :
    (stored dm)[i]? = if i < dm.count.val then dm.entries.toList[i]? else none :=
  List.getElem?_take

theorem dtcGetEntry_stored (dm : DtcManager) (index : Fin dtcMaxEntries) :
    dtcGetEntry dm index = (stored dm)[index.val]? := by
  rw [dtcGetEntry, stored_getElem?]
  by_cases hin : index.val < dm.count.val
  · rw [if_neg (Nat.not_le.mpr hin), if_pos hin]
    simp
  · rw [if_pos (Nat.not_lt.mp hin), if_neg hin]

/-- Oldest first they are the stored ones, from the write index on when the ring is full. -/
theorem contents_perm (dm : DtcManager) : (ringOf dm).contents.Perm (stored dm) := by
  have hlength : dm.entries.toList.length = dtcMaxEntries := dm.entries.size_toArray
  have hslot : ∀ i, (ringOf dm).contents[i]? = if i < dm.count.val then
      dm.entries.toList[((ringOf dm).slot i).val]? else none := by
    intro i
    rw [Ring.contents_getElem?]
    apply if_congr Iff.rfl _ rfl
    simp [ringOf]
  by_cases hroom : dm.count.val < dtcMaxEntries
  · have heq : (ringOf dm).contents = stored dm := by
      apply List.ext_getElem?
      intro i
      rw [hslot, stored_getElem?]
      by_cases hi : i < dm.count.val
      · have hplace : ((ringOf dm).slot i).val = i := by
          simp only [Ring.slot, ringOf, if_pos hroom, Nat.zero_add]
          exact Nat.mod_eq_of_lt (by omega)
        rw [hplace]
      · rw [if_neg hi, if_neg hi]
    rw [heq]
  · have hfull : dm.count.val = dtcMaxEntries := by omega
    have hall : stored dm = dm.entries.toList := List.take_of_length_le (by omega)
    have heq : (ringOf dm).contents = (stored dm).rotate dm.writeIdx := by
      apply List.ext_getElem?
      intro i
      rw [hslot, hall]
      by_cases hi : i < dm.count.val
      · have hplace : ((ringOf dm).slot i).val = (i + dm.writeIdx.val) % dtcMaxEntries := by
          simp only [Ring.slot, ringOf, if_neg hroom, Nat.add_comm]
        rw [if_pos hi, List.getElem?_rotate (by omega), hlength, hplace]
      · rw [if_neg hi, List.getElem?_eq_none (by rw [List.length_rotate]; omega)]
    rw [heq]
    exact List.rotate_perm _ _

/-! ## What the operations do to the list -/

/-- Where the ring finds a code: at a stored index that has it. -/
theorem findCode_some {dm : DtcManager} {code : BitVec 16} {i : Fin dtcMaxEntries}
    (h : findCode dm code = some i) : i.val < dm.count.val ∧ (dm.entries.get i).code = code := by
  have hi := List.find?_some h
  rw [Bool.and_eq_true, decide_eq_true_iff, beq_iff_eq] at hi
  exact hi

theorem findCode_none {dm : DtcManager} {code : BitVec 16} (h : findCode dm code = none) :
    code ∉ (ringOf dm).contents.map DtcEntry.code := by
  rw [findCode, List.find?_eq_none] at h
  rw [((contents_perm dm).map DtcEntry.code).mem_iff]
  intro hmem
  obtain ⟨e, he, hcode⟩ := List.mem_map.mp hmem
  obtain ⟨i, hi⟩ := List.mem_iff_getElem?.mp he
  rw [stored_getElem?] at hi
  split at hi
  · rename_i hlt
    have hbound : i < dtcMaxEntries := by omega
    have hentry : dm.entries[i] = e := by simpa [hbound] using hi
    apply h ⟨i, hbound⟩ (List.mem_finRange _)
    simp [hlt, hentry, hcode]
  · cases hi

theorem stored_any (dm : DtcManager) (code : BitVec 16) :
    (stored dm).any (·.code == code) = (ringOf dm).contents.any (·.code == code) := by
  rw [Bool.eq_iff_iff, any_code, any_code]
  exact ((contents_perm dm).map DtcEntry.code).mem_iff.symm

theorem findCode_known (dm : DtcManager) (code : BitVec 16) :
    (findCode dm code).isSome = (stored dm).any (·.code == code) := by
  cases hfound : findCode dm code with
  | some i =>
    obtain ⟨hi, hcode⟩ := findCode_some hfound
    have hentry : (stored dm)[i.val]? = some dm.entries[i] := by
      rw [← dtcGetEntry_stored, dtcGetEntry, if_neg (Nat.not_le.mpr hi)]
    symm
    rw [Option.isSome_some, any_code]
    exact List.mem_map.mpr ⟨_, List.mem_of_getElem? hentry, hcode⟩
  | none =>
    symm
    rw [Option.isSome_none, stored_any, Bool.eq_false_iff, ne_eq, any_code]
    exact findCode_none hfound

/-- An index of the ring that is used is one of a stored entry. -/
theorem slot_used (dm : DtcManager) {i : Nat} (h : i < dm.count.val) :
    ((ringOf dm).slot i).val < dm.count.val := by
  have hbound : ((ringOf dm).slot i).val < dtcMaxEntries := ((ringOf dm).slot i).isLt
  by_cases hroom : dm.count.val < dtcMaxEntries
  · simp only [Ring.slot, ringOf, if_pos hroom, Nat.zero_add]
    exact Nat.lt_of_le_of_lt (Nat.mod_le i _) h
  · omega

/-- No two stored indices have one code. -/
theorem stored_distinct {dm : DtcManager} (hdistinct : ((stored dm).map DtcEntry.code).Nodup)
    {i j : Fin dtcMaxEntries} (hi : i.val < dm.count.val) (hj : j.val < dm.count.val)
    (hcode : dm.entries[i].code = dm.entries[j].code) : i = j := by
  have hget : ∀ k : Fin dtcMaxEntries, k.val < dm.count.val →
      ((stored dm).map DtcEntry.code)[k.val]? = some dm.entries[k].code := by
    intro k hk
    rw [List.getElem?_map, stored_getElem?, if_pos hk]
    simp
  have hlength : i.val < ((stored dm).map DtcEntry.code).length := by
    by_contra hle
    have hnone := List.getElem?_eq_none (Nat.not_lt.mp hle)
    rw [hget i hi] at hnone
    cases hnone
  apply Fin.ext
  apply (List.getElem?_inj hlength hdistinct).mp
  rw [hget i hi, hget j hj, hcode]

theorem dtcRecord_push {dm : DtcManager} {code : BitVec 16} (freeze : DtcFreezeFrame)
    (haligned : Aligned dm) (hnew : findCode dm code = none) :
    ringOf (dtcRecord dm code freeze) = (ringOf dm).push ⟨code, 1, freeze⟩ := by
  have hcount := dm.count.isLt
  have hwrite := dm.writeIdx.isLt
  have hplace : (ringOf dm).slot dm.count.val = dm.writeIdx := by
    apply Fin.ext
    by_cases hroom : dm.count.val < dtcMaxEntries
    · simp only [Ring.slot, ringOf, if_pos hroom, Nat.zero_add, haligned hroom]
      exact Nat.mod_eq_of_lt hroom
    · have hfull : dm.count.val = dtcMaxEntries := by omega
      simp only [Ring.slot, ringOf, hfull, Nat.add_mod_right]
      exact Nat.mod_eq_of_lt hwrite
  have hset : ∀ k : Fin dtcMaxEntries, k = dm.writeIdx →
      (ringOf dm).slots.set k ⟨code, 1, freeze⟩ = dm.entries.set dm.writeIdx ⟨code, 1, freeze⟩ := by
    rintro _ rfl
    rfl
  rw [dtcRecord, hnew, Ring.push, hset ((ringOf dm).slot (ringOf dm).count) hplace]
  dsimp only
  by_cases hroom : dm.count.val < dtcMaxEntries
  · rw [dif_pos (show (ringOf dm).count.val < dtcMaxEntries from hroom), ringOf]
    simp only [dif_pos hroom, ringOf, if_pos hroom]
    congr 1
    by_cases hlast : dm.count.val + 1 < dtcMaxEntries
    · rw [if_pos hlast]
    · rw [if_neg hlast]
      apply Fin.ext
      have hfull : dm.writeIdx.val + 1 = dtcMaxEntries := by
        rw [haligned hroom]
        omega
      simp only [hfull, Nat.mod_self]
  · rw [dif_neg (show ¬ (ringOf dm).count.val < dtcMaxEntries from hroom), ringOf]
    simp only [dif_neg hroom, ringOf, if_neg hroom, Ring.slot]

/-- A record acts on the list. -/
theorem dtcRecord_contents {dm : DtcManager} (code : BitVec 16) (freeze : DtcFreezeFrame)
    (haligned : Aligned dm) (hdistinct : ((stored dm).map DtcEntry.code).Nodup) :
    (ringOf (dtcRecord dm code freeze)).contents = recordIn (ringOf dm).contents code freeze := by
  cases hfound : findCode dm code with
  | none =>
    rw [dtcRecord_push freeze haligned hfound, Ring.push_contents, recordIn_new freeze (findCode_none hfound)]
  | some i =>
    obtain ⟨hi, hget⟩ := findCode_some hfound
    have hcode : dm.entries[i].code = code := hget
    have hknown : (ringOf dm).contents.any (·.code == code) = true := by
      rw [← stored_any, ← findCode_known, hfound]
      rfl
    have hring : ringOf (dtcRecord dm code freeze) = { ringOf dm with
        slots := dm.entries.set i (seenAgain dm.entries[i] freeze) } := by
      rw [dtcRecord, hfound]
      rfl
    have hentry : ∀ s : Fin dtcMaxEntries, s.val < dm.count.val →
        (dm.entries.set i (seenAgain dm.entries[i] freeze))[s] =
          if dm.entries[s].code = code then seenAgain dm.entries[s] freeze else dm.entries[s] := by
      intro s hs
      by_cases hsame : s = i
      · subst hsame
        rw [if_pos hcode]
        exact Vector.getElem_set_self _
      · rw [if_neg fun h => hsame (stored_distinct hdistinct hs hi (h.trans hcode.symm))]
        exact Vector.getElem_set_ne _ _ fun heq => hsame (Fin.ext heq.symm)
    rw [recordIn, if_pos hknown, hring]
    exact (ringOf dm).contents_map fun j hj => hentry ((ringOf dm).slot j) (slot_used dm hj)

/-! ## Runs -/

inductive Event where
  | record (code : BitVec 16) (freeze : DtcFreezeFrame)
  | clear
  deriving DecidableEq, Repr

/-- The ring, the codes inserted since it was cleared, the frames recorded of a code since its
insertion, oldest first each, and the number of all records. -/
structure Recorded where
  dm : DtcManager
  insertions : List (BitVec 16)
  since : BitVec 16 → List DtcFreezeFrame
  records : Nat

/-- A record of a code that is not stored is an insertion. -/
def step (w : Recorded) : Event → Recorded
  | .record code freeze =>
    let known := (stored w.dm).any (·.code == code)
    { dm := dtcRecord w.dm code freeze
      insertions := if known then w.insertions else w.insertions ++ [code]
      since := fun other =>
        if other = code then if known then w.since code ++ [freeze] else [freeze]
        else w.since other
      records := w.records + 1 }
  | .clear => { dm := dtcClear w.dm, insertions := [], since := fun _ => [], records := w.records }

def start : Recorded := ⟨dtcInit, [], fun _ => [], 0⟩

/-- The entry counts the records of its code since the insertion, and has the latest frame. -/
def Tells (since : BitVec 16 → List DtcFreezeFrame) (e : DtcEntry) : Prop :=
  e.occurrenceCount.toNat = min 255 (since e.code).length ∧
    (since e.code).getLast? = some e.freeze

/-- What the ring shows of its history. -/
structure Shows (w : Recorded) : Prop where
  count : w.dm.count.val = min dtcMaxEntries w.insertions.length
  writeIdx : w.dm.writeIdx.val = w.insertions.length % dtcMaxEntries
  distinct : ((stored w.dm).map DtcEntry.code).Nodup
  codes : ((stored w.dm).map DtcEntry.code).Perm (w.insertions.rtake dtcMaxEntries)
  entries : ∀ e ∈ stored w.dm, Tells w.since e
  total : w.dm.totalDtcs = BitVec.ofNat 32 w.records

/-- The same of the entries oldest first, in the order of their insertions. -/
structure Tracks (w : Recorded) : Prop where
  writeIdx : w.dm.writeIdx.val = w.insertions.length % dtcMaxEntries
  codes : (ringOf w.dm).contents.map DtcEntry.code = w.insertions.rtake dtcMaxEntries
  distinct : ((ringOf w.dm).contents.map DtcEntry.code).Nodup
  entries : ∀ e ∈ (ringOf w.dm).contents, Tells w.since e
  total : w.dm.totalDtcs = BitVec.ofNat 32 w.records

theorem Tracks.count {w : Recorded} (h : Tracks w) :
    w.dm.count.val = min dtcMaxEntries w.insertions.length := by
  have hlength := congrArg List.length h.codes
  rw [List.length_map, Ring.contents_length, length_rtake] at hlength
  change w.dm.count.val = _ at hlength
  omega

theorem Tracks.aligned {w : Recorded} (h : Tracks w) : Aligned w.dm := by
  intro hroom
  have hcount := h.count
  have hwrite := h.writeIdx
  rw [hwrite, Nat.mod_eq_of_lt (by omega)]
  omega

theorem Tracks.shows {w : Recorded} (h : Tracks w) : Shows w where
  count := h.count
  writeIdx := h.writeIdx
  distinct := ((contents_perm w.dm).map DtcEntry.code).nodup_iff.mp h.distinct
  codes := by
    rw [← h.codes]
    exact ((contents_perm w.dm).map DtcEntry.code).symm
  entries := fun e he => h.entries e ((contents_perm w.dm).mem_iff.mpr he)
  total := h.total

theorem tells_congr {since since' : BitVec 16 → List DtcFreezeFrame} {e : DtcEntry}
    (hsame : since' e.code = since e.code) (h : Tells since e) : Tells since' e := by
  rw [Tells, hsame]
  exact h

/-- An entry that counts up still tells of its code. -/
theorem tells_again {since : BitVec 16 → List DtcFreezeFrame} {e : DtcEntry} (h : Tells since e)
    (freeze : DtcFreezeFrame) :
    (seenAgain e freeze).occurrenceCount.toNat = min 255 (since e.code ++ [freeze]).length := by
  have hcount := h.1
  have h255 : (255 : BitVec 8).toNat = 255 := rfl
  rw [List.length_append, List.length_singleton, seenAgain]
  dsimp only
  by_cases hmore : e.occurrenceCount < 255
  · have hless : e.occurrenceCount.toNat < 255 := hmore
    have hone : (1 : BitVec 8).toNat = 1 := rfl
    have hadd : (e.occurrenceCount + 1).toNat = e.occurrenceCount.toNat + 1 := by
      rw [BitVec.toNat_add_of_lt (by rw [hone]; omega), hone]
    rw [if_pos hmore, hadd]
    omega
  · have hmost : ¬ e.occurrenceCount.toNat < 255 := hmore
    rw [if_neg hmore]
    omega

theorem dtcRecord_total (dm : DtcManager) (code : BitVec 16) (freeze : DtcFreezeFrame) :
    (dtcRecord dm code freeze).totalDtcs = dm.totalDtcs + 1 := by
  unfold dtcRecord
  cases findCode dm code with
  | some i => rfl
  | none => rfl

theorem dtcRecord_writeIdx (dm : DtcManager) (code : BitVec 16) (freeze : DtcFreezeFrame) :
    (dtcRecord dm code freeze).writeIdx.val =
      if (stored dm).any (·.code == code) then dm.writeIdx.val
      else (dm.writeIdx.val + 1) % dtcMaxEntries := by
  rw [← findCode_known, dtcRecord]
  cases findCode dm code with
  | some i => rfl
  | none => rfl

/-- A record of a known code. -/
theorem record_known {w : Recorded} {code : BitVec 16} {freeze : DtcFreezeFrame} (h : Tracks w)
    (hknown : (stored w.dm).any (·.code == code) = true) :
    Tracks (step w (.record code freeze)) := by
  have hmem : code ∈ (ringOf w.dm).contents.map DtcEntry.code := by
    rw [← any_code, ← stored_any]
    exact hknown
  have hstep : step w (.record code freeze) =
      { dm := dtcRecord w.dm code freeze
        insertions := w.insertions
        since := fun other => if other = code then w.since code ++ [freeze] else w.since other
        records := w.records + 1 } := by
    simp only [step, hknown, if_true]
  have hcontents := dtcRecord_contents code freeze h.aligned h.shows.distinct
  have hcodes : (ringOf (dtcRecord w.dm code freeze)).contents.map DtcEntry.code =
      (ringOf w.dm).contents.map DtcEntry.code := by
    rw [hcontents, recordIn_known freeze hmem]
  rw [hstep]
  constructor
  · change (dtcRecord w.dm code freeze).writeIdx.val = _
    rw [dtcRecord_writeIdx, if_pos hknown]
    exact h.writeIdx
  · exact hcodes.trans h.codes
  · exact hcodes ▸ h.distinct
  · intro e he
    rw [hcontents, recordIn, if_pos (stored_any w.dm code ▸ hknown)] at he
    obtain ⟨old, hold, rfl⟩ := List.mem_map.mp he
    have htells := h.entries old hold
    by_cases hcode : old.code = code
    · have hsince : (if old.code = code then w.since code ++ [freeze] else w.since old.code) =
          w.since old.code ++ [freeze] := by rw [if_pos hcode, hcode]
      rw [if_pos hcode]
      constructor
      · exact (tells_again htells freeze).trans (congrArg (fun l => min 255 l.length) hsince.symm)
      · exact (congrArg List.getLast? hsince).trans List.getLast?_concat
    · rw [if_neg hcode]
      exact tells_congr (if_neg hcode) htells
  · change (dtcRecord w.dm code freeze).totalDtcs = _
    rw [dtcRecord_total, h.total, BitVec.ofNat_add]
    rfl

/-- A record of a new code is an insertion. -/
theorem record_new {w : Recorded} {code : BitVec 16} {freeze : DtcFreezeFrame} (h : Tracks w)
    (hnew : ¬ (stored w.dm).any (·.code == code) = true) :
    Tracks (step w (.record code freeze)) := by
  have hmem : code ∉ (ringOf w.dm).contents.map DtcEntry.code := by
    rw [← any_code, ← stored_any]
    exact hnew
  have hstep : step w (.record code freeze) =
      { dm := dtcRecord w.dm code freeze
        insertions := w.insertions ++ [code]
        since := fun other => if other = code then [freeze] else w.since other
        records := w.records + 1 } := by
    simp only [step, hnew, if_false, Bool.false_eq_true]
  have hcontents := dtcRecord_contents code freeze h.aligned h.shows.distinct
  rw [recordIn_new freeze hmem] at hcontents
  have hcodes : (ringOf (dtcRecord w.dm code freeze)).contents.map DtcEntry.code =
      ((ringOf w.dm).contents.map DtcEntry.code ++ [code]).rtake dtcMaxEntries := by
    rw [hcontents, ← rtake_map, List.map_append]
    rfl
  rw [hstep]
  constructor
  · change (dtcRecord w.dm code freeze).writeIdx.val = _
    rw [dtcRecord_writeIdx, if_neg hnew, h.writeIdx, Nat.mod_add_mod, List.length_append,
      List.length_singleton]
  · change (ringOf (dtcRecord w.dm code freeze)).contents.map DtcEntry.code = _
    rw [hcodes, h.codes, rtake_concat_rtake]
  · change ((ringOf (dtcRecord w.dm code freeze)).contents.map DtcEntry.code).Nodup
    rw [hcodes]
    apply List.Nodup.sublist (List.drop_sublist _ _)
    rw [List.nodup_append]
    refine ⟨h.distinct, List.nodup_singleton _, fun a ha b hb hab => ?_⟩
    rw [List.mem_singleton.mp hb] at hab
    exact hmem (hab ▸ ha)
  · intro e he
    rw [hcontents] at he
    obtain hold | hlast := List.mem_append.mp (List.mem_of_mem_drop he)
    · have hcode : ¬ e.code = code := fun heq => hmem (heq ▸ List.mem_map_of_mem hold)
      exact tells_congr (if_neg hcode) (h.entries e hold)
    · have hsince : (if code = code then [freeze] else w.since code) = [freeze] := if_pos rfl
      rw [List.mem_singleton.mp hlast]
      constructor
      · exact congrArg (fun l => min 255 l.length) hsince.symm
      · exact congrArg List.getLast? hsince
  · change (dtcRecord w.dm code freeze).totalDtcs = _
    rw [dtcRecord_total, h.total, BitVec.ofNat_add]
    rfl

theorem clear_tracks {w : Recorded} (h : Tracks w) : Tracks (step w .clear) where
  writeIdx := rfl
  codes := rfl
  distinct := List.nodup_nil
  entries := by
    intro e he
    cases he
  total := h.total

theorem start_tracks : Tracks start where
  writeIdx := rfl
  codes := rfl
  distinct := List.nodup_nil
  entries := by
    intro e he
    cases he
  total := rfl

theorem run_tracks (events : List Event) : Tracks (run step start events) := by
  apply run_invariant start_tracks
  intro w event h
  cases event with
  | record code freeze =>
    by_cases hknown : (stored w.dm).any (·.code == code) = true
    · exact record_known h hknown
    · exact record_new h hknown
  | clear => exact clear_tracks h

/-- After every run of records and clears there are as many entries as insertions since the last clear,
at most sixteen. Their codes are distinct and those of the latest insertions, each entry counts the
records since its own up to 255 and has the latest frame, and the lifetime count is that of all
records. -/
theorem ring_shows_history (events : List Event) : Shows (run step start events) :=
  (run_tracks events).shows

end Genoh.DtcRing
