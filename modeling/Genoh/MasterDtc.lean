import Genoh.OrderedDict

/-!
# Master diagnostic trouble codes

The store of `master/dtc_manager.py`: the reception of faults, passing cycles and clearing. The file
behind it is in `DtcStore`. `time.time()` is read by the caller and passed in as `nowMs`.
-/
namespace Genoh.MasterDtc

open Genoh.OrderedDict

def maxDtcs : Nat := 256

def agingCycles : Nat := 40

/-! ## The status byte -/

def bitTestFailed : BitVec 8 := 0x01
def bitTestFailedThisCycle : BitVec 8 := 0x02
def bitPending : BitVec 8 := 0x04
def bitConfirmed : BitVec 8 := 0x08
def bitTestFailedSinceClear : BitVec 8 := 0x20
def bitWarningIndicator : BitVec 8 := 0x80

/-- `DTCEntry`; the freeze frame is a dictionary of any kind. -/
structure DTCEntry (Frame : Type) [EmptyCollection Frame] where
  code : Nat
  statusByte : BitVec 8 := 0
  faultType : String := ""
  occurrenceCount : Nat := 0
  firstSeenMs : Nat := 0
  lastSeenMs : Nat := 0
  passingCycles : Nat := 0
  freezeFrame : Frame := ∅

section Store

variable {Frame : Type} [EmptyCollection Frame]

def DTCEntry.isPending (entry : DTCEntry Frame) : Bool := entry.statusByte &&& bitPending != 0

def DTCEntry.isConfirmed (entry : DTCEntry Frame) : Bool := entry.statusByte &&& bitConfirmed != 0

variable (Frame) in
structure DTCManager where
  dtcs : Dict Nat (DTCEntry Frame)

def DTCManager.empty : DTCManager Frame := ⟨Dict.empty⟩

/-- `set_dtc` on a stored entry. -/
def repeatDtc (entry : DTCEntry Frame) (nowMs : Nat) : DTCEntry Frame :=
  let entry := { entry with
    occurrenceCount := entry.occurrenceCount + 1
    lastSeenMs := nowMs
    passingCycles := 0
    statusByte := entry.statusByte ||| bitTestFailed ||| bitTestFailedThisCycle |||
      bitTestFailedSinceClear ||| bitPending }
  if entry.occurrenceCount ≥ 2 then
    { entry with statusByte := entry.statusByte ||| bitConfirmed ||| bitWarningIndicator }
  else entry

/-- The entry that `set_dtc` creates. -/
def newDtc (code : Nat) (faultType : String) (freezeFrame : Option Frame) (nowMs : Nat) :
    DTCEntry Frame where
  code := code
  statusByte := bitTestFailed ||| bitTestFailedThisCycle ||| bitPending ||| bitTestFailedSinceClear
  faultType := faultType
  occurrenceCount := 1
  firstSeenMs := nowMs
  lastSeenMs := nowMs
  freezeFrame := freezeFrame.getD ∅

/-- `set_dtc`: the entry it returns, and the store. A full store takes no new code. -/
def setDtc (dtcs : DTCManager Frame) (code : Nat) (faultType : String) (freezeFrame : Option Frame)
    (nowMs : Nat) : DTCEntry Frame × DTCManager Frame :=
  match dtcs.dtcs.get? code with
  | some entry =>
    let entry := repeatDtc entry nowMs
    (entry, ⟨dtcs.dtcs.set code entry⟩)
  | none =>
    if dtcs.dtcs.pairs.length ≥ maxDtcs then ({ code := code }, dtcs)
    else
      let entry := newDtc code faultType freezeFrame nowMs
      (entry, ⟨dtcs.dtcs.set code entry⟩)

/-- `report_passing` on a stored entry. -/
def passDtc (entry : DTCEntry Frame) : DTCEntry Frame :=
  let entry := { entry with
    statusByte := entry.statusByte &&& ~~~bitTestFailed &&& ~~~bitTestFailedThisCycle
    passingCycles := entry.passingCycles + 1 }
  if entry.passingCycles ≥ agingCycles then
    { entry with
      statusByte := entry.statusByte &&& ~~~bitConfirmed &&& ~~~bitWarningIndicator &&& ~~~bitPending }
  else entry

/-- `report_passing`. -/
def reportPassing (dtcs : DTCManager Frame) (code : Nat) : DTCManager Frame :=
  match dtcs.dtcs.get? code with
  | some entry => ⟨dtcs.dtcs.set code (passDtc entry)⟩
  | none => dtcs

/-- `clear_dtc`: whether the code was stored, and the store. -/
def clearDtc (dtcs : DTCManager Frame) (code : Nat) : Bool × DTCManager Frame :=
  match dtcs.dtcs.get? code with
  | some _ => (true, ⟨dtcs.dtcs.erase code⟩)
  | none => (false, dtcs)

/-- `clear_all`: the number of the codes, and the store. -/
def clearAll (dtcs : DTCManager Frame) : Nat × DTCManager Frame :=
  (dtcs.dtcs.pairs.length, DTCManager.empty)

/-- The occurrences of a code; none where it is not stored. -/
def occurrences (dtcs : DTCManager Frame) (code : Nat) : Nat :=
  ((dtcs.dtcs.get? code).map DTCEntry.occurrenceCount).getD 0

/-! ## Setting a code -/

theorem repeatDtc_occurrenceCount (entry : DTCEntry Frame) (nowMs : Nat) :
    (repeatDtc entry nowMs).occurrenceCount = entry.occurrenceCount + 1 := by
  unfold repeatDtc
  dsimp only
  split <;> rfl

/-- A repeated code is confirmed. -/
theorem repeatDtc_isConfirmed (entry : DTCEntry Frame) (nowMs : Nat)
    (h : 1 ≤ entry.occurrenceCount) : (repeatDtc entry nowMs).isConfirmed = true := by
  have htwo : entry.occurrenceCount + 1 ≥ 2 := Nat.succ_le_succ h
  simp only [repeatDtc, if_pos htwo, DTCEntry.isConfirmed]
  generalize entry.statusByte ||| bitTestFailed ||| bitTestFailedThisCycle |||
    bitTestFailedSinceClear ||| bitPending = byte
  revert byte
  decide

section SetDtc

variable (dtcs : DTCManager Frame) (code : Nat) (faultType : String) (freezeFrame : Option Frame)
  (nowMs : Nat)

theorem setDtc_stored {entry : DTCEntry Frame} (h : dtcs.dtcs.get? code = some entry) :
    (setDtc dtcs code faultType freezeFrame nowMs).2.dtcs.get? code =
      some (repeatDtc entry nowMs) := by
  simp only [setDtc, h, Dict.get?_set_self]

/-- A code that is not stored is added, or the store is full. -/
theorem setDtc_absent (h : dtcs.dtcs.get? code = none) :
    dtcs.dtcs.pairs.length ≥ maxDtcs ∨
      (setDtc dtcs code faultType freezeFrame nowMs).2.dtcs.get? code =
        some (newDtc code faultType freezeFrame nowMs) := by
  simp only [setDtc, h]
  split
  · rename_i hfull
    exact .inl hfull
  · exact .inr (Dict.get?_set_self _ _ _)

theorem occurrences_stored {entry : DTCEntry Frame} (h : dtcs.dtcs.get? code = some entry) :
    occurrences dtcs code = entry.occurrenceCount := by
  rw [occurrences, h]
  rfl

theorem occurrences_absent (h : dtcs.dtcs.get? code = none) : occurrences dtcs code = 0 := by
  rw [occurrences, h]
  rfl

/-- A code that is set twice is two occurrences further, and confirmed if it is new; a full store
does not notice a new code at all. -/
theorem setDtc_twice (faultType' : String) (freezeFrame' : Option Frame) (nowMs' : Nat) :
    let after := (setDtc (setDtc dtcs code faultType freezeFrame nowMs).2 code faultType'
      freezeFrame' nowMs').2
    (occurrences after code = occurrences dtcs code + 2 ∨
      dtcs.dtcs.get? code = none ∧ occurrences after code = 0) ∧
    (dtcs.dtcs.get? code = none →
      ∀ entry, after.dtcs.get? code = some entry → entry.isConfirmed = true) := by
  intro after
  cases hcode : dtcs.dtcs.get? code with
  | some entry =>
    have hfirst := setDtc_stored dtcs code faultType freezeFrame nowMs hcode
    have hafter : after.dtcs.get? code = _ :=
      setDtc_stored _ code faultType' freezeFrame' nowMs' hfirst
    refine ⟨.inl ?_, nofun⟩
    rw [occurrences_stored _ _ hafter, occurrences_stored _ _ hcode, repeatDtc_occurrenceCount,
      repeatDtc_occurrenceCount]
  | none =>
    rw [occurrences_absent _ _ hcode]
    obtain hfull | hfirst := setDtc_absent dtcs code faultType freezeFrame nowMs hcode
    · have hsame : after = dtcs := by
        simp only [after, setDtc, hcode, if_pos hfull]
      rw [hsame, occurrences_absent _ _ hcode, hcode]
      exact ⟨.inr ⟨rfl, rfl⟩, nofun⟩
    · have hafter : after.dtcs.get? code = _ :=
        setDtc_stored _ code faultType' freezeFrame' nowMs' hfirst
      refine ⟨.inl ?_, fun _ entry hentry => ?_⟩
      · rw [occurrences_stored _ _ hafter, repeatDtc_occurrenceCount]
        rfl
      · rw [hafter, Option.some.injEq] at hentry
        rw [← hentry]
        exact repeatDtc_isConfirmed _ nowMs' (Nat.le_refl 1)

end SetDtc

end Store

end Genoh.MasterDtc
