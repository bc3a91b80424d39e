import Genoh.DtcStore

/-!
# DTC lifecycle

The status bytes of the stored entries over whole runs of the store and its file, and how many faults
of a code a confirmation rests on.
-/
namespace Genoh.DtcLifecycle

open Genoh.Json Genoh.MasterDtc Genoh.MasterLogs Genoh.OrderedDict Genoh.DtcStore Genoh.Run

/-! ## Bits of the status byte -/

def hasBit (b mask : BitVec 8) : Bool := b &&& mask != 0

theorem hasBit_or (b set mask : BitVec 8) :
    hasBit (b ||| set) mask = (hasBit b mask || hasBit set mask) := by
  have hsplit : (b ||| set) &&& mask = b &&& mask ||| set &&& mask := by
    apply BitVec.eq_of_getLsbD_eq
    intro i _
    simp only [BitVec.getLsbD_and, BitVec.getLsbD_or, Bool.and_or_distrib_right]
  rw [Bool.eq_iff_iff, Bool.or_eq_true, hasBit, hasBit, hasBit, bne_iff_ne, bne_iff_ne, bne_iff_ne,
    hsplit]
  exact BitVec.or_eq_zero_iff.not.trans not_and_or

/-- Bits that are cleared are not set, and others stay. -/
theorem hasBit_clear (b cleared mask : BitVec 8) (h : cleared &&& mask = 0) :
    hasBit (b &&& ~~~cleared) mask = hasBit b mask := by
  have hkeep : b &&& ~~~cleared &&& mask = b &&& mask := by
    apply BitVec.eq_of_getLsbD_eq
    intro i hi
    have hbit : (cleared.getLsbD i && mask.getLsbD i) = false := by
      rw [← BitVec.getLsbD_and, h]
      exact BitVec.getLsbD_zero
    simp only [BitVec.getLsbD_and, BitVec.getLsbD_not, decide_eq_true hi, Bool.true_and]
    cases hcleared : cleared.getLsbD i with
    | false => simp
    | true =>
      rw [hcleared, Bool.true_and] at hbit
      simp [hbit]
  rw [hasBit, hkeep, hasBit]

theorem hasBit_clear_self (b mask : BitVec 8) : hasBit (b &&& ~~~mask) mask = false := by
  have hnone : b &&& ~~~mask &&& mask = 0 := by
    apply BitVec.eq_of_getLsbD_eq
    intro i hi
    simp
  rw [hasBit, hnone]
  rfl

theorem new_bits :
    let b := bitTestFailed ||| bitTestFailedThisCycle ||| bitPending ||| bitTestFailedSinceClear
    hasBit b bitTestFailed = true ∧ hasBit b bitTestFailedThisCycle = true ∧
      hasBit b bitTestFailedSinceClear = true ∧ hasBit b bitPending = true ∧
      hasBit b bitConfirmed = false ∧ hasBit b bitWarningIndicator = false := by
  decide

theorem failed_bits (b : BitVec 8) :
    let b' := b ||| bitTestFailed ||| bitTestFailedThisCycle ||| bitTestFailedSinceClear |||
      bitPending
    hasBit b' bitTestFailed = true ∧ hasBit b' bitTestFailedThisCycle = true ∧
      hasBit b' bitTestFailedSinceClear = true ∧ hasBit b' bitPending = true ∧
      hasBit b' bitConfirmed = hasBit b bitConfirmed ∧
      hasBit b' bitWarningIndicator = hasBit b bitWarningIndicator := by
  simp only [hasBit_or]
  simp [hasBit, bitTestFailed, bitTestFailedThisCycle, bitTestFailedSinceClear, bitPending,
    bitConfirmed, bitWarningIndicator]

theorem confirmed_bits (b : BitVec 8) :
    let b' := b ||| bitConfirmed ||| bitWarningIndicator
    hasBit b' bitConfirmed = true ∧ hasBit b' bitWarningIndicator = true ∧
      hasBit b' bitTestFailed = hasBit b bitTestFailed ∧
      hasBit b' bitTestFailedThisCycle = hasBit b bitTestFailedThisCycle ∧
      hasBit b' bitTestFailedSinceClear = hasBit b bitTestFailedSinceClear ∧
      hasBit b' bitPending = hasBit b bitPending := by
  simp only [hasBit_or]
  simp [hasBit, bitTestFailed, bitTestFailedThisCycle, bitTestFailedSinceClear, bitPending,
    bitConfirmed, bitWarningIndicator]

theorem passed_bits (b : BitVec 8) :
    let b' := b &&& ~~~bitTestFailed &&& ~~~bitTestFailedThisCycle
    hasBit b' bitTestFailed = false ∧ hasBit b' bitTestFailedThisCycle = false ∧
      hasBit b' bitTestFailedSinceClear = hasBit b bitTestFailedSinceClear ∧
      hasBit b' bitPending = hasBit b bitPending ∧
      hasBit b' bitConfirmed = hasBit b bitConfirmed ∧
      hasBit b' bitWarningIndicator = hasBit b bitWarningIndicator := by
  simp (disch := decide) only [hasBit_clear, hasBit_clear_self, and_self]

theorem aged_bits (b : BitVec 8) :
    let b' := b &&& ~~~bitConfirmed &&& ~~~bitWarningIndicator &&& ~~~bitPending
    hasBit b' bitConfirmed = false ∧ hasBit b' bitWarningIndicator = false ∧
      hasBit b' bitPending = false ∧ hasBit b' bitTestFailed = hasBit b bitTestFailed ∧
      hasBit b' bitTestFailedThisCycle = hasBit b bitTestFailedThisCycle ∧
      hasBit b' bitTestFailedSinceClear = hasBit b bitTestFailedSinceClear := by
  simp (disch := decide) only [hasBit_clear, hasBit_clear_self, and_self]

/-! ## Entries -/

section Entries

variable {Frame : Type} [EmptyCollection Frame]

/-- The meaning of the status byte beside the counters. -/
structure Sound (e : DTCEntry Frame) : Prop where
  warning : hasBit e.statusByte bitConfirmed = hasBit e.statusByte bitWarningIndicator
  twice : hasBit e.statusByte bitConfirmed = true → 2 ≤ e.occurrenceCount
  failing : hasBit e.statusByte bitTestFailed = true →
    hasBit e.statusByte bitPending = true ∧ e.passingCycles = 0
  thisCycle : hasBit e.statusByte bitTestFailed = hasBit e.statusByte bitTestFailedThisCycle
  aged : agingCycles ≤ e.passingCycles →
    hasBit e.statusByte bitPending = false ∧ hasBit e.statusByte bitConfirmed = false
  sinceClear : hasBit e.statusByte bitTestFailedSinceClear = true

theorem newDtc_sound (code : Nat) (faultType : String) (freezeFrame : Option Frame) (nowMs : Nat) :
    Sound (newDtc code faultType freezeFrame nowMs) := by
  obtain ⟨hfailed, hcycle, hsince, hpending, hconfirmed, hwarning⟩ := new_bits
  constructor
  · exact hconfirmed.trans hwarning.symm
  · intro hset
    exact absurd (hconfirmed.symm.trans hset) Bool.false_ne_true
  · exact fun _ => ⟨hpending, rfl⟩
  · exact hfailed.trans hcycle.symm
  · intro haged
    exact absurd haged (by decide : ¬ agingCycles ≤ 0)
  · exact hsince

theorem repeatDtc_passingCycles (e : DTCEntry Frame) (nowMs : Nat) :
    (repeatDtc e nowMs).passingCycles = 0 := by
  unfold repeatDtc
  dsimp only
  split <;> rfl

theorem repeatDtc_sound {e : DTCEntry Frame} (h : Sound e) (nowMs : Nat) :
    Sound (repeatDtc e nowMs) := by
  obtain ⟨hfailed, hcycle, hsince, hpending, hconfirmed, hwarning⟩ := failed_bits e.statusByte
  obtain ⟨hconfirmed', hwarning', hfailed', hcycle', hsince', hpending'⟩ := confirmed_bits
    (e.statusByte ||| bitTestFailed ||| bitTestFailedThisCycle ||| bitTestFailedSinceClear |||
      bitPending)
  have hnotAged : ¬ agingCycles ≤ 0 := by decide
  unfold repeatDtc
  dsimp only
  split
  · rename_i htwo
    constructor
    · exact hconfirmed'.trans hwarning'.symm
    · exact fun _ => htwo
    · exact fun _ => ⟨hpending'.trans hpending, rfl⟩
    · rw [hfailed', hcycle', hfailed, hcycle]
    · exact fun haged => absurd haged hnotAged
    · exact hsince'.trans hsince
  · constructor
    · rw [hconfirmed, hwarning]
      exact h.warning
    · intro hset
      exact Nat.le_succ_of_le (h.twice (hconfirmed.symm.trans hset))
    · exact fun _ => ⟨hpending, rfl⟩
    · rw [hfailed, hcycle]
    · exact fun haged => absurd haged hnotAged
    · exact hsince

theorem passDtc_passingCycles (e : DTCEntry Frame) :
    (passDtc e).passingCycles = e.passingCycles + 1 := by
  unfold passDtc
  dsimp only
  split <;> rfl

theorem passDtc_sound {e : DTCEntry Frame} (h : Sound e) : Sound (passDtc e) := by
  obtain ⟨hfailed, hcycle, hsince, hpending, hconfirmed, hwarning⟩ := passed_bits e.statusByte
  obtain ⟨hconfirmed', hwarning', hpending', hfailed', hcycle', hsince'⟩ := aged_bits
    (e.statusByte &&& ~~~bitTestFailed &&& ~~~bitTestFailedThisCycle)
  unfold passDtc
  dsimp only
  split
  · constructor
    · exact hconfirmed'.trans hwarning'.symm
    · intro hset
      exact absurd (hconfirmed'.symm.trans hset) Bool.false_ne_true
    · intro hset
      exact absurd ((hfailed'.trans hfailed).symm.trans hset) Bool.false_ne_true
    · rw [hfailed', hcycle', hfailed, hcycle]
    · exact fun _ => ⟨hpending', hconfirmed'⟩
    · exact hsince'.trans (hsince.trans h.sinceClear)
  · rename_i hyoung
    constructor
    · rw [hconfirmed, hwarning]
      exact h.warning
    · intro hset
      exact h.twice (hconfirmed.symm.trans hset)
    · intro hset
      exact absurd (hfailed.symm.trans hset) Bool.false_ne_true
    · rw [hfailed, hcycle]
    · exact fun haged => absurd haged hyoung
    · exact hsince.trans h.sinceClear

end Entries

/-! ## The store -/

/-- Every stored entry is sound, and the store has its bound. -/
structure SoundStore (dtcs : Store) : Prop where
  entries : ∀ code entry, dtcs.dtcs.get? code = some entry → Sound entry
  bounded : dtcs.dtcs.pairs.length ≤ maxDtcs

theorem SoundStore.empty : SoundStore DTCManager.empty where
  entries := by
    intro code entry h
    cases h
  bounded := Nat.zero_le _

/-- A sound entry in the place of a stored one. -/
theorem SoundStore.replace {dtcs : Store} (h : SoundStore dtcs) {code : Nat} {old entry : Entry}
    (hold : dtcs.dtcs.get? code = some old) (hentry : Sound entry) :
    SoundStore ⟨dtcs.dtcs.set code entry⟩ where
  entries := by
    intro code' entry' hget
    rw [Dict.get?_set] at hget
    split at hget
    · exact Option.some.inj hget ▸ hentry
    · exact h.entries code' entry' hget
  bounded := by
    rw [Dict.length_set_of_get? entry hold]
    exact h.bounded

theorem SoundStore.apply {dtcs : Store} (h : SoundStore dtcs) (op : Operation) :
    SoundStore (apply dtcs op) := by
  cases op with
  | setDtc code faultType freezeFrame nowMs =>
    rw [DtcStore.apply, MasterDtc.setDtc]
    cases hget : dtcs.dtcs.get? code with
    | some entry => exact h.replace hget (repeatDtc_sound (h.entries code entry hget) nowMs)
    | none =>
      dsimp only
      split
      · exact h
      · rename_i hroom
        constructor
        · intro code' entry' hget'
          rw [Dict.get?_set] at hget'
          split at hget'
          · exact Option.some.inj hget' ▸ newDtc_sound code faultType freezeFrame nowMs
          · exact h.entries code' entry' hget'
        · exact (length_setPairs_le _ _ _).trans (Nat.not_le.mp hroom)
  | reportPassing code =>
    rw [DtcStore.apply, MasterDtc.reportPassing]
    cases hget : dtcs.dtcs.get? code with
    | some entry => exact h.replace hget (passDtc_sound (h.entries code entry hget))
    | none => exact h
  | clearDtc code =>
    rw [DtcStore.apply, MasterDtc.clearDtc]
    cases hget : dtcs.dtcs.get? code with
    | some entry =>
      constructor
      · intro code' entry' hget'
        change (dtcs.dtcs.erase code).get? code' = some entry' at hget'
        rw [Dict.get?_erase] at hget'
        split at hget'
        · cases hget'
        · exact h.entries code' entry' hget'
      · exact (List.length_filter_le _ _).trans h.bounded
    | none => exact h
  | clearAll => exact SoundStore.empty

/-- Loading a saved store changes nothing but freeze frames. -/
theorem SoundStore.rereadStore {dtcs : Store} (h : SoundStore dtcs) :
    SoundStore (rereadStore dtcs) where
  entries := by
    intro code entry hget
    rw [DtcStore.rereadStore, Dict.get?_mapValues, Option.map_eq_some_iff] at hget
    obtain ⟨old, hold, rfl⟩ := hget
    obtain ⟨hwarning, htwice, hfailing, hcycle, haged, hsince⟩ := h.entries code old hold
    exact ⟨hwarning, htwice, hfailing, hcycle, haged, hsince⟩
  bounded := by
    rw [DtcStore.rereadStore, Dict.length_mapValues]
    exact h.bounded

/-! ## Runs over the file -/

/-- An operation whose save reaches the file, or a new manager on the file. -/
inductive Use where
  | operate (op : Operation)
  | reload

def Use.step : Use → Step
  | .operate op => .operate op .writes
  | .reload => .reopen

/-- A manager is open on a file that holds its store. -/
structure Clean (s : System) (dtcs : Store) : Prop where
  manager : s.manager = some dtcs
  keyed : Keyed dtcs
  sound : SoundStore dtcs
  loads : load s.file = .ok (rereadStore dtcs)

theorem start_clean : Clean start DTCManager.empty :=
  ⟨rfl, keyed_empty, SoundStore.empty, rfl⟩

theorem step_not_saves {s : System} {dtcs : Store} {op : Operation} (disk : Rewrite)
    (hmanager : s.manager = some dtcs) (h : op.saves dtcs = false) :
    step s (.operate op disk) = s := by
  obtain ⟨file, manager, saved⟩ := s
  obtain rfl := hmanager
  simp only [step, h, apply_of_not_saves h, Bool.false_eq_true, if_false]

theorem step_clean {s : System} {dtcs : Store} (h : Clean s dtcs) (use : Use) :
    ∃ dtcs', Clean (step s use.step) dtcs' := by
  cases use with
  | operate op =>
    rw [Use.step]
    by_cases hsaves : op.saves dtcs = true
    · refine ⟨apply dtcs op, ?_⟩
      rw [step, h.manager]
      simp only [hsaves, if_true]
      exact ⟨rfl, h.keyed.apply op, h.sound.apply op, load_whole (h.keyed.apply op)⟩
    · rw [step_not_saves .writes h.manager (Bool.eq_false_of_not_eq_true hsaves)]
      exact ⟨dtcs, h⟩
  | reload =>
    refine ⟨rereadStore dtcs, ?_⟩
    rw [Use.step, step, reopen, h.loads]
    refine ⟨rfl, keyed_rereadStore h.keyed, h.sound.rereadStore, ?_⟩
    rw [rereadStore_rereadStore]
    exact h.loads

theorem run_clean (uses : List Use) : ∃ dtcs, Clean (run step start (uses.map Use.step)) dtcs := by
  induction uses using List.reverseRecOn with
  | nil => exact ⟨_, start_clean⟩
  | append_singleton uses use ih =>
    obtain ⟨dtcs, h⟩ := ih
    rw [List.map_append, List.map_singleton, run_concat]
    exact step_clean h use

/-- After every run of operations and reloads from an empty store every stored entry is sound, there are
at most 256, and a new code on a full store changes neither store nor file. -/
theorem status_bytes_sound (uses : List Use) :
    ∃ dtcs, (run step start (uses.map Use.step)).manager = some dtcs ∧
      (∀ code entry, dtcs.dtcs.get? code = some entry → Sound entry) ∧
      dtcs.dtcs.pairs.length ≤ maxDtcs ∧
      ∀ code faultType freezeFrame nowMs disk, dtcs.dtcs.get? code = none →
        maxDtcs ≤ dtcs.dtcs.pairs.length →
        step (run step start (uses.map Use.step))
            (.operate (.setDtc code faultType freezeFrame nowMs) disk) =
          run step start (uses.map Use.step) := by
  obtain ⟨dtcs, h⟩ := run_clean uses
  refine ⟨dtcs, h.manager, h.sound.entries, h.sound.bounded, ?_⟩
  intro code faultType freezeFrame nowMs disk hnew hfull
  apply step_not_saves disk h.manager
  simp only [Operation.saves, hnew, Option.isSome_none, Bool.false_or, decide_eq_false_iff_not,
    Nat.not_lt]
  exact hfull

/-! ## What a confirmation rests on -/

/-- The store, and for each code the calls of `set_dtc` since it was created, cleared or last aged
out, and the passing cycles reported since the latest of them. -/
structure Observed where
  dtcs : Store
  faults : Nat → Nat
  passes : Nat → Nat

/-- The fortieth passing cycle in a row ages a code out. -/
def observe (w : Observed) (op : Operation) : Observed :=
  let dtcs := apply w.dtcs op
  match op with
  | .setDtc code _ _ _ =>
    let faults := if (w.dtcs.dtcs.get? code).isSome then w.faults code + 1 else 1
    ⟨dtcs, Function.update w.faults code faults, Function.update w.passes code 0⟩
  | .reportPassing code =>
    let passes := w.passes code + 1
    let faults := if passes = agingCycles then 0 else w.faults code
    ⟨dtcs, Function.update w.faults code faults, Function.update w.passes code passes⟩
  | .clearDtc code => ⟨dtcs, Function.update w.faults code 0, Function.update w.passes code 0⟩
  | .clearAll => ⟨dtcs, fun _ => 0, fun _ => 0⟩

def unobserved : Observed := ⟨DTCManager.empty, fun _ => 0, fun _ => 0⟩

def Confirmed (dtcs : Store) (code : Nat) : Prop :=
  ∃ entry, dtcs.dtcs.get? code = some entry ∧ entry.isConfirmed = true

/-- A call of `set_dtc` that makes a code confirmed is the second at least. -/
def Restarts (w : Observed) : Operation → Prop
  | .setDtc code faultType freezeFrame nowMs =>
    ¬ Confirmed w.dtcs code →
      Confirmed (observe w (.setDtc code faultType freezeFrame nowMs)).dtcs code →
      2 ≤ (observe w (.setDtc code faultType freezeFrame nowMs)).faults code
  | _ => True

/-- The call sets a stored code that has aged out. -/
def AgedOut (w : Observed) : Operation → Prop
  | .setDtc code _ _ _ => ∃ entry, w.dtcs.dtcs.get? code = some entry ∧
      agingCycles ≤ entry.passingCycles
  | _ => False

/-- How the counts go with a stored entry: it was set since it was created or aged out last, or it
is aged out and not confirmed. -/
structure Counts (w : Observed) (code : Nat) (entry : Entry) : Prop where
  passes : w.passes code = entry.passingCycles
  occurred : 1 ≤ entry.occurrenceCount
  young : entry.passingCycles < agingCycles → 1 ≤ w.faults code
  aged : agingCycles ≤ entry.passingCycles → w.faults code = 0 ∧ entry.isConfirmed = false

def Counting (w : Observed) : Prop :=
  ∀ code entry, w.dtcs.dtcs.get? code = some entry → Counts w code entry

theorem passDtc_aged {entry : Entry} (h : agingCycles ≤ entry.passingCycles + 1) :
    (passDtc entry).isConfirmed = false := by
  obtain ⟨hconfirmed, -⟩ := aged_bits
    (entry.statusByte &&& ~~~bitTestFailed &&& ~~~bitTestFailedThisCycle)
  unfold passDtc
  dsimp only
  rw [if_pos h]
  exact hconfirmed

theorem passDtc_occurrenceCount (entry : Entry) :
    (passDtc entry).occurrenceCount = entry.occurrenceCount := by
  unfold passDtc
  dsimp only
  split <;> rfl

/-! What the operations leave under the codes. -/

theorem setDtc_get? (dtcs : Store) (code : Nat) (faultType : String) (freezeFrame : Option Members)
    (nowMs code' : Nat) :
    (apply dtcs (.setDtc code faultType freezeFrame nowMs)).dtcs.get? code' =
      if code' = code then
        match dtcs.dtcs.get? code with
        | some entry => some (repeatDtc entry nowMs)
        | none => if dtcs.dtcs.pairs.length ≥ maxDtcs then none
            else some (newDtc code faultType freezeFrame nowMs)
      else dtcs.dtcs.get? code' := by
  rw [apply, MasterDtc.setDtc]
  cases hget : dtcs.dtcs.get? code with
  | some entry => exact Dict.get?_set _ _ _ _
  | none =>
    dsimp only
    split
    · split
      · rename_i hcode
        rw [hcode, hget]
      · rfl
    · exact Dict.get?_set _ _ _ _

theorem reportPassing_get? (dtcs : Store) (code code' : Nat) :
    (apply dtcs (.reportPassing code)).dtcs.get? code' =
      if code' = code then (dtcs.dtcs.get? code).map passDtc else dtcs.dtcs.get? code' := by
  rw [apply, MasterDtc.reportPassing]
  cases hget : dtcs.dtcs.get? code with
  | some entry => exact Dict.get?_set _ _ _ _
  | none =>
    dsimp only
    split
    · rename_i hcode
      rw [hcode, hget]
      rfl
    · rfl

theorem clearDtc_get? (dtcs : Store) (code code' : Nat) :
    (apply dtcs (.clearDtc code)).dtcs.get? code' =
      if code' = code then none else dtcs.dtcs.get? code' := by
  rw [apply, MasterDtc.clearDtc]
  cases hget : dtcs.dtcs.get? code with
  | some entry => exact Dict.get?_erase _ _ _
  | none =>
    dsimp only
    split
    · rename_i hcode
      rw [hcode, hget]
    · rfl

/-- Counts of another code stay. -/
theorem Counts.other {w : Observed} {dtcs : Store} {code code' : Nat} {entry : Entry}
    (h : Counts w code' entry) (hne : code' ≠ code) (faults passes : Nat) :
    Counts ⟨dtcs, Function.update w.faults code faults, Function.update w.passes code passes⟩ code'
      entry := by
  obtain ⟨hpasses, hoccurred, hyoung, haged⟩ := h
  have hfaults : Function.update w.faults code faults code' = w.faults code' :=
    Function.update_of_ne hne _ _
  constructor
  · exact (Function.update_of_ne hne _ _).trans hpasses
  · exact hoccurred
  · exact fun hless => (hyoung hless).trans_eq hfaults.symm
  · exact fun hmore => ⟨hfaults.trans (haged hmore).1, (haged hmore).2⟩

/-- A fault in the counts of its code, behind which an entry has no passing cycle. -/
theorem Counts.fault {w : Observed} {dtcs : Store} {code faults : Nat} {entry : Entry}
    (hpassing : entry.passingCycles = 0) (hoccurred : 1 ≤ entry.occurrenceCount)
    (hfaults : 1 ≤ faults) :
    Counts ⟨dtcs, Function.update w.faults code faults, Function.update w.passes code 0⟩ code
      entry := by
  have hyoung : ¬ agingCycles ≤ 0 := by decide
  have hself : Function.update w.faults code faults code = faults := Function.update_self _ _ _
  constructor
  · exact (Function.update_self _ _ _).trans hpassing.symm
  · exact hoccurred
  · exact fun _ => hfaults.trans_eq hself.symm
  · rw [hpassing]
    exact fun haged => absurd haged hyoung

/-- A passing cycle in the counts of its code. -/
theorem Counts.pass {w : Observed} {dtcs : Store} {code : Nat} {entry : Entry}
    (h : Counts w code entry) :
    Counts ⟨dtcs,
      Function.update w.faults code (if w.passes code + 1 = agingCycles then 0 else w.faults code),
      Function.update w.passes code (w.passes code + 1)⟩ code (passDtc entry) := by
  obtain ⟨hpasses, hoccurred, hyoung, haged⟩ := h
  have hself : Function.update w.faults code
      (if w.passes code + 1 = agingCycles then 0 else w.faults code) code =
      if entry.passingCycles + 1 = agingCycles then 0 else w.faults code := by
    rw [Function.update_self, hpasses]
  constructor
  · rw [passDtc_passingCycles, ← hpasses]
    exact Function.update_self _ _ _
  · rw [passDtc_occurrenceCount]
    exact hoccurred
  · rw [passDtc_passingCycles]
    intro hless
    dsimp only
    rw [hself, if_neg (Nat.ne_of_lt hless)]
    exact hyoung (Nat.lt_of_succ_lt hless)
  · rw [passDtc_passingCycles]
    intro hmore
    dsimp only
    rw [hself]
    refine ⟨?_, passDtc_aged hmore⟩
    split
    · rfl
    · exact (haged (by omega)).1

theorem observe_counting {w : Observed} (h : Counting w) (op : Operation) :
    Counting (observe w op) := by
  intro code entry hget
  cases op with
  | setDtc code' faultType freezeFrame nowMs =>
    rw [observe, setDtc_get?] at hget
    split at hget
    · rename_i hcode
      subst hcode
      cases hold : w.dtcs.dtcs.get? code with
      | some old =>
        rw [hold] at hget
        obtain rfl := Option.some.inj hget
        apply Counts.fault (repeatDtc_passingCycles old nowMs)
        · rw [repeatDtc_occurrenceCount]
          exact Nat.le_add_left _ _
        · rw [hold, Option.isSome_some, if_pos rfl]
          exact Nat.le_add_left _ _
      | none =>
        rw [hold] at hget
        dsimp only at hget
        split at hget
        · cases hget
        · obtain rfl := Option.some.inj hget
          apply Counts.fault rfl (Nat.le_refl 1)
          rw [hold, Option.isSome_none, if_neg Bool.false_ne_true]
    · rename_i hcode
      exact (h code entry hget).other hcode _ _
  | reportPassing code' =>
    rw [observe, reportPassing_get?] at hget
    split at hget
    · rename_i hcode
      subst hcode
      rw [Option.map_eq_some_iff] at hget
      obtain ⟨old, hold, rfl⟩ := hget
      exact (h code old hold).pass
    · rename_i hcode
      exact (h code entry hget).other hcode _ _
  | clearDtc code' =>
    rw [observe, clearDtc_get?] at hget
    split at hget
    · cases hget
    · rename_i hcode
      exact (h code entry hget).other hcode _ _
  | clearAll => cases hget

theorem newDtc_isConfirmed (code : Nat) (faultType : String) (freezeFrame : Option Members)
    (nowMs : Nat) : (newDtc code faultType freezeFrame nowMs).isConfirmed = false :=
  new_bits.2.2.2.2.1

/-- A fault confirms what was set before, aged out or not. -/
theorem restarts_iff {w : Observed} (h : Counting w) (op : Operation) :
    Restarts w op ↔ ¬ AgedOut w op := by
  cases op with
  | setDtc code faultType freezeFrame nowMs =>
    rw [Restarts, AgedOut, observe]
    dsimp only
    rw [Function.update_self, Confirmed, Confirmed, setDtc_get?, if_pos rfl]
    cases hget : w.dtcs.dtcs.get? code with
    | none =>
      apply iff_of_true
      · rintro - ⟨entry, hentry, hconfirmed⟩
        dsimp only at hentry
        split at hentry
        · cases hentry
        · obtain rfl := Option.some.inj hentry
          exact absurd ((newDtc_isConfirmed _ _ _ _).symm.trans hconfirmed) Bool.false_ne_true
      · rintro ⟨entry, hentry, -⟩
        cases hentry
    | some entry =>
      obtain ⟨-, hoccurred, hyoung, haged⟩ := h code entry hget
      rw [Option.isSome_some, if_pos rfl]
      by_cases hage : agingCycles ≤ entry.passingCycles
      · obtain ⟨hfaults, hunconfirmed⟩ := haged hage
        apply iff_of_false
        · intro hrestarts
          have htwo := hrestarts (fun ⟨e, he, hconfirmed⟩ => by
            obtain rfl := Option.some.inj he
            exact absurd (hunconfirmed.symm.trans hconfirmed) Bool.false_ne_true)
            ⟨_, rfl, repeatDtc_isConfirmed entry nowMs hoccurred⟩
          omega
        · exact fun hnot => hnot ⟨entry, rfl, hage⟩
      · apply iff_of_true
        · intro _ _
          exact Nat.succ_le_succ (hyoung (Nat.lt_of_not_le hage))
        · rintro ⟨e, he, hold⟩
          exact hage (Option.some.inj he ▸ hold)
  | reportPassing code => exact iff_of_true trivial id
  | clearDtc code => exact iff_of_true trivial id
  | clearAll => exact iff_of_true trivial id

/-- Over every run of operations, a call of `set_dtc` makes a code confirmed only as the second at least
since the code was created, cleared or aged out exactly as long as no call sets a stored code that has
aged out. -/
theorem confirmation_restarts_iff (ops : List Operation) :
    Always observe unobserved Restarts ops ↔
      Always observe unobserved (fun w op => ¬ AgedOut w op) ops := by
  apply always_congr (I := Counting) _ (fun w op h => observe_counting h op)
  · exact fun w op h => restarts_iff h op
  · intro code entry hget
    cases hget

/-- One fault and forty passing cycles. -/
def agedFault : List Operation :=
  .setDtc 0xC11029 "CRC_FAILURE" none 0 :: List.replicate 40 (.reportPassing 0xC11029)

/-- Another fault confirms. -/
theorem aged_fault_confirms : ¬ Always observe unobserved Restarts
    (agedFault ++ [.setDtc 0xC11029 "CRC_FAILURE" none 90000]) := by
  intro h
  have hlast := h agedFault (.setDtc 0xC11029 "CRC_FAILURE" none 90000) [] rfl
  have hbefore : ((run observe unobserved agedFault).dtcs.dtcs.get? 0xC11029).map
      DTCEntry.isConfirmed = some false := by decide +kernel
  have hafter : ((observe (run observe unobserved agedFault)
      (.setDtc 0xC11029 "CRC_FAILURE" none 90000)).dtcs.dtcs.get? 0xC11029).map
      DTCEntry.isConfirmed = some true := by decide +kernel
  have hfaults : (observe (run observe unobserved agedFault)
      (.setDtc 0xC11029 "CRC_FAILURE" none 90000)).faults 0xC11029 = 1 := by decide +kernel
  have hunconfirmed : ¬ Confirmed (run observe unobserved agedFault).dtcs 0xC11029 := by
    rintro ⟨entry, hentry, hconfirmed⟩
    rw [hentry, Option.map_some, hconfirmed] at hbefore
    cases hbefore
  have htwo := hlast hunconfirmed (Option.map_eq_some_iff.mp hafter)
  rw [hfaults] at htwo
  exact absurd htwo (by decide)

end Genoh.DtcLifecycle
