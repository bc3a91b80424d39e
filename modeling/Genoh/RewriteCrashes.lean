import Mathlib.Data.List.Perm.Subperm
import Genoh.DtcStore
import Genoh.SafetyRetention

/-!
# Crashes in rewrites

A rotation of the safety log and a save of the DTC store write their file anew, in the place of the
old one. A crash in that loses what the file held.
-/
namespace Genoh.RewriteCrashes

open Genoh.Run Genoh.Json Genoh.LastElements Genoh.MasterLogs Genoh.Strings Genoh.TextFile
open Genoh.MasterSafetyLog (SafetyEvent SafetyCall Clock maxEvents)
open Genoh.SafetyRuns (Logged rotated rotationText)

/-! ## Rotations -/

/-- The latest `maxEvents` logged events, or all, can be read. -/
def LatestFound (s : SafetyRuns.System) : Prop := ∀ clock, ∃ events,
  ReadsAll (MasterSafetyLog.fromDict clock) s.file events ∧
  ∀ event ∈ s.logged.rtake maxEvents, event.reread ∈ events

theorem latestFound {s : SafetyRuns.System} {logged entries : List Logged} {torn : List Char}
    {last : Logged} (h : SafetyRuns.Invariant s logged entries torn last) : LatestFound s := by
  intro clock
  refine ⟨_, SafetyRuns.readsAll_entries h.holds clock, fun event hevent => ?_⟩
  rw [h.logged_eq, rtake_map] at hevent
  obtain ⟨e, he, rfl⟩ := List.mem_map.mp hevent
  exact List.mem_map.mpr ⟨e, rtake_subset h.kept h.retained he, rfl⟩

/-- A file with fewer entries than that lacks some of them. -/
theorem not_latestFound {s : SafetyRuns.System} {logged entries : List Logged} {torn : List Char}
    {last : Logged} (hholds : Holds s.file (entries.map Logged.members) torn last.members)
    (hlogged : s.logged = logged.map Logged.event) (hincreasing : (logged.map Logged.seq).Pairwise (· < ·))
    (hfew : (entries ++ tornOf Logged.members torn last).length < min logged.length maxEvents) :
    ¬ LatestFound s := by
  intro hfound
  obtain ⟨events, hread, hlatest⟩ := hfound ⟨0, 0⟩
  have hevents := hread.eq (SafetyRuns.readsAll_entries hholds ⟨0, 0⟩)
  have hsubset : (logged.rtake maxEvents).map Logged.seq ⊆
      (entries ++ tornOf Logged.members torn last).map Logged.seq := by
    intro n hn
    obtain ⟨e, he, rfl⟩ := List.mem_map.mp hn
    have hmem : e.event ∈ s.logged.rtake maxEvents := by
      rw [hlogged, rtake_map]
      exact List.mem_map_of_mem he
    have hfound := hlatest _ hmem
    rw [hevents] at hfound
    obtain ⟨e', he', heq⟩ := List.mem_map.mp hfound
    have hseq : e'.seq = e.seq := Value.int.inj (congrArg SafetyEvent.seq heq)
    exact hseq ▸ List.mem_map_of_mem he'
  have hnodup : ((logged.rtake maxEvents).map Logged.seq).Nodup := by
    have hlast := (rtake_suffix logged maxEvents).map Logged.seq
    exact (hincreasing.sublist hlast.sublist).imp fun h => Int.ne_of_lt h
  have hlength := (List.subperm_of_subset hnodup hsubset).length_le
  rw [List.length_map, List.length_map, length_rtake] at hlength
  omega

/-- A crash that cuts a rotation short leaves fewer than the latest events. -/
theorem rotation_cut {s : SafetyRuns.System} {logged entries : List Logged} {last : Logged}
    (h : SafetyRuns.Invariant s logged entries [] last) {log : MasterSafetyLog.SafetyLog}
    (hlog : s.log = some log) {seq : Int} (hstands : SafetyRuns.StandsAt log logged seq)
    {call : SafetyCall} {details : Members} (hdetails : call.details = some details) {clock : Clock}
    {text : List Char} (htext : rotationText log s.file call clock = some text) {crash : Rewrite}
    (hcut : crash.CutsShort text) :
    ¬ LatestFound (SafetyRuns.reopen (SafetyRuns.step s (.logEvent call clock .writes crash))) := by
  intro hfound
  obtain ⟨e, he⟩ : ∃ e : Logged, e = ⟨call, details, clock, seq + 1⟩ := ⟨_, rfl⟩
  have hseq : e.seq = seq + 1 := congrArg Logged.seq he
  obtain ⟨hstep, ⟨hnone, -⟩ | ⟨hsome, hdue, hmany⟩⟩ :=
    SafetyRuns.step_writes h hlog hstands hdetails clock crash he
  · rw [htext] at hnone
    exact absurd hnone (by simp)
  · obtain rfl := Option.some.inj (htext.symm.trans hsome)
    cases crash with
    | crashes n =>
      obtain ⟨records, torn, last', hholds, hfront, hlength⟩ :=
        holds_cut Logged.members (rotated e.seq (entries ++ [e])) e n
      have hevents : s.logged ++ [e.event] = (logged ++ [e]).map Logged.event := by
        rw [h.logged_eq, List.map_append]
        rfl
      rw [hstep, htext] at hfound
      have hreopened : Holds (SafetyRuns.reopen (SafetyRuns.wrote s e (.crashes n) (some _))).file
          (records.map Logged.members) torn last'.members := hholds
      refine not_latestFound hreopened hevents (SafetyRuns.increasing_after h hstands hseq) ?_ hfound
      have hle := hfront.length_le
      have hne := mt hlength.mp (Nat.not_le.mpr hcut)
      rw [SafetyRetention.rotated_length_eq, if_pos hdue] at hle hne
      have hlogged := h.kept_clean.1.length_le
      simp only [List.length_append, List.length_singleton] at hle hne hmany ⊢
      omega
    | _ => exact hcut

/-- Behind a call the latest events are found again, unless a crash takes more of the rewritten file
than the end of its last line. -/
theorem rotation_crash_iff {s : SafetyRuns.System} {logged entries : List Logged} {torn : List Char}
    {last : Logged} (h : SafetyRuns.Invariant s logged entries torn last) (hended : Ended s.file)
    {log : MasterSafetyLog.SafetyLog} (hlog : s.log = some log) (call : SafetyCall) (clock : Clock)
    (crash : Rewrite) :
    LatestFound (SafetyRuns.reopen (SafetyRuns.step s (.logEvent call clock .writes crash))) ↔
      ∀ text, rotationText log s.file call clock = some text → ¬ crash.CutsShort text := by
  obtain rfl := h.holds.ended_iff.mp hended
  obtain ⟨seq, hstands⟩ := h.log rfl log hlog
  cases hdetails : call.details with
  | none =>
    have hfails : SafetyRuns.Invariant (SafetyRuns.step s (.logEvent call clock .writes crash)) logged
        entries [] last := SafetyRuns.invariant_fails h hlog hstands (.inl hdetails)
    refine iff_of_true (latestFound (SafetyRuns.invariant_reopen hfails)) fun text htext => ?_
    rw [rotationText, SafetyRuns.nextEntry, hstands.seq_eq, MasterLogs.increment, hdetails] at htext
    exact absurd htext (by simp)
  | some details =>
    refine ⟨fun hfound text htext hcut => ?_, fun hcut => ?_⟩
    · exact rotation_cut h hlog hstands hdetails htext hcut hfound
    · obtain ⟨logged', entries', torn', last', h'⟩ :=
        SafetyRuns.invariant_writes h hlog hstands hdetails hcut
      exact latestFound (SafetyRuns.invariant_reopen h')

/-! ## Saves -/

/-- The manager has the store from before the operation or from behind it. -/
def StoreFound (s : DtcStore.System) (before after : DtcStore.Store) : Prop :=
  s.manager = some (DtcStore.rereadStore before) ∨ s.manager = some (DtcStore.rereadStore after)

/-- The crash is in front of the opening of the file, which holds the store from before or behind
the operation, or behind the last byte, or there is nothing to lose on one of the sides. -/
def SaveSurvives (saved before after : DtcStore.Store) : Rewrite → Prop
  | .crashes n => (encode (written (DtcStore.document after))).length ≤ n ∨
      before = MasterDtc.DTCManager.empty ∨ after = MasterDtc.DTCManager.empty
  | _ => DtcStore.rereadStore saved = DtcStore.rereadStore before ∨
      DtcStore.rereadStore saved = DtcStore.rereadStore after

theorem save_crash_iff {s : DtcStore.System} (h : DtcStore.Invariant s) {before : DtcStore.Store}
    (hbefore : s.manager = some before) {op : DtcStore.Operation} (hsaves : op.saves before = true)
    {crash : Rewrite} (hcrash : crash.stops = true) :
    StoreFound (DtcStore.reopen (DtcStore.step s (.operate op crash))) before (DtcStore.apply before op) ↔
      SaveSurvives s.saved before (DtcStore.apply before op) crash := by
  have hafter := (h.keyed before hbefore).apply op
  have hload := DtcStore.load_save hafter s.file crash
  have hfile : (DtcStore.step s (.operate op crash)).file =
      DtcStore.save (DtcStore.apply before op) s.file crash := by
    simp only [DtcStore.step, hbefore, if_pos hsaves]
  have hreopen : ∀ dtcs, DtcStore.load (DtcStore.save (DtcStore.apply before op) s.file crash) = .ok dtcs →
      (DtcStore.reopen (DtcStore.step s (.operate op crash))).manager = some dtcs := by
    intro dtcs hdtcs
    simp only [DtcStore.reopen, hfile, hdtcs]
  cases crash with
  | refuses => exact absurd hcrash (by decide)
  | writes => exact absurd hcrash (by decide)
  | crashesBefore =>
    have hsaved := hreopen _ (hload.trans (h.saved (by simp [hbefore])))
    rw [StoreFound, hsaved, Option.some.injEq, Option.some.injEq, SaveSurvives]
    exact fun _ hcrashes => Rewrite.noConfusion hcrashes
  | crashes n =>
    dsimp only at hload
    split at hload
    · rename_i hn
      rw [StoreFound, hreopen _ hload, Option.some.injEq, Option.some.injEq, SaveSurvives,
        DtcStore.empty_eq_rereadStore, DtcStore.empty_eq_rereadStore]
      exact (or_iff_right (Nat.not_le.mpr hn)).symm
    · rename_i hn
      rw [StoreFound, hreopen _ hload, SaveSurvives]
      exact iff_of_true (.inr rfl) (.inl (Nat.le_of_not_lt hn))

/-! ## Both rewrites -/

/-- What a crash in a rewrite leaves: the latest events of the safety log, if it takes no more of the
file than the end of its last line, and the DTC store, if all of it is written, nothing is emptied
yet or there is nothing to lose. -/
theorem rewrite_crash_iff (file : File) (hfile : file.getD [] = []) (steps : List SafetyRuns.Step)
    (hsafe : Always SafetyRuns.step (SafetyRuns.start file) SafetyRuns.Safe steps)
    (hended : Ended (run SafetyRuns.step (SafetyRuns.start file) steps).file)
    (log : MasterSafetyLog.SafetyLog)
    (hlog : (run SafetyRuns.step (SafetyRuns.start file) steps).log = some log)
    (call : SafetyCall) (clock : Clock) (storeSteps : List DtcStore.Step) (before : DtcStore.Store)
    (hbefore : (run DtcStore.step DtcStore.start storeSteps).manager = some before)
    (op : DtcStore.Operation) (hsaves : op.saves before = true) (crash : Rewrite)
    (hcrash : crash.stops = true) :
    (LatestFound (SafetyRuns.reopen (SafetyRuns.step
        (run SafetyRuns.step (SafetyRuns.start file) steps) (.logEvent call clock .writes crash))) ↔
      ∀ text, rotationText log (run SafetyRuns.step (SafetyRuns.start file) steps).file call clock =
        some text → ¬ crash.CutsShort text) ∧
    (StoreFound (DtcStore.reopen (DtcStore.step (run DtcStore.step DtcStore.start storeSteps)
        (.operate op crash))) before (DtcStore.apply before op) ↔
      SaveSurvives (run DtcStore.step DtcStore.start storeSteps).saved before
        (DtcStore.apply before op) crash) := by
  constructor
  · obtain ⟨logged, entries, torn, last, h⟩ := SafetyRuns.safe_run hfile steps hsafe
    exact rotation_crash_iff h hended hlog call clock crash
  · exact save_crash_iff (DtcStore.invariant_run storeSteps) hbefore hsaves hcrash

/-! ## Crashes that lose what was there -/

def fullCall : SafetyCall := ⟨str "SAFETY_INFO", str "a", str "test", some [], [], []⟩

/-- So many events that the next one makes the log rotate for the first time. -/
def fullSteps : List SafetyRuns.Step :=
  List.replicate 10499 (.logEvent fullCall ⟨0, 0⟩ .writes .writes)

theorem fullSteps_clean : ∀ e ∈ fullSteps, SafetyRetention.Clean e := by
  intro e he
  rw [List.eq_of_mem_replicate he]
  exact ⟨nofun, rfl, rfl⟩

theorem full_log : ∃ logged entries last log text,
    SafetyRuns.Invariant (run SafetyRuns.step (SafetyRuns.start none) fullSteps) logged entries [] last ∧
    (run SafetyRuns.step (SafetyRuns.start none) fullSteps).log = some log ∧
    rotationText log (run SafetyRuns.step (SafetyRuns.start none) fullSteps).file fullCall ⟨0, 0⟩ =
      some text ∧ 1 < (encode text).length := by
  obtain ⟨logged, entries, last, h, hcount⟩ :=
    SafetyRetention.retained_run (rfl : (none : File).getD [] = []) fullSteps fullSteps_clean
  have hcalls : fullSteps.countP SafetyRetention.calls = 10499 := by
    rw [fullSteps, List.countP_replicate]
    rfl
  have hlength := h.length
  rw [hcount, hcalls, maxEvents] at hlength
  have hdetails : fullCall.details ≠ none := Option.some_ne_none []
  obtain ⟨text, htext, hlong⟩ := SafetyRetention.rotation_due h hdetails ⟨0, 0⟩
    (by rw [hcount, hcalls]) (by rw [hlength, maxEvents]; omega)
  exact ⟨logged, entries, last, _, text, h.invariant, h.log, htext, hlong⟩

/-- A store with one code in it. -/
def oneCode : DtcStore.System :=
  run DtcStore.step DtcStore.start [.operate (.setDtc 1 "" none 0) .writes]

/-- Both rewrites survive a crash in front of the opening of the file. -/
theorem rewrite_crash_before :
    LatestFound (SafetyRuns.reopen (SafetyRuns.step
      (run SafetyRuns.step (SafetyRuns.start none) fullSteps)
      (.logEvent fullCall ⟨0, 0⟩ .writes .crashesBefore))) ∧
    ∃ before, oneCode.manager = some before ∧
      StoreFound (DtcStore.reopen (DtcStore.step oneCode
        (.operate (.setDtc 2 "" none 0) .crashesBefore))) before
        (DtcStore.apply before (.setDtc 2 "" none 0)) := by
  obtain ⟨logged, entries, last, log, text, h, hlog, -, -⟩ := full_log
  have hsafe := SafetyRetention.clean_safe (rfl : (none : File).getD [] = []) fullSteps fullSteps_clean
  have hiff := rewrite_crash_iff none rfl fullSteps hsafe (h.holds.ended_iff.mpr rfl) log hlog fullCall
    ⟨0, 0⟩ [.operate (.setDtc 1 "" none 0) .writes] _ rfl (.setDtc 2 "" none 0) rfl .crashesBefore rfl
  exact ⟨hiff.1.mpr fun _ _ => id, _, rfl, hiff.2.mpr (.inl rfl)⟩

/-- A crash behind the opening of the file leaves an empty log and an empty store. -/
theorem rewrite_crash_loses :
    ¬ LatestFound (SafetyRuns.reopen (SafetyRuns.step
      (run SafetyRuns.step (SafetyRuns.start none) fullSteps)
      (.logEvent fullCall ⟨0, 0⟩ .writes (.crashes 0)))) ∧
    ∃ before, oneCode.manager = some before ∧
      ¬ StoreFound (DtcStore.reopen (DtcStore.step oneCode
        (.operate (.setDtc 2 "" none 0) (.crashes 0)))) before
        (DtcStore.apply before (.setDtc 2 "" none 0)) := by
  obtain ⟨logged, entries, last, log, text, h, hlog, htext, hlong⟩ := full_log
  constructor
  · rw [rotation_crash_iff h (h.holds.ended_iff.mpr rfl) hlog]
    exact fun hwhole => hwhole text htext hlong
  · refine ⟨_, rfl, fun hfound => ?_⟩
    have hone : DtcStore.Invariant oneCode := DtcStore.invariant_run _
    have hcodes := fun (dtcs : DtcStore.Store) (h : dtcs = MasterDtc.DTCManager.empty) =>
      congrArg (fun dtcs : DtcStore.Store => dtcs.dtcs.pairs.length) h
    obtain hall | hbefore | hafter := (save_crash_iff hone rfl rfl rfl).mp hfound
    · rw [Nat.le_zero, List.length_eq_zero_iff] at hall
      have hlength := congrArg List.length hall
      rw [encode_length fun c hc => .of_printable ((record_written _).printable c hc)] at hlength
      exact written_ne_nil _ (List.eq_nil_of_length_eq_zero hlength)
    · exact absurd (hcodes _ hbefore) (by decide)
    · exact absurd (hcodes _ hafter) (by decide)

end Genoh.RewriteCrashes
