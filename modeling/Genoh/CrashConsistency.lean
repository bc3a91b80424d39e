import Genoh.SafetyRuns
import Genoh.SecurityRuns

/-!
# Crash consistency

What the security log and the safety log keep over crashes, as long as nothing is appended to a line
that a crash left without its end and no crash cuts a rotation short.
-/
namespace Genoh.CrashConsistency

open Genoh.Run Genoh.Json Genoh.MasterLogs Genoh.Strings Genoh.TextFile
open Genoh.MasterSafetyLog (SafetyEvent SafetyCall Clock maxEvents)
open Genoh.MasterSecurityLog (SecurityCall SecurityEvent genesisHash verifyLines)

/-! ## What is kept -/

/-- The lines of entries that were written to their end. -/
def endedLines (lines : List (List Char)) : List (List Char) :=
  lines.filter fun line => line.getLast? = some '\n'

/-- The events that can be read have increasing numbers, every returned event is one of them, and
the chain of the completed entries verifies. -/
def SecurityConsistent (s : SecurityRuns.System) : Prop := ∀ nowMs, ∃ lines events,
  ReadsAll (MasterSecurityLog.fromDict nowMs) s.file events ∧
  Increasing (events.map SecurityEvent.seq) ∧
  (∀ event ∈ s.returned, event.reread ∈ events) ∧
  readAllLines s.file = .ok lines ∧
  verifyLines genesisHash (endedLines lines) = .ok true

/-- The events differ in their numbers, the first being the older. -/
def Older (event other : SafetyEvent) : Prop :=
  ∃ n m : Int, event.seq = .int n ∧ other.seq = .int m ∧ n < m

/-- The events that can be read have increasing numbers, and every returned event is one of them,
unless `maxEvents` newer ones are, which is what a rotation leaves. -/
def SafetyConsistent (s : SafetyRuns.System) : Prop := ∀ clock, ∃ events,
  ReadsAll (MasterSafetyLog.fromDict clock) s.file events ∧
  Increasing (events.map SafetyEvent.seq) ∧
  (∀ event ∈ s.returned, event.reread ∈ events ∨
    maxEvents ≤ events.length ∧ ∀ other ∈ events, Older event other) ∧
  (s.logged.length ≤ maxEvents → ∀ event ∈ s.returned, event.reread ∈ events)

/-! ## Security log -/

theorem endedLines_torn {file : File} {entries : List SecurityRuns.Logged} {torn : List Char}
    {next : Members} (h : Holds file (entries.map SecurityRuns.Logged.members) torn next) :
    readAllLines file = .ok (entries.map SecurityRuns.Logged.line ++ tornLines torn) ∧
      endedLines (entries.map SecurityRuns.Logged.line ++ tornLines torn) =
        entries.map SecurityRuns.Logged.line := by
  constructor
  · rw [h.readAllLines, List.map_map]
    rfl
  · rw [endedLines, List.filter_append]
    have hended : (entries.map SecurityRuns.Logged.line).filter
        (fun line => line.getLast? = some '\n') = entries.map SecurityRuns.Logged.line := by
      refine List.filter_eq_self.mpr fun line hline => ?_
      obtain ⟨e, -, rfl⟩ := List.mem_map.mp hline
      exact decide_eq_true List.getLast?_concat
    have htorn : (tornLines torn).filter (fun line => line.getLast? = some '\n') = [] := by
      refine List.filter_eq_nil_iff.mpr fun line hline => ?_
      rw [tornLines] at hline
      split at hline
      · exact absurd hline List.not_mem_nil
      · rw [List.mem_singleton.mp hline, decide_eq_true_iff]
        intro hlast
        exact absurd (h.printable _ (List.mem_of_getLast? hlast)) (by decide)
    rw [hended, htorn, List.append_nil]

theorem securityConsistent {s : SecurityRuns.System} {entries : List SecurityRuns.Logged}
    {torn : List Char} {last : SecurityRuns.Logged}
    (h : SecurityRuns.Invariant s entries torn last) : SecurityConsistent s := by
  intro nowMs
  obtain ⟨hlines, hended⟩ := endedLines_torn h.holds
  refine ⟨_, _, h.readsAll nowMs, h.intact.increasing_seq, fun event hevent => ?_, hlines, ?_⟩
  · obtain ⟨e, he, rfl⟩ := h.returned event hevent
    exact List.mem_map_of_mem he
  · rw [hended]
    exact (SecurityChain.verifyLines_true_iff (SecurityRuns.carries_lines entries) genesisHash).mpr
      h.intact.of_append.linked

/-! ## Safety log -/

theorem safetyConsistent {s : SafetyRuns.System} {logged entries : List SafetyRuns.Logged}
    {torn : List Char} {last : SafetyRuns.Logged}
    (h : SafetyRuns.Invariant s logged entries torn last) : SafetyConsistent s := by
  intro clock
  have hread := SafetyRuns.readsAll_entries h.holds clock
  have hretained := h.retained
  have hincreasing := h.increasing
  have hlogged := h.logged_eq
  obtain ⟨old, hold⟩ := h.kept
  generalize entries ++ tornOf SafetyRuns.Logged.members torn last = kept at hread hretained hold
  subst hold
  rw [List.map_append, List.pairwise_append] at hincreasing
  rw [List.length_append] at hretained
  have hreturned : ∀ event ∈ s.returned,
      (∃ e ∈ old, e.event = event) ∨ ∃ e ∈ kept, e.event = event := by
    intro event hevent
    have hmem := h.returned hevent
    rw [hlogged, List.map_append, List.mem_append] at hmem
    exact hmem.imp List.mem_map.mp List.mem_map.mp
  refine ⟨_, hread, SafetyRuns.increasing_reread hincreasing.2.1, fun event hevent => ?_,
    fun hfew event hevent => ?_⟩
  · obtain ⟨e, he, rfl⟩ | ⟨e, he, rfl⟩ := hreturned event hevent
    · right
      have hpos := List.length_pos_of_mem he
      refine ⟨by rw [List.length_map]; omega, fun other hother => ?_⟩
      obtain ⟨e', he', rfl⟩ := List.mem_map.mp hother
      exact ⟨e.seq, e'.seq, rfl, rfl,
        hincreasing.2.2 _ (List.mem_map_of_mem he) _ (List.mem_map_of_mem he')⟩
    · exact .inl (List.mem_map.mpr ⟨e, he, rfl⟩)
  · rw [hlogged, List.length_map, List.length_append] at hfew
    obtain ⟨e, he, rfl⟩ | ⟨e, he, rfl⟩ := hreturned event hevent
    · have hpos := List.length_pos_of_mem he
      omega
    · exact List.mem_map.mpr ⟨e, he, rfl⟩

/-! ## Both logs -/

/-- Both logs survive crashes in every run whose calls append to ended lines only, with no rotation
cut short. -/
theorem crash_consistent (securitySteps : List SecurityRuns.Step)
    (hsecurity : Always SecurityRuns.step SecurityRuns.start SecurityRuns.Safe securitySteps)
    (file : File) (hfile : file.getD [] = []) (safetySteps : List SafetyRuns.Step)
    (hsafety : Always SafetyRuns.step (SafetyRuns.start file) SafetyRuns.Safe safetySteps) :
    SecurityConsistent (run SecurityRuns.step SecurityRuns.start securitySteps) ∧
      SafetyConsistent (run SafetyRuns.step (SafetyRuns.start file) safetySteps) := by
  constructor
  · obtain ⟨entries, torn, last, h⟩ := SecurityRuns.safe_run securitySteps hsecurity
    exact securityConsistent h
  · obtain ⟨logged, entries, torn, last, h⟩ := SafetyRuns.safe_run hfile safetySteps hsafety
    exact safetyConsistent h

/-! ## A line without its end -/

def tornCall (event : String) : SafetyCall where
  severity := str "SAFETY_INFO"
  event := str event
  source := str "test"

/-- The entries of the calls; after the crash the numbers start again. -/
def tornLogged (event : String) : SafetyRuns.Logged := ⟨tornCall event, [], ⟨0, 0⟩, 1⟩

theorem holds_first :
    Holds (writeEntry none (tornLogged "a").members .writes) [(tornLogged "a").members] [] [] :=
  ⟨((holds_empty []).writes (tornLogged "a").members).bytes, List.nil_prefix⟩

theorem step_first : SafetyRuns.step (SafetyRuns.start none)
    (.logEvent (tornCall "a") ⟨0, 0⟩ .writes .writes) =
    SafetyRuns.wrote (SafetyRuns.start none) (tornLogged "a") .writes none := by
  have hlog : (SafetyRuns.start none).log = some ⟨.int 0⟩ := rfl
  exact (SafetyRuns.step_wrote hlog rfl rfl ⟨0, 0⟩ .writes rfl rfl).2

def securityCall : SecurityCall := { severity := str "LOW", event := str "a" }

/-- The first call of a security log returns behind a whole line. -/
theorem securityFirst_ended :
    Ended (SecurityRuns.step SecurityRuns.start (.logEvent securityCall 0 .writes)).file := by
  have hstands : SecurityRuns.StandsAt {} [] 0 := ⟨rfl, rfl, List.forall_mem_nil _⟩
  have hlog : SecurityRuns.start.log = some {} := rfl
  have hdetails : securityCall.details = some [] := rfl
  obtain ⟨log, hstep, -⟩ := SecurityRuns.step_writes hlog hstands hdetails
    (show _ = SecurityRuns.Logged.after 0 (SecurityRuns.lastHash []) securityCall [] 0 from rfl)
  rw [hstep]
  exact ((holds_empty []).writes _).ended_iff.mpr rfl

/-- In each log a call that returns, a crash behind the first byte of the next one, and a reopening. -/
theorem crash_consistent_second :
    SecurityConsistent (run SecurityRuns.step SecurityRuns.start
      [.logEvent securityCall 0 .writes, .logEvent securityCall 1 (.crashes 1), .reopen]) ∧
    SafetyConsistent (run SafetyRuns.step (SafetyRuns.start none)
      [.logEvent (tornCall "a") ⟨0, 0⟩ .writes .writes,
        .logEvent (tornCall "b") ⟨0, 0⟩ (.crashes 1) .writes, .reopen]) := by
  refine crash_consistent _ ?_ none rfl _ ?_
  · rw [always_cons, always_cons, always_cons]
    exact ⟨fun _ _ _ => nofun, fun _ _ _ => securityFirst_ended, trivial, always_nil _ _ _⟩
  · rw [always_cons, always_cons, always_cons, step_first]
    refine ⟨fun _ _ => ⟨fun _ _ => nofun, nofun⟩, fun _ _ => ⟨fun _ _ => ?_, nofun⟩, trivial,
      always_nil _ _ _⟩
    exact holds_first.ended_iff.mpr rfl

/-- The second entry is cut off behind one byte, and the third is appended to that. -/
def tornSteps : List SafetyRuns.Step := [
  .logEvent (tornCall "a") ⟨0, 0⟩ .writes .writes,
  .logEvent (tornCall "b") ⟨0, 0⟩ (.crashes 1) .writes,
  .reopen,
  .logEvent (tornCall "b") ⟨0, 0⟩ .writes .writes]

theorem torn_line_unreadable : readEntries (MasterSafetyLog.fromDict ⟨0, 0⟩)
    [['\x7b'] ++ written (tornLogged "b").members ++ ['\n']] = .ok [] := by
  have hloads : (loads (strip (['\x7b'] ++ written (tornLogged "b").members ++ ['\n']))).isNone = true := by
    decide +kernel
  rw [readEntries, readEntry, Option.isNone_iff_eq_none.mp hloads]
  rfl

/-- The entry that the crash cuts off. -/
def cutLogged : SafetyRuns.Logged := ⟨tornCall "b", [], ⟨0, 0⟩, 2⟩

def tornFile : File :=
  writeEntry (writeEntry none (tornLogged "a").members .writes) cutLogged.members (.crashes 1)

theorem cutLogged_written : ∃ inner, written cutLogged.members = '\x7b' :: inner ∧ inner ≠ [] := by
  obtain ⟨inner, hinner⟩ := (record_written cutLogged.members).braces
  exact ⟨_, hinner, List.concat_ne_nil _ _⟩

theorem holds_tornFile : Holds tornFile [(tornLogged "a").members] ['\x7b'] cutLogged.members := by
  obtain ⟨inner, hinner, -⟩ := cutLogged_written
  have hcut := holds_first.cuts cutLogged.members (n := 1) (by rw [hinner]; exact Nat.succ_pos _)
  rwa [hinner, List.take_succ_cons, List.take_zero] at hcut

theorem recover_tornFile : MasterSafetyLog.recoverSequence tornFile = .ok {} := by
  obtain ⟨inner, hinner, hne⟩ := cutLogged_written
  have hcut : ['\x7b'] ≠ written cutLogged.members := by
    rw [hinner]
    intro heq
    exact hne (List.cons.inj heq).2.symm
  rw [MasterSafetyLog.recoverSequence, holds_tornFile.recover, if_neg (List.cons_ne_nil _ _), tornEntries,
    if_neg hcut]
  rfl

theorem run_tornSteps : ∃ logged, run SafetyRuns.step (SafetyRuns.start none) tornSteps =
    ⟨writeEntry tornFile (tornLogged "b").members .writes, some ⟨.int 1⟩, logged,
      [(tornLogged "a").event, (tornLogged "b").event]⟩ := by
  obtain ⟨logged, hsecond⟩ : ∃ logged, SafetyRuns.step
      (SafetyRuns.wrote (SafetyRuns.start none) (tornLogged "a") .writes none)
      (.logEvent (tornCall "b") ⟨0, 0⟩ (.crashes 1) .writes) =
      ⟨tornFile, none, logged, [(tornLogged "a").event]⟩ :=
    ⟨_, SafetyRuns.step_crashes rfl rfl rfl ⟨0, 0⟩ 1 .writes rfl⟩
  have hopened : SafetyRuns.step ⟨tornFile, none, logged, [(tornLogged "a").event]⟩ .reopen =
      ⟨tornFile, some ⟨.int 0⟩, logged, [(tornLogged "a").event]⟩ := by
    rw [SafetyRuns.step, SafetyRuns.reopen, recover_tornFile]
    rfl
  have hlog' : (⟨tornFile, some ⟨.int 0⟩, logged, [(tornLogged "a").event]⟩ : SafetyRuns.System).log =
      some ⟨.int 0⟩ := rfl
  have hthird : SafetyRuns.step ⟨tornFile, some ⟨.int 0⟩, logged, [(tornLogged "a").event]⟩
      (.logEvent (tornCall "b") ⟨0, 0⟩ .writes .writes) =
      SafetyRuns.wrote ⟨tornFile, some ⟨.int 0⟩, logged, [(tornLogged "a").event]⟩ (tornLogged "b")
        .writes none :=
    (SafetyRuns.step_wrote hlog' rfl rfl ⟨0, 0⟩ .writes rfl rfl).2
  rw [tornSteps, run_cons, step_first, run_cons, hsecond, run_cons, hopened, run_cons, hthird, run_nil]
  exact ⟨_, rfl⟩

/-- The third call returns an event that nobody can read. -/
theorem torn_line_loses_event :
    ¬ SafetyConsistent (run SafetyRuns.step (SafetyRuns.start none) tornSteps) := by
  intro hconsistent
  obtain ⟨logged, hrun⟩ := run_tornSteps
  rw [hrun] at hconsistent
  obtain ⟨events, hread, -, hreturned, -⟩ := hconsistent ⟨0, 0⟩
  have hevents : events = [(tornLogged "a").event.reread] := by
    have hall := (readsAll_iff (holds_tornFile.merges (tornLogged "b").members) events).mp hread
    have hfirst : List.Forall₂ (ReadsAs (MasterSafetyLog.fromDict ⟨0, 0⟩)) [(tornLogged "a").members]
        [(tornLogged "a").event.reread] := SafetyRuns.readsAs_members ⟨0, 0⟩ [tornLogged "a"]
    have hentries := readEntries_lines hfirst torn_line_unreadable
    rw [List.map_append, List.map_map, List.map_singleton] at hall
    exact Except.ok.inj (hall.symm.trans hentries)
  subst hevents
  obtain hmem | ⟨hmany, -⟩ := hreturned (tornLogged "b").event (List.mem_cons_of_mem _ List.mem_cons_self)
  · have hevent := congrArg MasterSafetyLog.SafetyEvent.event (List.mem_singleton.mp hmem)
    exact absurd (Value.str.inj hevent) (by decide)
  · have hone : maxEvents ≤ 1 := hmany
    exact absurd hone (by decide)

end Genoh.CrashConsistency
