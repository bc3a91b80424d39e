import Genoh.LastElements
import Genoh.Run
import Genoh.MasterSafetyLog

/-!
# Safety log runs

A safety log over calls, failed calls, crashes and reopenings. A rotation takes the oldest entries
out of the file, so the state also says which events have been logged at all.
-/
namespace Genoh.SafetyRuns

open Genoh.Run Genoh.Json Genoh.LastElements Genoh.MasterLogs Genoh.MasterSafetyLog Genoh.Strings
  Genoh.TextFile

/-! ## The system -/

/-- The file, the log object that is open, the events whose entries reached the file as it was then,
and those that `log_event` has returned. -/
structure System where
  file : File
  log : Option SafetyLog
  logged : List SafetyEvent
  returned : List SafetyEvent

inductive Step where
  | logEvent (call : SafetyCall) (clock : Clock) (append : Disk) (rotate : Rewrite)
  | reopen

def reopen (s : System) : System := { s with log := (recoverSequence s.file).toOption }

/-- A log that is opened on a file. -/
def start (file : File) : System := reopen ⟨file, none, [], []⟩

/-- The entry that a call writes, or tries to. -/
def nextEntry (log : SafetyLog) (call : SafetyCall) (clock : Clock) : Option SafetyEvent :=
  match increment log.seq, call.details with
  | .ok seq, some details => some (newEntry seq call details clock)
  | _, _ => none

/-- The entry of a call as far as it reaches the file. -/
def completed (log : SafetyLog) (call : SafetyCall) (clock : Clock) (append : Disk) :
    List SafetyEvent :=
  (nextEntry log call clock).toList.filter fun entry => append.writesEntry entry.toDict

def step (s : System) : Step → System
  | .reopen => reopen s
  | .logEvent call clock append rotate =>
    match s.log with
    | none => s
    | some log =>
      let logged := s.logged ++ completed log call clock append
      match MasterSafetyLog.logEvent log s.file call clock append rotate with
      | (.returned event, log, file) => ⟨file, some log, logged, s.returned ++ [event]⟩
      | (.raised _, log, file) => ⟨file, some log, logged, s.returned⟩
      | (.crashed, _, file) => ⟨file, none, logged, s.returned⟩

/-- What the rotation of a call writes to the file; none where it leaves it as it is. -/
def rotationText (log : SafetyLog) (file : File) (call : SafetyCall) (clock : Clock) :
    Option (List Char) :=
  (nextEntry log call clock).bind fun entry =>
    ((keptText entry.seq (writeEntry file entry.toDict .writes)).toOption).join

/-- The step appends nothing to a line without its end, and no crash in its rotation cuts the file
short. -/
def Safe (s : System) : Step → Prop
  | .reopen => True
  | .logEvent call clock append rotate => ∀ log, s.log = some log →
    (call.details ≠ none → append.writesBytes = true → Ended s.file) ∧
    (append = .writes → ∀ text, rotationText log s.file call clock = some text →
      ¬ rotate.CutsShort text)

/-! ## Entries -/

/-- An entry as `log_event` makes it. -/
structure Logged where
  call : SafetyCall
  details : Members
  clock : Clock
  seq : Int

def Logged.event (e : Logged) : SafetyEvent := newEntry (.int e.seq) e.call e.details e.clock

def Logged.members (e : Logged) : Members := e.event.toDict

def Logged.line (e : Logged) : List Char := written e.members

/-- An entry to stand where none is cut. -/
def noEntry : Logged := ⟨⟨[], [], [], none, [], []⟩, [], ⟨0, 0⟩, 0⟩

/-- The entries that a rotation at this number leaves. -/
def rotated (seq : Int) (entries : List Logged) : List Logged :=
  if seq % 500 = 0 then entries.rtake maxEvents else entries

theorem rotated_suffix (seq : Int) (entries : List Logged) : rotated seq entries <:+ entries := by
  rw [rotated]
  split
  · exact rtake_suffix _ _
  · exact List.suffix_rfl

theorem rotated_length (seq : Int) (entries : List Logged) :
    min entries.length maxEvents ≤ (rotated seq entries).length := by
  rw [rotated]
  split
  · rw [length_rtake]
  · exact Nat.min_le_left _ _

/-- The last lines are those of the last entries. -/
theorem rtake_lines (entries : List Logged) (n : Nat) :
    ((entries.map fun e => e.line ++ ['\n']).rtake n).flatten =
      recordText ((entries.rtake n).map Logged.line) := by
  rw [rtake_map, recordText, List.flatMap_map]
  rfl

theorem readAllLines_clean {file : File} {entries : List Logged} {next : Members}
    (h : Holds file (entries.map Logged.members) [] next) :
    readAllLines file = .ok (entries.map fun e => e.line ++ ['\n']) :=
  h.readAllLines_map

/-- A rotation has nothing to write, or writes the entries it leaves. -/
theorem rotation_cases {file : File} {entries : List Logged} {next : Members}
    (h : Holds file (entries.map Logged.members) [] next) (seq : Int) :
    (keptText (.int seq) file = .ok none ∧ rotated seq entries = entries) ∨
      (keptText (.int seq) file = .ok (some (recordText ((rotated seq entries).map Logged.line))) ∧
        seq % 500 = 0 ∧ maxEvents < entries.length) := by
  rw [keptText, rotates, rotated]
  by_cases hdue : seq % 500 = 0
  · rw [if_pos (decide_eq_true hdue), if_pos hdue, readAllLines_clean h]
    simp only [Except.map, List.length_map, rtake_lines]
    by_cases hlen : maxEvents < entries.length
    · rw [if_pos hlen]
      exact .inr ⟨rfl, hdue, hlen⟩
    · rw [if_neg hlen, rtake_of_length_le (Nat.le_of_not_lt hlen)]
      exact .inl ⟨rfl, rfl⟩
  · rw [if_neg (by simpa using hdue), if_neg hdue]
    exact .inl ⟨rfl, rfl⟩

/-! ## The invariant -/

/-- The number of the log is at least that of every event. -/
structure StandsAt (log : SafetyLog) (logged : List Logged) (seq : Int) : Prop where
  seq_eq : log.seq = .int seq
  seq_le : ∀ e ∈ logged, e.seq ≤ seq

/-- Of the logged events, the file holds the latest, and `maxEvents` if there are so many. -/
structure Invariant (s : System) (logged entries : List Logged) (torn : List Char)
    (last : Logged) : Prop where
  holds : Holds s.file (entries.map Logged.members) torn last.members
  kept : entries ++ tornOf Logged.members torn last <:+ logged
  retained : min logged.length maxEvents ≤ (entries ++ tornOf Logged.members torn last).length
  increasing : (logged.map Logged.seq).Pairwise (· < ·)
  log : torn = [] → ∀ log, s.log = some log → ∃ seq, StandsAt log logged seq
  logged_eq : s.logged = logged.map Logged.event
  returned : s.returned ⊆ s.logged

/-- A log that is opened on a clean file stands at its last event. -/
theorem recoverSequence_standsAt {file : File} {logged entries : List Logged} {next : Members}
    (hholds : Holds file (entries.map Logged.members) [] next) (hkept : entries <:+ logged)
    (hretained : min logged.length maxEvents ≤ entries.length)
    (hincreasing : (logged.map Logged.seq).Pairwise (· < ·)) : ∃ log seq,
      recoverSequence file = .ok log ∧ StandsAt log logged seq ∧
      (∀ e ∈ logged.getLast?, e.seq = seq) ∧ (logged = [] → seq = 0) := by
  obtain ⟨old, rfl⟩ := hkept
  rw [recoverSequence, hholds.recover, if_pos rfl]
  cases entries using List.reverseRecOn with
  | nil =>
    have hold : old = [] := by
      rw [List.append_nil, List.length_nil, maxEvents] at hretained
      exact List.eq_nil_of_length_eq_zero (by omega)
    subst hold
    exact ⟨{}, 0, rfl, ⟨rfl, List.forall_mem_nil _⟩, by simp, fun _ => rfl⟩
  | append_singleton entries e =>
    rw [List.map_append, List.map_singleton, List.getLast?_concat, Option.map_some, Logged.members,
      stored_toDict]
    rw [← List.append_assoc, List.map_append, List.pairwise_append] at hincreasing
    rw [← List.append_assoc]
    refine ⟨_, e.seq, rfl, ⟨rfl, ?_⟩, by simp, by simp⟩
    refine List.forall_mem_append.mpr ⟨fun other hother => ?_, by simp⟩
    exact Int.le_of_lt (hincreasing.2.2 _ (List.mem_map_of_mem hother) _ (by simp))

theorem invariant_reopen {s : System} {logged entries : List Logged} {torn : List Char}
    {last : Logged} (h : Invariant s logged entries torn last) :
    Invariant (reopen s) logged entries torn last := by
  refine ⟨h.holds, h.kept, h.retained, h.increasing, fun htorn log hlog => ?_, h.logged_eq, h.returned⟩
  subst htorn
  have hkept := h.kept
  have hretained := h.retained
  rw [tornOf_nil, List.append_nil] at hkept hretained
  obtain ⟨log', seq, hrecover, hstands, -⟩ :=
    recoverSequence_standsAt h.holds hkept hretained h.increasing
  have hsome : (recoverSequence s.file).toOption = some log := hlog
  rw [hrecover] at hsome
  exact ⟨seq, Option.some.inj hsome ▸ hstands⟩

theorem invariant_start {file : File} (hfile : file.getD [] = []) (last : Logged) :
    Invariant (start file) [] [] [] last := by
  apply invariant_reopen
  exact ⟨⟨hfile, List.nil_prefix⟩, by simp, by simp, .nil, fun _ log hlog => absurd hlog (by simp), rfl,
    List.Subset.refl _⟩

/-- What of the new entries is kept keeps the latest of all. -/
theorem kept_append {logged entries kept : List Logged} (hkept : entries <:+ logged)
    (hretained : min logged.length maxEvents ≤ entries.length) (new : List Logged)
    (hsuffix : kept <:+ entries ++ new) (hlength : min (entries ++ new).length maxEvents ≤ kept.length) :
    kept <:+ logged ++ new ∧ min (logged ++ new).length maxEvents ≤ kept.length := by
  obtain ⟨old, rfl⟩ := hkept
  constructor
  · rw [List.append_assoc]
    exact hsuffix.trans (List.suffix_append _ _)
  · simp only [List.length_append] at *
    omega

/-! ## Calls -/

section Calls

variable {s : System} {logged entries : List Logged} {last : Logged} {log : SafetyLog} {seq : Int}

theorem Invariant.kept_clean (h : Invariant s logged entries [] last) :
    entries <:+ logged ∧ min logged.length maxEvents ≤ entries.length := by
  have hkept := h.kept
  have hretained := h.retained
  rw [tornOf_nil, List.append_nil] at hkept hretained
  exact ⟨hkept, hretained⟩

theorem increasing_after (h : Invariant s logged entries [] last) (hstands : StandsAt log logged seq)
    {e : Logged} (he : e.seq = seq + 1) : ((logged ++ [e]).map Logged.seq).Pairwise (· < ·) := by
  rw [List.map_append, List.pairwise_append]
  refine ⟨h.increasing, List.pairwise_singleton _ _, fun n hn m hm => ?_⟩
  obtain ⟨other, hother, rfl⟩ := List.mem_map.mp hn
  rw [List.mem_singleton.mp hm, he]
  exact Int.lt_add_one_of_le (hstands.seq_le other hother)

theorem nextEntry_eq (hseq : log.seq = .int seq) {call : SafetyCall} {details : Members}
    (hdetails : call.details = some details) (clock : Clock) :
    nextEntry log call clock = some (Logged.event ⟨call, details, clock, seq + 1⟩) := by
  rw [nextEntry, hseq, increment, hdetails]
  rfl

theorem completed_eq (hseq : log.seq = .int seq) {call : SafetyCall} {details : Members}
    (hdetails : call.details = some details) (clock : Clock) (append : Disk) :
    completed log call clock append =
      let e : Logged := ⟨call, details, clock, seq + 1⟩
      if append.writesEntry e.members then [e.event] else [] := by
  rw [completed, nextEntry_eq hseq hdetails]
  simp only [Option.toList_some, List.filter_cons, List.filter_nil]
  rfl

/-- A call that fails in front of the write only uses up a number. -/
theorem step_fails (hlog : s.log = some log) (hseq : log.seq = .int seq) {call : SafetyCall}
    {clock : Clock} {append : Disk} {rotate : Rewrite}
    (hfails : call.details = none ∨ append = .refuses) :
    step s (.logEvent call clock append rotate) =
      ⟨s.file, some ⟨.int (seq + 1)⟩, s.logged, s.returned⟩ := by
  cases hdetails : call.details with
  | none =>
    simp only [step, hlog, MasterSafetyLog.logEvent, hseq, increment, hdetails, completed,
      nextEntry, Option.toList_none, List.filter_nil, List.append_nil]
  | some details =>
    have hrefuses : append = .refuses := by simpa [hdetails] using hfails
    simp only [step, hlog, MasterSafetyLog.logEvent, hseq, increment, hdetails, hrefuses,
      completed_eq hseq hdetails, Disk.writesEntry, Bool.false_eq_true, if_false, List.append_nil]
    rfl

theorem invariant_fails (h : Invariant s logged entries [] last) (hlog : s.log = some log)
    (hstands : StandsAt log logged seq) {call : SafetyCall} {clock : Clock} {append : Disk}
    {rotate : Rewrite} (hfails : call.details = none ∨ append = .refuses) :
    Invariant (step s (.logEvent call clock append rotate)) logged entries [] last := by
  rw [step_fails hlog hstands.seq_eq hfails]
  refine ⟨h.holds, h.kept, h.retained, h.increasing, fun _ log' hlog' => ⟨seq + 1, ?_⟩, h.logged_eq,
    h.returned⟩
  obtain rfl := Option.some.inj hlog'
  exact ⟨rfl, fun e he => Int.le_add_one (hstands.seq_le e he)⟩

theorem step_crashes (hlog : s.log = some log) (hseq : log.seq = .int seq) {call : SafetyCall}
    {details : Members} (hdetails : call.details = some details) (clock : Clock) (n : Nat)
    (rotate : Rewrite) {e : Logged} (he : e = ⟨call, details, clock, seq + 1⟩) :
    step s (.logEvent call clock (.crashes n) rotate) =
      ⟨writeEntry s.file e.members (.crashes n), none,
        s.logged ++ (if (Disk.crashes n).writesEntry e.members then [e.event] else []), s.returned⟩ := by
  simp only [step, hlog, MasterSafetyLog.logEvent, hseq, increment, hdetails,
    completed_eq hseq hdetails, he]
  rfl

/-- A crash in a call leaves the next entry whole, or some of its line. -/
theorem invariant_crashes (h : Invariant s logged entries [] last) (hlog : s.log = some log)
    (hstands : StandsAt log logged seq) {call : SafetyCall} {details : Members}
    (hdetails : call.details = some details) (clock : Clock) (n : Nat) (rotate : Rewrite) :
    ∃ logged' entries' torn last',
      Invariant (step s (.logEvent call clock (.crashes n) rotate)) logged' entries' torn last' := by
  obtain ⟨e, he⟩ : ∃ e : Logged, e = ⟨call, details, clock, seq + 1⟩ := ⟨_, rfl⟩
  have hincreasing := increasing_after h hstands (congrArg Logged.seq he)
  have hstep := step_crashes hlog hstands.seq_eq hdetails clock n rotate he
  obtain ⟨entries', torn, hholds, hreadable⟩ := h.holds.crashes e n
  obtain ⟨hkept, hretained⟩ := kept_append h.kept_clean.1 h.kept_clean.2
    (if (Disk.crashes n).writesEntry e.members then [e] else []) List.suffix_rfl (Nat.min_le_left _ _)
  rw [← hreadable] at hkept hretained
  rw [hstep]
  refine ⟨_, entries', torn, e, hholds, hkept, hretained, ?_, fun _ log hlog => absurd hlog (by simp), ?_, ?_⟩
  · split
    · exact hincreasing
    · rw [List.append_nil]
      exact h.increasing
  · rw [h.logged_eq, List.map_append]
    split <;> rfl
  · exact List.subset_append_of_subset_left _ h.returned

/-- The system behind a call whose entry is written, when the rotation has written the text. -/
def wrote (s : System) (e : Logged) (rotate : Rewrite) : Option (List Char) → System
  | none => {
      file := writeEntry s.file e.members .writes
      log := some ⟨.int e.seq⟩
      logged := s.logged ++ [e.event]
      returned := s.returned ++ [e.event] }
  | some text => {
      file := rewrite (writeEntry s.file e.members .writes) text rotate
      log := if rotate.stops then none else some ⟨.int e.seq⟩
      logged := s.logged ++ [e.event]
      returned := if rotate.stops then s.returned else s.returned ++ [e.event] }

theorem step_wrote (hlog : s.log = some log) (hseq : log.seq = .int seq) {call : SafetyCall}
    {details : Members} (hdetails : call.details = some details) (clock : Clock) (rotate : Rewrite)
    {e : Logged} (he : e = ⟨call, details, clock, seq + 1⟩) {text : Option (List Char)}
    (htext : keptText (.int e.seq) (writeEntry s.file e.members .writes) = .ok text) :
    rotationText log s.file call clock = text ∧
      step s (.logEvent call clock .writes rotate) = wrote s e rotate text := by
  subst he
  constructor
  · rw [rotationText, nextEntry_eq hseq hdetails, Option.bind_some]
    exact congrArg (fun result => (Except.toOption result).join) htext
  · have hentry : keptText (.int (seq + 1)) (writeEntry s.file
        (newEntry (.int (seq + 1)) call details clock).toDict .writes) = .ok text := htext
    simp only [step, hlog, MasterSafetyLog.logEvent, hseq, increment, hdetails,
      completed_eq hseq hdetails, Disk.writesEntry, if_true, rotateIfNeeded, hentry]
    cases text with
    | none => rfl
    | some text => cases rotate <;> rfl

theorem Invariant.writes (h : Invariant s logged entries [] last) (e : Logged) :
    Holds (writeEntry s.file e.members .writes) ((entries ++ [e]).map Logged.members) [] e.members := by
  rw [List.map_append]
  exact h.holds.writes e.members

/-- A call that writes appends the next entry, and rotates to the latest entries. -/
theorem step_writes (h : Invariant s logged entries [] last) (hlog : s.log = some log)
    (hstands : StandsAt log logged seq) {call : SafetyCall} {details : Members}
    (hdetails : call.details = some details) (clock : Clock) (rotate : Rewrite) {e : Logged}
    (he : e = ⟨call, details, clock, seq + 1⟩) :
    step s (.logEvent call clock .writes rotate) =
        wrote s e rotate (rotationText log s.file call clock) ∧
      ((rotationText log s.file call clock = none ∧ rotated e.seq (entries ++ [e]) = entries ++ [e]) ∨
        (rotationText log s.file call clock =
            some (recordText ((rotated e.seq (entries ++ [e])).map Logged.line)) ∧
          e.seq % 500 = 0 ∧ maxEvents < (entries ++ [e]).length)) := by
  obtain ⟨hrotation, hsame⟩ | ⟨hrotation, hdue⟩ := rotation_cases (h.writes e) e.seq
  · obtain ⟨htext, hwrote⟩ := step_wrote hlog hstands.seq_eq hdetails clock rotate he hrotation
    rw [htext]
    exact ⟨hwrote, .inl ⟨rfl, hsame⟩⟩
  · obtain ⟨htext, hwrote⟩ := step_wrote hlog hstands.seq_eq hdetails clock rotate he hrotation
    rw [htext]
    exact ⟨hwrote, .inr ⟨rfl, hdue⟩⟩

/-- What is behind a call whose entry is written, as far as the latest entries are kept. -/
theorem Invariant.wrote (h : Invariant s logged entries [] last) (hstands : StandsAt log logged seq)
    {e : Logged} (he : e.seq = seq + 1) (rotate : Rewrite) (text : Option (List Char))
    {entries' : List Logged} {torn : List Char} {last' : Logged}
    (hholds : Holds (SafetyRuns.wrote s e rotate text).file (entries'.map Logged.members) torn
      last'.members)
    (hsuffix : entries' ++ tornOf Logged.members torn last' <:+ entries ++ [e])
    (hlength : min (entries ++ [e]).length maxEvents ≤
      (entries' ++ tornOf Logged.members torn last').length) :
    Invariant (SafetyRuns.wrote s e rotate text) (logged ++ [e]) entries' torn last' := by
  obtain ⟨hkept, hretained⟩ := kept_append h.kept_clean.1 h.kept_clean.2 [e] hsuffix hlength
  have hstands' : StandsAt ⟨.int e.seq⟩ (logged ++ [e]) e.seq := by
    refine ⟨rfl, List.forall_mem_append.mpr ⟨fun other hother => ?_, by simp⟩⟩
    rw [he]
    exact Int.le_add_one (hstands.seq_le other hother)
  have hreturned : s.returned ++ [e.event] ⊆ s.logged ++ [e.event] :=
    List.append_subset.mpr ⟨List.subset_append_of_subset_left _ h.returned, List.subset_append_right _ _⟩
  have hevents : s.logged ++ [e.event] = (logged ++ [e]).map Logged.event := by
    rw [h.logged_eq, List.map_append]
    rfl
  cases text with
  | none =>
    refine ⟨hholds, hkept, hretained, increasing_after h hstands he, fun _ log' hlog' => ?_, hevents,
      hreturned⟩
    exact ⟨e.seq, Option.some.inj hlog' ▸ hstands'⟩
  | some text =>
    refine ⟨hholds, hkept, hretained, increasing_after h hstands he, fun _ log' hlog' => ?_, hevents, ?_⟩
    · simp only [SafetyRuns.wrote] at hlog'
      split at hlog'
      · exact absurd hlog' (by simp)
      · exact ⟨e.seq, Option.some.inj hlog' ▸ hstands'⟩
    · simp only [SafetyRuns.wrote]
      split
      · exact List.subset_append_of_subset_left _ h.returned
      · exact hreturned

/-- A call that writes keeps the invariant, unless a crash cuts its rotation short. -/
theorem invariant_writes (h : Invariant s logged entries [] last) (hlog : s.log = some log)
    (hstands : StandsAt log logged seq) {call : SafetyCall} {details : Members}
    (hdetails : call.details = some details) {clock : Clock} {rotate : Rewrite}
    (hcut : ∀ text, rotationText log s.file call clock = some text → ¬ rotate.CutsShort text) :
    ∃ logged' entries' torn last',
      Invariant (step s (.logEvent call clock .writes rotate)) logged' entries' torn last' := by
  obtain ⟨e, he⟩ : ∃ e : Logged, e = ⟨call, details, clock, seq + 1⟩ := ⟨_, rfl⟩
  have hseq : e.seq = seq + 1 := congrArg Logged.seq he
  have hall : entries ++ [e] ++ tornOf Logged.members [] e = entries ++ [e] := by
    rw [tornOf_nil, List.append_nil]
  obtain ⟨hstep, ⟨htext, -⟩ | ⟨htext, -⟩⟩ := step_writes h hlog hstands hdetails clock rotate he
  · rw [hstep, htext]
    refine ⟨_, entries ++ [e], [], e, h.wrote hstands hseq rotate none (h.writes e) ?_ ?_⟩
    · rw [hall]
    · rw [hall]
      exact Nat.min_le_left _ _
  · rw [hstep, htext]
    obtain ⟨entries', torn, last', hholds, hreadable⟩ :=
      (h.writes e).rewrite (rotated e.seq (entries ++ [e])) e (hcut _ htext)
    refine ⟨_, entries', torn, last', h.wrote hstands hseq rotate (some _) hholds ?_ ?_⟩
    · obtain hsame | hrotated := hreadable
      · rw [hsame]
      · rw [hrotated]
        exact rotated_suffix _ _
    · obtain hsame | hrotated := hreadable
      · rw [hsame]
        exact Nat.min_le_left _ _
      · rw [hrotated]
        exact rotated_length _ _

/-- A call that rotates as it is meant to leaves the latest entries. -/
theorem invariant_rotates (h : Invariant s logged entries [] last) (hlog : s.log = some log)
    (hstands : StandsAt log logged seq) {call : SafetyCall} {details : Members}
    (hdetails : call.details = some details) (clock : Clock) {e : Logged}
    (he : e = ⟨call, details, clock, seq + 1⟩) :
    let s' := step s (.logEvent call clock .writes .writes)
    Invariant s' (logged ++ [e]) (rotated e.seq (entries ++ [e])) [] e ∧
      s'.log = some ⟨.int e.seq⟩ ∧ s'.returned = s.returned ++ [e.event] := by
  have hseq : e.seq = seq + 1 := congrArg Logged.seq he
  have hkept : rotated e.seq (entries ++ [e]) ++ tornOf Logged.members [] e =
      rotated e.seq (entries ++ [e]) := by
    rw [tornOf_nil, List.append_nil]
  obtain ⟨hstep, ⟨htext, hsame⟩ | ⟨htext, -⟩⟩ := step_writes h hlog hstands hdetails clock .writes he
  · rw [hstep, htext]
    refine ⟨h.wrote hstands hseq .writes none ?_ ?_ ?_, rfl, rfl⟩
    · rw [hsame]
      exact h.writes e
    · rw [hkept]
      exact rotated_suffix _ _
    · rw [hkept]
      exact rotated_length _ _
  · rw [hstep, htext]
    refine ⟨h.wrote hstands hseq .writes (some _) ⟨?_, List.nil_prefix⟩ ?_ ?_, rfl, rfl⟩
    · rw [SafetyRuns.wrote, rewrite, Option.getD_some, List.append_nil, List.map_map]
      rfl
    · rw [hkept]
      exact rotated_suffix _ _
    · rw [hkept]
      exact rotated_length _ _

/-- A call whose rotation cannot open the file leaves all entries in it. -/
theorem invariant_keeps (h : Invariant s logged entries [] last) (hlog : s.log = some log)
    (hstands : StandsAt log logged seq) {call : SafetyCall} {details : Members}
    (hdetails : call.details = some details) (clock : Clock) {e : Logged}
    (he : e = ⟨call, details, clock, seq + 1⟩) :
    let s' := step s (.logEvent call clock .writes .refuses)
    Invariant s' (logged ++ [e]) (entries ++ [e]) [] e ∧
      s'.log = some ⟨.int e.seq⟩ ∧ s'.returned = s.returned ++ [e.event] := by
  have hseq : e.seq = seq + 1 := congrArg Logged.seq he
  have hall : entries ++ [e] ++ tornOf Logged.members [] e = entries ++ [e] := by
    rw [tornOf_nil, List.append_nil]
  obtain ⟨hstep, -⟩ := step_writes h hlog hstands hdetails clock .refuses he
  have hfile : ∀ text, (wrote s e .refuses text).file = writeEntry s.file e.members .writes ∧
      (wrote s e .refuses text).log = some ⟨.int e.seq⟩ ∧
      (wrote s e .refuses text).returned = s.returned ++ [e.event] := by
    intro text
    cases text <;> exact ⟨rfl, rfl, rfl⟩
  obtain ⟨hwritten, hlog', hreturned⟩ := hfile (rotationText log s.file call clock)
  rw [hstep]
  refine ⟨h.wrote hstands hseq .refuses _ ?_ ?_ ?_, hlog', hreturned⟩
  · rw [hwritten]
    exact h.writes e
  · rw [hall]
  · rw [hall]
    exact Nat.min_le_left _ _

/-- A call that no byte of reaches the file leaves it, and logs and returns nothing. -/
theorem step_idle (s : System) {call : SafetyCall} (clock : Clock) {append : Disk} (rotate : Rewrite)
    (h : s.log = none ∨ call.details = none ∨ append.writesBytes = false) :
    (step s (.logEvent call clock append rotate)).file.getD [] = s.file.getD [] ∧
      (step s (.logEvent call clock append rotate)).logged = s.logged ∧
      (step s (.logEvent call clock append rotate)).returned = s.returned := by
  cases hlog : s.log with
  | none => simp only [step, hlog, and_self]
  | some log =>
    simp only [step, hlog, MasterSafetyLog.logEvent, completed, nextEntry]
    cases increment log.seq with
    | error error => exact ⟨rfl, List.append_nil _, rfl⟩
    | ok seq =>
      cases hdetails : call.details with
      | none => exact ⟨rfl, List.append_nil _, rfl⟩
      | some details =>
        have hidle : append.writesBytes = false := by simpa [hlog, hdetails] using h
        have hnone : [newEntry seq call details clock].filter
            (fun entry => append.writesEntry entry.toDict) = [] := by
          rw [List.filter_cons_of_neg (by simp [writesEntry_of_idle hidle]), List.filter_nil]
        simp only [Option.toList_some, hnone, List.append_nil]
        cases append with
        | refuses => exact ⟨rfl, rfl, rfl⟩
        | writes => exact absurd hidle (by decide)
        | crashes n => exact ⟨writeEntry_of_idle hidle s.file _, rfl, rfl⟩

end Calls

/-! ## Runs -/

theorem invariant_safe {s : System} {logged entries : List Logged} {torn : List Char} {last : Logged}
    (h : Invariant s logged entries torn last) {e : Step} (hsafe : Safe s e) :
    ∃ logged' entries' torn' last', Invariant (step s e) logged' entries' torn' last' := by
  cases e with
  | reopen => exact ⟨logged, entries, torn, last, invariant_reopen h⟩
  | logEvent call clock append rotate =>
    by_cases htorn : torn = []
    · subst htorn
      cases hlog : s.log with
      | none => exact ⟨logged, entries, [], last, by simpa only [step, hlog] using h⟩
      | some log =>
        obtain ⟨seq, hstands⟩ := h.log rfl log hlog
        cases hdetails : call.details with
        | none => exact ⟨logged, entries, [], last, invariant_fails h hlog hstands (.inl hdetails)⟩
        | some details =>
          cases append with
          | refuses => exact ⟨logged, entries, [], last, invariant_fails h hlog hstands (.inr rfl)⟩
          | writes => exact invariant_writes h hlog hstands hdetails ((hsafe log hlog).2 rfl)
          | crashes n => exact invariant_crashes h hlog hstands hdetails clock n rotate
    · have hidle : s.log = none ∨ call.details = none ∨ append.writesBytes = false := by
        by_contra hbusy
        simp only [not_or, Bool.not_eq_false] at hbusy
        obtain ⟨log, hlog⟩ := Option.ne_none_iff_exists'.mp hbusy.1
        exact htorn (h.holds.ended_iff.mp ((hsafe log hlog).1 hbusy.2.1 hbusy.2.2))
      obtain ⟨hfile, hlogged, hreturned⟩ := step_idle s clock rotate hidle
      exact ⟨logged, entries, torn, last, h.holds.of_bytes hfile, h.kept, h.retained, h.increasing,
        fun hnil => absurd hnil htorn, hlogged ▸ h.logged_eq, by rw [hreturned, hlogged]; exact h.returned⟩

theorem safe_run {file : File} (hfile : file.getD [] = []) (steps : List Step)
    (hsafe : Always step (start file) Safe steps) : ∃ logged entries torn last,
      Invariant (run step (start file) steps) logged entries torn last := by
  apply run_invariant_always
    (I := fun s => ∃ logged entries torn last, Invariant s logged entries torn last) _ _ _ hsafe
  · exact ⟨[], [], [], noEntry, invariant_start hfile noEntry⟩
  · rintro s e he ⟨logged, entries, torn, last, h⟩
    exact invariant_safe h he

/-! ## Reading -/

theorem readsAs_event (clock : Clock) (e : Logged) :
    ReadsAs (fromDict clock) e.members e.event.reread := by
  rw [ReadsAs, Logged.members, stored_toDict, fromDict_toDict]

theorem readsAs_members (clock : Clock) (entries : List Logged) : List.Forall₂
    (ReadsAs (fromDict clock)) (entries.map Logged.members) (entries.map fun e => e.event.reread) :=
  readsAs_map (readsAs_event clock) entries

/-- `read_events` returns the entries of the file, and a cut one if it is whole. -/
theorem readsAll_entries {file : File} {entries : List Logged} {torn : List Char} {last : Logged}
    (h : Holds file (entries.map Logged.members) torn last.members) (clock : Clock) :
    ReadsAll (fromDict clock) file
      ((entries ++ tornOf Logged.members torn last).map fun e => e.event.reread) :=
  h.readsAll_map (readsAs_event clock)

theorem increasing_reread {entries : List Logged} (h : (entries.map Logged.seq).Pairwise (· < ·)) :
    Increasing ((entries.map fun e => e.event.reread).map SafetyEvent.seq) :=
  ⟨entries.map Logged.seq, by simp [SafetyEvent.reread, Logged.event, newEntry, Json.reread], h⟩

end Genoh.SafetyRuns
