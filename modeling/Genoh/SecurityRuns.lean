import Genoh.Run
import Genoh.SecurityChain

/-!
# Security log runs

A security log over calls, failed calls, crashes and reopenings. As long as no entry is appended
to a line that a crash cut off, the file holds linked entries with increasing sequence numbers, and
the open log stands at its end.
-/
namespace Genoh.SecurityRuns

open Genoh.Run Genoh.HashChain Genoh.Json Genoh.MasterLogs Genoh.MasterSecurityLog
  Genoh.SecurityChain Genoh.Strings Genoh.TextFile

/-! ## The system -/

/-- The file, the log object that is open, and the events that `log_event` has returned. -/
structure System where
  file : File
  log : Option SecurityLog
  returned : List SecurityEvent

inductive Step where
  | logEvent (call : SecurityCall) (nowMs : Nat) (disk : Disk)
  | reopen

def reopen (s : System) : System := { s with log := (recoverState s.file).toOption }

/-- A log that is opened where there is no file. -/
def start : System := reopen ⟨none, none, []⟩

def step (s : System) : Step → System
  | .reopen => reopen s
  | .logEvent call nowMs disk =>
    match s.log with
    | none => s
    | some log =>
      match MasterSecurityLog.logEvent log s.file call nowMs disk with
      | (.returned event, log, file) => ⟨file, some log, s.returned ++ [event]⟩
      | (.raised _, log, file) => ⟨file, some log, s.returned⟩
      | (.crashed, _, file) => ⟨file, none, s.returned⟩

def Step.crashes : Step → Bool
  | .logEvent _ _ (.crashes _) => true
  | _ => false

/-! ## Entries -/

/-- An entry as `log_event` makes it. -/
structure Logged where
  call : SecurityCall
  details : Members
  nowMs : Nat
  seq : Int
  hash : List Char

def Logged.event (e : Logged) : SecurityEvent where
  seq := .int e.seq
  severity := .str e.call.severity
  category := .str e.call.category
  event := .str e.call.event
  sourceNode := .str e.call.sourceNode
  sourceIp := .str e.call.sourceIp
  targetKeyExpr := .str e.call.targetKeyExpr
  action := .str e.call.action
  idsRule := .str e.call.idsRule
  chainHash := .str (ofText e.hash)
  details := .dict e.details
  tsMs := .int e.nowMs

def Logged.members (e : Logged) : Members := e.event.toDict

def Logged.line (e : Logged) : List Char := lineOf e.event

/-- The content that `log_event` hashes, and the hash. -/
def Logged.link (e : Logged) : List Char × List Char := ((eventFields e.event).content, e.hash)

/-- The entry of a call to a log that stands at this number and this hash. -/
def Logged.after (seq : Int) (hash : List Char) (call : SecurityCall) (details : Members)
    (nowMs : Nat) : Logged where
  call := call
  details := details
  nowMs := nowMs
  seq := seq + 1
  hash := SecurityChain.link hash
    (content (.int (seq + 1)) (.str call.severity) (.str call.event) (.str call.sourceNode))

theorem after_hash (seq : Int) (hash : List Char) (call : SecurityCall) (details : Members)
    (nowMs : Nat) : (Logged.after seq hash call details nowMs).hash =
      SecurityChain.link hash (Logged.after seq hash call details nowMs).link.1 := rfl

theorem after_content (seq : Int) (hash : List Char) (call : SecurityCall) (details : Members)
    (nowMs : Nat) : (Logged.after seq hash call details nowMs).link.1 =
      content (.int (seq + 1)) (.str call.severity) (.str call.event) (.str call.sourceNode) := rfl

/-- Serialised again after reading, the content is what was hashed. -/
theorem content_reread (e : Logged) :
    (eventFields e.event.reread).content = (eventFields e.event).content := by
  simp only [ChainFields.content, content, written, dumps, dumpsMembers, eventFields,
    SecurityEvent.reread, Logged.event, Json.reread, quote_joinSurrogates]

theorem chainHash_reread (e : Logged) : e.event.reread.chainHash = .str (ofText e.hash) :=
  congrArg Value.str (joinSurrogates_ofText e.hash)

theorem carries_line (e : Logged) : Carries e.line e.link := by
  rw [Logged.link, ← content_reread]
  exact carries_event (chainHash_reread e)

theorem carries_lines (entries : List Logged) :
    List.Forall₂ Carries (entries.map Logged.line) (entries.map Logged.link) := by
  rw [List.forall₂_map_left_iff, List.forall₂_map_right_iff]
  exact List.forall₂_same.mpr fun e _ => carries_line e

/-- Entries of one chain from the genesis hash, in the order of their numbers. -/
structure Intact (entries : List Logged) : Prop where
  linked : Linked SecurityChain.link genesisHash (entries.map Logged.link)
  increasing : (entries.map Logged.seq).Pairwise (· < ·)

theorem intact_nil : Intact [] := ⟨trivial, .nil⟩

theorem Intact.of_append {front back : List Logged} (h : Intact (front ++ back)) : Intact front := by
  have hlinked := h.linked
  have hincreasing := h.increasing
  rw [List.map_append] at hlinked hincreasing
  exact ⟨hlinked.of_prefix (List.prefix_append _ _), (List.pairwise_append.mp hincreasing).1⟩

def lastHash (entries : List Logged) : List Char := lastDigest genesisHash (entries.map Logged.link)

/-- The log stands at the end of the entries. -/
structure StandsAt (log : SecurityLog) (entries : List Logged) (seq : Int) : Prop where
  seq_eq : log.seq = .int seq
  hash_eq : log.lastChainHash = .str (ofText (lastHash entries))
  seq_le : ∀ e ∈ entries, e.seq ≤ seq

theorem Intact.after {entries : List Logged} {seq : Int} (h : Intact entries)
    (hseq : ∀ e ∈ entries, e.seq ≤ seq) (call : SecurityCall) (details : Members) (nowMs : Nat) :
    Intact (entries ++ [Logged.after seq (lastHash entries) call details nowMs]) := by
  constructor
  · rw [List.map_append]
    exact (linked_concat _ _ _ _ _).mpr ⟨h.linked, rfl⟩
  · rw [List.map_append, List.pairwise_append]
    refine ⟨h.increasing, List.pairwise_singleton _ _, fun n hn m hm => ?_⟩
    obtain ⟨e, he, rfl⟩ := List.mem_map.mp hn
    rw [List.mem_singleton.mp hm]
    exact Int.lt_add_one_of_le (hseq e he)

/-! ## Recovery -/

theorem lastHash_concat (entries : List Logged) (e : Logged) : lastHash (entries ++ [e]) = e.hash := by
  rw [lastHash, List.map_append, List.map_singleton, lastDigest_concat]
  rfl

/-- A log that goes on from the last of the entries stands at their end. -/
theorem standsAt_recovered {file : File} {entries : List Logged}
    (hlast : recoverEntry file = .ok ((entries.map Logged.members).getLast?.map stored))
    (h : Intact entries) : ∃ log seq, recoverState file = .ok log ∧ StandsAt log entries seq := by
  rw [recoverState, hlast]
  induction entries using List.reverseRecOn with
  | nil => exact ⟨{}, 0, rfl, rfl, rfl, List.forall_mem_nil _⟩
  | append_singleton entries e _ =>
    rw [List.map_append, List.map_singleton, List.getLast?_concat, Option.map_some, Logged.members,
      stored_toDict]
    refine ⟨_, e.seq, rfl, rfl, ?_, ?_⟩
    · rw [lastHash_concat]
      exact chainHash_reread e
    · have hincreasing := h.increasing
      rw [List.map_append, List.pairwise_append] at hincreasing
      refine List.forall_mem_append.mpr ⟨fun other hother => ?_, by simp⟩
      exact Int.le_of_lt (hincreasing.2.2 _ (List.mem_map_of_mem hother) _ (by simp))

/-- A log that is opened on a clean file stands at its end. -/
theorem recoverState_standsAt {file : File} {entries : List Logged} {next : Members}
    (hholds : Holds file (entries.map Logged.members) [] next) (h : Intact entries) :
    ∃ log seq, recoverState file = .ok log ∧ StandsAt log entries seq := by
  refine standsAt_recovered ?_ h
  rw [hholds.recover, if_pos rfl]

/-! ## Calls -/

/-- A call to a log at the end of its entries fails in front of the write, or writes the next
entry. -/
theorem logEvent_effect {log : SecurityLog} {entries : List Logged} {seq : Int}
    (h : StandsAt log entries seq) (file : File) (call : SecurityCall) (nowMs : Nat) (disk : Disk) :
    (∃ error log', logEvent log file call nowMs disk = (.raised error, log', file) ∧
      StandsAt log' entries (seq + 1) ∧ (call.details = none ∨ disk = .refuses)) ∨
    ∃ details log', call.details = some details ∧ disk ≠ .refuses ∧
      let e := Logged.after seq (lastHash entries) call details nowMs
      logEvent log file call nowMs disk =
        (match disk with
          | .writes => .returned e.event
          | _ => .crashed, log', writeEntry file e.members disk) ∧
      (disk = .writes → StandsAt log' (entries ++ [e]) (seq + 1)) := by
  have hle : ∀ e ∈ entries, e.seq ≤ seq + 1 := fun e he =>
    Int.le_of_lt (Int.lt_add_one_of_le (h.seq_le e he))
  simp only [logEvent, h.seq_eq, h.hash_eq, increment, chainInput_ofText]
  cases hdetails : call.details with
  | none => exact .inl ⟨_, _, rfl, ⟨rfl, rfl, hle⟩, .inl rfl⟩
  | some details =>
    cases disk with
    | refuses => exact .inl ⟨_, _, rfl, ⟨rfl, rfl, hle⟩, .inr rfl⟩
    | crashes n => exact .inr ⟨details, _, rfl, by simp, rfl, by simp⟩
    | writes =>
      refine .inr ⟨details, _, rfl, by simp, rfl, fun _ => ⟨rfl, ?_, ?_⟩⟩
      · rw [lastHash_concat]
        rfl
      · exact List.forall_mem_append.mpr ⟨hle, by simp [Logged.after]⟩

/-! ## The invariant -/

/-- The entries of the file can be read, and a cut one if it is whole. -/
structure Invariant (s : System) (entries : List Logged) (torn : List Char) (last : Logged) : Prop where
  holds : Holds s.file (entries.map Logged.members) torn last.members
  intact : Intact (entries ++ tornOf Logged.members torn last)
  log : torn = [] → ∀ log, s.log = some log → ∃ seq, StandsAt log entries seq
  returned : ∀ event ∈ s.returned, ∃ e ∈ entries ++ tornOf Logged.members torn last, e.event = event

theorem invariant_reopen {s : System} {entries : List Logged} {torn : List Char} {last : Logged}
    (h : Invariant s entries torn last) : Invariant (reopen s) entries torn last := by
  refine ⟨h.holds, h.intact, fun htorn log hlog => ?_, h.returned⟩
  subst htorn
  obtain ⟨log', seq, hrecover, hstands⟩ := recoverState_standsAt h.holds h.intact.of_append
  have hsome : (recoverState s.file).toOption = some log := hlog
  rw [hrecover] at hsome
  exact ⟨seq, Option.some.inj hsome ▸ hstands⟩

/-- An entry to stand where none is cut. -/
def noEntry : Logged := ⟨⟨[], [], [], [], [], [], [], [], none⟩, [], 0, 0, []⟩

theorem invariant_start (last : Logged) : Invariant start [] [] last := by
  apply invariant_reopen
  exact ⟨holds_empty _, by simpa using intact_nil, fun _ log hlog => absurd hlog (by simp),
    List.forall_mem_nil _⟩

theorem reopen_clean {s : System} {entries : List Logged} {last : Logged}
    (h : Invariant s entries [] last) : ∃ log, (reopen s).log = some log := by
  obtain ⟨log, seq, hrecover, -⟩ := recoverState_standsAt h.holds h.intact.of_append
  exact ⟨log, by rw [reopen, hrecover]; rfl⟩

theorem Invariant.returned_entries {s : System} {entries : List Logged} {last : Logged}
    (h : Invariant s entries [] last) : ∀ event ∈ s.returned, ∃ e ∈ entries, e.event = event := by
  simpa using h.returned

section Calls

variable {s : System} {entries : List Logged} {last : Logged} {log : SecurityLog} {seq : Int}

/-- A call that fails in front of the write only uses up a number. -/
theorem invariant_fails (h : Invariant s entries [] last) (hlog : s.log = some log)
    (hstands : StandsAt log entries seq) {call : SecurityCall} {nowMs : Nat} {disk : Disk}
    (hfails : call.details = none ∨ disk = .refuses) :
    Invariant (step s (.logEvent call nowMs disk)) entries [] last ∧
      ∃ log', (step s (.logEvent call nowMs disk)).log = some log' := by
  obtain ⟨error, log', hcall, hstands', -⟩ | ⟨details, log', hdetails, hdisk, -⟩ :=
    logEvent_effect hstands s.file call nowMs disk
  · have hstep : step s (.logEvent call nowMs disk) = ⟨s.file, some log', s.returned⟩ := by
      simp only [step, hlog, hcall]
    rw [hstep]
    refine ⟨⟨h.holds, h.intact, fun _ log'' hlog'' => ?_, h.returned⟩, log', rfl⟩
    exact ⟨seq + 1, Option.some.inj hlog'' ▸ hstands'⟩
  · obtain hnone | hrefuses := hfails
    · rw [hnone] at hdetails
      exact absurd hdetails (by simp)
    · exact absurd hrefuses hdisk

/-- A call that returns has written the next entry. -/
theorem step_writes (hlog : s.log = some log) (hstands : StandsAt log entries seq)
    {call : SecurityCall} {details : Members} (hdetails : call.details = some details) {nowMs : Nat}
    {e : Logged} (he : e = Logged.after seq (lastHash entries) call details nowMs) :
    ∃ log', step s (.logEvent call nowMs .writes) =
        ⟨writeEntry s.file e.members .writes, some log', s.returned ++ [e.event]⟩ ∧
      StandsAt log' (entries ++ [e]) (seq + 1) := by
  obtain ⟨error, log', -, -, hfails⟩ | ⟨details', log', hdetails', -, hcall, hstands'⟩ :=
    logEvent_effect hstands s.file call nowMs .writes
  · rw [hdetails] at hfails
    exact absurd hfails (by simp)
  · obtain rfl := Option.some.inj (hdetails.symm.trans hdetails')
    rw [← he] at hcall hstands'
    exact ⟨log', by simp only [step, hlog, hcall], hstands' rfl⟩

/-- A call that returns has appended the next entry. -/
theorem invariant_writes (h : Invariant s entries [] last) (hlog : s.log = some log)
    (hstands : StandsAt log entries seq) {call : SecurityCall} {details : Members}
    (hdetails : call.details = some details) {nowMs : Nat} {e : Logged}
    (he : e = Logged.after seq (lastHash entries) call details nowMs) :
    Invariant (step s (.logEvent call nowMs .writes)) (entries ++ [e]) [] e ∧
      ∃ log', (step s (.logEvent call nowMs .writes)).log = some log' ∧
        StandsAt log' (entries ++ [e]) (seq + 1) := by
  obtain ⟨log', hstep, hstands'⟩ := step_writes hlog hstands hdetails he
  rw [hstep]
  refine ⟨⟨?_, ?_, fun _ log'' hlog'' => ?_, ?_⟩, log', rfl, hstands'⟩
  · rw [List.map_append, List.map_singleton]
    exact h.holds.writes e.members
  · rw [tornOf_nil, List.append_nil]
    exact he ▸ h.intact.of_append.after hstands.seq_le call details nowMs
  · exact ⟨seq + 1, Option.some.inj hlog'' ▸ hstands'⟩
  · rw [tornOf_nil, List.append_nil]
    refine List.forall_mem_append.mpr ⟨fun event hevent => ?_, List.forall_mem_singleton.mpr ⟨e, ?_, rfl⟩⟩
    · obtain ⟨e', he', heq⟩ := h.returned_entries event hevent
      exact ⟨e', List.mem_append_left _ he', heq⟩
    · exact List.mem_append_right _ List.mem_cons_self

/-- A crash in a call leaves the next entry whole, or some of its line. -/
theorem invariant_crashes (h : Invariant s entries [] last) (hlog : s.log = some log)
    (hstands : StandsAt log entries seq) {call : SecurityCall} {details : Members}
    (hdetails : call.details = some details) (nowMs n : Nat) : ∃ entries' torn last',
      Invariant (step s (.logEvent call nowMs (.crashes n))) entries' torn last' := by
  obtain ⟨error, log', -, -, hfails⟩ | ⟨details', log', hdetails', -, hcall, -⟩ :=
    logEvent_effect hstands s.file call nowMs (.crashes n)
  · rw [hdetails] at hfails
    exact absurd hfails (by simp)
  · have hnew := h.intact.of_append.after hstands.seq_le call details' nowMs
    generalize Logged.after seq (lastHash entries) call details' nowMs = e at hcall hnew
    have hstep : step s (.logEvent call nowMs (.crashes n)) =
        ⟨writeEntry s.file e.members (.crashes n), none, s.returned⟩ := by
      simp only [step, hlog, hcall]
    rw [hstep]
    obtain ⟨entries', torn, hholds, hreadable⟩ := h.holds.crashes e n
    refine ⟨entries', torn, e, hholds, ?_, by simp, fun event hevent => ?_⟩
    · rw [hreadable]
      split
      · exact hnew
      · rw [List.append_nil]
        exact h.intact.of_append
    · obtain ⟨e', he', heq⟩ := h.returned_entries event hevent
      exact ⟨e', by rw [hreadable]; exact List.mem_append_left _ he', heq⟩

/-- A call that no byte of reaches the file leaves it, and returns nothing. -/
theorem step_idle (s : System) {call : SecurityCall} (nowMs : Nat) {disk : Disk}
    (h : s.log = none ∨ call.details = none ∨ disk.writesBytes = false) :
    (step s (.logEvent call nowMs disk)).file.getD [] = s.file.getD [] ∧
      (step s (.logEvent call nowMs disk)).returned = s.returned := by
  cases hlog : s.log with
  | none => simp only [step, hlog, and_self]
  | some log =>
    simp only [step, hlog, MasterSecurityLog.logEvent]
    cases increment log.seq with
    | error error => exact ⟨rfl, rfl⟩
    | ok seq =>
      dsimp only
      cases chainInput log.lastChainHash
        (content seq (.str call.severity) (.str call.event) (.str call.sourceNode)) with
      | error error => exact ⟨rfl, rfl⟩
      | ok input =>
        cases hdetails : call.details with
        | none => exact ⟨rfl, rfl⟩
        | some details =>
          have hidle : disk.writesBytes = false := by simpa [hlog, hdetails] using h
          cases disk with
          | refuses => exact ⟨rfl, rfl⟩
          | writes => exact absurd hidle (by decide)
          | crashes n => exact ⟨writeEntry_of_idle hidle s.file _, rfl⟩

end Calls

/-! ## Runs without crashes -/

/-- After calls, failed calls and reopenings the file holds entries only and the log is open. -/
theorem clean_run (steps : List Step) (hclean : ∀ e ∈ steps, e.crashes = false) :
    ∃ entries last log, Invariant (run step start steps) entries [] last ∧
      (run step start steps).log = some log := by
  apply run_invariant_of
    (I := fun s => ∃ entries last log, Invariant s entries [] last ∧ s.log = some log) _ _ steps hclean
  · exact ⟨[], noEntry, _, invariant_start noEntry, rfl⟩
  · rintro s e he ⟨entries, last, log, hinv, hlog⟩
    cases e with
    | reopen =>
      obtain ⟨log', hlog'⟩ := reopen_clean hinv
      exact ⟨entries, last, log', invariant_reopen hinv, hlog'⟩
    | logEvent call nowMs disk =>
      obtain ⟨seq, hstands⟩ := hinv.log rfl log hlog
      have hdisk : ∀ n, disk ≠ .crashes n := by
        rintro n rfl
        exact absurd he (by simp [Step.crashes])
      obtain hfails | ⟨rfl, details, hdetails⟩ := fails_or_writes hdisk call.details
      · obtain ⟨hinv', log', hlog'⟩ := invariant_fails hinv hlog hstands hfails
        exact ⟨entries, last, log', hinv', hlog'⟩
      · obtain ⟨hinv', log', hlog', -⟩ := invariant_writes hinv hlog hstands hdetails rfl
        exact ⟨_, _, log', hinv', hlog'⟩

/-! ## Runs with crashes -/

/-- The step appends nothing to a line without its end. -/
def Safe (s : System) : Step → Prop
  | .reopen => True
  | .logEvent call _ disk =>
    s.log ≠ none → call.details ≠ none → disk.writesBytes = true → Ended s.file

theorem invariant_idle {s s' : System} {entries : List Logged} {torn : List Char} {last : Logged}
    (h : Invariant s entries torn last) (htorn : torn ≠ [])
    (hsame : s'.file.getD [] = s.file.getD [] ∧ s'.returned = s.returned) :
    Invariant s' entries torn last :=
  ⟨h.holds.of_bytes hsame.1, h.intact, fun hnil => absurd hnil htorn, hsame.2 ▸ h.returned⟩

theorem invariant_safe {s : System} {entries : List Logged} {torn : List Char} {last : Logged}
    (h : Invariant s entries torn last) {e : Step} (hsafe : Safe s e) :
    ∃ entries' torn' last', Invariant (step s e) entries' torn' last' := by
  cases e with
  | reopen => exact ⟨entries, torn, last, invariant_reopen h⟩
  | logEvent call nowMs disk =>
    by_cases htorn : torn = []
    · subst htorn
      cases hlog : s.log with
      | none => exact ⟨entries, [], last, by simpa only [step, hlog] using h⟩
      | some log =>
        obtain ⟨seq, hstands⟩ := h.log rfl log hlog
        cases hdetails : call.details with
        | none => exact ⟨entries, [], last, (invariant_fails h hlog hstands (.inl hdetails)).1⟩
        | some details =>
          cases disk with
          | refuses => exact ⟨entries, [], last, (invariant_fails h hlog hstands (.inr rfl)).1⟩
          | writes => exact ⟨_, [], _, (invariant_writes h hlog hstands hdetails rfl).1⟩
          | crashes n => exact invariant_crashes h hlog hstands hdetails nowMs n
    · refine ⟨entries, torn, last, invariant_idle h htorn (step_idle s nowMs ?_)⟩
      by_contra hbusy
      simp only [not_or, Bool.not_eq_false] at hbusy
      exact htorn (h.holds.ended_iff.mp (hsafe hbusy.1 hbusy.2.1 hbusy.2.2))

/-- As long as nothing is appended to a line without its end, the entries of the file are intact. -/
theorem safe_run (steps : List Step) (hsafe : Always step start Safe steps) :
    ∃ entries torn last, Invariant (run step start steps) entries torn last := by
  apply run_invariant_always (I := fun s => ∃ entries torn last, Invariant s entries torn last) _ _ _ hsafe
  · exact ⟨[], [], noEntry, invariant_start noEntry⟩
  · rintro s e he ⟨entries, torn, last, h⟩
    exact invariant_safe h he

/-! ## Reading and verifying -/

theorem Intact.increasing_seq {entries : List Logged} (h : Intact entries) :
    Increasing ((entries.map fun e => e.event.reread).map SecurityEvent.seq) :=
  ⟨entries.map Logged.seq, by simp [SecurityEvent.reread, Logged.event, Json.reread], h.increasing⟩

theorem Invariant.readAllLines {s : System} {entries : List Logged} {last : Logged}
    (h : Invariant s entries [] last) : readAllLines s.file = .ok (entries.map Logged.line) :=
  h.holds.readAllLines_map

theorem readsAs_event (nowMs : Nat) (e : Logged) :
    ReadsAs (fromDict nowMs) e.members e.event.reread := by
  rw [ReadsAs, Logged.members, stored_toDict, fromDict_toDict]

theorem readsAs_members (nowMs : Nat) (entries : List Logged) : List.Forall₂
    (ReadsAs (fromDict nowMs)) (entries.map Logged.members) (entries.map fun e => e.event.reread) :=
  readsAs_map (readsAs_event nowMs) entries

/-- `read_events` returns the entries of the file, and a cut one if it is whole. -/
theorem readsAll_entries {file : File} {entries : List Logged} {torn : List Char} {last : Logged}
    (h : Holds file (entries.map Logged.members) torn last.members) (nowMs : Nat) :
    ReadsAll (fromDict nowMs) file
      ((entries ++ tornOf Logged.members torn last).map fun e => e.event.reread) :=
  h.readsAll_map (readsAs_event nowMs)

theorem Invariant.readsAll {s : System} {entries : List Logged} {torn : List Char} {last : Logged}
    (h : Invariant s entries torn last) (nowMs : Nat) : ReadsAll (fromDict nowMs) s.file
      ((entries ++ tornOf Logged.members torn last).map fun e => e.event.reread) :=
  readsAll_entries h.holds nowMs

end Genoh.SecurityRuns
