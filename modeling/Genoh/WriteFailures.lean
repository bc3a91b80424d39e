import Genoh.SecurityEvidence

/-!
# Security log write failures

`log_event` where the system calls of `_write_entry` go wrong: `os.write` raises or takes a front of
the line, which nothing looks at, and `os.fsync` raises behind it. The number, the file and the chain
hash of the log are advanced one after the other, so that a failure leaves them apart.
-/
namespace Genoh.WriteFailures

open Genoh.Run Genoh.HashChain Genoh.Json Genoh.MasterLogs Genoh.MasterSecurityLog
  Genoh.SecurityChain Genoh.SecurityEvidence Genoh.SecurityRuns Genoh.Strings Genoh.TextFile

/-! ## The calls -/

/-- What comes behind `os.write`: `_write_entry` returns, `os.fsync` raises, or the program ends. -/
inductive Ending where
  | returns
  | raises
  | crashes
  deriving DecidableEq

/-- What becomes of the system calls: `os.open` raises, `os.write` raises, or it takes so many bytes
of the line, or all if there are no more. -/
inductive Io where
  | openRaises
  | writeRaises
  | takes (bytes : Nat) (ending : Ending)

def Io.ending : Io → Ending
  | .openRaises => .raises
  | .writeRaises => .raises
  | .takes _ ending => ending

/-- The file after `_write_entry` on the members of the entry. -/
def writeEntry (file : File) (members : Members) : Io → File
  | .openRaises => file
  | .writeRaises => some (file.getD [])
  | .takes bytes _ => some (file.getD [] ++ (encode (written members ++ ['\n'])).take bytes)

/-- `log_event` in front of the system calls: the log, and the entry if nothing raises. -/
def nextEntry (log : SecurityLog) (call : SecurityCall) (nowMs : Nat) :
    SecurityLog × Except LogError SecurityEvent :=
  match increment log.seq with
  | .error error => (log, .error error)
  | .ok seq =>
    let log := { log with seq := seq }
    let content := content seq (.str call.severity) (.str call.event) (.str call.sourceNode)
    match chainInput log.lastChainHash content with
    | .error error => (log, .error error)
    | .ok input =>
      match call.details with
      | none => (log, .error .typeError)
      | some details => (log, .ok {
          seq := seq
          severity := .str call.severity
          category := .str call.category
          event := .str call.event
          sourceNode := .str call.sourceNode
          sourceIp := .str call.sourceIp
          targetKeyExpr := .str call.targetKeyExpr
          action := .str call.action
          idsRule := .str call.idsRule
          chainHash := .str (ofText (sha256Hex input))
          details := .dict details
          tsMs := .int nowMs })

/-- `log_event`: how it ends, the log and the file. -/
def logEvent (log : SecurityLog) (file : File) (call : SecurityCall) (nowMs : Nat) (io : Io) :
    Outcome SecurityEvent × SecurityLog × File :=
  match nextEntry log call nowMs with
  | (log, .error error) => (.raised error, log, file)
  | (log, .ok entry) =>
    let file := writeEntry file entry.toDict io
    match io.ending with
    | .raises => (.raised .osError, log, file)
    | .crashes => (.crashed, log, file)
    | .returns => (.returned entry, { log with lastChainHash := entry.chainHash }, file)

/-- The system calls that a disk makes of an entry. -/
def ioOf (members : Members) : Disk → Io
  | .refuses => .openRaises
  | .writes => .takes (encode (written members ++ ['\n'])).length .returns
  | .crashes n => .takes n .crashes

/-- Where the system calls do what a disk makes of them, this is the log as it was. -/
theorem logEvent_disk (log : SecurityLog) (file : File) (call : SecurityCall) (nowMs : Nat)
    (disk : Disk) : MasterSecurityLog.logEvent log file call nowMs disk =
      match (nextEntry log call nowMs).2 with
      | .error error => (.raised error, (nextEntry log call nowMs).1, file)
      | .ok entry => logEvent log file call nowMs (ioOf entry.toDict disk) := by
  unfold MasterSecurityLog.logEvent logEvent nextEntry
  cases increment log.seq with
  | error error => rfl
  | ok seq =>
    dsimp only
    cases chainInput log.lastChainHash
      (content seq (.str call.severity) (.str call.event) (.str call.sourceNode)) with
    | error error => rfl
    | ok input =>
      cases call.details with
      | none => rfl
      | some details =>
        cases disk with
        | refuses => rfl
        | crashes n => rfl
        | writes => simp only [ioOf, Io.ending, writeEntry, MasterLogs.writeEntry, List.take_length]

/-! ## The system -/

inductive Step where
  | logEvent (call : SecurityCall) (nowMs : Nat) (io : Io)
  | reopen

def step (s : System) : Step → System
  | .reopen => SecurityRuns.reopen s
  | .logEvent call nowMs io =>
    match s.log with
    | none => s
    | some log =>
      match logEvent log s.file call nowMs io with
      | (.returned event, log, file) => ⟨file, some log, s.returned ++ [event]⟩
      | (.raised _, log, file) => ⟨file, some log, s.returned⟩
      | (.crashed, _, file) => ⟨file, none, s.returned⟩

/-- `verify_chain` returns True, and every event that `log_event` returned can be read. -/
def Sound (s : System) : Prop :=
  (∀ log : SecurityLog, log.verifyChain s.file = .ok true) ∧
    ∀ nowMs, ∃ events, ReadsAll (fromDict nowMs) s.file events ∧
      ∀ event ∈ s.returned, event.reread ∈ events

/-- The call is chained to the hash that a log opened now would go on from, or the two texts have
the same hash. -/
def Chains (log : SecurityLog) (file : File) (call : SecurityCall) : Prop :=
  ∀ seq opened, increment log.seq = .ok seq → recoverState file = .ok opened →
    let content := content seq (.str call.severity) (.str call.event) (.str call.sourceNode)
    (chainInput log.lastChainHash content).map sha256Hex =
      (chainInput opened.lastChainHash content).map sha256Hex

/-- A write takes nothing, with no event returned, or all but the end of the line, which stands in a
line of its own and is chained to the line before it. -/
def Harmless (s : System) : Step → Prop
  | .logEvent call nowMs (.takes bytes ending) => ∀ log entry, s.log = some log →
      (nextEntry log call nowMs).2 = .ok entry →
      bytes = 0 ∧ ending ≠ .returns ∨
        (written entry.toDict).length ≤ bytes ∧ Ended s.file ∧ Chains log s.file call
  | _ => True

/-! ## Files -/

/-- The file holds the entries, the last of them maybe without the end of its line. -/
def HoldsAll (file : File) (entries : List Logged) : Prop :=
  ∃ front torn last, Holds file (front.map Logged.members) torn last.members ∧
    (torn = [] ∨ torn = written last.members) ∧ front ++ tornOf Logged.members torn last = entries

/-- A write of nothing leaves the bytes as they were. -/
theorem writeEntry_nothing (file : File) (members : Members) (ending : Ending) :
    (writeEntry file members (.takes 0 ending)).getD [] = file.getD [] := by
  rw [writeEntry, List.take_zero, List.append_nil, Option.getD_some]

theorem written_lt_line (e : Logged) : (written e.members).length < e.line.length := by
  rw [Logged.line, lineOf, List.length_append, List.length_singleton, Logged.members]
  exact Nat.lt_succ_self _

theorem holdsAll_none : HoldsAll none [] :=
  ⟨[], [], noEntry, holds_empty _, .inl rfl, by rw [tornOf_nil, List.append_nil]⟩

/-- The end of its line does not change what a line carries. -/
theorem carries_written (e : Logged) : Carries (written e.members) e.link := by
  obtain ⟨fields, hread, hcontent⟩ := carries_line e
  refine ⟨fields, ?_, hcontent⟩
  rw [Logged.line, lineOf, readEntry, strip_line (record_written _)] at hread
  rwa [readEntry, strip_record (record_written _)]

section Files

variable {file : File} {entries : List Logged}

theorem HoldsAll.of_bytes (h : HoldsAll file entries) {file' : File}
    (hbytes : file'.getD [] = file.getD []) : HoldsAll file' entries := by
  obtain ⟨front, torn, last, hholds, hwhole, heq⟩ := h
  exact ⟨front, torn, last, hholds.of_bytes hbytes, hwhole, heq⟩

theorem HoldsAll.lines (h : HoldsAll file entries) : ∃ lines, readAllLines file = .ok lines ∧
    List.Forall₂ Carries lines (entries.map Logged.link) := by
  obtain ⟨front, torn, last, hholds, hwhole, rfl⟩ := h
  have hfront := carries_lines front
  refine ⟨_, hholds.readAllLines, ?_⟩
  rw [List.map_map, List.map_append]
  obtain rfl | rfl := hwhole
  · rw [tornOf_nil, List.map_nil, List.append_nil, tornLines, if_pos rfl, List.append_nil]
    exact hfront
  · rw [tornOf, if_pos rfl, tornLines, if_neg (written_ne_nil _)]
    exact List.rel_append hfront (.cons (carries_written last) .nil)

/-- `verify_chain` accepts the file if the entries are linked. -/
theorem HoldsAll.verifies_iff (h : HoldsAll file entries) :
    (∀ log : SecurityLog, log.verifyChain file = .ok true) ↔
      Linked SecurityChain.link genesisHash (entries.map Logged.link) := by
  obtain ⟨lines, hlines, hcarries⟩ := h.lines
  simp only [SecurityLog.verifyChain, hlines, verifyLines_true_iff hcarries]
  exact ⟨fun hlinked => hlinked {}, fun hlinked _ => hlinked⟩

theorem HoldsAll.readsAll (h : HoldsAll file entries) (nowMs : Nat) :
    ReadsAll (fromDict nowMs) file (entries.map fun e => e.event.reread) := by
  obtain ⟨front, torn, last, hholds, -, rfl⟩ := h
  exact readsAll_entries hholds nowMs

/-- A log that is opened on the file stands at its last entry. -/
theorem HoldsAll.recovers (h : HoldsAll file entries) (hintact : Intact entries) :
    ∃ log seq, recoverState file = .ok log ∧ StandsAt log entries seq := by
  obtain ⟨front, torn, last, hholds, hwhole, rfl⟩ := h
  refine standsAt_recovered ?_ hintact
  rw [hholds.recover, List.map_append, map_tornOf]
  obtain rfl | rfl := hwhole
  · rw [if_pos rfl, tornEntries_nil, List.append_nil]
  · rw [if_neg (written_ne_nil _), tornEntries, if_pos rfl, List.getLast?_concat, List.head?_cons]

/-- All but the end of a line, written in a line of its own, is one more entry. -/
theorem HoldsAll.appends (h : HoldsAll file entries) (hended : Ended file) (e : Logged) {n : Nat}
    (hn : (written e.members).length ≤ n) (ending : Ending) :
    HoldsAll (writeEntry file e.members (.takes n ending)) (entries ++ [e]) := by
  obtain ⟨front, torn, last, hholds, -, rfl⟩ := h
  obtain rfl := hholds.ended_iff.mp hended
  obtain ⟨front', torn', hholds', hwhole', heq⟩ := hholds.appends e hn
  rw [tornOf_nil, List.append_nil]
  exact ⟨front', torn', e, hholds', hwhole', heq⟩

/-- A part of a line, and what is written behind a line without its end, leave a line that is not
JSON. -/
theorem HoldsAll.breaks (h : HoldsAll file entries) (members : Members) {n : Nat} (hn : 0 < n)
    (hbad : ¬ ((written members).length ≤ n ∧ Ended file)) (ending : Ending) : ∃ lines line,
      readAllLines (writeEntry file members (.takes n ending)) = .ok (lines ++ [line]) ∧
        loads (strip line) = none := by
  obtain ⟨front, torn, last, hholds, hwhole, -⟩ := h
  refine ⟨_, _, hholds.continues members hn, ?_⟩
  obtain rfl | rfl := hwhole
  · have hlt : n < (written members).length :=
      Nat.lt_of_not_le fun hle => hbad ⟨hle, hholds.ended_iff.mpr rfl⟩
    have hne : (written members).take n ≠ [] := by
      simp [Nat.pos_iff_ne_zero.mp hn, written_ne_nil]
    have hcut : (written members).take n ≠ written members := by
      simpa using hlt
    rw [List.nil_append, List.take_append_of_le_length hlt.le, loads_torn (List.take_prefix _ _) hne,
      tornEntries, if_neg hcut]
    rfl
  · exact loads_continued _ _ hn

end Files

theorem not_verified {file : File} {lines : List (List Char)} {line : List Char}
    (hlines : readAllLines file = .ok (lines ++ [line])) (hloads : loads (strip line) = none)
    (log : SecurityLog) : log.verifyChain file ≠ .ok true := by
  intro hverify
  rw [SecurityLog.verifyChain, hlines] at hverify
  obtain ⟨entries, hcarries⟩ := carries_of_verifyLines hverify
  obtain ⟨hlen, hget⟩ := List.forall₂_iff_get.mp hcarries
  have hlast : lines.length < (lines ++ [line]).length := by simp
  obtain ⟨fields, hread, -⟩ := hget lines.length hlast (hlen ▸ hlast)
  rw [List.get_eq_getElem, List.getElem_concat_length rfl, readEntry, hloads] at hread
  exact absurd hread (by simp)

/-! ## Calls -/

/-- The log is at this number, which no entry is beyond, and at this hash. -/
structure Stands (log : SecurityLog) (entries : List Logged) (seq : Int) (hash : List Char) : Prop where
  seq_eq : log.seq = .int seq
  hash_eq : log.lastChainHash = .str (ofText hash)
  seq_le : ∀ e ∈ entries, e.seq ≤ seq

/-- The log that a call leaves. -/
def Ending.log (e : Logged) (hash : List Char) : Ending → Option SecurityLog
  | .returns => some ⟨.int e.seq, .str (ofText e.hash)⟩
  | .raises => some ⟨.int e.seq, .str (ofText hash)⟩
  | .crashes => none

def Ending.returned (e : Logged) : Ending → List SecurityEvent
  | .returns => [e.event]
  | .raises => []
  | .crashes => []

/-- What the runs keep. -/
structure Kept (s : System) (entries : List Logged) : Prop where
  holds : HoldsAll s.file entries
  intact : Intact entries
  log : ∀ log, s.log = some log → ∃ seq hash, Stands log entries seq hash
  returned : ∀ event ∈ s.returned, ∃ e ∈ entries, e.event = event

section Calls

variable {s : System} {log : SecurityLog} {entries : List Logged} {seq : Int} {hash : List Char}
  {call : SecurityCall} {details : Members} {nowMs : Nat} {e : Logged}

theorem Stands.concat (h : Stands log entries seq hash) {hash' : List Char} (he : e.seq = seq + 1) :
    Stands ⟨.int e.seq, .str (ofText hash')⟩ (entries ++ [e]) e.seq hash' := by
  refine ⟨rfl, rfl, List.forall_mem_append.mpr ⟨fun other hother => ?_, by simp⟩⟩
  have hle := h.seq_le other hother
  omega

theorem Stands.next (h : Stands log entries seq hash) {hash' : List Char} :
    Stands ⟨.int (seq + 1), .str (ofText hash')⟩ entries (seq + 1) hash' :=
  ⟨rfl, rfl, fun other hother => Int.le_of_lt (Int.lt_add_one_of_le (h.seq_le other hother))⟩

theorem nextEntry_eq (h : Stands log entries seq hash) (call : SecurityCall) (nowMs : Nat) :
    nextEntry log call nowMs = (⟨.int (seq + 1), .str (ofText hash)⟩,
      match call.details with
      | none => .error .typeError
      | some details => .ok (Logged.after seq hash call details nowMs).event) := by
  simp only [nextEntry, h.seq_eq, h.hash_eq, increment, chainInput_ofText]
  cases call.details <;> rfl

/-- A call whose details are not serialisable uses up a number. -/
theorem step_fails (hlog : s.log = some log) (h : Stands log entries seq hash)
    (hdetails : call.details = none) (io : Io) : step s (.logEvent call nowMs io) =
      ⟨s.file, some ⟨.int (seq + 1), .str (ofText hash)⟩, s.returned⟩ := by
  simp only [step, hlog, logEvent, nextEntry_eq h, hdetails]

/-- Any other call enters its entry. -/
theorem step_enters (hlog : s.log = some log) (h : Stands log entries seq hash)
    (hdetails : call.details = some details) (he : e = Logged.after seq hash call details nowMs) (io : Io) :
    step s (.logEvent call nowMs io) =
      ⟨writeEntry s.file e.members io, io.ending.log e hash, s.returned ++ io.ending.returned e⟩ := by
  subst he
  simp only [step, hlog, logEvent, nextEntry_eq h, hdetails]
  cases io.ending with
  | returns => rfl
  | raises =>
    rw [Ending.returned, List.append_nil]
    rfl
  | crashes =>
    rw [Ending.returned, List.append_nil]
    rfl

theorem Kept.sound (h : Kept s entries) : Sound s := by
  refine ⟨h.holds.verifies_iff.mpr h.intact.linked, fun nowMs => ⟨_, h.holds.readsAll nowMs, ?_⟩⟩
  intro event hevent
  obtain ⟨e, he, rfl⟩ := h.returned event hevent
  exact List.mem_map_of_mem he

theorem kept_start : Kept start [] := by
  refine ⟨holdsAll_none, intact_nil, fun log hlog => ⟨0, genesisHash, ?_⟩, List.forall_mem_nil _⟩
  rw [← Option.some.inj hlog]
  exact ⟨rfl, rfl, List.forall_mem_nil _⟩

theorem kept_reopen (h : Kept s entries) : Kept (SecurityRuns.reopen s) entries := by
  refine ⟨h.holds, h.intact, fun log hlog => ?_, h.returned⟩
  obtain ⟨opened, seq, hopened, hstands⟩ := h.holds.recovers h.intact
  rw [SecurityRuns.reopen, hopened] at hlog
  rw [← Option.some.inj hlog]
  exact ⟨seq, lastHash entries, hstands.seq_eq, hstands.hash_eq, hstands.seq_le⟩

/-- A call that no byte of reaches the file, and that returns nothing. -/
theorem kept_idle (h : Kept s entries) (hlog : s.log = some log) (hstands : Stands log entries seq hash)
    (hdetails : call.details = some details) {io : Io} (hending : io.ending ≠ .returns)
    (hbytes : ∀ members, (writeEntry s.file members io).getD [] = s.file.getD []) :
    Kept (step s (.logEvent call nowMs io)) entries := by
  rw [step_enters hlog hstands hdetails rfl]
  refine ⟨h.holds.of_bytes (hbytes _), h.intact, fun log' hlog' => ?_, ?_⟩
  · cases hio : io.ending with
    | returns => exact absurd hio hending
    | raises =>
      rw [hio] at hlog'
      rw [← Option.some.inj hlog']
      exact ⟨_, _, hstands.next⟩
    | crashes =>
      rw [hio] at hlog'
      exact absurd hlog' (by simp [Ending.log])
  · cases hio : io.ending with
    | returns => exact absurd hio hending
    | raises => simpa [Ending.returned] using h.returned
    | crashes => simpa [Ending.returned] using h.returned

/-- An entry that is written and linked. -/
theorem kept_enters (h : Kept s entries) (hlog : s.log = some log) (hstands : Stands log entries seq hash)
    (hdetails : call.details = some details) (he : e = Logged.after seq hash call details nowMs)
    (hended : Ended s.file) {bytes : Nat} (hbytes : (written e.members).length ≤ bytes)
    (hlinked : e.hash = SecurityChain.link (lastHash entries) e.link.1) (ending : Ending) :
    Kept (step s (.logEvent call nowMs (.takes bytes ending))) (entries ++ [e]) := by
  have hseq : e.seq = seq + 1 := by rw [he, Logged.after]
  rw [step_enters hlog hstands hdetails he]
  refine ⟨h.holds.appends hended e hbytes ending, ⟨?_, ?_⟩, fun log' hlog' => ?_, ?_⟩
  · rw [List.map_append]
    exact (linked_concat _ _ _ _ _).mpr ⟨h.intact.linked, hlinked⟩
  · rw [List.map_append, List.pairwise_append]
    refine ⟨h.intact.increasing, List.pairwise_singleton _ _, fun n hn m hm => ?_⟩
    obtain ⟨other, hother, rfl⟩ := List.mem_map.mp hn
    rw [List.mem_singleton.mp hm, hseq]
    exact Int.lt_add_one_of_le (hstands.seq_le other hother)
  · cases ending with
    | crashes => exact absurd hlog' (by simp [Ending.log, Io.ending])
    | returns =>
      rw [← Option.some.inj hlog']
      exact ⟨_, _, hstands.concat hseq⟩
    | raises =>
      rw [← Option.some.inj hlog']
      exact ⟨_, _, hstands.concat hseq⟩
  · have hold : ∀ event ∈ s.returned, ∃ e' ∈ entries ++ [e], e'.event = event := by
      intro event hevent
      obtain ⟨e', he', heq⟩ := h.returned event hevent
      exact ⟨e', List.mem_append_left _ he', heq⟩
    refine List.forall_mem_append.mpr ⟨hold, fun event hevent => ⟨e, by simp, ?_⟩⟩
    cases ending with
    | returns => exact (List.mem_singleton.mp hevent).symm
    | raises => exact absurd hevent List.not_mem_nil
    | crashes => exact absurd hevent List.not_mem_nil

/-- An event that is returned but not written is lost. -/
theorem not_sound_lost (h : Kept s entries) (hlog : s.log = some log)
    (hstands : Stands log entries seq hash) (hdetails : call.details = some details) :
    ¬ Sound (step s (.logEvent call nowMs (.takes 0 .returns))) := by
  rw [step_enters hlog hstands hdetails rfl]
  rintro ⟨-, hreturned⟩
  obtain ⟨events, hread, hall⟩ := hreturned 0
  obtain rfl := hread.eq ((h.holds.of_bytes (writeEntry_nothing s.file _ .returns)).readsAll 0)
  obtain ⟨e, he, heq⟩ := List.mem_map.mp (hall _ (List.mem_append_right _ (List.mem_singleton.mpr rfl)))
  have hseq : e.seq = seq + 1 := Value.int.inj (congrArg SecurityEvent.seq heq)
  have hle := hstands.seq_le e he
  omega

/-- A line that is not JSON is not verified. -/
theorem not_sound_broken (h : Kept s entries) (hlog : s.log = some log)
    (hstands : Stands log entries seq hash) (hdetails : call.details = some details)
    (he : e = Logged.after seq hash call details nowMs) {bytes : Nat} (hpos : 0 < bytes)
    (hbad : ¬ ((written e.members).length ≤ bytes ∧ Ended s.file)) (ending : Ending) :
    ¬ Sound (step s (.logEvent call nowMs (.takes bytes ending))) := by
  obtain ⟨lines, line, hlines, hloads⟩ := h.holds.breaks e.members hpos hbad ending
  rw [step_enters hlog hstands hdetails he]
  rintro ⟨hverify, -⟩
  exact not_verified hlines hloads {} (hverify {})

/-- An entry that is written but not linked is not verified. -/
theorem not_sound_unlinked (h : Kept s entries) (hlog : s.log = some log)
    (hstands : Stands log entries seq hash) (hdetails : call.details = some details)
    (he : e = Logged.after seq hash call details nowMs) (hended : Ended s.file) {bytes : Nat}
    (hbytes : (written e.members).length ≤ bytes)
    (hlinked : e.hash ≠ SecurityChain.link (lastHash entries) e.link.1) (ending : Ending) :
    ¬ Sound (step s (.logEvent call nowMs (.takes bytes ending))) := by
  rw [step_enters hlog hstands hdetails he]
  rintro ⟨hverify, -⟩
  have hall := (h.holds.appends hended e hbytes ending).verifies_iff.mp hverify
  rw [List.map_append] at hall
  exact hlinked ((linked_concat _ _ _ _ _).mp hall).2

/-- The condition on the hashes is that the entry is linked. -/
theorem chains_iff (h : Kept s entries) (hstands : Stands log entries seq hash) (details : Members)
    (nowMs : Nat) : Chains log s.file call ↔ (Logged.after seq hash call details nowMs).hash =
      SecurityChain.link (lastHash entries) (Logged.after seq hash call details nowMs).link.1 := by
  obtain ⟨opened, seq', hopened, hopenedStands⟩ := h.holds.recovers h.intact
  rw [after_hash]
  constructor
  · intro hchains
    have heq := hchains (.int (seq + 1)) opened (by rw [hstands.seq_eq, increment]) hopened
    simp only [hstands.hash_eq, hopenedStands.hash_eq, chainInput_ofText] at heq
    exact Except.ok.inj heq
  · intro hlinked seq'' opened' hseq hopened'
    obtain rfl := Except.ok.inj (hopened.symm.trans hopened')
    rw [hstands.seq_eq, increment] at hseq
    simp only [← Except.ok.inj hseq, hstands.hash_eq, hopenedStands.hash_eq, chainInput_ofText]
    exact congrArg Except.ok hlinked

theorem harmless_iff (hlog : s.log = some log) (hstands : Stands log entries seq hash)
    (hdetails : call.details = some details) (bytes : Nat) (ending : Ending) :
    Harmless s (.logEvent call nowMs (.takes bytes ending)) ↔ bytes = 0 ∧ ending ≠ .returns ∨
      (written (Logged.after seq hash call details nowMs).members).length ≤ bytes ∧ Ended s.file ∧
        Chains log s.file call := by
  have hentry : (nextEntry log call nowMs).2 = .ok (Logged.after seq hash call details nowMs).event := by
    rw [nextEntry_eq hstands, hdetails]
  constructor
  · exact fun hharmless => hharmless log _ hlog hentry
  · intro hcond log' entry hlog' hentry'
    obtain rfl := Option.some.inj (hlog.symm.trans hlog')
    obtain rfl := Except.ok.inj (hentry.symm.trans hentry')
    exact hcond

/-- A call that `os.write` takes something of. -/
theorem takes_cases (h : Kept s entries) (hlog : s.log = some log)
    (hstands : Stands log entries seq hash) (hdetails : call.details = some details) (bytes : Nat)
    (ending : Ending) :
    Harmless s (.logEvent call nowMs (.takes bytes ending)) ∧
        (∃ entries', Kept (step s (.logEvent call nowMs (.takes bytes ending))) entries') ∨
      ¬ Harmless s (.logEvent call nowMs (.takes bytes ending)) ∧
        ¬ Sound (step s (.logEvent call nowMs (.takes bytes ending))) := by
  rw [harmless_iff hlog hstands hdetails, chains_iff h hstands details nowMs]
  generalize he : Logged.after seq hash call details nowMs = e
  have hlen := List.length_pos_iff.mpr (written_ne_nil e.members)
  by_cases hzero : bytes = 0
  · subst hzero
    by_cases hending : ending = .returns
    · subst hending
      refine .inr ⟨?_, not_sound_lost h hlog hstands hdetails⟩
      rintro (⟨-, hne⟩ | ⟨hle, -⟩)
      · exact hne rfl
      · omega
    · have hkept : Kept (step s (.logEvent call nowMs (.takes 0 ending))) entries :=
        kept_idle h hlog hstands hdetails hending fun members => writeEntry_nothing s.file members ending
      exact .inl ⟨.inl ⟨rfl, hending⟩, entries, hkept⟩
  by_cases hwhole : (written e.members).length ≤ bytes ∧ Ended s.file
  · obtain ⟨hle, hended⟩ := hwhole
    by_cases hlinked : e.hash = SecurityChain.link (lastHash entries) e.link.1
    · have hkept := kept_enters h hlog hstands hdetails he.symm hended hle hlinked ending
      exact .inl ⟨.inr ⟨hle, hended, hlinked⟩, _, hkept⟩
    · have hbroken := not_sound_unlinked h hlog hstands hdetails he.symm hended hle hlinked ending
      exact .inr ⟨fun hcond => hcond.elim (fun hnone => hzero hnone.1) fun hall => hlinked hall.2.2, hbroken⟩
  · have hbroken := not_sound_broken h hlog hstands hdetails he.symm (Nat.pos_of_ne_zero hzero) hwhole ending
    exact .inr ⟨fun hcond => hcond.elim (fun hnone => hzero hnone.1)
      fun hall => hwhole ⟨hall.1, hall.2.1⟩, hbroken⟩

/-- A step that does not come as far as an entry is harmless. -/
theorem harmless_of_no_entry (nowMs : Nat) (io : Io) (h : ∀ log entry, s.log = some log →
    (nextEntry log call nowMs).2 ≠ .ok entry) : Harmless s (.logEvent call nowMs io) := by
  cases io with
  | openRaises => trivial
  | writeRaises => trivial
  | takes bytes ending => exact fun log entry hlog hentry => absurd hentry (h log entry hlog)

end Calls

/-! ## Runs -/

/-- A harmless step keeps what the runs keep, and any other step breaks it. -/
theorem step_cases {s : System} {entries : List Logged} (h : Kept s entries) (e : Step) :
    Harmless s e ∧ (∃ entries', Kept (step s e) entries') ∨ ¬ Harmless s e ∧ ¬ Sound (step s e) := by
  cases e with
  | reopen => exact .inl ⟨trivial, entries, kept_reopen h⟩
  | logEvent call nowMs io =>
    cases hlog : s.log with
    | none =>
      refine .inl ⟨harmless_of_no_entry nowMs io fun log entry hlog' => ?_, entries, ?_⟩
      · exact absurd (hlog.symm.trans hlog') (by simp)
      · simpa only [step, hlog] using h
    | some log =>
      obtain ⟨seq, hash, hstands⟩ := h.log log hlog
      cases hdetails : call.details with
      | none =>
        refine .inl ⟨harmless_of_no_entry nowMs io fun log' entry hlog' => ?_, entries, ?_⟩
        · obtain rfl := Option.some.inj (hlog.symm.trans hlog')
          rw [nextEntry_eq hstands, hdetails]
          simp
        · rw [step_fails hlog hstands hdetails]
          refine ⟨h.holds, h.intact, fun log' hlog' => ?_, h.returned⟩
          rw [← Option.some.inj hlog']
          exact ⟨_, _, hstands.next⟩
      | some details =>
        cases io with
        | openRaises =>
          exact .inl ⟨trivial, entries, kept_idle h hlog hstands hdetails (by decide) fun _ => rfl⟩
        | writeRaises =>
          exact .inl ⟨trivial, entries, kept_idle h hlog hstands hdetails (by decide) fun _ => rfl⟩
        | takes bytes ending => exact takes_cases h hlog hstands hdetails bytes ending

/-- The file is verified and every returned event can be read all along a run just when all its steps
are harmless. -/
theorem failures_harmless_iff (steps : List Step) :
    (∀ past, past <+: steps → Sound (run step start past)) ↔ Always step start Harmless steps := by
  refine prefixes_iff_always (I := fun _ s => ∃ entries, Kept s entries) (P := fun _ s => Sound s)
    ⟨[], kept_start⟩ ?_ ?_ ?_ steps
  · rintro past ⟨entries, h⟩
    exact h.sound
  · rintro past e ⟨entries, h⟩
    rw [run_concat]
    obtain ⟨hharmless, entries', h'⟩ | ⟨hharmful, hbroken⟩ := step_cases h e
    · exact iff_of_true h'.sound hharmless
    · exact iff_of_false hbroken hharmful
  · rintro past e ⟨entries, h⟩ hharmless
    rw [run_concat]
    obtain ⟨-, hkept⟩ | ⟨hharmful, -⟩ := step_cases h e
    · exact hkept
    · exact absurd hharmless hharmful

/-! ## Failures -/

/-- The second entry of a log whose hash is that of the start. -/
def unlinkedLogged : Logged := Logged.after 1 genesisHash secondCall [] 1

theorem ended_firstLine (ending : Ending) :
    Ended (writeEntry none firstLogged.members (.takes firstLogged.line.length ending)) := by
  have hholds := (holds_empty firstLogged.members).writes firstLogged.members
  rw [← writeEntry_whole (written_lt_line firstLogged)] at hholds
  exact hholds.ended_iff.mpr rfl

/-- `os.fsync` fails behind the first line, which the second is then not chained to; and a line is
cut off behind its first byte. -/
theorem failures_break_log :
    ¬ Sound (run step start [.logEvent firstCall 0 (.takes firstLogged.line.length .raises),
      .logEvent secondCall 1 (.takes unlinkedLogged.line.length .returns)]) ∧
    ¬ Sound (run step start [.logEvent firstCall 0 (.takes 1 .returns)]) := by
  have hstands : Stands {} [] 0 genesisHash := ⟨rfl, rfl, List.forall_mem_nil _⟩
  have hended : Ended start.file := fun b hb => absurd hb (by simp [start, SecurityRuns.reopen])
  have hfirst : firstLogged = Logged.after 0 genesisHash firstCall [] 0 := rfl
  have hlen := fun e => (written_lt_line e).le
  constructor
  · have hlinked : firstLogged.hash = SecurityChain.link (lastHash []) firstLogged.link.1 :=
      firstLogged_linked
    have hsecond : unlinkedLogged = Logged.after firstLogged.seq genesisHash secondCall [] 1 := rfl
    have hkept := kept_enters kept_start rfl hstands rfl hfirst hended (hlen _) hlinked .raises
    have hstep := step_enters (s := start) rfl hstands rfl hfirst (.takes firstLogged.line.length .raises)
    have hstands' : Stands ⟨.int firstLogged.seq, .str (ofText genesisHash)⟩ ([] ++ [firstLogged])
        firstLogged.seq genesisHash := hstands.concat rfl
    rw [run_cons, run_cons, run_nil]
    have hlog : (step start (.logEvent firstCall 0 (.takes firstLogged.line.length .raises))).log =
        some ⟨.int firstLogged.seq, .str (ofText genesisHash)⟩ := by
      rw [hstep]
      rfl
    refine not_sound_unlinked hkept hlog hstands' rfl hsecond ?_ (hlen _) ?_ .returns
    · rw [hstep]
      exact ended_firstLine .raises
    · have hcontent : unlinkedLogged.link.1 = secondLogged.link.1 := by
        rw [unlinkedLogged, secondLogged, after_content, after_content]
      rw [lastHash_concat, unlinkedLogged, after_hash, ← unlinkedLogged, hcontent, SecurityChain.link,
        SecurityChain.link, secondLogged_alone, secondLogged_hash]
      decide
  · obtain ⟨inner, hinner⟩ := (record_written firstLogged.members).braces
    refine not_sound_broken kept_start rfl hstands rfl hfirst Nat.one_pos (fun hbad => ?_) .returns
    have hle := hbad.1
    rw [hinner, List.length_cons, List.length_append, List.length_singleton] at hle
    omega

end Genoh.WriteFailures
