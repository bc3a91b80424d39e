import Genoh.SafetyRuns
import Genoh.SecurityRuns

/-!
# Tail reads

`read_events` of the two logs for a number of events, against the events that `log_event` has
returned, over runs in which nothing crashes.
-/
namespace Genoh.TailReads

open Genoh.Run Genoh.Json Genoh.LastElements Genoh.MasterLogs Genoh.Strings Genoh.TextFile
open Genoh.MasterSafetyLog (Clock SafetyCall SafetyEvent)
open Genoh.MasterSecurityLog (SecurityCall SecurityEvent)

/-! ## The last lines of a file -/

/-- `read_events(n)` returns the events of the last `min(n, number of lines)` lines, oldest first, as
they were returned when they were logged. -/
def ReadsTail {Event : Type} (fromDict : Value → Except LogError Event) (toDict : Event → Members)
    (file : File) (returned : List Event) (n : Nat) : Prop :=
  ∃ lines, readAllLines file = .ok lines ∧
    lines = (returned.rtake lines.length).map (fun e => written (toDict e) ++ ['\n']) ∧
    readEvents fromDict file n = .ok (returned.rtake (min n lines.length))

def lineCount (file : File) : Nat := ((readAllLines file).toOption.getD []).length

/-- The strings among the values hold no surrogates that reading joins. -/
def UnpairedTexts (texts : List Value) : Prop := ∀ s, Value.str s ∈ texts → Unpaired s

/-- Whole characters have nothing to join. -/
theorem unpairedTexts_ofText (texts : List (List Char)) :
    UnpairedTexts (texts.map fun text => .str (ofText text)) := by
  intro s hs
  obtain ⟨text, -, heq⟩ := List.mem_map.mp hs
  obtain rfl := Value.str.inj heq
  exact (joinSurrogates_eq_iff _).mp (joinSurrogates_ofText text)

/-- At least one event is asked for where there is one, and those that are asked for read back. -/
def Readable {Event : Type} (texts : Event → List Value) (file : File) (returned : List Event)
    (n : Nat) : Prop :=
  (n = 0 → lineCount file = 0) ∧
    ∀ e ∈ returned.rtake (min n (lineCount file)), UnpairedTexts (texts e)

/-- The slice from `-0` on is the whole list. -/
theorem lastLines_natCast (n : Nat) (lines : List (List Char)) :
    lastLines n lines = if n = 0 then lines else lines.rtake n := by
  rw [lastLines, List.rtake]
  by_cases hzero : n = 0
  · subst hzero
    simp
  · rw [if_neg hzero]
    by_cases hlt : (n : Int) < lines.length
    · rw [if_pos hlt, if_pos (by omega), Int.toNat_natCast]
    · rw [if_neg hlt, Nat.sub_eq_zero_of_le (by omega), List.drop_zero]

section Entries

variable {Event α : Type} {fromDict : Value → Except LogError Event} {toDict : Event → Members}
  {members : α → Members} {event again : α → Event} {file : File} {entries : List α} {next : Members}

theorem lineCount_entries (h : Holds file (entries.map members) [] next) :
    lineCount file = entries.length := by
  rw [lineCount, h.readAllLines_map]
  exact List.length_map _

/-- Asked for no event, `read_events` reads every line. -/
theorem readEvents_entries (hreads : ∀ a, ReadsAs fromDict (members a) (again a))
    (h : Holds file (entries.map members) [] next) (n : Nat) :
    readEvents fromDict file n = .ok ((if n = 0 then entries else entries.rtake n).map again) := by
  have hall : ∀ chosen : List α, readEntries fromDict
      (chosen.map fun a => written (members a) ++ ['\n']) = .ok (chosen.map again) := by
    intro chosen
    have hnil : readEntries fromDict [] = .ok [] := rfl
    have hread := readEntries_lines (readsAs_map hreads chosen) hnil
    rwa [List.append_nil, List.append_nil, List.map_map] at hread
  rw [readEvents, h.readAllLines_map]
  simp only [lastLines_natCast, rtake_map]
  split
  · exact hall entries
  · exact hall (entries.rtake n)

/-- The events that are left in the file. -/
theorem returned_rtake (old : List Event) (entries : List α) (event : α → Event) {n : Nat}
    (h : n ≤ entries.length) :
    (old ++ entries.map event).rtake n = (entries.rtake n).map event := by
  rw [rtake_append_of_le old _ (by rwa [List.length_map]), rtake_map]

theorem readsTail_iff (hreads : ∀ a, ReadsAs fromDict (members a) (again a))
    (hmembers : ∀ a, toDict (event a) = members a) (h : Holds file (entries.map members) [] next)
    (old : List Event) (n : Nat) :
    ReadsTail fromDict toDict file (old ++ entries.map event) n ↔
      (n = 0 → entries = []) ∧ ∀ a ∈ entries.rtake n, again a = event a := by
  have hlines := h.readAllLines_map
  have hread := readEvents_entries hreads h n
  have hlength : (entries.map fun a => written (members a) ++ ['\n']).length = entries.length :=
    List.length_map _
  have htail := returned_rtake old entries event (Nat.min_le_right n entries.length)
  rw [rtake_min] at htail
  have hsame : ReadsTail fromDict toDict file (old ++ entries.map event) n ↔
      ((if n = 0 then entries else entries.rtake n).map again) = (entries.rtake n).map event := by
    constructor
    · rintro ⟨lines, hlines', -, hread'⟩
      obtain rfl := Except.ok.inj (hlines.symm.trans hlines')
      rw [hlength, htail] at hread'
      exact Except.ok.inj (hread.symm.trans hread')
    · intro hevents
      refine ⟨_, hlines, ?_, ?_⟩
      · rw [hlength, returned_rtake old entries event (Nat.le_refl _),
          rtake_of_length_le (Nat.le_refl _), List.map_map]
        exact List.map_congr_left fun a _ => by rw [Function.comp_apply, hmembers]
      · rw [hread, hlength, htail, hevents]
  rw [hsame]
  by_cases hzero : n = 0
  · subst hzero
    simp
  · rw [if_neg hzero, List.map_inj_left]
    exact (and_iff_right fun h => absurd h hzero).symm

/-- Where reading gives back an event just when its texts are unpaired. -/
theorem readsTail_iff_readable (hreads : ∀ a, ReadsAs fromDict (members a) (again a))
    (hmembers : ∀ a, toDict (event a) = members a) (h : Holds file (entries.map members) [] next)
    {texts : Event → List Value}
    (hagain : ∀ a ∈ entries, again a = event a ↔ UnpairedTexts (texts (event a)))
    (old : List Event) (n : Nat) :
    ReadsTail fromDict toDict file (old ++ entries.map event) n ↔
      Readable texts file (old ++ entries.map event) n := by
  rw [readsTail_iff hreads hmembers h, Readable, lineCount_entries h,
    returned_rtake old entries event (Nat.min_le_right n entries.length), rtake_min,
    List.length_eq_zero_iff, List.forall_mem_map]
  refine and_congr_right fun _ => forall₂_congr fun a ha => ?_
  exact hagain a (List.mem_of_mem_drop ha)

end Entries

/-! ## Details -/

/-- The details are read as they are written. -/
def RoundTrips (details : Details) : Prop :=
  ∀ members ∈ details, loads (written members) = some (.dict members)

theorem reread_of_roundTrips {details : Details} (h : RoundTrips details) {members : Members}
    (hdetails : details = some members) : Json.reread (.dict members) = .dict members := by
  have hloads := h members hdetails
  rw [loads_written] at hloads
  exact Option.some.inj hloads

/-! ## The safety log -/

section Safety

open SafetyRuns

def safetyTexts (e : SafetyEvent) : List Value :=
  [e.severity, e.event, e.source, e.safetyState, e.dtc]

/-- A call whose details round-trip and that no crash cuts off, or the log opened again. -/
def SafetyStep : Step → Prop
  | .reopen => True
  | .logEvent call _ append rotate =>
    RoundTrips call.details ∧ (∀ n, append ≠ .crashes n) ∧ rotate.stops = false

theorem safety_again (e : Logged) (hdetails : Json.reread (.dict e.details) = .dict e.details) :
    e.event.reread = e.event ↔ UnpairedTexts (safetyTexts e.event) := by
  rw [Json.reread, Value.dict.injEq] at hdetails
  simp only [SafetyEvent.reread, Logged.event, MasterSafetyLog.newEntry, SafetyEvent.mk.injEq,
    Json.reread, hdetails, Value.str.injEq, joinSurrogates_eq_iff, UnpairedTexts, safetyTexts,
    List.mem_cons, List.not_mem_nil, or_false, forall_eq_or_imp, forall_eq, and_true, true_and]

/-- The log is open, and what it has returned is what it has logged. -/
structure SafetyTail (s : System) (logged entries : List Logged) (last : Logged) : Prop where
  invariant : Invariant s logged entries [] last
  log : ∃ log, s.log = some log
  returned : s.returned = logged.map Logged.event
  details : ∀ e ∈ logged, Json.reread (.dict e.details) = .dict e.details

theorem safety_start : SafetyTail (start none) [] [] noEntry :=
  ⟨invariant_start rfl noEntry, ⟨_, rfl⟩, rfl, List.forall_mem_nil _⟩

theorem safety_reopen {s : System} {logged entries : List Logged} {last : Logged}
    (h : SafetyTail s logged entries last) : SafetyTail (reopen s) logged entries last := by
  refine ⟨invariant_reopen h.invariant, ?_, h.returned, h.details⟩
  obtain ⟨hkept, hretained⟩ := h.invariant.kept_clean
  obtain ⟨log, -, hrecover, -⟩ :=
    recoverSequence_standsAt h.invariant.holds hkept hretained h.invariant.increasing
  exact ⟨log, by rw [reopen, hrecover]; rfl⟩

theorem safety_writes {s : System} {logged entries : List Logged} {last : Logged}
    (h : SafetyTail s logged entries last) {call : SafetyCall} {details : Members}
    (hdetails : call.details = some details) (hround : RoundTrips call.details) (clock : Clock)
    {rotate : Rewrite} (hrotate : rotate.stops = false) : ∃ e entries',
      SafetyTail (step s (.logEvent call clock .writes rotate)) (logged ++ [e]) entries' e := by
  obtain ⟨log, hlog⟩ := h.log
  obtain ⟨seq, hstands⟩ := h.invariant.log rfl log hlog
  obtain ⟨e, he⟩ : ∃ e : Logged, e = ⟨call, details, clock, seq + 1⟩ := ⟨_, rfl⟩
  have hkeeps : ∃ entries',
      Invariant (step s (.logEvent call clock .writes rotate)) (logged ++ [e]) entries' [] e ∧
      (step s (.logEvent call clock .writes rotate)).log = some ⟨.int e.seq⟩ ∧
      (step s (.logEvent call clock .writes rotate)).returned = s.returned ++ [e.event] := by
    cases rotate with
    | writes => exact ⟨_, invariant_rotates h.invariant hlog hstands hdetails clock he⟩
    | refuses => exact ⟨_, invariant_keeps h.invariant hlog hstands hdetails clock he⟩
    | crashesBefore => exact absurd hrotate (by decide)
    | crashes n => exact absurd hrotate (by simp [Rewrite.stops])
  obtain ⟨entries', hinv, hlog', hreturned⟩ := hkeeps
  refine ⟨e, entries', hinv, ⟨_, hlog'⟩, ?_, List.forall_mem_append.mpr ⟨h.details, ?_⟩⟩
  · rw [hreturned, h.returned, List.map_append]
    rfl
  · rw [List.forall_mem_singleton, he]
    exact reread_of_roundTrips hround hdetails

theorem safety_step {s : System} {logged entries : List Logged} {last : Logged}
    (h : SafetyTail s logged entries last) {e : Step} (he : SafetyStep e) :
    ∃ logged' entries' last', SafetyTail (step s e) logged' entries' last' := by
  cases e with
  | reopen => exact ⟨logged, entries, last, safety_reopen h⟩
  | logEvent call clock append rotate =>
    obtain ⟨hround, happend, hrotate⟩ := he
    obtain ⟨log, hlog⟩ := h.log
    obtain ⟨seq, hstands⟩ := h.invariant.log rfl log hlog
    obtain hfails | ⟨rfl, details, hdetails⟩ := fails_or_writes happend call.details
    · refine ⟨logged, entries, last, invariant_fails h.invariant hlog hstands hfails, ?_, ?_, h.details⟩
      · rw [step_fails hlog hstands.seq_eq hfails]
        exact ⟨_, rfl⟩
      · rw [step_fails hlog hstands.seq_eq hfails]
        exact h.returned
    · obtain ⟨e, entries', h'⟩ := safety_writes h hdetails hround clock hrotate
      exact ⟨logged ++ [e], entries', e, h'⟩

theorem safety_run (steps : List Step) (hsteps : ∀ e ∈ steps, SafetyStep e) :
    ∃ logged entries last, SafetyTail (run step (start none) steps) logged entries last := by
  apply run_invariant_of (I := fun s => ∃ logged entries last, SafetyTail s logged entries last) _ _
    steps hsteps
  · exact ⟨[], [], noEntry, safety_start⟩
  · rintro s e he ⟨logged, entries, last, h⟩
    exact safety_step h he

theorem safety_readsTail_iff (steps : List Step) (hsteps : ∀ e ∈ steps, SafetyStep e) (clock : Clock)
    (n : Nat) :
    ReadsTail (MasterSafetyLog.fromDict clock) SafetyEvent.toDict (run step (start none) steps).file
        (run step (start none) steps).returned n ↔
      Readable safetyTexts (run step (start none) steps).file
        (run step (start none) steps).returned n := by
  obtain ⟨logged, entries, last, h⟩ := safety_run steps hsteps
  obtain ⟨old, hold⟩ := h.invariant.kept_clean.1
  have hreturned : (run step (start none) steps).returned =
      old.map Logged.event ++ entries.map Logged.event := by
    rw [h.returned, ← hold, List.map_append]
  have hagain : ∀ e ∈ entries, e.event.reread = e.event ↔ UnpairedTexts (safetyTexts e.event) :=
    fun e he => safety_again e (h.details e (hold ▸ List.mem_append_right old he))
  rw [hreturned]
  exact readsTail_iff_readable (readsAs_event clock) (fun _ => rfl) h.invariant.holds hagain _ n

/-- The file has a line for every event returned, up to `MAX_EVENTS` at least. -/
theorem safety_lineCount (steps : List Step) (hsteps : ∀ e ∈ steps, SafetyStep e) :
    min (run step (start none) steps).returned.length MasterSafetyLog.maxEvents ≤
      lineCount (run step (start none) steps).file := by
  obtain ⟨logged, entries, last, h⟩ := safety_run steps hsteps
  rw [lineCount_entries h.invariant.holds, h.returned, List.length_map]
  exact h.invariant.kept_clean.2

end Safety

/-! ## The security log -/

section Security

open SecurityRuns

def securityTexts (e : SecurityEvent) : List Value :=
  [e.severity, e.category, e.event, e.sourceNode, e.sourceIp, e.targetKeyExpr, e.action, e.idsRule]

/-- A call whose details round-trip and that no crash cuts off, or the log opened again. -/
def SecurityStep : Step → Prop
  | .reopen => True
  | .logEvent call _ disk => RoundTrips call.details ∧ ∀ n, disk ≠ .crashes n

theorem security_again (e : Logged) (hdetails : Json.reread (.dict e.details) = .dict e.details) :
    e.event.reread = e.event ↔ UnpairedTexts (securityTexts e.event) := by
  rw [Json.reread, Value.dict.injEq] at hdetails
  -- The chain hash is a text of hexadecimal digits.
  simp only [SecurityEvent.reread, Logged.event, SecurityEvent.mk.injEq, Json.reread, hdetails,
    Value.str.injEq, joinSurrogates_ofText, joinSurrogates_eq_iff, UnpairedTexts, securityTexts,
    List.mem_cons, List.not_mem_nil, or_false, forall_eq_or_imp, forall_eq, and_true, true_and]

structure SecurityTail (s : System) (entries : List Logged) (last : Logged) : Prop where
  invariant : Invariant s entries [] last
  log : ∃ log, s.log = some log
  returned : s.returned = entries.map Logged.event
  details : ∀ e ∈ entries, Json.reread (.dict e.details) = .dict e.details

theorem security_start : SecurityTail start [] noEntry :=
  ⟨invariant_start noEntry, ⟨_, rfl⟩, rfl, List.forall_mem_nil _⟩

theorem security_writes {s : System} {entries : List Logged} {last : Logged}
    (h : SecurityTail s entries last) {call : SecurityCall} {details : Members}
    (hdetails : call.details = some details) (hround : RoundTrips call.details) (nowMs : Nat) :
    ∃ e, SecurityTail (step s (.logEvent call nowMs .writes)) (entries ++ [e]) e := by
  obtain ⟨log, hlog⟩ := h.log
  obtain ⟨seq, hstands⟩ := h.invariant.log rfl log hlog
  obtain ⟨e, he⟩ : ∃ e : Logged, e = Logged.after seq (lastHash entries) call details nowMs := ⟨_, rfl⟩
  obtain ⟨log', hstep, -⟩ := step_writes hlog hstands hdetails he
  obtain ⟨hinv, -⟩ := invariant_writes h.invariant hlog hstands hdetails he
  refine ⟨e, hinv, ⟨log', by rw [hstep]⟩, ?_, List.forall_mem_append.mpr ⟨h.details, ?_⟩⟩
  · rw [hstep, h.returned, List.map_append]
    rfl
  · rw [List.forall_mem_singleton, he]
    exact reread_of_roundTrips hround hdetails

theorem security_step {s : System} {entries : List Logged} {last : Logged}
    (h : SecurityTail s entries last) {e : Step} (he : SecurityStep e) :
    ∃ entries' last', SecurityTail (step s e) entries' last' := by
  cases e with
  | reopen =>
    exact ⟨entries, last, invariant_reopen h.invariant, reopen_clean h.invariant, h.returned, h.details⟩
  | logEvent call nowMs disk =>
    obtain ⟨hround, hdisk⟩ := he
    obtain ⟨log, hlog⟩ := h.log
    obtain ⟨seq, hstands⟩ := h.invariant.log rfl log hlog
    obtain hfails | ⟨rfl, details, hdetails⟩ := fails_or_writes hdisk call.details
    · have hfailed : Invariant (step s (.logEvent call nowMs disk)) entries [] last ∧
          ∃ log', (step s (.logEvent call nowMs disk)).log = some log' :=
        invariant_fails h.invariant hlog hstands hfails
      have hidle : s.log = none ∨ call.details = none ∨ disk.writesBytes = false :=
        .inr (hfails.imp_right fun hrefuses => by rw [hrefuses]; rfl)
      refine ⟨entries, last, hfailed.1, hfailed.2, ?_, h.details⟩
      rw [(step_idle s nowMs hidle).2]
      exact h.returned
    · obtain ⟨e, h'⟩ := security_writes h hdetails hround nowMs
      exact ⟨entries ++ [e], e, h'⟩

theorem security_run (steps : List Step) (hsteps : ∀ e ∈ steps, SecurityStep e) :
    ∃ entries last, SecurityTail (run step start steps) entries last := by
  apply run_invariant_of (I := fun s => ∃ entries last, SecurityTail s entries last) _ _ steps hsteps
  · exact ⟨[], noEntry, security_start⟩
  · rintro s e he ⟨entries, last, h⟩
    exact security_step h he

theorem security_readsTail_iff (steps : List Step) (hsteps : ∀ e ∈ steps, SecurityStep e)
    (nowMs n : Nat) :
    ReadsTail (MasterSecurityLog.fromDict nowMs) SecurityEvent.toDict (run step start steps).file
        (run step start steps).returned n ↔
      Readable securityTexts (run step start steps).file (run step start steps).returned n := by
  obtain ⟨entries, last, h⟩ := security_run steps hsteps
  have hreturned : (run step start steps).returned = [] ++ entries.map Logged.event := h.returned
  have hagain : ∀ e ∈ entries, e.event.reread = e.event ↔ UnpairedTexts (securityTexts e.event) :=
    fun e he => security_again e (h.details e he)
  rw [hreturned]
  exact readsTail_iff_readable (readsAs_event nowMs) (fun _ => rfl) h.invariant.holds hagain _ n

end Security

/-! ## Both logs -/

/-- A call without details. -/
def safetyCall : SafetyRuns.Step :=
  .logEvent ⟨str "SAFETY_INFO", str "boot", str "test", some [], str "NORMAL", []⟩ ⟨0, 0⟩ .writes
    .writes

def securityCall : SecurityRuns.Step :=
  .logEvent ⟨str "LOW", str "boot", str "SECURITY", [], [], [], [], [], some []⟩ 0 .writes

theorem roundTrips_empty : RoundTrips (some []) := by
  intro members hmembers
  obtain rfl := Option.some.inj hmembers
  rfl

theorem safetyCall_step : ∀ e ∈ [safetyCall], SafetyStep e := by
  refine List.forall_mem_singleton.mpr ⟨roundTrips_empty, fun n h => ?_, rfl⟩
  cases h

theorem securityCall_step : ∀ e ∈ [securityCall], SecurityStep e := by
  refine List.forall_mem_singleton.mpr ⟨roundTrips_empty, fun n h => ?_⟩
  cases h

/-- After any history of calls whose details round-trip, each log reads the last events back just when
at least one is asked for, or none is there, and their texts hold no pair of surrogates. -/
theorem tail_reads_iff (safety : List SafetyRuns.Step) (hsafety : ∀ e ∈ safety, SafetyStep e)
    (security : List SecurityRuns.Step) (hsecurity : ∀ e ∈ security, SecurityStep e) (clock : Clock)
    (nowMs n : Nat) :
    let s := run SafetyRuns.step (SafetyRuns.start none) safety
    let t := run SecurityRuns.step SecurityRuns.start security
    (ReadsTail (MasterSafetyLog.fromDict clock) SafetyEvent.toDict s.file s.returned n ↔
        Readable safetyTexts s.file s.returned n) ∧
      (ReadsTail (MasterSecurityLog.fromDict nowMs) SecurityEvent.toDict t.file t.returned n ↔
        Readable securityTexts t.file t.returned n) :=
  ⟨safety_readsTail_iff safety hsafety clock n, security_readsTail_iff security hsecurity nowMs n⟩

/-- The last event of a log with one. -/
theorem last_event_read :
    ReadsTail (MasterSafetyLog.fromDict ⟨1, 1⟩) SafetyEvent.toDict
        (run SafetyRuns.step (SafetyRuns.start none) [safetyCall]).file
        (run SafetyRuns.step (SafetyRuns.start none) [safetyCall]).returned 1 ∧
      ReadsTail (MasterSecurityLog.fromDict 1) SecurityEvent.toDict
        (run SecurityRuns.step SecurityRuns.start [securityCall]).file
        (run SecurityRuns.step SecurityRuns.start [securityCall]).returned 1 := by
  obtain ⟨hsafety, hsecurity⟩ := tail_reads_iff [safetyCall] safetyCall_step [securityCall]
    securityCall_step ⟨1, 1⟩ 1 1
  refine ⟨hsafety.mpr ⟨by simp, fun e he => ?_⟩, hsecurity.mpr ⟨by simp, fun e he => ?_⟩⟩
  · obtain rfl := List.mem_singleton.mp (List.mem_of_mem_drop he)
    exact unpairedTexts_ofText ["SAFETY_INFO".toList, "boot".toList, "test".toList, "NORMAL".toList, []]
  · obtain rfl := List.mem_singleton.mp (List.mem_of_mem_drop he)
    exact unpairedTexts_ofText ["LOW".toList, "SECURITY".toList, "boot".toList, [], [], [], [], []]

/-- Asked for no event, the log reads the one there is. -/
theorem zero_events_read :
    ¬ ReadsTail (MasterSafetyLog.fromDict ⟨1, 1⟩) SafetyEvent.toDict
      (run SafetyRuns.step (SafetyRuns.start none) [safetyCall]).file
      (run SafetyRuns.step (SafetyRuns.start none) [safetyCall]).returned 0 := by
  rw [safety_readsTail_iff _ safetyCall_step]
  rintro ⟨hnone, -⟩
  have hcount := safety_lineCount _ safetyCall_step
  have hreturned : (run SafetyRuns.step (SafetyRuns.start none) [safetyCall]).returned.length = 1 := rfl
  rw [hnone rfl, hreturned, MasterSafetyLog.maxEvents] at hcount
  omega

end Genoh.TailReads
