import Genoh.SafetyRuns

/-!
# Safety log retention

How many entries the file of a safety log holds when nothing fails. The number of the log counts the
events, and every rotation is at a multiple of 500.
-/
namespace Genoh.SafetyRetention

open Genoh.Run Genoh.Json Genoh.LastElements Genoh.MasterLogs Genoh.MasterSafetyLog Genoh.SafetyRuns
  Genoh.Strings Genoh.TextFile

/-- A call that writes and rotates as it is meant to, or the log opened again. -/
def Clean : Step → Prop
  | .reopen => True
  | .logEvent call _ append rotate => call.details ≠ none ∧ append = .writes ∧ rotate = .writes

/-- The step is a call of `log_event`. -/
def calls : Step → Bool
  | .reopen => false
  | .logEvent _ _ _ _ => true

/-- The numbers of the first events. -/
def numbers (n : Nat) : List Int := (List.range n).map fun i : Nat => (i : Int) + 1

/-- The log counts the events, and the file holds as many as the last rotation and the calls behind
it leave. -/
structure Retained (s : System) (logged entries : List Logged) (last : Logged) : Prop where
  invariant : Invariant s logged entries [] last
  log : s.log = some ⟨.int logged.length⟩
  numbered : logged.map Logged.seq = numbers logged.length
  returned : s.returned = logged.map Logged.event
  length : entries.length = min logged.length (maxEvents + logged.length % 500)

theorem numbers_succ (n : Nat) : numbers (n + 1) = numbers n ++ [(n + 1 : Int)] := by
  rw [numbers, List.range_succ, List.map_append]
  rfl

theorem numbers_add (n m : Nat) :
    numbers (n + m) = numbers n ++ (List.range m).map fun i : Nat => (n : Int) + i + 1 := by
  rw [numbers, List.range_add, List.map_append, List.map_map]
  rfl

theorem rotated_length_eq (seq : Int) (entries : List Logged) :
    (rotated seq entries).length = if seq % 500 = 0 then min entries.length maxEvents else entries.length := by
  rw [rotated]
  split
  · rw [length_rtake]
  · rfl

theorem retained_start {file : File} (hfile : file.getD [] = []) : Retained (start file) [] [] noEntry := by
  have hinv := invariant_start hfile noEntry
  have hholds : Holds file [] [] [] := ⟨hfile, List.nil_prefix⟩
  refine ⟨hinv, ?_, rfl, rfl, rfl⟩
  rw [start, reopen, recoverSequence, hholds.recover]
  rfl

theorem retained_reopen {s : System} {logged entries : List Logged} {last : Logged}
    (h : Retained s logged entries last) : Retained (reopen s) logged entries last := by
  refine ⟨invariant_reopen h.invariant, ?_, h.numbered, h.returned, h.length⟩
  obtain ⟨hkept, hretained⟩ := h.invariant.kept_clean
  obtain ⟨⟨value⟩, seq, hrecover, hstands, hlast, hempty⟩ :=
    recoverSequence_standsAt h.invariant.holds hkept hretained h.invariant.increasing
  have hvalue : value = .int seq := hstands.seq_eq
  have hseq : seq = logged.length := by
    have hnumbered := h.numbered
    cases logged using List.reverseRecOn with
    | nil => exact hempty rfl
    | append_singleton logged e =>
      rw [List.length_append, List.length_singleton, numbers_succ, List.map_append] at hnumbered
      have he := List.getLast?_concat (l := logged) (a := e)
      rw [← hlast e he, (List.cons.inj (List.append_inj' hnumbered rfl).2).1, List.length_append]
      rfl
  rw [reopen, hrecover, hvalue, hseq]
  rfl

/-- The call counts one event up. -/
theorem retained_writes {s : System} {logged entries : List Logged} {last : Logged}
    (h : Retained s logged entries last) {call : SafetyCall} {details : Members}
    (hdetails : call.details = some details) (clock : Clock) : ∃ e entries',
      Retained (step s (.logEvent call clock .writes .writes)) (logged ++ [e]) entries' e := by
  obtain ⟨seq, hstands⟩ := h.invariant.log rfl _ h.log
  have hseq : seq = logged.length := (Value.int.inj hstands.seq_eq).symm
  obtain ⟨e, he⟩ : ∃ e : Logged, e = ⟨call, details, clock, seq + 1⟩ := ⟨_, rfl⟩
  have hnumber : e.seq = logged.length + 1 := by rw [he, hseq]
  obtain ⟨hinv, hlog, hreturned⟩ := invariant_rotates h.invariant h.log hstands hdetails clock he
  have hlength := h.length
  refine ⟨e, rotated e.seq (entries ++ [e]), hinv, ?_, ?_, ?_, ?_⟩
  · rw [hlog, hnumber, List.length_append]
    rfl
  · rw [List.map_append, h.numbered, List.length_append, List.length_singleton, numbers_succ, List.map_singleton,
      hnumber]
  · rw [hreturned, h.returned, List.map_append]
    rfl
  · -- a rotation is due where the new number is a multiple of 500, and the file is longer than that only then
    rw [rotated_length_eq, List.length_append, List.length_append, List.length_singleton, hnumber]
    unfold maxEvents at *
    split <;> omega

theorem retained_run {file : File} (hfile : file.getD [] = []) (steps : List Step)
    (hclean : ∀ e ∈ steps, Clean e) : ∃ logged entries last,
      Retained (run step (start file) steps) logged entries last ∧ logged.length = steps.countP calls := by
  apply run_invariant_history (H := fun past => ∀ e ∈ past, Clean e) (I := fun past s =>
    ∃ logged entries last, Retained s logged entries last ∧ logged.length = past.countP calls) _ _ _ steps
    hclean
  · exact ⟨[], [], noEntry, retained_start hfile, rfl⟩
  · intro front tail h e he
    exact h e (List.mem_append_left _ he)
  · rintro past e hpast ⟨logged, entries, last, h, hlength⟩
    rw [List.countP_append, List.countP_singleton]
    cases e with
    | reopen => exact ⟨logged, entries, last, retained_reopen h, hlength⟩
    | logEvent call clock append rotate =>
      obtain ⟨hdetails, rfl, rfl⟩ := hpast _ (List.mem_append_right _ List.mem_cons_self)
      obtain ⟨details, hdetails⟩ := Option.ne_none_iff_exists'.mp hdetails
      obtain ⟨e, entries', h'⟩ := retained_writes h hdetails clock
      exact ⟨logged ++ [e], entries', e, h', by rw [List.length_append, hlength]; rfl⟩

/-- Nothing that fails is nothing that the log does not survive. -/
theorem clean_safe {file : File} (hfile : file.getD [] = []) (steps : List Step)
    (hclean : ∀ e ∈ steps, Clean e) : Always step (start file) Safe steps := by
  rintro past e future rfl
  obtain ⟨logged, entries, last, h, -⟩ := retained_run hfile past fun e he =>
    hclean e (List.mem_append_left _ he)
  have he := hclean e (List.mem_append_right _ List.mem_cons_self)
  cases e with
  | reopen => trivial
  | logEvent call clock append rotate =>
    obtain ⟨-, rfl, rfl⟩ := he
    intro log _
    exact ⟨fun _ _ => h.invariant.holds.ended_iff.mpr rfl, fun _ _ _ hcut => hcut⟩

/-- The call at a multiple of 500 rotates a file that has grown beyond `maxEvents`. -/
theorem rotation_due {s : System} {logged entries : List Logged} {last : Logged}
    (h : Retained s logged entries last) {call : SafetyCall} (hdetails : call.details ≠ none)
    (clock : Clock) (hnumber : (logged.length + 1) % 500 = 0) (hmany : maxEvents ≤ entries.length) :
    ∃ text, rotationText ⟨.int logged.length⟩ s.file call clock = some text ∧
      1 < (encode text).length := by
  obtain ⟨details, hdetails⟩ := Option.ne_none_iff_exists'.mp hdetails
  obtain ⟨seq, hstands⟩ := h.invariant.log rfl _ h.log
  obtain rfl : seq = logged.length := (Value.int.inj hstands.seq_eq).symm
  obtain ⟨e, he⟩ : ∃ e : Logged, e = ⟨call, details, clock, logged.length + 1⟩ := ⟨_, rfl⟩
  have hlength := rotated_length_eq e.seq (entries ++ [e])
  have hseq : e.seq = logged.length + 1 := congrArg Logged.seq he
  have hdue : e.seq % 500 = 0 := by omega
  rw [if_pos hdue, List.length_append, List.length_singleton] at hlength
  obtain ⟨-, ⟨-, hsame⟩ | ⟨htext, -⟩⟩ :=
    step_writes h.invariant h.log hstands hdetails clock .writes he
  · rw [hsame, List.length_append, List.length_singleton] at hlength
    omega
  · refine ⟨_, htext, ?_⟩
    obtain ⟨kept, hkept⟩ : ∃ kept, kept = rotated e.seq (entries ++ [e]) := ⟨_, rfl⟩
    rw [← hkept] at hlength ⊢
    cases kept with
    | nil =>
      rw [List.length_nil, maxEvents] at hlength
      omega
    | cons first kept =>
      have hpos := List.length_pos_iff.mpr (written_ne_nil first.members)
      have hprint : ∀ record ∈ (first :: kept).map Logged.line, ∀ c ∈ record, Printable c := by
        intro record hrecord
        obtain ⟨e, -, rfl⟩ := List.mem_map.mp hrecord
        exact (record_written e.members).printable
      rw [encode_length fun c hc => (ascii_recordText hprint c hc).1, List.map_cons, recordText_cons,
        List.length_append, List.length_append, List.length_singleton]
      exact Nat.lt_add_right _ (Nat.lt_add_of_pos_left hpos)

/-- The file holds the latest events with consecutive numbers up to that of the log, `maxEvents` at
least if there are so many, and 10499 at most. -/
theorem latest_retained (file : File) (hfile : file.getD [] = []) (steps : List Step)
    (hclean : ∀ e ∈ steps, Clean e) (clock : Clock) :
    let n := steps.countP calls
    ∃ (lines : List (List Char)) (events : List SafetyEvent),
      (run step (start file) steps).log = some ⟨.int n⟩ ∧
      (run step (start file) steps).returned.length = n ∧
      readAllLines (run step (start file) steps).file = .ok lines ∧
      readEntries (fromDict clock) lines = .ok events ∧
      events.length = lines.length ∧
      events = ((run step (start file) steps).returned.rtake events.length).map SafetyEvent.reread ∧
      events.map SafetyEvent.seq =
        (List.range events.length).map (fun i : Nat => Value.int (n - events.length + 1 + i)) ∧
      min n maxEvents ≤ events.length ∧ events.length ≤ 10499 := by
  intro n
  obtain ⟨logged, entries, last, h, hcount⟩ := retained_run hfile steps hclean
  have hn : n = logged.length := hcount.symm
  clear_value n
  generalize run step (start file) steps = s at h ⊢
  subst hn
  obtain ⟨⟨old, rfl⟩, hretained⟩ := h.invariant.kept_clean
  have hnumbered := h.numbered
  have hlength := h.length
  have hnil : readEntries (fromDict clock) [] = .ok [] := rfl
  have hread := readEntries_lines (readsAs_members clock entries) hnil
  rw [List.append_nil, List.append_nil, List.map_map] at hread
  rw [List.map_append, List.length_append, numbers_add] at hnumbered
  have hseq := (List.append_inj' hnumbered (by simp)).2
  refine ⟨_, _, h.log, ?_, readAllLines_clean h.invariant.holds, hread, ?_, ?_, ?_, ?_, ?_⟩
  · rw [h.returned, List.length_map]
  · rw [List.length_map, List.length_map]
  · rw [h.returned, List.length_map, rtake_map, rtake_append_of_le old _ (Nat.le_refl _),
      rtake_of_length_le (Nat.le_refl _), List.map_map]
    rfl
  · have hvalues : (entries.map fun e => e.event.reread).map SafetyEvent.seq =
        (entries.map Logged.seq).map Value.int := by
      simp only [List.map_map]
      rfl
    rw [hvalues, hseq, List.length_map, List.map_map, List.length_append]
    refine List.map_congr_left fun i _ => congrArg Value.int ?_
    push_cast
    ring
  · rwa [List.length_map]
  · rw [List.length_map, hlength, maxEvents]
    omega

/-- Two events, with the log opened again between them. -/
theorem latest_retained_reopened : ∃ (lines : List (List Char)) (events : List SafetyEvent),
    let s := run step (start none) [
      .logEvent ⟨str "SAFETY_INFO", str "a", str "test", some [], [], []⟩ ⟨0, 0⟩ .writes .writes,
      .reopen,
      .logEvent ⟨str "SAFETY_INFO", str "b", str "test", some [], [], []⟩ ⟨1, 1⟩ .writes .writes]
    s.log = some ⟨.int 2⟩ ∧ s.returned.length = 2 ∧ readAllLines s.file = .ok lines ∧
    readEntries (fromDict ⟨2, 2⟩) lines = .ok events ∧ events.length = lines.length ∧
    events = (s.returned.rtake events.length).map SafetyEvent.reread ∧
    events.map SafetyEvent.seq =
      (List.range events.length).map (fun i : Nat => Value.int (2 - events.length + 1 + i)) ∧
    min 2 maxEvents ≤ events.length ∧ events.length ≤ 10499 := by
  refine latest_retained none rfl _ ?_ ⟨2, 2⟩
  simp [Clean]

end Genoh.SafetyRetention
