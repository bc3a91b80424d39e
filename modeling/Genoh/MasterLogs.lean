import Genoh.TextFile

/-!
# Master log files

What `master/security_log.py` and `master/safety_log.py` have in common: a file with one entry in
each line, which is appended to, read, and recovered from. A write is whole, does not begin, or is
cut off by a crash.
-/
namespace Genoh.MasterLogs

open Genoh.Bytes Genoh.Json Genoh.Strings Genoh.TextFile

/-- The exceptions of the two logs and of the DTC store. A sequence number that is a float and a
field of another type than the store writes are not followed further. -/
inductive LogError where
  | unicodeDecodeError
  | unicodeEncodeError
  | jsonDecodeError
  | keyError
  | attributeError
  | typeError
  | osError
  | floatSequence
  | fieldType
  deriving DecidableEq, Repr

/-- What becomes of a write: `os.open` raises, all is written, or a crash leaves some bytes. -/
inductive Disk where
  | refuses
  | writes
  | crashes (bytes : Nat)
  deriving DecidableEq, Repr

/-- What becomes of a file that is written anew, which opening it for that empties: opening raises,
all is written, or a crash comes before it is opened or leaves some bytes. -/
inductive Rewrite where
  | refuses
  | writes
  | crashesBefore
  | crashes (bytes : Nat)
  deriving DecidableEq, Repr

inductive Outcome (Event : Type) where
  | returned (event : Event)
  | raised (error : LogError)
  | crashed

abbrev Members := List (Str × Value)

/-- A `details` argument as `json.dumps` takes it; none where it raises. -/
abbrev Details := Option Members

/-! ## Writing -/

/-- `json.dumps(entry.to_dict(), separators=(",", ":"))`. -/
def written (members : Members) : List Char := dumps (.dict members)

/-- The file after `_write_entry` on the members of the entry. -/
def writeEntry (file : File) (members : Members) : Disk → File
  | .refuses => file
  | .writes => some (file.getD [] ++ encode (written members ++ ['\n']))
  | .crashes n => some (file.getD [] ++ (encode (written members ++ ['\n'])).take n)

/-- The file after the text is written to it anew. -/
def rewrite (file : File) (text : List Char) : Rewrite → File
  | .refuses => file
  | .writes => some (encode text)
  | .crashesBefore => file
  | .crashes n => some ((encode text).take n)

/-- Some byte of a write reaches the file. -/
def Disk.writesBytes : Disk → Bool
  | .refuses => false
  | .writes => true
  | .crashes n => 0 < n

/-- All of an entry reaches the file, but for the end of its line. -/
def Disk.writesEntry (members : Members) : Disk → Bool
  | .refuses => false
  | .writes => true
  | .crashes n => (written members).length ≤ n

/-- The rewrite is where the program ends. -/
def Rewrite.stops : Rewrite → Bool
  | .refuses => false
  | .writes => false
  | .crashesBefore => true
  | .crashes _ => true

/-- A crash that takes more of the text than the end of its last line. -/
def Rewrite.CutsShort (text : List Char) : Rewrite → Prop
  | .crashes n => n + 1 < (encode text).length
  | _ => False

/-- The last line of the file has its end. -/
def Ended (file : File) : Prop := ∀ b ∈ (file.getD []).getLast?, b = 0x0a

/-! ## Reading -/

/-- `_read_all_lines`. -/
def readAllLines : File → Except LogError (List (List Char))
  | none => .ok []
  | some raw =>
    match decode raw with
    | none => .error .unicodeDecodeError
    | some text => .ok (filledLines text)

/-- `d.get` where `d` is no dictionary raises. -/
def asDict : Value → Except LogError Members
  | .dict members => .ok members
  | _ => .error .attributeError

/-- `data[key]` where `data` is no dictionary raises another error. -/
def subscripted : Value → Except LogError Members
  | .dict members => .ok members
  | _ => .error .typeError

/-- `data[key]`. -/
def item (data : Members) (key : Str) : Except LogError Value :=
  match get? data key with
  | some value => .ok value
  | none => .error .keyError

/-- `data.get(key, default)`. -/
def getOr (data : Members) (key : Str) (default : Value) : Value := (get? data key).getD default

theorem bind_ok {α β : Type} {x : Except LogError α} {f : α → Except LogError β} {result : β}
    (h : x >>= f = .ok result) : ∃ value, x = .ok value ∧ f value = .ok result := by
  cases x with
  | error error => exact absurd h (by simp [bind, Except.bind])
  | ok value => exact ⟨value, rfl, h⟩

/-- `lines[-last_n:] if last_n < len(lines) else lines`. -/
def lastLines (lastN : Int) (lines : List (List Char)) : List (List Char) :=
  if lastN < lines.length then
    if 0 < lastN then lines.drop (lines.length - lastN.toNat) else lines.drop (-lastN).toNat
  else lines

section Events

variable {Event : Type} (fromDict : Value → Except LogError Event)

def readEntry (line : List Char) : Except LogError Event :=
  match loads (strip line) with
  | none => .error .jsonDecodeError
  | some data => fromDict data

/-- The loop of `read_events`: what is malformed is skipped. -/
def readEntries : List (List Char) → Except LogError (List Event)
  | [] => .ok []
  | line :: lines =>
    match readEntry fromDict line with
    | .ok event => (readEntries lines).map fun events => event :: events
    | .error .jsonDecodeError => readEntries lines
    | .error .keyError => readEntries lines
    | .error error => .error error

def readEvents (file : File) (lastN : Int) : Except LogError (List Event) :=
  match readAllLines file with
  | .ok lines => readEntries fromDict (lastLines lastN lines)
  | .error error => .error error

/-- `read_events` returns these events if it is asked for as many as there are lines. -/
def ReadsAll (file : File) (events : List Event) : Prop := ∃ lines, readAllLines file = .ok lines ∧
  ∀ lastN : Int, lines.length ≤ lastN → readEvents fromDict file lastN = .ok events

theorem readsAll_iff {fromDict : Value → Except LogError Event} {file : File}
    {lines : List (List Char)} (hlines : readAllLines file = .ok lines) (events : List Event) :
    ReadsAll fromDict file events ↔ readEntries fromDict lines = .ok events := by
  constructor
  · rintro ⟨lines', hlines', hread⟩
    obtain rfl := Except.ok.inj (hlines'.symm.trans hlines)
    have hall := hread _ (Int.le_refl _)
    rw [readEvents, hlines] at hall
    simpa only [lastLines, lt_irrefl, if_false] using hall
  · intro hentries
    refine ⟨lines, hlines, fun lastN hlast => ?_⟩
    rw [readEvents, hlines]
    simpa only [lastLines, if_neg (Int.not_lt.mpr hlast)] using hentries

theorem ReadsAll.eq {fromDict : Value → Except LogError Event} {file : File}
    {events events' : List Event} (h : ReadsAll fromDict file events)
    (h' : ReadsAll fromDict file events') : events = events' := by
  obtain ⟨lines, hlines, -⟩ := id h
  rw [readsAll_iff hlines] at h h'
  exact Except.ok.inj (h.symm.trans h')

end Events

/-! ## Recovery -/

/-- The last line with something in it, stripped. -/
def lastLine (text : List Char) : List Char :=
  (lines text).foldl (fun last line => if strip line = [] then last else strip line) []

/-- The entry that the recovery of a log goes on from; none where there is nothing or it is not
JSON. -/
def recoverEntry : File → Except LogError (Option Members)
  | none => .ok none
  | some raw =>
    match decode raw with
    | none => .error .unicodeDecodeError
    | some text =>
      if lastLine text = [] then .ok none
      else match loads (lastLine text) with
        | none => .ok none
        | some data => (asDict data).map some

/-- Integers in increasing order. -/
def Increasing (numbers : List Value) : Prop :=
  ∃ seqs : List Int, numbers = seqs.map Value.int ∧ seqs.Pairwise (· < ·)

/-- `seq + 1`. -/
def increment : Value → Except LogError Value
  | .int n => .ok (.int (n + 1))
  | .bool b => .ok (.int (b.toNat + 1))
  | .float _ => .error .floatSequence
  | _ => .error .typeError

/-! ## Files that hold entries -/

/-- The document that is read where the members were written. -/
def stored (members : Members) : Members := dictOf (rereadMembers members)

/-- The file holds entries, and behind them the front of one that a crash cut off. -/
structure Holds (file : File) (entries : List Members) (torn : List Char) (next : Members) : Prop where
  bytes : file.getD [] = encode (recordText (entries.map written) ++ torn)
  cut : torn <+: written next

/-- What can be read of the cut entry. -/
def tornEntries (torn : List Char) (next : Members) : List Members :=
  if torn = written next then [next] else []

/-- The record of the cut entry, where that is whole. -/
def tornOf {α : Type} (members : α → Members) (torn : List Char) (last : α) : List α :=
  if torn = written (members last) then [last] else []

theorem map_tornOf {α : Type} (members : α → Members) (torn : List Char) (last : α) :
    (tornOf members torn last).map members = tornEntries torn (members last) := by
  rw [tornOf, tornEntries]
  split <;> rfl

theorem loads_written (members : Members) : loads (written members) = some (.dict (stored members)) :=
  loads_dumps (.dict members)

theorem record_written (members : Members) : Record (written members) := record_dumps members

theorem printable_written (entries : List Members) :
    ∀ record ∈ entries.map written, ∀ c ∈ record, Printable c := by
  intro record hrecord
  obtain ⟨members, -, rfl⟩ := List.mem_map.mp hrecord
  exact (record_written members).printable

theorem brace_mem_written (members : Members) : '\x7b' ∈ written members := by
  obtain ⟨inner, hinner⟩ := (record_written members).braces
  rw [hinner]
  exact List.mem_cons_self

theorem written_ne_nil (members : Members) : written members ≠ [] := by
  obtain ⟨inner, hinner⟩ := (record_written members).braces
  rw [hinner]
  exact List.cons_ne_nil _ _

@[simp] theorem tornEntries_nil (next : Members) : tornEntries [] next = [] :=
  if_neg (written_ne_nil next).symm

@[simp] theorem tornOf_nil {α : Type} (members : α → Members) (last : α) :
    tornOf members [] last = [] :=
  if_neg (written_ne_nil (members last)).symm

theorem loads_line (members : Members) :
    loads (strip (written members ++ ['\n'])) = some (.dict (stored members)) := by
  rw [strip_line (record_written members), loads_written]

/-- A cut entry is read if it is whole. -/
theorem loads_torn {torn : List Char} {next : Members} (h : torn <+: written next) (hne : torn ≠ []) :
    loads (strip torn) = (tornEntries torn next).head?.map fun next => .dict (stored next) := by
  by_cases hwhole : torn = written next
  · rw [tornEntries, if_pos hwhole, hwhole, strip_record (record_written next), loads_written]
    rfl
  · rw [tornEntries, if_neg hwhole]
    have hfront := (strip_torn (record_written next) h hne).1.trans h
    obtain ⟨back, hback⟩ := hfront
    refine loads_cut hback.symm fun hnil => hwhole ?_
    rw [hnil, List.append_nil] at hback
    have hlen := (strip_torn (record_written next) h hne).1.length_le
    rw [hback] at hlen
    exact h.eq_of_length_le hlen

theorem lastLine_eq (text : List Char) :
    lastLine text = ((filledLines text).getLast?.map strip).getD [] := by
  rw [lastLine, filledLines]
  induction lines text using List.reverseRecOn with
  | nil => rfl
  | append_singleton lines line ih =>
    rw [List.foldl_append, List.filter_append, List.foldl_cons, List.foldl_nil, ih]
    by_cases hblank : strip line = []
    · simp [hblank]
    · simp [hblank]

section Holds

variable {file : File} {entries : List Members} {torn : List Char} {next : Members}

theorem Holds.printable (h : Holds file entries torn next) : ∀ c ∈ torn, Printable c := fun c hc =>
  (record_written next).printable c (h.cut.subset hc)

theorem Holds.ascii (h : Holds file entries torn next) :
    ∀ c ∈ recordText (entries.map written) ++ torn, Ascii c ∧ c ≠ '\r' := by
  refine List.forall_mem_append.mpr ⟨ascii_recordText (printable_written entries), fun c hc => ?_⟩
  refine ⟨.of_printable (h.printable c hc), ?_⟩
  rintro rfl
  exact absurd (h.printable _ hc) (by decide)

theorem Holds.decode {raw : List Byte} (h : Holds (some raw) entries torn next) :
    decode raw = some (recordText (entries.map written) ++ torn) := by
  rw [show raw = _ from h.bytes]
  exact decode_encode fun hmem => (h.ascii _ hmem).2 rfl

/-- A missing file holds nothing. -/
theorem Holds.of_none (h : Holds none entries torn next) : entries = [] ∧ torn = [] := by
  have hlen := congrArg List.length h.bytes
  rw [encode_length fun c hc => (h.ascii c hc).1, Option.getD_none, List.length_nil,
    List.length_append] at hlen
  constructor
  · cases entries with
    | nil => rfl
    | cons members entries =>
      simp only [recordText, List.map_cons, List.flatMap_cons, List.length_append,
        List.length_singleton] at hlen
      omega
  · exact List.eq_nil_of_length_eq_zero (by omega)

theorem Holds.filledLines (h : Holds file entries torn next) :
    filledLines (recordText (entries.map written) ++ torn) =
      entries.map (fun members => written members ++ ['\n']) ++ tornLines torn := by
  rw [TextFile.filledLines, lines_recordText (printable_written entries) h.printable, List.map_map]
  refine List.filter_eq_self.mpr (List.forall_mem_append.mpr ⟨fun line hline => ?_, fun line hline => ?_⟩)
  · obtain ⟨members, -, rfl⟩ := List.mem_map.mp hline
    rw [decide_eq_true_iff, Function.comp_apply, strip_line (record_written members)]
    exact written_ne_nil members
  · rw [tornLines] at hline
    split at hline
    · exact absurd hline List.not_mem_nil
    · rename_i hne
      rw [List.mem_singleton.mp hline, decide_eq_true_iff]
      exact (strip_torn (record_written next) h.cut hne).2

theorem Holds.readAllLines (h : Holds file entries torn next) : readAllLines file =
    .ok (entries.map (fun members => written members ++ ['\n']) ++ tornLines torn) := by
  cases file with
  | none =>
    obtain ⟨rfl, rfl⟩ := h.of_none
    rfl
  | some raw => rw [MasterLogs.readAllLines, h.decode, ← h.filledLines]

theorem Holds.readAllLines_map {α : Type} {members : α → Members} {logged : List α}
    (h : Holds file (logged.map members) [] next) :
    MasterLogs.readAllLines file = .ok (logged.map fun a => written (members a) ++ ['\n']) := by
  rw [h.readAllLines, tornLines, if_pos rfl, List.append_nil, List.map_map]
  rfl

/-- Recovery finds the last entry, or what it can read of a cut one. -/
theorem Holds.recover (h : Holds file entries torn next) : recoverEntry file =
    .ok (if torn = [] then entries.getLast?.map stored
      else (tornEntries torn next).head?.map stored) := by
  cases file with
  | none =>
    obtain ⟨rfl, rfl⟩ := h.of_none
    rfl
  | some raw =>
    have hlast : lastLine (recordText (entries.map written) ++ torn) =
        if torn = [] then (entries.getLast?.map written).getD [] else strip torn := by
      rw [lastLine_eq, h.filledLines, tornLines]
      split
      · rw [List.append_nil, List.getLast?_map, Option.map_map]
        refine congrArg (Option.getD · []) (congrArg (Option.map · _) ?_)
        funext members
        exact strip_line (record_written members)
      · rw [List.getLast?_concat]
        rfl
    rw [recoverEntry, h.decode]
    simp only [hlast]
    split
    · cases hentries : entries.getLast? with
      | none => rfl
      | some members =>
        simp only [Option.map_some, Option.getD_some, if_neg (written_ne_nil members), loads_written]
        rfl
    · rename_i hne
      rw [if_neg (strip_torn (record_written next) h.cut hne).2, loads_torn h.cut hne]
      cases (tornEntries torn next).head? <;> rfl

section Events

variable {Event : Type} {fromDict : Value → Except LogError Event}

/-- The entry is read as this event. -/
def ReadsAs (fromDict : Value → Except LogError Event) (members : Members) (event : Event) : Prop :=
  fromDict (.dict (stored members)) = .ok event

theorem readEntries_lines {events moreEvents : List Event}
    (hread : List.Forall₂ (ReadsAs fromDict) entries events) {more : List (List Char)}
    (hmore : readEntries fromDict more = .ok moreEvents) :
    readEntries fromDict (entries.map (fun members => written members ++ ['\n']) ++ more) =
      .ok (events ++ moreEvents) := by
  induction hread with
  | nil => exact hmore
  | @cons members event entries events hmembers hentries ih =>
    rw [ReadsAs] at hmembers
    rw [List.map_cons, List.cons_append, readEntries, readEntry, loads_line]
    simp only [hmembers, ih]
    rfl

theorem readEntries_torn (h : Holds file entries torn next) {events : List Event}
    (hread : List.Forall₂ (ReadsAs fromDict) (tornEntries torn next) events) :
    readEntries fromDict (tornLines torn) = .ok events := by
  by_cases hnil : torn = []
  · rw [hnil, tornEntries_nil] at hread
    rw [hnil, List.forall₂_nil_left_iff.mp hread]
    rfl
  · rw [tornLines, if_neg hnil, readEntries, readEntry, loads_torn h.cut hnil]
    rw [tornEntries] at hread ⊢
    split at hread
    · rename_i hwhole
      obtain ⟨event, rest, hevent, hrest, rfl⟩ := List.forall₂_cons_left_iff.mp hread
      rw [ReadsAs] at hevent
      rw [if_pos hwhole, List.forall₂_nil_left_iff.mp hrest]
      simp only [List.head?_cons, Option.map_some, hevent]
      rfl
    · rename_i hcut
      rw [if_neg hcut, List.forall₂_nil_left_iff.mp hread]
      rfl

/-- `read_events` returns every entry that is whole. -/
theorem Holds.readsAll (h : Holds file entries torn next) {events tornEvents : List Event}
    (hread : List.Forall₂ (ReadsAs fromDict) entries events)
    (htorn : List.Forall₂ (ReadsAs fromDict) (tornEntries torn next) tornEvents) :
    ReadsAll fromDict file (events ++ tornEvents) := by
  rw [readsAll_iff h.readAllLines]
  exact readEntries_lines hread (readEntries_torn h htorn)

theorem readsAs_map {α : Type} {members : α → Members} {event : α → Event}
    (hreads : ∀ a, ReadsAs fromDict (members a) (event a)) (logged : List α) :
    List.Forall₂ (ReadsAs fromDict) (logged.map members) (logged.map event) := by
  rw [List.forall₂_map_left_iff, List.forall₂_map_right_iff]
  exact List.forall₂_same.mpr fun a _ => hreads a

/-- Entries that read back one by one are read back from the file, and a cut one if it is whole. -/
theorem Holds.readsAll_map {α : Type} {members : α → Members} {event : α → Event}
    (hreads : ∀ a, ReadsAs fromDict (members a) (event a)) {logged : List α} {last : α}
    (h : Holds file (logged.map members) torn (members last)) :
    ReadsAll fromDict file ((logged ++ tornOf members torn last).map event) := by
  have htorn := readsAs_map hreads (tornOf members torn last)
  rw [map_tornOf] at htorn
  rw [List.map_append]
  exact h.readsAll (readsAs_map hreads logged) htorn

end Events

/-! ## Effects of a write -/

theorem ascii_line (members : Members) : ∀ c ∈ written members ++ ['\n'], Ascii c := by
  refine List.forall_mem_append.mpr ⟨fun c hc => ?_, List.forall_mem_singleton.mpr ?_⟩
  · exact .of_printable ((record_written members).printable c hc)
  · unfold Ascii
    decide

theorem holds_empty (next : Members) : Holds none [] [] next := ⟨rfl, List.nil_prefix⟩

/-- The file that is made of the lines of entries. -/
theorem holds_lines (entries : List Members) (next : Members) :
    Holds (some (encode (entries.map fun members => written members ++ ['\n']).flatten)) entries []
      next := by
  refine ⟨?_, List.nil_prefix⟩
  rw [Option.getD_some, List.append_nil, recordText, List.flatMap_map]
  rfl

theorem Holds.writes (h : Holds file entries [] next) (members : Members) :
    Holds (writeEntry file members .writes) (entries ++ [members]) [] members := by
  refine ⟨?_, List.nil_prefix⟩
  have hascii := h.ascii
  have hbytes := h.bytes
  rw [List.append_nil] at hascii hbytes
  rw [writeEntry, Option.getD_some, hbytes,
    ← encode_append (fun c hc => (hascii c hc).1) (ascii_line members), List.map_append,
    recordText_append, List.map_singleton, recordText_singleton, List.append_nil]

/-- What a file holds depends on its bytes. -/
theorem Holds.of_bytes (h : Holds file entries torn next) {file' : File}
    (hbytes : file'.getD [] = file.getD []) : Holds file' entries torn next :=
  ⟨hbytes.trans h.bytes, h.cut⟩

/-- A crash in front of the end of the line leaves a front of the entry. -/
theorem Holds.cuts (h : Holds file entries [] next) (members : Members) {n : Nat}
    (hn : n ≤ (written members).length) :
    Holds (writeEntry file members (.crashes n)) entries ((written members).take n) members := by
  have hascii := h.ascii
  have hbytes := h.bytes
  rw [List.append_nil] at hascii hbytes
  refine ⟨?_, List.take_prefix _ _⟩
  rw [writeEntry, Option.getD_some, hbytes, encode_take (ascii_line members),
    List.take_append_of_le_length hn, encode_append fun c hc => (hascii c hc).1]
  exact fun c hc => ascii_line _ c (List.mem_append_left _ (List.mem_of_mem_take hc))

theorem line_length (members : Members) :
    (encode (written members ++ ['\n'])).length = (written members).length + 1 := by
  rw [encode_length (ascii_line members), List.length_append, List.length_singleton]

/-- A write that takes the whole line is one that is cut off behind it. -/
theorem writeEntry_whole {members : Members} {n : Nat} (hn : (written members).length < n) (file : File) :
    writeEntry file members (.crashes n) = writeEntry file members .writes := by
  have hall : (encode (written members ++ ['\n'])).length ≤ n := by
    rw [line_length]
    exact hn
  rw [writeEntry, writeEntry, List.take_of_length_le hall]

/-- A write that takes all but the end of the line leaves the entry. -/
theorem Holds.appends {α : Type} {members : α → Members} {records : List α}
    (h : Holds file (records.map members) [] next) (e : α) {n : Nat}
    (hn : (written (members e)).length ≤ n) : ∃ records' torn,
      Holds (writeEntry file (members e) (.crashes n)) (records'.map members) torn (members e) ∧
      (torn = [] ∨ torn = written (members e)) ∧ records' ++ tornOf members torn e = records ++ [e] := by
  obtain heq | hlt := Nat.eq_or_lt_of_le hn
  · have hcut := h.cuts (members e) (Nat.le_of_eq heq.symm)
    rw [List.take_of_length_le hn] at hcut
    exact ⟨records, written (members e), hcut, .inr rfl, by rw [tornOf, if_pos rfl]⟩
  · refine ⟨records ++ [e], [], ?_, .inl rfl, by simp⟩
    rw [writeEntry_whole hlt, List.map_append, List.map_singleton]
    exact h.writes (members e)

/-- A crash leaves the entry, with or without the end of its line, or a front of the line. -/
theorem Holds.crashes {α : Type} {members : α → Members} {records : List α}
    (h : Holds file (records.map members) [] next) (e : α) (n : Nat) : ∃ records' torn,
      Holds (writeEntry file (members e) (.crashes n)) (records'.map members) torn (members e) ∧
      records' ++ tornOf members torn e =
        records ++ if (Disk.crashes n).writesEntry (members e) then [e] else [] := by
  by_cases hn : (written (members e)).length ≤ n
  · obtain ⟨records', torn, hholds, -, heq⟩ := h.appends e hn
    exact ⟨records', torn, hholds, by rw [heq, Disk.writesEntry, if_pos (decide_eq_true hn)]⟩
  · refine ⟨records, _, h.cuts (members e) (Nat.le_of_not_le hn), ?_⟩
    simp only [tornOf, List.take_eq_self_iff, Disk.writesEntry, decide_eq_true_iff]

/-- An entry that is appended to a cut one stands in the same line. -/
theorem Holds.merges (h : Holds file entries torn next) (members : Members) :
    MasterLogs.readAllLines (writeEntry file members .writes) =
      .ok ((entries.map written ++ [torn ++ written members]).map fun record => record ++ ['\n']) := by
  have hprint : ∀ record ∈ entries.map written ++ [torn ++ written members], ∀ c ∈ record, Printable c :=
    List.forall_mem_append.mpr ⟨printable_written entries, List.forall_mem_singleton.mpr
      (List.forall_mem_append.mpr ⟨h.printable, (record_written members).printable⟩)⟩
  have hbytes : writeEntry file members .writes =
      some (encode (recordText (entries.map written ++ [torn ++ written members]))) := by
    rw [writeEntry, h.bytes, ← encode_append (fun c hc => (h.ascii c hc).1) (ascii_line members),
      recordText_append, recordText_singleton]
    simp only [List.append_assoc]
  have hlines := lines_recordText hprint (List.forall_mem_nil Printable)
  rw [List.append_nil, tornLines, if_pos rfl, List.append_nil] at hlines
  rw [hbytes, MasterLogs.readAllLines, decode_encode fun hmem => (ascii_recordText hprint _ hmem).2 rfl]
  refine congrArg Except.ok ?_
  rw [TextFile.filledLines, hlines]
  refine List.filter_eq_self.mpr fun line hline => decide_eq_true ?_
  obtain ⟨record, hrecord, rfl⟩ := List.mem_map.mp hline
  have hbrace : '\x7b' ∈ record := by
    obtain hmem | hmem := List.mem_append.mp hrecord
    · obtain ⟨entry, -, rfl⟩ := List.mem_map.mp hmem
      exact brace_mem_written entry
    · rw [List.mem_singleton.mp hmem]
      exact List.mem_append_right _ (brace_mem_written members)
  exact strip_ne_nil (List.mem_append_left _ hbrace) rfl

/-- What is written behind a line without its end continues the line. -/
theorem Holds.continues (h : Holds file entries torn next) (members : Members) {n : Nat} (hn : 0 < n) :
    MasterLogs.readAllLines (writeEntry file members (.crashes n)) =
      .ok (entries.map (fun members => written members ++ ['\n']) ++
        [torn ++ (written members ++ ['\n']).take n]) := by
  obtain hlt | hle := Nat.lt_or_ge (written members).length n
  · rw [writeEntry_whole hlt, h.merges, List.take_of_length_le (by simp; omega), List.map_append,
      List.map_map, List.map_singleton, List.append_assoc]
    rfl
  · have hprint : ∀ c ∈ torn ++ (written members).take n, Printable c :=
      List.forall_mem_append.mpr ⟨h.printable, fun c hc =>
        (record_written members).printable c (List.mem_of_mem_take hc)⟩
    have hbrace : '\x7b' ∈ torn ++ (written members).take n := by
      obtain ⟨inner, hinner⟩ := (record_written members).braces
      obtain ⟨n, rfl⟩ := Nat.exists_eq_succ_of_ne_zero hn.ne'
      rw [hinner, List.take_succ_cons]
      exact List.mem_append_right _ List.mem_cons_self
    have hlines := lines_recordText (printable_written entries) hprint
    rw [tornLines, if_neg (List.ne_nil_of_mem hbrace), List.map_map] at hlines
    have hascii := fun c hc => ascii_line members c (List.mem_of_mem_take (i := n) hc)
    have hreturn : '\r' ∉ recordText (entries.map written) ++ (torn ++ (written members).take n) := by
      intro hmem
      obtain hmem | hmem := List.mem_append.mp hmem
      · exact (ascii_recordText (printable_written entries) _ hmem).2 rfl
      · exact absurd (hprint _ hmem) (by decide)
    rw [writeEntry, h.bytes, encode_take (ascii_line members),
      ← encode_append (fun c hc => (h.ascii c hc).1) hascii, List.take_append_of_le_length hle,
      List.append_assoc, MasterLogs.readAllLines, decode_encode hreturn]
    refine congrArg Except.ok ?_
    rw [TextFile.filledLines, hlines]
    refine List.filter_eq_self.mpr (List.forall_mem_append.mpr ⟨fun line hline => ?_, ?_⟩)
    · obtain ⟨entry, -, rfl⟩ := List.mem_map.mp hline
      exact decide_eq_true (strip_ne_nil (List.mem_append_left _ (brace_mem_written entry)) rfl)
    · exact List.forall_mem_singleton.mpr (decide_eq_true (strip_ne_nil hbrace rfl))

/-- An entry and the start of another in one line are not read. -/
theorem loads_continued (members next : Members) {n : Nat} (hn : 0 < n) :
    loads (strip (written members ++ (written next ++ ['\n']).take n)) = none := by
  obtain ⟨inner, hinner⟩ := (record_written next).braces
  obtain ⟨n, rfl⟩ := Nat.exists_eq_succ_of_ne_zero hn.ne'
  rw [hinner, List.cons_append, List.take_succ_cons, strip_followed (record_written members) rfl]
  obtain ⟨rest, hrest⟩ := strip_cons (c := '\x7b') rfl ((inner ++ ['\x7d'] ++ ['\n']).take n)
  rw [hrest]
  refine loads_followed members ?_
  rw [skipWhitespace_of_not (by decide)]
  exact List.cons_ne_nil _ _

/-- A rewrite that a crash cuts off leaves the front of the records; all of them can be read if it
takes the end of the last line at most. -/
theorem holds_cut {α : Type} (members : α → Members) (kept : List α) (other : α) (n : Nat) :
    ∃ records torn last,
      Holds (some ((encode (recordText (kept.map fun e => written (members e)))).take n))
        (records.map members) torn (members last) ∧
      records ++ tornOf members torn last <+: kept ∧
      ((records ++ tornOf members torn last).length = kept.length ↔
        (encode (recordText (kept.map fun e => written (members e)))).length ≤ n + 1) := by
  have hmap : ∀ kept : List α, (kept.map members).map written = kept.map fun e => written (members e) :=
    fun kept => List.map_map
  have hascii := fun c hc => (ascii_recordText (hmap kept ▸ printable_written (kept.map members)) c hc).1
  rw [encode_take hascii, encode_length hascii]
  obtain hall | ⟨front, e, back, m, rfl, hm, rfl, htake⟩ :=
    recordText_take (fun e => written (members e)) kept n
  · refine ⟨kept, [], other, ⟨?_, List.nil_prefix⟩, ?_⟩
    · rw [List.take_of_length_le hall, hmap, List.append_nil]
      rfl
    · rw [tornOf_nil, List.append_nil]
      exact ⟨List.prefix_rfl, iff_of_true rfl (Nat.le_succ_of_le hall)⟩
  · have hlen : (recordText ((front ++ e :: back).map fun e => written (members e))).length =
        (recordText (front.map fun e => written (members e))).length + ((written (members e)).length +
          1 + (recordText (back.map fun e => written (members e))).length) := by
      simp only [List.map_append, List.map_cons, recordText_append, recordText_cons,
        List.length_append, List.length_singleton]
    have hback : (recordText (back.map fun e => written (members e))).length = 0 ↔ back = [] := by
      cases back with
      | nil => exact iff_of_true rfl rfl
      | cons e' back => simp [recordText_cons]
    refine ⟨front, (written (members e)).take m, e, ⟨?_, List.take_prefix _ _⟩, ?_, ?_⟩
    · rw [htake, hmap]
      rfl
    · apply (List.prefix_append_right_inj front).mpr
      rw [tornOf]
      split
      · exact ⟨back, rfl⟩
      · exact List.nil_prefix
    · rw [hlen, List.length_append, List.length_append, List.length_cons, tornOf]
      simp only [List.take_eq_self_iff]
      rw [← List.length_eq_zero_iff] at hback
      split
      · rw [List.length_singleton]
        omega
      · rw [List.length_nil]
        omega

/-- A rewrite that is not cut short leaves what was there or what is written. -/
theorem Holds.rewrite {α : Type} {members : α → Members} {records : List α}
    (h : Holds file (records.map members) [] next) (kept : List α) (other : α) {disk : Rewrite}
    (hcut : ¬ disk.CutsShort (recordText (kept.map fun e => written (members e)))) :
    ∃ records' torn last, Holds (MasterLogs.rewrite file (recordText (kept.map fun e => written (members e))) disk)
        (records'.map members) torn (members last) ∧
      (records' ++ tornOf members torn last = records ∨ records' ++ tornOf members torn last = kept) := by
  have hsame : Holds file (records.map members) [] (members other) := ⟨h.bytes, List.nil_prefix⟩
  cases disk with
  | refuses => exact ⟨records, [], other, hsame, .inl (by simp)⟩
  | crashesBefore => exact ⟨records, [], other, hsame, .inl (by simp)⟩
  | writes =>
    refine ⟨kept, [], other, ⟨?_, List.nil_prefix⟩, .inr (by simp)⟩
    rw [MasterLogs.rewrite, Option.getD_some, List.append_nil, List.map_map]
    rfl
  | crashes n =>
    obtain ⟨records', torn, last, hholds, hfront, hlength⟩ := holds_cut members kept other n
    refine ⟨records', torn, last, hholds, .inr (hfront.eq_of_length (hlength.mpr ?_))⟩
    exact Nat.le_of_not_lt hcut

/-- A call that no crash cuts off fails in front of the write, or writes. -/
theorem fails_or_writes {disk : Disk} (h : ∀ n, disk ≠ .crashes n) (details : Details) :
    (details = none ∨ disk = .refuses) ∨ disk = .writes ∧ ∃ members, details = some members := by
  cases details with
  | none => exact .inl (.inl rfl)
  | some members =>
    cases disk with
    | refuses => exact .inl (.inr rfl)
    | writes => exact .inr ⟨rfl, members, rfl⟩
    | crashes n => exact absurd rfl (h n)

/-- What no byte of reaches the file leaves no entry in it. -/
theorem writesEntry_of_idle {disk : Disk} (h : disk.writesBytes = false) (members : Members) :
    disk.writesEntry members = false := by
  cases disk with
  | refuses => rfl
  | writes => exact absurd h (by decide)
  | crashes n =>
    have hpos := List.length_pos_iff.mpr (written_ne_nil members)
    simp only [Disk.writesBytes, decide_eq_false_iff_not] at h
    simp only [Disk.writesEntry, decide_eq_false_iff_not]
    omega

theorem writeEntry_of_idle {disk : Disk} (h : disk.writesBytes = false) (file : File)
    (members : Members) : (writeEntry file members disk).getD [] = file.getD [] := by
  cases disk with
  | refuses => rfl
  | writes => exact absurd h (by decide)
  | crashes n =>
    simp only [Disk.writesBytes, decide_eq_false_iff_not, Nat.pos_iff_ne_zero, not_not] at h
    rw [writeEntry, h, List.take_zero, Option.getD_some, List.append_nil]

/-- Only a cut entry leaves the last line without its end. -/
theorem Holds.ended_iff (h : Holds file entries torn next) : Ended file ↔ torn = [] := by
  have hascii := fun c hc => (h.ascii c hc).1
  rw [Ended, h.bytes, encode_ascii hascii, List.getLast?_map]
  cases torn using List.reverseRecOn with
  | nil =>
    refine iff_of_true (fun b hb => ?_) rfl
    rw [List.append_nil] at hb
    induction entries using List.reverseRecOn with
    | nil => exact absurd hb (by simp)
    | append_singleton entries members _ =>
      rw [List.map_append, recordText_append, List.map_singleton, recordText_singleton,
        ← List.append_assoc, List.getLast?_concat, Option.map_some, Option.mem_some_iff] at hb
      exact hb.symm
  | append_singleton torn c =>
    refine iff_of_false (fun hended => ?_) (List.concat_ne_nil c torn)
    rw [← List.append_assoc, List.getLast?_concat, Option.map_some] at hended
    have hprint := h.printable c (by simp)
    have hc : c.toNat < 256 := Nat.lt_of_lt_of_le (hascii c (by simp)) (by decide)
    have hnat := congrArg BitVec.toNat (hended _ rfl)
    rw [BitVec.toNat_ofNat, Nat.mod_eq_of_lt hc] at hnat
    exact absurd hprint.1 (by rw [hnat]; decide)

end Holds

end Genoh.MasterLogs
