import Mathlib.Data.List.DropRight
import Genoh.JsonDerivation
import Genoh.MasterPayloads

/-!
# Text files

Files opened for text in UTF-8: what is decoded, how it falls into lines, and the files that hold
one document in each line. A crash leaves such a file cut in its last line.
-/
namespace Genoh.TextFile

open Genoh.Bytes Genoh.Json Genoh.MasterPayloads

/-- The bytes of a file; none where there is no file. -/
abbrev File := Option (List Byte)

def encode (text : List Char) : List Byte := utf8 (String.ofList text)

/-- The line ends that reading makes of others. -/
def universalNewlines : List Char → List Char
  | [] => []
  | '\r' :: '\n' :: s => '\n' :: universalNewlines s
  | '\r' :: s => '\n' :: universalNewlines s
  | c :: s => c :: universalNewlines s

/-- The text of a file; none where it is not UTF-8. -/
def decode (raw : List Byte) : Option (List Char) :=
  (ofUtf8 raw).map fun text => universalNewlines text.toList

/-- The lines of a text, each with its end. -/
def lines : List Char → List (List Char)
  | [] => []
  | c :: s =>
    if c = '\n' then ['\n'] :: lines s
    else match lines s with
      | [] => [[c]]
      | line :: rest => (c :: line) :: rest

/-- `str.isspace` on one character. -/
def isSpace (c : Char) : Bool :=
  isAsciiSpace c.toNat || (0x1c ≤ c.toNat && c.toNat ≤ 0x1f) ||
    (0x2000 ≤ c.toNat && c.toNat ≤ 0x200a) ||
    [0x85, 0xa0, 0x1680, 0x2028, 0x2029, 0x202f, 0x205f, 0x3000].contains c.toNat

/-- `str.strip()`. -/
def strip (s : List Char) : List Char := (s.dropWhile isSpace).rdropWhile isSpace

/-- `[line for line in f if line.strip()]`. -/
def filledLines (text : List Char) : List (List Char) := (lines text).filter fun line => strip line ≠ []

/-! ## ASCII -/

def Ascii (c : Char) : Prop := c.toNat < 0x80

theorem Ascii.of_printable {c : Char} (h : Printable c) : Ascii c :=
  Nat.lt_of_le_of_lt h.2 (by decide)

/-- ASCII text takes one byte a character. -/
theorem encode_ascii {text : List Char} (h : ∀ c ∈ text, Ascii c) :
    encode text = text.map fun c => BitVec.ofNat 8 c.toNat := by
  have hbytes : ∀ text : List Char, (String.ofList text).toUTF8.data.toList =
      text.flatMap String.utf8EncodeChar := by
    intro text
    rw [String.toUTF8_eq_toByteArray, String.toByteArray_ofList, List.utf8Encode]
    simp
  have hchar : ∀ c, Ascii c → String.utf8EncodeChar c = [c.val.toUInt8] := by
    intro c hc
    refine String.utf8EncodeChar_eq_singleton (Char.utf8Size_eq_one_iff.mpr ?_)
    rw [UInt32.le_iff_toNat_le]
    exact Nat.le_of_lt_succ hc
  rw [encode, utf8, hbytes]
  induction text with
  | nil => rfl
  | cons c text ih =>
    rw [List.forall_mem_cons] at h
    rw [List.flatMap_cons, hchar c h.1, List.singleton_append, List.map_cons, List.map_cons, ih h.2]
    rfl

theorem encode_append {front back : List Char} (hfront : ∀ c ∈ front, Ascii c)
    (hback : ∀ c ∈ back, Ascii c) : encode (front ++ back) = encode front ++ encode back := by
  rw [encode_ascii (List.forall_mem_append.mpr ⟨hfront, hback⟩), encode_ascii hfront,
    encode_ascii hback, List.map_append]

theorem encode_take {text : List Char} (h : ∀ c ∈ text, Ascii c) (n : Nat) :
    (encode text).take n = encode (text.take n) := by
  rw [encode_ascii h, encode_ascii fun c hc => h c (List.mem_of_mem_take hc), List.map_take]

theorem encode_length {text : List Char} (h : ∀ c ∈ text, Ascii c) :
    (encode text).length = text.length := by
  rw [encode_ascii h, List.length_map]

theorem universalNewlines_of_notMem {text : List Char} (h : '\r' ∉ text) :
    universalNewlines text = text := by
  induction text using universalNewlines.induct with
  | case1 => rfl
  | case2 s ih => exact absurd List.mem_cons_self h
  | case3 s hnot ih => exact absurd List.mem_cons_self h
  | case4 c s hcrlf hcr ih =>
    rw [universalNewlines.eq_4 _ _ hcrlf hcr, ih (List.not_mem_of_not_mem_cons h)]

/-- Text without carriage returns is decoded as it was written. -/
theorem decode_encode {text : List Char} (h : '\r' ∉ text) : decode (encode text) = some text := by
  rw [decode, encode, ofUtf8_utf8, Option.map_some, String.toList_ofList,
    universalNewlines_of_notMem h]

/-! ## Lines -/

theorem lines_cons {line : List Char} (h : '\n' ∉ line) (s : List Char) :
    lines (line ++ '\n' :: s) = (line ++ ['\n']) :: lines s := by
  induction line with
  | nil => rw [List.nil_append, lines, if_pos rfl, List.nil_append]
  | cons c line ih =>
    rw [List.mem_cons, not_or] at h
    rw [List.cons_append, lines, if_neg (Ne.symm h.1), ih h.2]
    rfl

theorem lines_last {line : List Char} (h : '\n' ∉ line) :
    lines line = if line = [] then [] else [line] := by
  induction line with
  | nil => rfl
  | cons c line ih =>
    rw [List.mem_cons, not_or] at h
    rw [lines, if_neg (Ne.symm h.1), ih h.2, if_neg (List.cons_ne_nil c line)]
    cases line <;> rfl

/-! ## Records -/

/-- A line with one object in it. -/
structure Record (line : List Char) : Prop where
  printable : ∀ c ∈ line, Printable c
  braces : ∃ inner, line = '\x7b' :: (inner ++ ['\x7d'])

theorem record_dumps (members : List (Strings.Str × Value)) : Record (dumps (.dict members)) where
  printable := printable_dumps _
  braces := by
    have hmembers : ∀ members, ∃ inner, dumpsMembers members = inner ++ ['\x7d'] := by
      intro members
      induction members with
      | nil => exact ⟨[], rfl⟩
      | cons member members ih =>
        obtain ⟨inner, hinner⟩ := ih
        refine ⟨',' :: (quote member.1 ++ ':' :: (dumps member.2 ++ inner)), ?_⟩
        rw [dumpsMembers, hinner]
        simp
    cases members with
    | nil => exact ⟨[], rfl⟩
    | cons member members =>
      obtain ⟨inner, hinner⟩ := hmembers members
      refine ⟨quote member.1 ++ ':' :: (dumps member.2 ++ inner), ?_⟩
      rw [dumps, hinner]
      simp

/-- The text that holds the records. -/
def recordText (records : List (List Char)) : List Char := records.flatMap fun record => record ++ ['\n']

/-- A line that a crash left. -/
def tornLines (torn : List Char) : List (List Char) := if torn = [] then [] else [torn]

@[simp] theorem recordText_nil : recordText [] = [] := rfl

theorem recordText_cons (record : List Char) (records : List (List Char)) :
    recordText (record :: records) = (record ++ ['\n']) ++ recordText records := List.flatMap_cons

@[simp] theorem recordText_append (front back : List (List Char)) :
    recordText (front ++ back) = recordText front ++ recordText back := List.flatMap_append

@[simp] theorem recordText_singleton (record : List Char) :
    recordText [record] = record ++ ['\n'] := List.flatMap_singleton _ _

/-- A cut text of records ends in the front of one. -/
theorem recordText_take {α : Type} (line : α → List Char) (records : List α) (n : Nat) :
    (recordText (records.map line)).length ≤ n ∨
      ∃ front record back m, records = front ++ record :: back ∧ m ≤ (line record).length ∧
        n = (recordText (front.map line)).length + m ∧
        (recordText (records.map line)).take n =
          recordText (front.map line) ++ (line record).take m := by
  induction records generalizing n with
  | nil => exact .inl (Nat.zero_le n)
  | cons record records ih =>
    rw [List.map_cons, recordText_cons, List.length_append]
    by_cases hn : n ≤ (line record).length
    · refine .inr ⟨[], record, records, n, rfl, hn, (Nat.zero_add n).symm, ?_⟩
      rw [List.append_assoc, List.take_append_of_le_length hn]
      rfl
    · have hlen : (line record ++ ['\n']).length ≤ n := by
        rw [List.length_append, List.length_singleton]
        omega
      obtain ⟨rest, rfl⟩ := Nat.exists_eq_add_of_le hlen
      obtain hall | ⟨front, cut, back, m, rfl, hm, rfl, htake⟩ := ih rest
      · exact .inl (Nat.add_le_add_left hall _)
      · refine .inr ⟨record :: front, cut, back, m, rfl, hm, ?_, ?_⟩
        · simp only [List.map_cons, recordText_cons, List.length_append, Nat.add_assoc]
        · rw [List.take_length_add_append, htake, List.map_cons, recordText_cons, ← List.append_assoc]

theorem notMem_of_printable {c : Char} {text : List Char} (h : ∀ c ∈ text, Printable c)
    (hc : ¬ Printable c) : c ∉ text := fun hmem => hc (h c hmem)

theorem ascii_recordText {records : List (List Char)}
    (h : ∀ record ∈ records, ∀ c ∈ record, Printable c) :
    ∀ c ∈ recordText records, Ascii c ∧ c ≠ '\r' := by
  intro c hc
  obtain ⟨record, hrecord, hmem⟩ := List.mem_flatMap.mp hc
  obtain hmem | hmem := List.mem_append.mp hmem
  · have hprint := h record hrecord c hmem
    refine ⟨.of_printable hprint, ?_⟩
    rintro rfl
    exact absurd hprint (by decide)
  · rw [List.mem_singleton.mp hmem]
    exact ⟨by unfold Ascii; decide, by decide⟩

theorem lines_recordText {records : List (List Char)} (h : ∀ record ∈ records, ∀ c ∈ record, Printable c)
    {torn : List Char} (htorn : ∀ c ∈ torn, Printable c) :
    lines (recordText records ++ torn) = records.map (· ++ ['\n']) ++ tornLines torn := by
  induction records with
  | nil => exact lines_last (notMem_of_printable htorn (by decide))
  | cons record records ih =>
    rw [List.forall_mem_cons] at h
    have hline := notMem_of_printable h.1 (by decide : ¬ Printable '\n')
    rw [recordText, List.flatMap_cons, List.append_assoc, List.append_assoc, List.singleton_append,
      lines_cons hline, List.map_cons, List.cons_append]
    exact congrArg _ (ih h.2)

theorem strip_line {record : List Char} (h : Record record) : strip (record ++ ['\n']) = record := by
  obtain ⟨inner, rfl⟩ := h.braces
  rw [strip, List.cons_append, List.dropWhile_cons_of_neg (by decide), ← List.cons_append,
    List.rdropWhile_concat_pos _ _ _ (by decide), ← List.cons_append,
    List.rdropWhile_concat_neg _ _ _ (by decide)]

/-- Of a torn line its front is left, brace included. -/
theorem strip_torn {record torn : List Char} (h : Record record) (htorn : torn <+: record)
    (hne : torn ≠ []) : strip torn <+: torn ∧ strip torn ≠ [] := by
  obtain ⟨inner, rfl⟩ := h.braces
  obtain ⟨c, torn, rfl⟩ := List.exists_cons_of_ne_nil hne
  obtain ⟨rfl, -⟩ := List.cons_prefix_cons.mp htorn
  rw [strip, List.dropWhile_cons_of_neg (by decide)]
  refine ⟨List.rdropWhile_prefix _ _, fun hnil => ?_⟩
  rw [List.rdropWhile_eq_nil_iff] at hnil
  exact absurd (hnil _ List.mem_cons_self) (by decide)

theorem strip_ne_nil {s : List Char} {c : Char} (hmem : c ∈ s) (hc : isSpace c = false) :
    strip s ≠ [] := by
  rw [strip, Ne, List.rdropWhile_eq_nil_iff]
  intro hspaces
  by_cases hfront : c ∈ s.dropWhile isSpace
  · exact absurd (hspaces c hfront) (by simp [hc])
  · rw [← List.takeWhile_append_dropWhile (p := isSpace) (l := s), List.mem_append] at hmem
    exact absurd (List.mem_takeWhile_imp (hmem.resolve_right hfront)) (by simp [hc])

/-- What follows a record in its line is stripped by itself. -/
theorem strip_followed {record : List Char} (h : Record record) {c : Char} (hc : isSpace c = false)
    (s : List Char) : strip (record ++ c :: s) = record ++ strip (c :: s) := by
  obtain ⟨inner, rfl⟩ := h.braces
  have hne := strip_ne_nil (s := c :: s) List.mem_cons_self hc
  have hdrop : (c :: s).dropWhile isSpace = c :: s := List.dropWhile_cons_of_neg (by simp [hc])
  rw [strip, hdrop, List.rdropWhile, Ne, List.reverse_eq_nil_iff] at hne
  rw [strip, strip, hdrop, List.cons_append, List.dropWhile_cons_of_neg (by decide), List.rdropWhile,
    List.rdropWhile, ← List.cons_append, List.reverse_append, List.dropWhile_append, if_neg (by simpa using hne),
    List.reverse_append, List.reverse_reverse]

/-- What does not start with a space is not stripped at its front. -/
theorem strip_cons {c : Char} (hc : isSpace c = false) (s : List Char) : ∃ rest, strip (c :: s) = c :: rest := by
  have hne := strip_ne_nil (s := c :: s) List.mem_cons_self hc
  have hfront : strip (c :: s) <+: c :: s := by
    rw [strip, List.dropWhile_cons_of_neg (by simp [hc])]
    exact List.rdropWhile_prefix _ _
  obtain ⟨d, rest, hrest⟩ := List.exists_cons_of_ne_nil hne
  rw [hrest] at hfront ⊢
  rw [(List.cons_prefix_cons.mp hfront).1]
  exact ⟨rest, rfl⟩

theorem strip_record {record : List Char} (h : Record record) : strip record = record := by
  obtain ⟨inner, rfl⟩ := h.braces
  rw [strip, List.dropWhile_cons_of_neg (by decide), ← List.cons_append,
    List.rdropWhile_concat_neg _ _ _ (by decide)]

end Genoh.TextFile
