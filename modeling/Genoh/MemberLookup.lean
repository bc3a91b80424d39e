import Genoh.AppZenoh
import Genoh.FlatObjects
import Mathlib.Data.List.TakeWhile

/-!
# Members by their keys

`json_get_string` of the firmware against the members of the flat object whose text it searches.
The quoted key is searched for as it stands, with no regard to what is a name, what is a value and
what stands between them.
-/
namespace Genoh.MemberLookup

open Genoh.Bytes Genoh.AppZenoh Genoh.FirmwareKey Genoh.Separators Genoh.FlatObjects

/-! ## What is asked of the call -/

/-- The string of the member with the key, cut to the array. -/
def Correct (o : Flat) (key : List Byte) (outSize : Nat) : Prop :=
  jsonGetString o.text key outSize = (o.string? key).map fun value => value.take (outSize - 1)

instance (o : Flat) (key : List Byte) (outSize : Nat) : Decidable (Correct o key outSize) :=
  inferInstanceAs (Decidable (_ = _))

/-- What the loop behind the key passes over. -/
def isSkipped (c : Byte) : Bool := c == 0x3A || c == 0x20 || c == 0x09

/-- A string is read behind the name of the member. -/
def Readable (m : Member) (outSize : Nat) : Prop :=
  m.value.string? ≠ none ∧ m.colon.all isSkipped = true ∧ 2 ≤ outSize

instance (m : Member) (outSize : Nat) : Decidable (Readable m outSize) :=
  inferInstanceAs (Decidable (_ ∧ _ ∧ _))

/-- The call does what is asked of it at this place. -/
def Meets (o : Flat) (key : List Byte) (outSize : Nat) : Option Place → Prop
  | none => True
  | some (.name m) =>
    if m.name.bytes = key then m.value.string? ≠ none → Readable m outSize
    else ¬ Readable m outSize
  | some .value => o.string? key = none
  | some (.opening content beyond) =>
    if content.all isSkipped = true ∧ 2 ≤ outSize then
      ((o.string? key).map fun value => value.take (outSize - 1)) = some (beyond.take (outSize - 1))
    else o.string? key = none

instance (o : Flat) (key : List Byte) (outSize : Nat) :
    (place : Option Place) → Decidable (Meets o key outSize place)
  | none => inferInstanceAs (Decidable True)
  | some (.name m) => inferInstanceAs (Decidable (if m.name.bytes = key then _ else _))
  | some .value => inferInstanceAs (Decidable (_ = _))
  | some (.opening content _) =>
    inferInstanceAs (Decidable (if content.all isSkipped = true ∧ 2 ≤ outSize then _ else _))

/-! ## The search on the parts of the text -/

/-- What the call reads where these parts follow the quoted key. -/
def readParts (outSize : Nat) : List (List Byte) → Option (List Byte)
  | gap :: content :: _ =>
    if gap.all isSkipped = true ∧ content.take (outSize - 1) ≠ [] then
      some (content.take (outSize - 1))
    else none
  | _ => none

/-- What the call reads where this text follows the quoted key. -/
def valueBehind (outSize : Nat) (p : List Byte) : Option (List Byte) :=
  match p.dropWhile isSkipped with
  | [] => none
  | c :: p =>
    if c ≠ 0x22 then none
    else
      let out := (p.takeWhile (· ≠ 0x22)).take (outSize - 1)
      if out.length > 0 then some out else none

theorem jsonGetString_eq {key : List Byte} (hkey : key.length ≤ 29) (json : List Byte)
    (outSize : Nat) :
    jsonGetString json key outSize =
      ((strstr json (quote :: (key ++ [quote]))).map fun p => p.drop (key.length + 2)).bind
        (valueBehind outSize) := by
  have hquoted : ascii "\"" ++ key ++ ascii "\"" = quote :: (key ++ [quote]) := rfl
  have hlength : (quote :: (key ++ [quote])).length = key.length + 2 := by simp
  have htake : (quote :: (key ++ [quote])).take (searchSize - 1) = quote :: (key ++ [quote]) := by
    apply List.take_of_length_le
    rw [hlength, searchSize]
    omega
  rw [jsonGetString, hquoted, htake, hlength]
  cases strstr json (quote :: (key ++ [quote])) with
  | none => rfl
  | some p => rfl

theorem valueBehind_stop (outSize : Nat) {gap : List Byte} (rest : List Byte) (hquote : quote ∉ gap)
    (h : gap.all isSkipped = false) : valueBehind outSize (gap ++ rest) = none := by
  have hstop : gap.dropWhile isSkipped ≠ [] := by
    intro hnil
    rw [List.dropWhile_eq_nil_iff] at hnil
    rw [List.all_eq_true.mpr hnil] at h
    cases h
  obtain ⟨c, back, hback⟩ := List.exists_cons_of_ne_nil hstop
  have hmem : c ∈ gap := by
    apply (List.dropWhile_suffix isSkipped).subset
    rw [hback]
    exact List.mem_cons_self
  have hc : c ≠ 0x22 := by
    rintro rfl
    exact hquote hmem
  rw [valueBehind, List.dropWhile_append, hback, List.isEmpty_cons, if_neg Bool.false_ne_true,
    List.cons_append]
  exact if_pos hc

theorem valueBehind_parts (outSize : Nat) (p : List Byte) :
    valueBehind outSize p = readParts outSize (p.splitOn quote) := by
  by_cases hquote : quote ∈ p
  · obtain ⟨gap, back, rfl, hgap⟩ := List.eq_append_cons_of_mem hquote
    obtain ⟨rest, hrest⟩ := splitOn_head quote back
    rw [List.splitOn_append_cons_self_of_not_mem hgap, hrest, readParts]
    cases hskip : gap.all isSkipped with
    | false =>
      rw [valueBehind_stop outSize _ hgap hskip, if_neg fun h => Bool.false_ne_true h.1]
    | true =>
      have hback : (gap ++ quote :: back).dropWhile isSkipped = quote :: back := by
        rw [List.dropWhile_append_of_pos (List.all_eq_true.mp hskip)]
        rfl
      rw [valueBehind, hback]
      simp only [quote, List.length_pos_iff, ne_eq, not_true_eq_false, if_false, true_and]
      rfl
  · rw [List.splitOn_eq_singleton hquote, readParts]
    cases hskip : p.all isSkipped with
    | false =>
      have hnone := valueBehind_stop outSize [] hquote hskip
      rwa [List.append_nil] at hnone
    | true =>
      have hback : p.dropWhile isSkipped = [] :=
        List.dropWhile_eq_nil_iff.mpr (List.all_eq_true.mp hskip)
      rw [valueBehind, hback]
    · simp

theorem strstr_parts (text key : List Byte) :
    ((strstr text (quote :: (key ++ [quote]))).map fun p =>
        (p.drop (key.length + 2)).splitOn quote) =
      behindFirst (key.splitOn quote) (text.splitOn quote).tail := by
  induction text with
  | nil => rfl
  | cons c text ih =>
    by_cases hc : c = quote
    · subst hc
      have hparts : (quote :: text).splitOn quote = [] :: text.splitOn quote :=
        List.splitOn_append_cons_self_of_not_mem List.not_mem_nil text
      rw [hparts, List.tail_cons, strstr]
      by_cases hkey : (quote :: (key ++ [quote])).isPrefixOf (quote :: text) = true
      · rw [if_pos hkey, Option.map_some]
        obtain ⟨back, hback⟩ := List.isPrefixOf_iff_prefix.mp hkey
        rw [List.cons_append, List.append_assoc, List.singleton_append] at hback
        obtain rfl := (List.cons.inj hback).2
        have hdrop : (quote :: (key ++ quote :: back)).drop (key.length + 2) = back := by
          rw [List.drop_succ_cons, ← List.singleton_append, ← List.append_assoc]
          exact List.drop_left' (by simp)
        rw [hdrop, List.splitOn_append_cons_self,
          behindFirst_here _ (List.splitOn_ne_nil quote back)]
      · rw [if_neg hkey, ih]
        obtain ⟨part, parts, heq⟩ := List.exists_cons_of_ne_nil (List.splitOn_ne_nil quote text)
        rw [heq, List.tail_cons]
        symm
        apply behindFirst_later
        intro rest hrest hparts
        rw [← heq] at hparts
        obtain ⟨back, rfl, -⟩ := (splitOn_eq_append_iff hrest).mp hparts
        apply hkey
        rw [List.isPrefixOf_iff_prefix]
        exact ⟨back, by simp⟩
    · have htail : ((c :: text).splitOn quote).tail = (text.splitOn quote).tail := by
        rw [List.splitOn_cons_eq_if_modifyHead, if_neg fun h => hc (beq_iff_eq.mp h)]
        cases text.splitOn quote with
        | nil => rfl
        | cons part parts => rfl
      have hkey : (quote :: (key ++ [quote])).isPrefixOf (c :: text) = false := by
        rw [List.isPrefixOf, beq_eq_false_iff_ne.mpr (Ne.symm hc), Bool.false_and]
      rw [strstr, hkey, if_neg Bool.false_ne_true, ih, htail]

/-- The call on the parts of the text between its quotes. -/
theorem jsonGetString_parts {key : List Byte} (hkey : key.length ≤ 29) (text : List Byte)
    (outSize : Nat) :
    jsonGetString text key outSize =
      (behindFirst (key.splitOn quote) (text.splitOn quote).tail).bind (readParts outSize) := by
  rw [jsonGetString_eq hkey, ← strstr_parts]
  cases strstr text (quote :: (key ++ [quote])) with
  | none => rfl
  | some p => exact valueBehind_parts outSize (p.drop (key.length + 2))

/-! ## What is read at a place -/

/-- What the call reads at a place. -/
def readAt (outSize : Nat) : Place → Option (List Byte)
  | .name m =>
    if m.colon.all isSkipped = true ∧ 2 ≤ outSize then
      m.value.string?.map fun value => value.take (outSize - 1)
    else none
  | .value => none
  | .opening content beyond =>
    if content.all isSkipped = true ∧ 2 ≤ outSize then some (beyond.take (outSize - 1)) else none

/-- A station of these members with the parts behind it. -/
structure Sound (members : List Member) (part : List Byte) (place : Option Place)
    (back : List (List Byte)) : Prop where
  read : ∀ outSize, place.bind (readAt outSize) = readParts outSize back
  last : place = none ↔ back = []
  name : ∀ m, place = some (.name m) → part = m.name.bytes ∧ m ∈ members

/-- Every one of the stations is sound. -/
def AllSound (members : List Member) : List (List Byte × Option Place) → Prop
  | [] => True
  | station :: rest =>
    Sound members station.1 station.2 (rest.map Prod.fst) ∧ AllSound members rest

theorem take_ne_nil {content : List Byte} (h : content ≠ []) (outSize : Nat) :
    content.take (outSize - 1) ≠ [] ↔ 2 ≤ outSize := by
  rw [Ne, List.take_eq_nil_iff]
  constructor
  · intro hnot
    by_contra hsmall
    exact hnot (.inl (by omega))
  · rintro hsize (hzero | hnil)
    · omega
    · exact h hnil

theorem readParts_stop {gap : List Byte} (h : gap.all isSkipped = false) (outSize : Nat)
    (parts : List (List Byte)) : readParts outSize (gap :: parts) = none := by
  cases parts with
  | nil => rfl
  | cons content parts =>
    rw [readParts, if_neg]
    intro hread
    rw [h] at hread
    exact Bool.false_ne_true hread.1

theorem readParts_pair {content : List Byte} (hcontent : content ≠ []) (gap : List Byte)
    (outSize : Nat) (parts : List (List Byte)) :
    readParts outSize (gap :: content :: parts) =
      readAt outSize (.opening gap content) := by
  rw [readParts, readAt]
  simp only [take_ne_nil hcontent]

theorem all_isSkipped_of_mem {part : List Byte} {c : Byte} (hc : c ∈ part)
    (h : isSkipped c = false) : part.all isSkipped = false := by
  rw [List.all_eq_false]
  exact ⟨c, hc, by rw [h]; exact Bool.false_ne_true⟩

theorem toQuote_stops (o : Flat) (members : List Member) (trail : List Blank) :
    (blanks trail ++ toQuote o.closing members).all isSkipped = false := by
  cases members with
  | nil => exact all_isSkipped_of_mem (c := 0x7D) (by simp [toQuote, Flat.closing]) rfl
  | cons m members => exact all_isSkipped_of_mem (c := 0x2C) (by simp [toQuote]) rfl

theorem value_stops {value : Value} (h : ∀ text, value ≠ .string text) :
    value.bytes.all isSkipped = false := by
  cases value with
  | string text => exact absurd rfl (h text)
  | bool b => cases b <;> rfl
  | number n =>
    have hwhole : decimal n.whole ≠ [] := by
      rw [decimal, Ne, List.map_eq_nil_iff]
      exact Nat.toDigits_ne_nil
    obtain ⟨c, hc⟩ := List.exists_mem_of_ne_nil _ hwhole
    have hstops : isSkipped c = false := by
      have hlow := (decimal_digit hc).1
      have hhigh := (decimal_digit hc).2
      rw [isSkipped, Bool.or_eq_false_iff, Bool.or_eq_false_iff, beq_eq_false_iff_ne,
        beq_eq_false_iff_ne, beq_eq_false_iff_ne]
      refine ⟨⟨?_, ?_⟩, ?_⟩ <;> rintro rfl
      · exact absurd hhigh (by decide)
      · exact absurd hlow (by decide)
      · exact absurd hlow (by decide)
    have hmem : c ∈ (Value.number n).bytes := by simp [Value.bytes, Number.bytes, hc]
    exact all_isSkipped_of_mem hmem hstops

theorem beyondName_stops (closing : List Byte) {m : Member} (members : List Member)
    (h : ∀ text, m.value ≠ .string text) :
    (beyondName closing m members).all isSkipped = false := by
  have hbeyond : beyondName closing m members =
      m.colon ++ (m.value.bytes ++ (blanks m.trail ++ toQuote closing members)) := by
    rw [beyondName]
    split
    · rename_i text htext
      exact absurd htext (h text)
    · rfl
  rw [hbeyond, List.all_append, List.all_append, value_stops h, Bool.false_and, Bool.and_false]

theorem opening_sound (all : List Member) (part content : List Byte) {beyond : List Byte}
    (hbeyond : beyond ≠ []) (parts : List (List Byte)) :
    Sound all part (some (.opening content beyond)) (content :: beyond :: parts) := by
  constructor
  · intro outSize
    exact (readParts_pair hbeyond content outSize parts).symm
  · exact iff_of_false (Option.some_ne_none _) (List.cons_ne_nil _ _)
  · intro m h
    cases h

theorem value_sound (all : List Member) (part : List Byte) {beyond : List Byte}
    (hbeyond : beyond.all isSkipped = false) (parts : List (List Byte)) :
    Sound all part (some .value) (beyond :: parts) := by
  constructor
  · intro outSize
    exact (readParts_stop hbeyond outSize parts).symm
  · exact iff_of_false (Option.some_ne_none _) (List.cons_ne_nil _ _)
  · intro m h
    cases h

/-- The station in front of the members. -/
theorem next_sound (all : List Member) (part closing : List Byte) (members : List Member) :
    Sound all part (next closing members) ((stations closing members).map Prod.fst) := by
  cases members with
  | nil =>
    constructor
    · intro outSize
      rfl
    · exact iff_of_true rfl rfl
    · intro m h
      cases h
  | cons m members =>
    obtain ⟨rest, hrest⟩ := stations_cons closing m members
    rw [hrest, next]
    exact opening_sound all part m.name.bytes (beyondName_ne_nil closing m members) rest

theorem name_read (o : Flat) (m : Member) (members : List Member) (outSize : Nat) :
    readAt outSize (.name m) =
      readParts outSize ((stations o.closing (m :: members)).map Prod.fst).tail := by
  by_cases hstring : ∃ text, m.value = .string text
  · obtain ⟨text, htext⟩ := hstring
    have hparts : ∃ rest, ((stations o.closing (m :: members)).map Prod.fst).tail =
        m.colon :: text.bytes :: rest := by
      rw [stations, htext]
      exact ⟨_, rfl⟩
    obtain ⟨rest, hrest⟩ := hparts
    rw [hrest]
    by_cases hempty : text.bytes = []
    · rw [readParts, hempty, List.take_nil, if_neg fun h => h.2 rfl, readAt, htext,
        Value.string?, if_pos hempty]
      split <;> rfl
    · rw [readParts_pair hempty, readAt, htext, Value.string?, if_neg hempty]
      rfl
  · have hother : ∀ text, m.value ≠ .string text := fun text h => hstring ⟨text, h⟩
    have hnone : m.value.string? = none := by
      cases hvalue : m.value with
      | string text => exact absurd hvalue (hother text)
      | number n => rfl
      | bool b => rfl
    obtain ⟨rest, hrest⟩ := stations_cons o.closing m members
    rw [hrest, List.tail_cons, readParts_stop (beyondName_stops o.closing members hother),
      readAt, hnone]
    split <;> rfl

theorem name_sound (o : Flat) {all : List Member} {m : Member} (hm : m ∈ all)
    (members : List Member) :
    Sound all m.name.bytes (some (.name m))
      ((stations o.closing (m :: members)).map Prod.fst).tail := by
  constructor
  · intro outSize
    exact name_read o m members outSize
  · obtain ⟨rest, hparts⟩ := stations_cons o.closing m members
    rw [hparts]
    exact iff_of_false (Option.some_ne_none _) (List.cons_ne_nil _ _)
  · intro m' hm'
    cases hm'
    exact ⟨rfl, hm⟩

theorem stations_sound (o : Flat) {all members : List Member} (h : ∀ m ∈ members, m ∈ all) :
    AllSound all (stations o.closing members) := by
  induction members with
  | nil => exact trivial
  | cons m members ih =>
    have hrest := ih fun m' hm' => h m' (List.mem_cons_of_mem m hm')
    have hname := name_sound o (h m List.mem_cons_self) members
    have hnext (part : List Byte) := next_sound all part o.closing members
    rw [stations] at hname ⊢
    cases hvalue : m.value with
    | number n =>
      rw [hvalue] at hname
      exact ⟨hname, hnext _, hrest⟩
    | bool b =>
      rw [hvalue] at hname
      exact ⟨hname, hnext _, hrest⟩
    | string text =>
      rw [hvalue] at hname
      have hstops := toQuote_stops o members m.trail
      have hbeyond : blanks m.trail ++ toQuote o.closing members ≠ [] := by
        intro hnil
        rw [hnil] at hstops
        cases hstops
      exact ⟨hname, opening_sound all m.colon text.bytes hbeyond _,
        value_sound all text.bytes hstops _, hnext _, hrest⟩

/-! ## The search on the stations -/

/-- What is known of a place reached behind a word. -/
structure Behind (members : List Member) (word rest : List (List Byte)) (place : Place) : Prop where
  read : ∀ outSize, readAt outSize place = readParts outSize rest
  name : ∀ m, place = .name m → m ∈ members ∧ word.getLast? = some m.name.bytes

theorem Sound.behind {members : List Member} {part : List Byte} {place : Place}
    {back : List (List Byte)} (h : Sound members part (some place) back) :
    back ≠ [] ∧ Behind members [part] back place := by
  constructor
  · intro hback
    exact absurd (h.last.mpr hback) (Option.some_ne_none place)
  · constructor
    · intro outSize
      exact h.read outSize
    · rintro m rfl
      obtain ⟨hname, hmem⟩ := h.name m rfl
      rw [hname]
      exact ⟨hmem, rfl⟩

theorem reached_some {members : List Member} {word : List (List Byte)}
    {list : List (List Byte × Option Place)} {place : Place} (hsound : AllSound members list)
    (h : reached word list = some place) :
    ∃ rest, rest ≠ [] ∧ list.map Prod.fst = word ++ rest ∧ Behind members word rest place := by
  induction word generalizing list with
  | nil => cases h
  | cons part word ih =>
    cases list with
    | nil => cases word <;> cases h
    | cons station list =>
      obtain ⟨hstation, hlist⟩ := hsound
      cases word with
      | nil =>
        rw [reached] at h
        split at h
        · rename_i hpart
          rw [h] at hstation
          obtain ⟨hback, hbehind⟩ := hstation.behind
          rw [← hpart] at hbehind
          exact ⟨_, hback, congrArg (· :: _) hpart.symm, hbehind⟩
        · cases h
      | cons next word =>
        rw [reached] at h
        split at h
        · rename_i hpart
          obtain ⟨rest, hrest, hparts, hbehind⟩ := ih hlist h
          refine ⟨rest, hrest, ?_, ?_⟩
          · rw [List.map_cons, hparts, hpart]
            rfl
          · refine ⟨hbehind.read, ?_⟩
            intro m hm
            rw [List.getLast?_cons_cons]
            exact hbehind.name m hm
        · cases h
        · intro hnil
          cases hnil

theorem reached_none {members : List Member} {word : List (List Byte)} (hword : word ≠ [])
    {list : List (List Byte × Option Place)} (hsound : AllSound members list)
    (h : reached word list = none) : ∀ rest, rest ≠ [] → list.map Prod.fst ≠ word ++ rest := by
  induction word generalizing list with
  | nil => exact absurd rfl hword
  | cons part word ih =>
    intro rest hrest hparts
    cases list with
    | nil => cases hparts
    | cons station list =>
      obtain ⟨hstation, hlist⟩ := hsound
      rw [List.map_cons, List.cons_append, List.cons.injEq] at hparts
      obtain ⟨hpart, hparts⟩ := hparts
      cases word with
      | nil =>
        rw [reached, if_pos hpart.symm] at h
        rw [List.nil_append, hstation.last.mp h] at hparts
        exact hrest hparts.symm
      | cons next word =>
        rw [reached, if_pos hpart.symm] at h
        · exact ih (List.cons_ne_nil next word) hlist h rest hrest hparts
        · intro hnil
          cases hnil

theorem firstPlace_cases {members : List Member} {word : List (List Byte)} (hword : word ≠ [])
    {list : List (List Byte × Option Place)} (hsound : AllSound members list) :
    (firstPlace word list = none ∧ behindFirst word (list.map Prod.fst) = none) ∨
      ∃ place rest, firstPlace word list = some place ∧
        behindFirst word (list.map Prod.fst) = some rest ∧ Behind members word rest place := by
  induction list with
  | nil => exact .inl ⟨rfl, rfl⟩
  | cons station list ih =>
    cases hreached : reached word (station :: list) with
    | some place =>
      obtain ⟨rest, hrest, hparts, hbehind⟩ := reached_some hsound hreached
      refine .inr ⟨place, rest, ?_, ?_, hbehind⟩
      · rw [firstPlace, hreached, Option.some_or]
      · rw [hparts, behindFirst_here word hrest]
    | none =>
      have hlater := behindFirst_later (reached_none hword hsound hreached)
      rw [firstPlace, hreached, Option.none_or, List.map_cons, hlater]
      exact ih hsound.2

/-! ## The call on an object -/

theorem place_cases (o : Flat) (key : List Byte) :
    (o.place key = none ∧
        behindFirst (key.splitOn quote) ((stations o.closing o.members).map Prod.fst) = none) ∨
      ∃ place rest, o.place key = some place ∧
        behindFirst (key.splitOn quote) ((stations o.closing o.members).map Prod.fst) = some rest ∧
          Behind o.members (key.splitOn quote) rest place :=
  firstPlace_cases (List.splitOn_ne_nil quote key) (stations_sound o fun _ hm => hm)

theorem jsonGetString_place {key : List Byte} (hkey : key.length ≤ 29) (o : Flat) (outSize : Nat) :
    jsonGetString o.text key outSize = (o.place key).bind (readAt outSize) := by
  rw [jsonGetString_parts hkey, text_parts]
  obtain ⟨hplace, hbehind⟩ | ⟨place, rest, hplace, hbehind, hat⟩ := place_cases o key
  · rw [hplace, hbehind]
    rfl
  · rw [hplace, hbehind]
    exact (hat.read outSize).symm

theorem place_of_mem {o : Flat} {m : Member} (hm : m ∈ o.members) :
    o.place m.name.bytes ≠ none := by
  intro hplace
  obtain ⟨front, rest, hrest, hparts⟩ := stations_name o.closing hm
  obtain ⟨-, hbehind⟩ | ⟨place, rest', hplace', -, -⟩ := place_cases o m.name.bytes
  · rw [hparts, splitOn_name] at hbehind
    exact behindFirst_isSome [m.name.bytes] front hrest hbehind
  · rw [hplace'] at hplace
    cases hplace

theorem string?_of_place_none {o : Flat} {key : List Byte} (h : o.place key = none) :
    o.string? key = none := by
  apply string?_of_not_mem
  rintro m hm rfl
  exact place_of_mem hm h

theorem readAt_name_none_iff (m : Member) (outSize : Nat) :
    readAt outSize (.name m) = none ↔ ¬ Readable m outSize := by
  rw [readAt, Readable]
  split
  · rename_i hreads
    rw [Option.map_eq_none_iff]
    constructor
    · intro hnone hreadable
      exact hreadable.1 hnone
    · intro hnot
      by_contra hstring
      exact hnot ⟨hstring, hreads⟩
  · rename_i hreads
    exact iff_of_true rfl fun hreadable => hreads hreadable.2

theorem readAt_own_iff (m : Member) (outSize : Nat) :
    readAt outSize (.name m) = (m.value.string?.map fun value => value.take (outSize - 1)) ↔
      (m.value.string? ≠ none → Readable m outSize) := by
  by_cases hnone : m.value.string? = none
  · have hread := (readAt_name_none_iff m outSize).mpr fun hreadable => hreadable.1 hnone
    rw [hread, hnone]
    exact iff_of_true rfl fun hstring => absurd rfl hstring
  · by_cases hreadable : Readable m outSize
    · rw [readAt, if_pos hreadable.2]
      exact iff_of_true rfl fun _ => hreadable
    · rw [(readAt_name_none_iff m outSize).mpr hreadable, eq_comm, Option.map_eq_none_iff]
      exact iff_of_false hnone fun h => hreadable (h hnone)

/-- `json_get_string` does what is asked of it where the quoted key stands nowhere, and where it
first stands at the name of the member that is meant, if a string there has only spaces and tabs
around its colon. Anywhere else it does so by accident: the member has no string, or the same
text stands behind. -/
theorem lookup_correct_iff {key : List Byte} (hkey : key.length ≤ 29) (o : Flat) (outSize : Nat) :
    Correct o key outSize ↔ Meets o key outSize (o.place key) := by
  rw [Correct, jsonGetString_place hkey]
  obtain ⟨hplace, -⟩ | ⟨place, rest, hplace, -, hbehind⟩ := place_cases o key
  · rw [hplace, string?_of_place_none hplace, Meets]
    exact iff_of_true rfl trivial
  · rw [hplace, Option.bind_some]
    cases place with
    | value =>
      rw [readAt, Meets, eq_comm, Option.map_eq_none_iff]
    | opening content beyond =>
      rw [readAt, Meets]
      split
      · exact eq_comm
      · rw [eq_comm, Option.map_eq_none_iff]
    | name m =>
      obtain ⟨hm, hlast⟩ := hbehind.name m rfl
      by_cases hname : m.name.bytes = key
      · rw [Meets, if_pos hname, ← hname, string?_of_mem hm]
        exact readAt_own_iff m outSize
      · -- The key has a quote in it, and the members have none of that name.
        have hnone : o.string? key = none := by
          apply string?_of_not_mem
          rintro m' - rfl
          rw [splitOn_name, List.getLast?_singleton, Option.some_inj] at hlast
          exact hname hlast.symm
        rw [Meets, if_neg hname, hnone, Option.map_none]
        exact readAt_name_none_iff m outSize

/-- `{"state":"on"}`. -/
theorem lookup_correct_state :
    Correct ⟨[], [], [⟨[], ⟨ascii "state", rfl⟩, [], [], .string ⟨ascii "on", rfl⟩, []⟩], [],
      List.nodup_singleton _⟩ (ascii "state") 8 :=
  (lookup_correct_iff (by decide) _ 8).mpr (by decide)

/-- `{"a":"state","state":"on"}`: the first `"state"` is a value. -/
theorem lookup_misses_state :
    ¬ ∀ (o : Flat) (key : List Byte) (outSize : Nat), o.text.length ≤ 63 → key.length ≤ 29 →
      Correct o key outSize := by
  intro h
  have hcorrect := h ⟨[], [], [⟨[], ⟨ascii "a", rfl⟩, [], [], .string ⟨ascii "state", rfl⟩, []⟩,
    ⟨[], ⟨ascii "state", rfl⟩, [], [], .string ⟨ascii "on", rfl⟩, []⟩], [],
      of_decide_eq_true rfl⟩ (ascii "state") 8 (by decide) (by decide)
  revert hcorrect
  decide

end Genoh.MemberLookup
