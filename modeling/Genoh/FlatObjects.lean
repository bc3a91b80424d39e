import Genoh.FirmwareKey
import Genoh.Separators
import Mathlib.Data.List.Nodup

/-!
# Flat JSON objects

The texts of JSON objects with strings, numbers and truth values for their members, as bytes with
any white space, and the parts of such a text between its quotes.
-/
namespace Genoh.FlatObjects

open Genoh.Bytes Genoh.FirmwareKey Genoh.Separators

/-! ## Flat objects -/

def quote : Byte := 0x22

/-- White space of JSON. -/
inductive Blank where
  | space | tab | lineFeed | carriageReturn
  deriving DecidableEq, Repr

def Blank.byte : Blank → Byte
  | .space => 0x20
  | .tab => 0x09
  | .lineFeed => 0x0A
  | .carriageReturn => 0x0D

def blanks (l : List Blank) : List Byte := l.map Blank.byte

/-- A character that stands for itself in a string. -/
def isPlain (c : Byte) : Bool := 0x20 ≤ c && c != 0x22 && c != 0x5C

/-- A string without escapes. -/
structure Text where
  bytes : List Byte
  plain : bytes.all isPlain = true
  deriving DecidableEq

def digit (d : Fin 10) : Byte := 0x30 + BitVec.ofNat 8 d.val

structure Exponent where
  upper : Bool
  /-- `+` for false, `-` for true. -/
  sign : Option Bool
  first : Fin 10
  digits : List (Fin 10)
  deriving DecidableEq

structure Number where
  negative : Bool
  whole : Nat
  /-- The digits behind the point; without a point where there are none. -/
  fraction : List (Fin 10)
  exponent : Option Exponent
  deriving DecidableEq

def Exponent.bytes (e : Exponent) : List Byte :=
  (if e.upper then 0x45 else 0x65) :: ((match e.sign with
    | none => []
    | some negative => [if negative then 0x2D else 0x2B]) ++ digit e.first :: e.digits.map digit)

def Number.bytes (n : Number) : List Byte :=
  (if n.negative then [0x2D] else []) ++ decimal n.whole ++
    (if n.fraction = [] then [] else 0x2E :: n.fraction.map digit) ++
      (match n.exponent with
        | none => []
        | some e => e.bytes)

inductive Value where
  | string (text : Text)
  | number (n : Number)
  | bool (b : Bool)
  deriving DecidableEq

def Value.bytes : Value → List Byte
  | .string text => quote :: (text.bytes ++ [quote])
  | .number n => n.bytes
  | .bool b => ascii (if b then "true" else "false")

/-- A member with the white space before and behind each of its tokens. -/
structure Member where
  lead : List Blank
  name : Text
  gap : List Blank
  lag : List Blank
  value : Value
  trail : List Blank
  deriving DecidableEq

/-- What stands between the name and the value. -/
def Member.colon (m : Member) : List Byte := blanks m.gap ++ 0x3A :: blanks m.lag

def Member.bytes (m : Member) : List Byte :=
  blanks m.lead ++ quote :: (m.name.bytes ++ quote ::
    (m.colon ++ (m.value.bytes ++ blanks m.trail)))

/-- A flat object; `inside` is the white space of one without members. -/
structure Flat where
  before : List Blank
  inside : List Blank
  members : List Member
  after : List Blank
  distinct : (members.map fun m => m.name).Nodup

/-- From the closing brace on. -/
def Flat.closing (o : Flat) : List Byte := 0x7D :: blanks o.after

/-- The members that follow another one, and what stands behind the last. -/
def following (closing : List Byte) (members : List Member) : List Byte :=
  members.flatMap (fun m => 0x2C :: m.bytes) ++ closing

def Flat.text (o : Flat) : List Byte :=
  blanks o.before ++ 0x7B :: (match o.members with
    | [] => blanks o.inside ++ o.closing
    | m :: members => m.bytes ++ following o.closing members)

/-! ## Members -/

/-- A string that is not empty. -/
def Value.string? : Value → Option (List Byte)
  | .string text => if text.bytes = [] then none else some text.bytes
  | _ => none

/-- The string of the member with this name, if it has one that is not empty. -/
def Flat.string? (o : Flat) (key : List Byte) : Option (List Byte) :=
  (o.members.find? fun m => m.name.bytes = key).bind fun m => m.value.string?

theorem text_eq {text text' : Text} (h : text.bytes = text'.bytes) : text = text' := by
  cases text
  cases text'
  cases h
  rfl

theorem string?_of_mem {o : Flat} {m : Member} (hm : m ∈ o.members) :
    o.string? m.name.bytes = m.value.string? := by
  have hfind : o.members.find? (fun m' => m'.name.bytes = m.name.bytes) = some m := by
    cases hfound : o.members.find? (fun m' => m'.name.bytes = m.name.bytes) with
    | none =>
      have hnot := List.find?_eq_none.mp hfound m hm
      exact absurd (decide_eq_true rfl) hnot
    | some m' =>
      have hname := List.find?_some hfound
      rw [decide_eq_true_iff] at hname
      have hsame := List.inj_on_of_nodup_map o.distinct (List.mem_of_find?_eq_some hfound) hm
        (text_eq hname)
      rw [hsame]
  rw [Flat.string?, hfind]
  rfl

theorem string?_of_not_mem {o : Flat} {key : List Byte}
    (h : ∀ m ∈ o.members, m.name.bytes ≠ key) : o.string? key = none := by
  have hfind : o.members.find? (fun m => m.name.bytes = key) = none := by
    rw [List.find?_eq_none]
    intro m hm hname
    exact h m hm (of_decide_eq_true hname)
  rw [Flat.string?, hfind]
  rfl

/-! ## Where the quoted key stands -/

/-- What the search has reached with a quote: the end of a name, the end of a string value, or the
front of a string, with what stands in it and from its other quote to the next one or the end. -/
inductive Place where
  | name (m : Member)
  | value
  | opening (content beyond : List Byte)
  deriving DecidableEq

/-- From the value of a member, or the brace, to the next quote or the end. -/
def toQuote (closing : List Byte) : List Member → List Byte
  | [] => closing
  | m :: _ => 0x2C :: blanks m.lead

/-- From the name of a member to the next quote or the end. -/
def beyondName (closing : List Byte) (m : Member) (members : List Member) : List Byte :=
  match m.value with
  | .string _ => m.colon
  | value => m.colon ++ (value.bytes ++ (blanks m.trail ++ toQuote closing members))

/-- The place at the quote in front of the next member. -/
def next (closing : List Byte) : List Member → Option Place
  | [] => none
  | m :: members => some (.opening m.name.bytes (beyondName closing m members))

/-- The parts of the text between its quotes from the first name on, each with the place at the
quote behind it. -/
def stations (closing : List Byte) : List Member → List (List Byte × Option Place)
  | [] => []
  | m :: members =>
    (m.name.bytes, some (.name m)) :: ((match m.value with
      | .string text =>
        let beyond := blanks m.trail ++ toQuote closing members
        [(m.colon, some (.opening text.bytes beyond)), (text.bytes, some .value),
          (beyond, next closing members)]
      | _ => [(beyondName closing m members, next closing members)]) ++ stations closing members)

/-- The place behind the last of the parts of a word that stand at the front. -/
def reached : List (List Byte) → List (List Byte × Option Place) → Option Place
  | [], _ => none
  | _, [] => none
  | [part], station :: _ => if part = station.1 then station.2 else none
  | part :: word, station :: rest => if part = station.1 then reached word rest else none

/-- The place behind the first occurrence of a word in quotes. -/
def firstPlace (word : List (List Byte)) : List (List Byte × Option Place) → Option Place
  | [] => none
  | station :: rest => (reached word (station :: rest)).or (firstPlace word rest)

/-- The place behind the first occurrence of the quoted key. -/
def Flat.place (o : Flat) (key : List Byte) : Option Place :=
  firstPlace (key.splitOn quote) (stations o.closing o.members)

/-! ## The parts of the text of an object -/

theorem quote_not_mem_blanks (l : List Blank) : quote ∉ blanks l := by
  rw [blanks, List.mem_map]
  rintro ⟨b, -, hb⟩
  cases b <;> cases hb

theorem quote_not_mem_text (text : Text) : quote ∉ text.bytes := fun h =>
  absurd (List.all_eq_true.mp text.plain quote h) (by decide)

theorem decimal_digit {n : Nat} {c : Byte} (h : c ∈ decimal n) : 0x30 ≤ c ∧ c ≤ 0x39 := by
  rw [decimal, List.mem_map] at h
  obtain ⟨d, hd, rfl⟩ := h
  obtain ⟨hlow, hhigh⟩ := Char.isDigit_iff_toNat.mp
    (Nat.isDigit_of_mem_toDigits (by decide) (by decide) hd)
  have hlow' : 48 ≤ d.toNat := hlow
  have hhigh' : d.toNat ≤ 57 := hhigh
  have hvalue : (BitVec.ofNat 8 d.toNat).toNat = d.toNat := by
    rw [BitVec.toNat_ofNat]
    omega
  constructor
  · rw [BitVec.le_def, hvalue]
    exact hlow'
  · rw [BitVec.le_def, hvalue]
    exact hhigh'

theorem digit_ne_quote : ∀ d, quote ≠ digit d := by decide

theorem quote_not_mem_digits (l : List (Fin 10)) : quote ∉ l.map digit := by
  rw [List.mem_map]
  rintro ⟨d, -, hd⟩
  exact digit_ne_quote d hd.symm

theorem quote_not_mem_exponent (e : Exponent) : quote ∉ e.bytes := by
  rw [Exponent.bytes, List.mem_cons, List.mem_append, List.mem_cons]
  rintro (hletter | hsign | hfirst | hdigits)
  · split at hletter <;> cases hletter
  · split at hsign
    · exact List.not_mem_nil hsign
    · rw [List.mem_singleton] at hsign
      split at hsign <;> cases hsign
  · exact digit_ne_quote e.first hfirst
  · exact quote_not_mem_digits e.digits hdigits

theorem quote_not_mem_number (n : Number) : quote ∉ n.bytes := by
  rw [Number.bytes, List.mem_append, List.mem_append, List.mem_append]
  rintro (((hsign | hwhole) | hfraction) | hexponent)
  · split at hsign
    · cases List.mem_singleton.mp hsign
    · exact List.not_mem_nil hsign
  · exact absurd (decimal_digit hwhole).1 (by decide)
  · split at hfraction
    · exact List.not_mem_nil hfraction
    · obtain hpoint | hdigits := List.mem_cons.mp hfraction
      · cases hpoint
      · exact quote_not_mem_digits n.fraction hdigits
  · split at hexponent
    · exact List.not_mem_nil hexponent
    · exact quote_not_mem_exponent _ hexponent

theorem quote_not_mem_colon (m : Member) : quote ∉ m.colon := by
  rw [Member.colon, List.mem_append, List.mem_cons]
  rintro (hgap | hcolon | hlag)
  · exact quote_not_mem_blanks m.gap hgap
  · cases hcolon
  · exact quote_not_mem_blanks m.lag hlag

theorem quote_not_mem_bool (b : Bool) : quote ∉ ascii (if b then "true" else "false") := by
  cases b <;> decide

/-- From any text without quotes on, the parts go on with those of the members. -/
theorem member_parts {closing : List Byte} {members : List Member}
    (ih : ∀ front : List Byte, quote ∉ front →
      (front ++ following closing members).splitOn quote =
        (front ++ toQuote closing members) :: (stations closing members).map Prod.fst)
    (m : Member) {front : List Byte} (hfront : quote ∉ front) :
    (front ++ (m.bytes ++ following closing members)).splitOn quote =
      (front ++ blanks m.lead) :: (stations closing (m :: members)).map Prod.fst := by
  have hlead : quote ∉ front ++ blanks m.lead := by
    rw [List.mem_append]
    exact not_or.mpr ⟨hfront, quote_not_mem_blanks m.lead⟩
  have htext : front ++ (m.bytes ++ following closing members) =
      (front ++ blanks m.lead) ++ quote :: (m.name.bytes ++ quote ::
        (m.colon ++ (m.value.bytes ++ (blanks m.trail ++ following closing members)))) := by
    simp [Member.bytes]
  have hother (bytes : List Byte) (hbytes : quote ∉ bytes) :
      (m.colon ++ (bytes ++ (blanks m.trail ++ following closing members))).splitOn quote =
        (m.colon ++ (bytes ++ (blanks m.trail ++ toQuote closing members))) ::
          (stations closing members).map Prod.fst := by
    have hgoes : quote ∉ m.colon ++ (bytes ++ blanks m.trail) := by
      rw [List.mem_append, List.mem_append]
      rintro (hcolon | hbytes' | htrail)
      · exact quote_not_mem_colon m hcolon
      · exact hbytes hbytes'
      · exact quote_not_mem_blanks m.trail htrail
    have hparts := ih _ hgoes
    rwa [List.append_assoc, List.append_assoc, List.append_assoc, List.append_assoc] at hparts
  rw [htext, List.splitOn_append_cons_self_of_not_mem hlead,
    List.splitOn_append_cons_self_of_not_mem (quote_not_mem_text m.name), stations]
  cases hvalue : m.value with
  | string text =>
    have hstring : m.colon ++ ((Value.string text).bytes ++
        (blanks m.trail ++ following closing members)) =
        m.colon ++ quote :: (text.bytes ++ quote ::
          (blanks m.trail ++ following closing members)) := by
      simp [Value.bytes]
    rw [hstring, List.splitOn_append_cons_self_of_not_mem (quote_not_mem_colon m),
      List.splitOn_append_cons_self_of_not_mem (quote_not_mem_text text),
      ih (blanks m.trail) (quote_not_mem_blanks m.trail)]
    rfl
  | number n =>
    have hbeyond : beyondName closing m members =
        m.colon ++ (n.bytes ++ (blanks m.trail ++ toQuote closing members)) := by
      rw [beyondName, hvalue]
      rfl
    rw [hbeyond]
    exact congrArg (_ :: _ :: ·) (hother n.bytes (quote_not_mem_number n))
  | bool b =>
    have hbeyond : beyondName closing m members =
        m.colon ++ ((Value.bool b).bytes ++ (blanks m.trail ++ toQuote closing members)) := by
      rw [beyondName, hvalue]
    rw [hbeyond]
    exact congrArg (_ :: _ :: ·) (hother _ (quote_not_mem_bool b))

theorem following_parts {closing : List Byte} (hclosing : quote ∉ closing) (members : List Member)
    {front : List Byte} (hfront : quote ∉ front) :
    (front ++ following closing members).splitOn quote =
      (front ++ toQuote closing members) :: (stations closing members).map Prod.fst := by
  induction members generalizing front with
  | nil =>
    have hall : quote ∉ front ++ closing := by
      rw [List.mem_append]
      exact not_or.mpr ⟨hfront, hclosing⟩
    exact List.splitOn_eq_singleton hall
  | cons m members ih =>
    have hcomma : quote ∉ front ++ [0x2C] := by
      rw [List.mem_append, List.mem_singleton]
      rintro (hfront' | hcomma)
      · exact hfront hfront'
      · cases hcomma
    have hparts := member_parts (fun _ => ih) m hcomma
    have htext : front ++ following closing (m :: members) =
        (front ++ [0x2C]) ++ (m.bytes ++ following closing members) := by
      simp [following]
    rw [htext, hparts]
    simp [toQuote]

theorem text_parts (o : Flat) :
    (o.text.splitOn quote).tail = (stations o.closing o.members).map Prod.fst := by
  have hclosing : quote ∉ o.closing := by
    rw [Flat.closing, List.mem_cons]
    rintro (hbrace | hafter)
    · cases hbrace
    · exact quote_not_mem_blanks o.after hafter
  have hopening : quote ∉ blanks o.before ++ [0x7B] := by
    rw [List.mem_append, List.mem_singleton]
    rintro (hbefore | hbrace)
    · exact quote_not_mem_blanks o.before hbefore
    · cases hbrace
  rw [Flat.text]
  cases o.members with
  | nil =>
    have hall : quote ∉ blanks o.before ++ 0x7B :: (blanks o.inside ++ o.closing) := by
      rw [List.mem_append, List.mem_cons, List.mem_append]
      rintro (hbefore | hbrace | hinside | hback)
      · exact quote_not_mem_blanks o.before hbefore
      · cases hbrace
      · exact quote_not_mem_blanks o.inside hinside
      · exact hclosing hback
    change ((blanks o.before ++ 0x7B :: (blanks o.inside ++ o.closing)).splitOn quote).tail = []
    rw [List.splitOn_eq_singleton hall]
    rfl
  | cons m members =>
    have hparts := member_parts (fun _ => following_parts hclosing members) m hopening
    rw [List.append_assoc, List.singleton_append] at hparts
    exact congrArg List.tail hparts

theorem beyondName_ne_nil (closing : List Byte) (m : Member) (members : List Member) :
    beyondName closing m members ≠ [] := by
  rw [beyondName, Member.colon]
  split <;> simp

theorem stations_cons (closing : List Byte) (m : Member) (members : List Member) :
    ∃ rest, (stations closing (m :: members)).map Prod.fst =
      m.name.bytes :: beyondName closing m members :: rest := by
  rw [stations, beyondName]
  cases m.value with
  | string text => exact ⟨_, rfl⟩
  | number n => exact ⟨_, rfl⟩
  | bool b => exact ⟨_, rfl⟩

theorem stations_name (closing : List Byte) {m : Member} {members : List Member}
    (h : m ∈ members) : ∃ front rest, rest ≠ [] ∧
      (stations closing members).map Prod.fst = front ++ ([m.name.bytes] ++ rest) := by
  induction members with
  | nil => cases h
  | cons first members ih =>
    obtain rfl | h := List.mem_cons.mp h
    · obtain ⟨rest, hrest⟩ := stations_cons closing m members
      exact ⟨[], _, List.cons_ne_nil _ rest, hrest⟩
    · obtain ⟨front, rest, hrest, hparts⟩ := ih h
      rw [stations, List.map_cons, List.map_append, hparts, ← List.append_assoc, ← List.cons_append]
      exact ⟨_, rest, hrest, rfl⟩

/-- The name of a member is a word of one part. -/
theorem splitOn_name (m : Member) : m.name.bytes.splitOn quote = [m.name.bytes] :=
  List.splitOn_eq_singleton (quote_not_mem_text m.name)

end Genoh.FlatObjects
