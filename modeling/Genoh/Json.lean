import Genoh.OrderedDict
import Genoh.Strings

/-!
# JSON

Documents, their compact ASCII form as `json.dumps` writes it with the separators "," and ":",
and `json.loads`. A float is kept as the literal that stands for it. Reading fails in one way
only, the JSON decoding error.
-/
namespace Genoh.Json

open Genoh.OrderedDict Genoh.Strings

/-! ## Numbers -/

def isWhitespace (c : Char) : Bool := c == ' ' || c == '\t' || c == '\n' || c == '\r'

def skipWhitespace (s : List Char) : List Char := s.dropWhile isWhitespace

/-- `0|[1-9][0-9]*` at the front: what matches and what is left. -/
def lexWhole : List Char → Option (List Char × List Char)
  | [] => none
  | c :: s =>
    if c = '0' then some (['0'], s)
    else if c.isDigit then some (c :: s.takeWhile Char.isDigit, s.dropWhile Char.isDigit)
    else none

/-- `-?(0|[1-9][0-9]*)` -/
def lexInteger : List Char → Option (List Char × List Char)
  | [] => none
  | c :: s =>
    if c = '-' then (lexWhole s).map fun (digits, rest) => ('-' :: digits, rest)
    else lexWhole (c :: s)

/-- `(\.[0-9]+)?` -/
def lexFraction : List Char → List Char × List Char
  | [] => ([], [])
  | c :: s =>
    if c = '.' ∧ s.takeWhile Char.isDigit ≠ [] then
      ('.' :: s.takeWhile Char.isDigit, s.dropWhile Char.isDigit)
    else ([], c :: s)

/-- `[-+]?` -/
def lexSign : List Char → List Char × List Char
  | [] => ([], [])
  | c :: s => if c = '-' ∨ c = '+' then ([c], s) else ([], c :: s)

/-- `([eE][-+]?[0-9]+)?` -/
def lexExponent : List Char → List Char × List Char
  | [] => ([], [])
  | c :: s =>
    let digits := (lexSign s).2.takeWhile Char.isDigit
    if (c = 'e' ∨ c = 'E') ∧ digits ≠ [] then
      (c :: (lexSign s).1 ++ digits, (lexSign s).2.dropWhile Char.isDigit)
    else ([], c :: s)

/-- What may follow the integer part of a number, and what is left. -/
def lexTail (s : List Char) : List Char × List Char :=
  let fraction := lexFraction s
  let exponent := lexExponent fraction.2
  (fraction.1 ++ exponent.1, exponent.2)

/-- The integer part of a number at the front, what follows of the number, and what is left. -/
def lexNumber (s : List Char) : Option (List Char × List Char × List Char) :=
  (lexInteger s).map fun (integer, rest) => (integer, (lexTail rest).1, (lexTail rest).2)

/-- A number with a fraction or an exponent, alone. -/
def isFloat (s : List Char) : Bool :=
  match lexNumber s with
  | some (_, tail, []) => !tail.isEmpty
  | _ => false

def nonFinite : List (List Char) := ["NaN".toList, "Infinity".toList, "-Infinity".toList]

structure FloatLiteral where
  literal : List Char
  valid : literal ∈ nonFinite ∨ isFloat literal = true

/-! ## Documents -/

/-- The members of an object stand in the order of the dictionary. -/
inductive Value where
  | null
  | bool (value : Bool)
  | int (value : Int)
  | float (value : FloatLiteral)
  | str (value : Str)
  | list (items : List Value)
  | dict (members : List (Str × Value))

/-- `dict(pairs)`: the last of equal keys counts, in the place of the first. -/
def dictOf (pairs : List (Str × Value)) : List (Str × Value) :=
  pairs.foldl (fun members (key, value) => setPairs members key value) []

/-- `d.get(key)` on the members of a dictionary. -/
def get? (members : List (Str × Value)) (key : Str) : Option Value :=
  (members.find? (·.1 = key)).map Prod.snd

/-! ## Writing -/

/-- `ESCAPE_DCT` without the control characters it writes as numbers. -/
def escapeDct : List (CodePoint × Char) := [
  (ofChar '\\', '\\'), (ofChar '"', '"'), (0x08, 'b'), (0x0c, 'f'), (0x0a, 'n'), (0x0d, 'r'),
  (0x09, 't')]

/-- The escape of a 16-bit unit, in lower-case hexadecimal. -/
def escapeUnit (n : Nat) : List Char :=
  ['\\', 'u', Nat.digitChar (n / 4096 % 16), Nat.digitChar (n / 256 % 16),
    Nat.digitChar (n / 16 % 16), Nat.digitChar (n % 16)]

def isHigh (c : CodePoint) : Bool := 0xd800 ≤ c.val && c.val < 0xdc00

def isLow (c : CodePoint) : Bool := 0xdc00 ≤ c.val && c.val < 0xe000

/-- The UTF-16 units of a code point. -/
def units (c : CodePoint) : List CodePoint :=
  if c.val < 0x10000 then [c]
  else [Fin.ofNat _ (0xd800 + (c.val - 0x10000) / 0x400), Fin.ofNat _ (0xdc00 + c.val % 0x400)]

def escape (c : CodePoint) : List Char :=
  match escapeDct.lookup c with
  | some e => ['\\', e]
  | none =>
    if 0x20 ≤ c.val ∧ c.val ≤ 0x7e then [Char.ofNat c.val]
    else (units c).flatMap fun unit => escapeUnit unit.val

def quote (s : Str) : List Char := '"' :: (s.flatMap escape ++ ['"'])

/-- `int.__repr__`. -/
def intRepr (n : Int) : List Char :=
  if n < 0 then '-' :: Nat.toDigits 10 n.natAbs else Nat.toDigits 10 n.natAbs

mutual

/-- `json.dumps(value, separators=(",", ":"))`. -/
def dumps : Value → List Char
  | .null => "null".toList
  | .bool true => "true".toList
  | .bool false => "false".toList
  | .int n => intRepr n
  | .float x => x.literal
  | .str s => quote s
  | .list [] => ['[', ']']
  | .list (item :: items) => '[' :: (dumps item ++ dumpsItems items)
  | .dict [] => ['\x7b', '\x7d']
  | .dict ((key, value) :: members) =>
    '\x7b' :: (quote key ++ ':' :: (dumps value ++ dumpsMembers members))

/-- The rest of an array behind an item. -/
def dumpsItems : List Value → List Char
  | [] => [']']
  | item :: items => ',' :: (dumps item ++ dumpsItems items)

/-- The rest of an object behind a member. -/
def dumpsMembers : List (Str × Value) → List Char
  | [] => ['\x7d']
  | (key, value) :: members => ',' :: (quote key ++ ':' :: (dumps value ++ dumpsMembers members))

end

/-! ## Reading -/

/-- `BACKSLASH`. -/
def backslash : List (Char × CodePoint) := [
  ('"', ofChar '"'), ('\\', ofChar '\\'), ('/', ofChar '/'), ('b', 0x08), ('f', 0x0c), ('n', 0x0a),
  ('r', 0x0d), ('t', 0x09)]

def hexValue (c : Char) : Option Nat :=
  if '0' ≤ c ∧ c ≤ '9' then some (c.toNat - 48)
  else if 'a' ≤ c ∧ c ≤ 'f' then some (c.toNat - 87)
  else if 'A' ≤ c ∧ c ≤ 'F' then some (c.toNat - 55)
  else none

/-- `_decode_uXXXX` on the four digits. -/
def decodeUnit (a b c d : Char) : Option CodePoint := do
  let a ← hexValue a
  let b ← hexValue b
  let c ← hexValue c
  let d ← hexValue d
  return Fin.ofNat _ (4096 * a + 256 * b + 16 * c + d)

/-- A string behind its opening quote, escapes taken one by one, and what is left. -/
def scanUnits : List Char → Option (Str × List Char)
  | [] => none
  | c :: s =>
    if c = '"' then some ([], s)
    else if c = '\\' then
      match s with
      | 'u' :: w :: x :: y :: z :: s =>
        match decodeUnit w x y z with
        | none => none
        | some unit => (scanUnits s).map fun (units, rest) => (unit :: units, rest)
      | e :: s =>
        match backslash.lookup e with
        | none => none
        | some unit => (scanUnits s).map fun (units, rest) => (unit :: units, rest)
      | [] => none
    else if c.val < 0x20 then none
    else (scanUnits s).map fun (units, rest) => (ofChar c :: units, rest)

def combine (high low : CodePoint) : CodePoint :=
  Fin.ofNat _ (0x10000 + (high.val - 0xd800) * 0x400 + (low.val - 0xdc00))

/-- A high surrogate directly before a low one makes one character. Surrogates only come from
escapes here. -/
def joinSurrogates : Str → Str
  | high :: low :: s =>
    if isHigh high && isLow low then combine high low :: joinSurrogates s
    else high :: joinSurrogates (low :: s)
  | s => s

/-- `scanstring`, from behind the opening quote. -/
def scanString (s : List Char) : Option (Str × List Char) :=
  (scanUnits s).map fun (units, rest) => (joinSurrogates units, rest)

/-- `int(integer)`. -/
def intOf : List Char → Int
  | [] => 0
  | c :: s =>
    if c = '-' then -(Nat.ofDigitChars 10 s 0 : Nat) else (Nat.ofDigitChars 10 (c :: s) 0 : Nat)

def scanNumber (s : List Char) : Option (Value × List Char) :=
  match lexNumber s with
  | none => none
  | some (integer, tail, rest) =>
    if tail = [] then some (.int (intOf integer), rest)
    else if valid : isFloat (integer ++ tail) = true then
      some (.float ⟨integer ++ tail, .inr valid⟩, rest)
    else none

/-- What is left behind a word at the front. -/
def dropWord (word s : List Char) : Option (List Char) :=
  if word.isPrefixOf s then some (s.drop word.length) else none

def constants : List (List Char × Value) := [
  ("null".toList, .null), ("true".toList, .bool true), ("false".toList, .bool false),
  ("NaN".toList, .float ⟨"NaN".toList, .inl (by decide)⟩),
  ("Infinity".toList, .float ⟨"Infinity".toList, .inl (by decide)⟩),
  ("-Infinity".toList, .float ⟨"-Infinity".toList, .inl (by decide)⟩)]

def scanAtom (s : List Char) : Option (Value × List Char) :=
  match constants.findSome? fun (word, value) => (dropWord word s).map fun rest => (value, rest) with
  | some result => some result
  | none => scanNumber s

/-- The rest behind an expected character. -/
def expect (c : Char) : List Char → Option (List Char)
  | [] => none
  | d :: s => if d = c then some s else none

mutual

/-- `scan_once`. Every call reads a character, so that fuel beyond the length changes nothing. -/
def scanOnce : Nat → List Char → Option (Value × List Char)
  | 0, _ => none
  | _, [] => none
  | fuel + 1, c :: s =>
    if c = '"' then (scanString s).map fun (value, rest) => (.str value, rest)
    else if c = '\x7b' then
      match expect '\x7d' (skipWhitespace s) with
      | some rest => some (.dict [], rest)
      | none => (scanMembers fuel (skipWhitespace s)).map fun (pairs, rest) =>
          (.dict (dictOf pairs), rest)
    else if c = '[' then
      match expect ']' (skipWhitespace s) with
      | some rest => some (.list [], rest)
      | none => (scanItems fuel (skipWhitespace s)).map fun (items, rest) => (.list items, rest)
    else scanAtom (c :: s)

/-- The items of an array up to its end, and what is left. -/
def scanItems : Nat → List Char → Option (List Value × List Char)
  | 0, _ => none
  | fuel + 1, s => do
    let (item, rest) ← scanOnce fuel s
    match expect ']' (skipWhitespace rest) with
    | some rest => return ([item], rest)
    | none =>
      let rest ← expect ',' (skipWhitespace rest)
      let (items, rest) ← scanItems fuel (skipWhitespace rest)
      return (item :: items, rest)

/-- The members of an object up to its end, from the quote of the first key. -/
def scanMembers : Nat → List Char → Option (List (Str × Value) × List Char)
  | 0, _ => none
  | fuel + 1, s => do
    let (key, rest) ← scanString (← expect '"' s)
    let rest ← expect ':' (skipWhitespace rest)
    let (value, rest) ← scanOnce fuel (skipWhitespace rest)
    match expect '\x7d' (skipWhitespace rest) with
    | some rest => return ([(key, value)], rest)
    | none =>
      let rest ← expect ',' (skipWhitespace rest)
      let (members, rest) ← scanMembers fuel (skipWhitespace rest)
      return ((key, value) :: members, rest)

end

/-- `json.loads` on a text; none where it raises the decoding error. -/
def loads (s : List Char) : Option Value :=
  match scanOnce (s.length + 1) (skipWhitespace s) with
  | none => none
  | some (value, rest) => if skipWhitespace rest = [] then some value else none

end Genoh.Json
