import Genoh.JsonTokens

/-!
# JSON round trip

What is written is read back, but for what reading normalises: surrogate pairs are joined, and of
equal keys the last counts. What has been read is written and read back as it is, so that the
written form determines it.
-/
namespace Genoh.Json

open Genoh.OrderedDict Genoh.Strings

mutual

/-- The document that is read where this one was written. -/
def reread : Value → Value
  | .null => .null
  | .bool b => .bool b
  | .int n => .int n
  | .float x => .float x
  | .str s => .str (joinSurrogates s)
  | .list items => .list (rereadItems items)
  | .dict members => .dict (dictOf (rereadMembers members))

def rereadItems : List Value → List Value
  | [] => []
  | item :: items => reread item :: rereadItems items

def rereadMembers : List (Str × Value) → List (Str × Value)
  | [] => []
  | (key, value) :: members => (joinSurrogates key, reread value) :: rereadMembers members

end

/-! ## Steps of the scanner -/

theorem skipWhitespace_of_not {c : Char} (h : isWhitespace c = false) (s : List Char) :
    skipWhitespace (c :: s) = c :: s := by
  rw [skipWhitespace, List.dropWhile_cons_of_neg (by simp [h])]

@[simp] theorem expect_self (c : Char) (s : List Char) : expect c (c :: s) = some s := by
  rw [expect, if_pos rfl]

theorem expect_other {c d : Char} (h : d ≠ c) (s : List Char) : expect c (d :: s) = none := by
  rw [expect, if_neg h]

theorem expect_eq_some {c : Char} {s rest : List Char} (h : expect c s = some rest) :
    s = c :: rest := by
  cases s with
  | nil => exact absurd h (by simp [expect])
  | cons d s =>
    rw [expect] at h
    split at h
    · rename_i hd
      rw [hd, Option.some.inj h]
    · exact absurd h (by simp)

theorem scanOnce_string (fuel : Nat) (s : List Char) : scanOnce (fuel + 1) ('"' :: s) =
    (scanString s).map fun (value, rest) => (.str value, rest) := by
  rw [scanOnce, if_pos rfl]

theorem scanOnce_object (fuel : Nat) (s : List Char) : scanOnce (fuel + 1) ('\x7b' :: s) =
    match expect '\x7d' (skipWhitespace s) with
    | some rest => some (.dict [], rest)
    | none => (scanMembers fuel (skipWhitespace s)).map fun (pairs, rest) =>
        (.dict (dictOf pairs), rest) := by
  rw [scanOnce]
  exact (if_neg (by decide)).trans (if_pos rfl)

theorem scanOnce_array (fuel : Nat) (s : List Char) : scanOnce (fuel + 1) ('[' :: s) =
    match expect ']' (skipWhitespace s) with
    | some rest => some (.list [], rest)
    | none => (scanItems fuel (skipWhitespace s)).map fun (items, rest) => (.list items, rest) := by
  rw [scanOnce, if_neg (by decide)]
  exact (if_neg (by decide)).trans (if_pos rfl)

theorem scanOnce_atom (fuel : Nat) {c : Char} (s : List Char) (hquote : c ≠ '"') (hbrace : c ≠ '\x7b')
    (hbracket : c ≠ '[') : scanOnce (fuel + 1) (c :: s) = scanAtom (c :: s) := by
  rw [scanOnce, if_neg hquote, if_neg hbrace, if_neg hbracket]

/-! ## Reading what was written -/

/-- The first character of a number or a constant: no white space, quote or bracket. -/
def AtomHead (c : Char) : Prop :=
  isWhitespace c = false ∧ c ≠ '"' ∧ c ≠ '\x7b' ∧ c ≠ '[' ∧ c ≠ ']'

instance (c : Char) : Decidable (AtomHead c) := by
  unfold AtomHead
  infer_instance

theorem lexInteger_atomHead {s : List Char} (h : lexInteger s ≠ none) :
    ∃ c s', s = c :: s' ∧ AtomHead c := by
  obtain ⟨c, s', rfl, hhead⟩ := lexInteger_head h
  have hc : ∀ d, d.isDigit = false → d ≠ '-' → c ≠ d := by
    rintro d hd hminus rfl
    rcases hhead with hdigit | ⟨heq, -⟩
    · rw [hd] at hdigit
      exact Bool.false_ne_true hdigit
    · exact hminus heq
  refine ⟨c, s', rfl, ?_, hc _ (by decide) (by decide), hc _ (by decide) (by decide),
    hc _ (by decide) (by decide), hc _ (by decide) (by decide)⟩
  simp only [isWhitespace, Bool.or_eq_false_iff, beq_eq_false_iff_ne]
  exact ⟨⟨⟨hc _ (by decide) (by decide), hc _ (by decide) (by decide)⟩, hc _ (by decide) (by decide)⟩,
    hc _ (by decide) (by decide)⟩

theorem intRepr_atomHead (n : Int) : ∃ c s, intRepr n = c :: s ∧ AtomHead c := by
  refine lexInteger_atomHead ?_
  rw [lexInteger_intRepr]
  exact Option.some_ne_none _

theorem float_atomHead (x : FloatLiteral) : ∃ c s, x.literal = c :: s ∧ AtomHead c := by
  obtain ⟨literal, hconstant | hfloat⟩ := x
  · simp only [nonFinite, List.mem_cons, List.not_mem_nil, or_false] at hconstant
    rcases hconstant with rfl | rfl | rfl
    · exact ⟨'N', _, rfl, by decide⟩
    · exact ⟨'I', _, rfl, by decide⟩
    · exact ⟨'-', _, rfl, by decide⟩
  · refine lexInteger_atomHead fun hnone => ?_
    rw [isFloat, lexNumber, hnone, Option.map_none] at hfloat
    exact Bool.false_ne_true hfloat

/-- A value begins with a character that is neither white space nor the end of a list. -/
theorem dumps_head (v : Value) : ∃ c s, dumps v = c :: s ∧ isWhitespace c = false ∧ c ≠ ']' := by
  have hatom : ∀ {text : List Char}, (∃ c s, text = c :: s ∧ AtomHead c) →
      ∃ c s, text = c :: s ∧ isWhitespace c = false ∧ c ≠ ']' := by
    rintro text ⟨c, s, heq, hspace, -, -, -, hend⟩
    exact ⟨c, s, heq, hspace, hend⟩
  cases v with
  | null => exact hatom ⟨'n', _, rfl, by decide⟩
  | bool b =>
    cases b with
    | true => exact hatom ⟨'t', _, rfl, by decide⟩
    | false => exact hatom ⟨'f', _, rfl, by decide⟩
  | int n => exact hatom (intRepr_atomHead n)
  | float x => exact hatom (float_atomHead x)
  | str s => exact ⟨'"', _, rfl, by decide, by decide⟩
  | list items => cases items <;> exact ⟨'[', _, rfl, by decide, by decide⟩
  | dict members => cases members <;> exact ⟨'\x7b', _, rfl, by decide, by decide⟩

theorem skipWhitespace_dumps (v : Value) (rest : List Char) :
    skipWhitespace (dumps v ++ rest) = dumps v ++ rest := by
  obtain ⟨c, s, heq, hspace, -⟩ := dumps_head v
  rw [heq, List.cons_append, skipWhitespace_of_not hspace]

theorem dumps_pos (v : Value) : 0 < (dumps v).length := by
  obtain ⟨c, s, heq, -, -⟩ := dumps_head v
  rw [heq, List.length_cons]
  exact Nat.succ_pos _

/-- An atom is scanned by `scanAtom`. -/
theorem scanOnce_of_scanAtom {text rest : List Char} {v : Value} {fuel : Nat}
    (hfuel : text.length ≤ fuel) (hhead : ∃ c s, text = c :: s ∧ AtomHead c)
    (h : scanAtom (text ++ rest) = some (v, rest)) : scanOnce fuel (text ++ rest) = some (v, rest) := by
  obtain ⟨c, s, rfl, -, hquote, hbrace, hbracket, -⟩ := hhead
  cases fuel with
  | zero => exact absurd hfuel (by simp)
  | succ fuel =>
    rw [List.cons_append, scanOnce_atom fuel _ hquote hbrace hbracket, ← List.cons_append, h]

theorem scanAtom_intRepr (n : Int) (rest : List Char) (h : HeadNot Continues rest) :
    scanAtom (intRepr n ++ rest) = some (.int n, rest) := by
  have hscan := scanNumber_intRepr n rest h
  rw [scanAtom_number, hscan]
  intro hnone
  rw [scanNumber, lexNumber, hnone] at hscan
  exact absurd hscan (by simp)

theorem headNot_items (items : List Value) (rest : List Char) :
    HeadNot Continues (dumpsItems items ++ rest) := by
  cases items with
  | nil =>
    rw [dumpsItems, List.singleton_append, headNot_cons]
    unfold Continues
    decide
  | cons item items =>
    rw [dumpsItems, List.cons_append, headNot_cons]
    unfold Continues
    decide

theorem headNot_members (members : List (Str × Value)) (rest : List Char) :
    HeadNot Continues (dumpsMembers members ++ rest) := by
  cases members with
  | nil =>
    rw [dumpsMembers, List.singleton_append, headNot_cons]
    unfold Continues
    decide
  | cons member members =>
    rw [dumpsMembers, List.cons_append, headNot_cons]
    unfold Continues
    decide

mutual

theorem scanOnce_dumps : ∀ (v : Value) (rest : List Char) (fuel : Nat), (dumps v).length ≤ fuel →
    HeadNot Continues rest → scanOnce fuel (dumps v ++ rest) = some (reread v, rest)
  | .null, rest, fuel, hfuel, h =>
    scanOnce_of_scanAtom hfuel ⟨'n', _, rfl, by decide⟩ rfl
  | .bool true, rest, fuel, hfuel, h =>
    scanOnce_of_scanAtom hfuel ⟨'t', _, rfl, by decide⟩ rfl
  | .bool false, rest, fuel, hfuel, h =>
    scanOnce_of_scanAtom hfuel ⟨'f', _, rfl, by decide⟩ rfl
  | .int n, rest, fuel, hfuel, h =>
    scanOnce_of_scanAtom hfuel (intRepr_atomHead n) (scanAtom_intRepr n rest h)
  | .float x, rest, fuel, hfuel, h =>
    scanOnce_of_scanAtom hfuel (float_atomHead x) (scanAtom_float x rest h)
  | .str s, rest, fuel, hfuel, h => by
    cases fuel with
    | zero => exact absurd hfuel (Nat.not_le.mpr (dumps_pos _))
    | succ fuel =>
      rw [dumps, quote, List.cons_append, scanOnce_string, List.append_assoc, List.singleton_append,
        scanString_quote]
      rfl
  | .list [], rest, fuel, hfuel, h => by
    cases fuel with
    | zero => exact absurd hfuel (Nat.not_le.mpr (dumps_pos _))
    | succ fuel =>
      rw [dumps, List.cons_append, scanOnce_array, List.singleton_append,
        skipWhitespace_of_not (by decide), expect_self]
      rfl
  | .list (item :: items), rest, fuel, hfuel, h => by
    have hitems := scanItems_dumps (item :: items) (List.cons_ne_nil _ _) rest
    cases fuel with
    | zero => exact absurd hfuel (Nat.not_le.mpr (dumps_pos _))
    | succ fuel =>
      have hend : expect ']' (dumps item ++ (dumpsItems items ++ rest)) = none := by
        obtain ⟨c, s, heq, -, hc⟩ := dumps_head item
        rw [heq, List.cons_append, expect_other hc]
      rw [dumps, List.cons_append, scanOnce_array, List.append_assoc, skipWhitespace_dumps, hend]
      have hscan := hitems fuel hfuel
      rw [dumpsItems, List.tail_cons, List.append_assoc] at hscan
      simp only [hscan, Option.map_some, reread]
  | .dict [], rest, fuel, hfuel, h => by
    cases fuel with
    | zero => exact absurd hfuel (Nat.not_le.mpr (dumps_pos _))
    | succ fuel =>
      rw [dumps, List.cons_append, scanOnce_object, List.singleton_append,
        skipWhitespace_of_not (by decide), expect_self]
      rfl
  | .dict ((key, value) :: members), rest, fuel, hfuel, h => by
    have hmembers := scanMembers_dumps ((key, value) :: members) (List.cons_ne_nil _ _) rest
    cases fuel with
    | zero => exact absurd hfuel (Nat.not_le.mpr (dumps_pos _))
    | succ fuel =>
      rw [dumps, List.cons_append, scanOnce_object, quote, List.cons_append, List.cons_append,
        skipWhitespace_of_not (by decide), expect_other (by decide)]
      have hscan := hmembers fuel hfuel
      rw [dumpsMembers, List.tail_cons, quote, List.cons_append, List.cons_append] at hscan
      simp only [hscan, Option.map_some, reread]

theorem scanItems_dumps : ∀ (items : List Value), items ≠ [] → ∀ (rest : List Char) (fuel : Nat),
    (dumpsItems items).length ≤ fuel + 1 →
      scanItems fuel ((dumpsItems items).tail ++ rest) = some (rereadItems items, rest)
  | [], hne, _, _, _ => absurd rfl hne
  | item :: items, _, rest, fuel, hfuel => by
    have hitem := scanOnce_dumps item (dumpsItems items ++ rest)
    have hitems := scanItems_dumps items
    rw [dumpsItems, List.length_cons, List.length_append] at hfuel
    have hpos := dumps_pos item
    have hpos' : 0 < (dumpsItems items).length := by cases items <;> simp [dumpsItems]
    cases fuel with
    | zero => omega
    | succ fuel =>
      rw [dumpsItems, List.tail_cons, List.append_assoc, scanItems,
        hitem fuel (by omega) (headNot_items _ _)]
      cases items with
      | nil =>
        simp only [dumpsItems, List.singleton_append, Option.bind_eq_bind, Option.bind_some,
          skipWhitespace_of_not (by decide : isWhitespace ']' = false), expect_self]
        rfl
      | cons item' items =>
        have htail := hitems (List.cons_ne_nil _ _) rest fuel (by omega)
        rw [dumpsItems, List.tail_cons] at htail
        simp only [dumpsItems, List.cons_append, Option.bind_eq_bind, Option.bind_some,
          skipWhitespace_of_not (by decide : isWhitespace ',' = false), expect_self,
          expect_other (by decide : ',' ≠ ']')]
        rw [List.append_assoc, skipWhitespace_dumps, ← List.append_assoc, htail]
        rfl

theorem scanMembers_dumps : ∀ (members : List (Str × Value)), members ≠ [] →
    ∀ (rest : List Char) (fuel : Nat), (dumpsMembers members).length ≤ fuel + 1 →
      scanMembers fuel ((dumpsMembers members).tail ++ rest) = some (rereadMembers members, rest)
  | [], hne, _, _, _ => absurd rfl hne
  | (key, value) :: members, _, rest, fuel, hfuel => by
    have hvalue := scanOnce_dumps value (dumpsMembers members ++ rest)
    have hmembers := scanMembers_dumps members
    rw [dumpsMembers, List.length_cons, List.length_append, List.length_cons, List.length_append]
      at hfuel
    have hpos := dumps_pos value
    have hpos' : 0 < (dumpsMembers members).length := by cases members <;> simp [dumpsMembers]
    cases fuel with
    | zero => omega
    | succ fuel =>
      rw [dumpsMembers, List.tail_cons, quote, scanMembers]
      simp only [List.cons_append, List.append_assoc, List.nil_append, expect_self,
        Option.bind_eq_bind, Option.bind_some, scanString_quote,
        skipWhitespace_of_not (by decide : isWhitespace ':' = false), skipWhitespace_dumps,
        hvalue fuel (by omega) (headNot_members _ _)]
      cases members with
      | nil =>
        simp only [dumpsMembers, List.cons_append, List.nil_append,
          skipWhitespace_of_not (by decide : isWhitespace '\x7d' = false), expect_self]
        rfl
      | cons member members =>
        obtain ⟨key', value'⟩ := member
        have htail := hmembers (List.cons_ne_nil _ _) rest fuel (by omega)
        rw [dumpsMembers, List.tail_cons, quote] at htail
        simp only [List.cons_append, List.append_assoc, List.nil_append] at htail
        simp only [dumpsMembers, quote, List.cons_append, List.append_assoc, List.nil_append,
          skipWhitespace_of_not (by decide : isWhitespace ',' = false), expect_self,
          expect_other (by decide : ',' ≠ '\x7d'), Option.bind_some,
          skipWhitespace_of_not (by decide : isWhitespace '"' = false), htail]
        rfl

end

end Genoh.Json
