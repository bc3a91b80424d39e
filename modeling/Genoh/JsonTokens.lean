import Mathlib.Data.List.TakeWhile
import Genoh.Json

/-!
# JSON tokens

Numbers and strings are read back from their written form, whatever follows them. What the
lexers take does not depend on what follows, as long as that does not go on with the number.
-/
namespace Genoh.Json

open Genoh.Strings

/-! ## Numbers -/

/-- The first character, if there is one, is not of the kind. -/
def HeadNot (kind : Char → Prop) (s : List Char) : Prop := ∀ c ∈ s.head?, ¬ kind c

/-- A character that may go on a number. -/
def Continues (c : Char) : Prop := c.isDigit = true ∨ c = '.' ∨ c = 'e' ∨ c = 'E'

@[simp] theorem headNot_nil (kind : Char → Prop) : HeadNot kind [] := by simp [HeadNot]

@[simp] theorem headNot_cons (kind : Char → Prop) (c : Char) (s : List Char) :
    HeadNot kind (c :: s) ↔ ¬ kind c := by simp [HeadNot]

theorem HeadNot.mono {kind kind' : Char → Prop} {s : List Char} (h : HeadNot kind s)
    (hkind : ∀ c, kind' c → kind c) : HeadNot kind' s := by
  intro c hc hk
  exact h c hc (hkind c hk)

theorem digits_append {s t : List Char}
    (h : HeadNot (fun c => c.isDigit = true) (s.dropWhile Char.isDigit ++ t)) :
    (s ++ t).takeWhile Char.isDigit = s.takeWhile Char.isDigit ∧
      (s ++ t).dropWhile Char.isDigit = s.dropWhile Char.isDigit ++ t := by
  induction s with
  | nil =>
    cases t with
    | nil => exact ⟨rfl, rfl⟩
    | cons c t =>
      have hc : c.isDigit = false := by simpa using h
      simp [hc]
  | cons c s ih =>
    cases hc : c.isDigit with
    | false => simp [hc]
    | true =>
      rw [List.dropWhile_cons_of_pos hc] at h
      obtain ⟨htake, hdrop⟩ := ih h
      simp [hc, htake, hdrop]

theorem lexWhole_append {s digits rest t : List Char} (h : lexWhole s = some (digits, rest))
    (hnot : HeadNot (fun c => c.isDigit = true) (rest ++ t)) :
    lexWhole (s ++ t) = some (digits, rest ++ t) := by
  cases s with
  | nil => exact absurd h (by simp [lexWhole])
  | cons c s =>
    rw [List.cons_append, lexWhole]
    rw [lexWhole] at h
    split at h
    · rename_i hzero
      obtain ⟨rfl, rfl⟩ := Prod.mk.inj (Option.some.inj h)
      rw [if_pos hzero]
    · rename_i hzero
      split at h
      · rename_i hdigit
        obtain ⟨rfl, rfl⟩ := Prod.mk.inj (Option.some.inj h)
        obtain ⟨htake, hdrop⟩ := digits_append hnot
        rw [if_neg hzero, if_pos hdigit, htake, hdrop]
      · exact absurd h (by simp)

theorem lexInteger_append {s digits rest t : List Char} (h : lexInteger s = some (digits, rest))
    (hnot : HeadNot (fun c => c.isDigit = true) (rest ++ t)) :
    lexInteger (s ++ t) = some (digits, rest ++ t) := by
  cases s with
  | nil => exact absurd h (by simp [lexInteger])
  | cons c s =>
    rw [List.cons_append, lexInteger]
    rw [lexInteger] at h
    split at h
    · rename_i hminus
      obtain ⟨⟨whole, rest'⟩, hwhole, heq⟩ := Option.map_eq_some_iff.mp h
      obtain ⟨rfl, rfl⟩ := Prod.mk.inj heq
      rw [if_pos hminus, lexWhole_append hwhole hnot]
      rfl
    · rename_i hminus
      rw [if_neg hminus, ← List.cons_append]
      exact lexWhole_append h hnot

theorem lexFraction_append {s t : List Char}
    (h : HeadNot (fun c => c.isDigit = true ∨ c = '.') ((lexFraction s).2 ++ t)) :
    lexFraction (s ++ t) = ((lexFraction s).1, (lexFraction s).2 ++ t) := by
  cases s with
  | nil =>
    cases t with
    | nil => rfl
    | cons c t =>
      have hc : ¬ (c = '.' ∧ t.takeWhile Char.isDigit ≠ []) := fun hdot => by
        simp [lexFraction, hdot.1] at h
      have hstep : lexFraction (c :: t) = ([], c :: t) := by rw [lexFraction, if_neg hc]
      exact hstep
  | cons c s =>
    rw [List.cons_append, lexFraction, lexFraction]
    rw [lexFraction] at h
    split at h
    · rename_i hdot
      obtain ⟨htake, hdrop⟩ := digits_append (h.mono fun c hc => .inl hc)
      rw [htake, hdrop, if_pos hdot, if_pos hdot]
    · rename_i hno
      have hc : ¬ (c = '.' ∧ (s ++ t).takeWhile Char.isDigit ≠ []) := fun hdot => by
        simp [hdot.1] at h
      rw [if_neg hc, if_neg hno, List.cons_append]

theorem lexSign_append {s : List Char} (t : List Char) (h : (lexSign s).2 ≠ []) :
    lexSign (s ++ t) = ((lexSign s).1, (lexSign s).2 ++ t) := by
  cases s with
  | nil => exact absurd rfl h
  | cons c s =>
    rw [List.cons_append, lexSign, lexSign]
    split <;> rfl

theorem lexExponent_append {s t : List Char} (h : HeadNot Continues ((lexExponent s).2 ++ t)) :
    lexExponent (s ++ t) = ((lexExponent s).1, (lexExponent s).2 ++ t) := by
  cases s with
  | nil =>
    cases t with
    | nil => rfl
    | cons c t =>
      rw [lexExponent, List.nil_append, headNot_cons] at h
      have hc : ¬ ((c = 'e' ∨ c = 'E') ∧ (lexSign t).2.takeWhile Char.isDigit ≠ []) := fun he =>
        h (.inr (.inr he.1))
      have hstep : lexExponent (c :: t) = ([], c :: t) := by rw [lexExponent, if_neg hc]
      exact hstep
  | cons c s =>
    rw [List.cons_append, lexExponent, lexExponent]
    rw [lexExponent] at h
    split at h
    · rename_i he
      have hsome : (lexSign s).2 ≠ [] := fun hnil => he.2 (by simp [hnil])
      obtain ⟨htake, hdrop⟩ := digits_append (h.mono fun c hc => .inl hc)
      rw [lexSign_append t hsome]
      simp only [htake, hdrop]
      rw [if_pos he, if_pos he]
    · rename_i hno
      rw [List.cons_append, headNot_cons] at h
      have hc : ¬ ((c = 'e' ∨ c = 'E') ∧ (lexSign (s ++ t)).2.takeWhile Char.isDigit ≠ []) :=
        fun he => h (.inr (.inr he.1))
      rw [if_neg hc, if_neg hno, List.cons_append]

theorem lexFraction_rest (s : List Char) : (lexFraction s).2 = s ∨ ∃ s', s = '.' :: s' := by
  cases s with
  | nil => exact .inl rfl
  | cons c s =>
    rw [lexFraction]
    split
    · rename_i hdot
      exact .inr ⟨s, by rw [hdot.1]⟩
    · exact .inl rfl

theorem lexExponent_rest (s : List Char) :
    (lexExponent s).2 = s ∨ ∃ c s', s = c :: s' ∧ (c = 'e' ∨ c = 'E') := by
  cases s with
  | nil => exact .inl rfl
  | cons c s =>
    rw [lexExponent]
    split
    · rename_i he
      exact .inr ⟨c, s, rfl, he.1⟩
    · exact .inl rfl

theorem lexTail_append {s t : List Char} (h : HeadNot Continues ((lexTail s).2 ++ t)) :
    lexTail (s ++ t) = ((lexTail s).1, (lexTail s).2 ++ t) := by
  have hfraction : HeadNot (fun c => c.isDigit = true ∨ c = '.') ((lexFraction s).2 ++ t) := by
    obtain hsame | ⟨c, s', hhead, he⟩ := lexExponent_rest (lexFraction s).2
    · rw [← hsame]
      exact h.mono fun c hc => hc.elim .inl fun hdot => .inr (.inl hdot)
    · rw [hhead, List.cons_append, headNot_cons]
      rcases he with rfl | rfl
      · decide
      · decide
  simp only [lexTail] at h ⊢
  rw [lexFraction_append hfraction, lexExponent_append h]

/-- What follows a number changes nothing, as long as it does not go on with it. -/
theorem lexNumber_append {s integer tail rest t : List Char}
    (h : lexNumber s = some (integer, tail, rest)) (hnot : HeadNot Continues (rest ++ t)) :
    lexNumber (s ++ t) = some (integer, tail, rest ++ t) := by
  obtain ⟨⟨digits, rest'⟩, hinteger, heq⟩ := Option.map_eq_some_iff.mp h
  simp only [Prod.mk.injEq] at heq
  obtain ⟨rfl, rfl, rfl⟩ := heq
  have hdigit : HeadNot (fun c => c.isDigit = true) (rest' ++ t) := by
    obtain hsame | ⟨s', rfl⟩ := lexFraction_rest rest'
    · obtain hsame' | ⟨c, s', hhead, he⟩ := lexExponent_rest (lexFraction rest').2
      · have hrest : (lexTail rest').2 = rest' := hsame'.trans hsame
        rw [hrest] at hnot
        exact hnot.mono fun c hc => .inl hc
      · rw [← hsame, hhead, List.cons_append, headNot_cons]
        rcases he with rfl | rfl
        · decide
        · decide
    · rw [List.cons_append, headNot_cons]
      decide
  rw [lexNumber, lexInteger_append hinteger hdigit, Option.map_some]
  simp only [lexTail_append hnot]

/-- A decimal numeral is made of digits, and begins with a zero only if that is all of it. -/
theorem toDigits_head (n : Nat) : ∃ c digits, Nat.toDigits 10 n = c :: digits ∧
    (c = '0' → digits = []) ∧ ∀ d ∈ c :: digits, d.isDigit = true := by
  have hdigits : ∀ d ∈ Nat.toDigits 10 n, d.isDigit = true := fun d hd =>
    Nat.isDigit_of_mem_toDigits (by decide) (by decide) hd
  induction n using Nat.strong_induction_on with
  | _ n ih =>
    rw [Nat.toDigits_eq_if (by decide)] at hdigits ⊢
    split at hdigits
    · rename_i hsmall
      rw [if_pos hsmall]
      exact ⟨_, [], rfl, fun _ => rfl, hdigits⟩
    · rename_i hlarge
      rw [if_neg hlarge]
      obtain ⟨c, digits, heq, hzero, -⟩ := ih (n / 10) (by omega) fun d hd =>
        Nat.isDigit_of_mem_toDigits (by decide) (by decide) hd
      refine ⟨c, digits ++ [Nat.digitChar (n % 10)], by rw [heq, List.cons_append], ?_, ?_⟩
      · intro hc
        have hvalue := Nat.ofDigitChars_ten_toDigits (n := n / 10)
        rw [heq, hzero hc, hc] at hvalue
        have : n / 10 = 0 := by rw [← hvalue]; decide
        omega
      · rw [heq, List.cons_append] at hdigits
        exact hdigits

theorem lexWhole_toDigits (n : Nat) : lexWhole (Nat.toDigits 10 n) = some (Nat.toDigits 10 n, []) := by
  obtain ⟨c, digits, heq, hzero, hdigits⟩ := toDigits_head n
  rw [heq, lexWhole]
  split
  · rename_i hc
    rw [hzero hc, hc]
  · have htail : ∀ d ∈ digits, d.isDigit = true := fun d hd => hdigits d (List.mem_cons_of_mem _ hd)
    rw [if_pos (hdigits c List.mem_cons_self), List.takeWhile_eq_self_iff.mpr htail,
      List.dropWhile_eq_nil_iff.mpr htail]

theorem lexInteger_intRepr (n : Int) : lexInteger (intRepr n) = some (intRepr n, []) := by
  rw [intRepr]
  split
  · rw [lexInteger, if_pos rfl, lexWhole_toDigits]
    rfl
  · obtain ⟨c, digits, heq, -, hdigits⟩ := toDigits_head n.natAbs
    have hc : c ≠ '-' := fun hc => absurd (hdigits c List.mem_cons_self) (by rw [hc]; decide)
    have hwhole := lexWhole_toDigits n.natAbs
    rw [heq] at hwhole ⊢
    rw [lexInteger, if_neg hc, hwhole]

theorem intOf_intRepr (n : Int) : intOf (intRepr n) = n := by
  rw [intRepr]
  split
  · rw [intOf, if_pos rfl, Nat.ofDigitChars_ten_toDigits]
    omega
  · obtain ⟨c, digits, heq, -, hdigits⟩ := toDigits_head n.natAbs
    have hc : c ≠ '-' := fun hc => absurd (hdigits c List.mem_cons_self) (by rw [hc]; decide)
    have hvalue := Nat.ofDigitChars_ten_toDigits (n := n.natAbs)
    rw [heq] at hvalue ⊢
    rw [intOf, if_neg hc, hvalue]
    omega

/-- An integer is read back. -/
theorem scanNumber_intRepr (n : Int) (rest : List Char) (h : HeadNot Continues rest) :
    scanNumber (intRepr n ++ rest) = some (.int n, rest) := by
  have hlex : lexNumber (intRepr n) = some (intRepr n, [], []) := by
    rw [lexNumber, lexInteger_intRepr]
    rfl
  rw [scanNumber, lexNumber_append hlex (by simpa using h)]
  simp [intOf_intRepr]

/-- A number begins with a digit, or with a minus sign and a digit. -/
theorem lexInteger_head {s : List Char} (h : lexInteger s ≠ none) :
    ∃ c s', s = c :: s' ∧ (c.isDigit = true ∨ c = '-' ∧ ∃ d s'', s' = d :: s'' ∧ d.isDigit = true) := by
  have hwhole : ∀ s, lexWhole s ≠ none → ∃ c s', s = c :: s' ∧ c.isDigit = true := by
    intro s h
    cases s with
    | nil => exact absurd rfl h
    | cons c s =>
      rw [lexWhole] at h
      split at h
      · rename_i hzero
        exact ⟨c, s, rfl, by rw [hzero]; decide⟩
      · split at h
        · rename_i hdigit
          exact ⟨c, s, rfl, hdigit⟩
        · exact absurd rfl h
  cases s with
  | nil => exact absurd rfl h
  | cons c s =>
    rw [lexInteger] at h
    split at h
    · rename_i hminus
      exact ⟨c, s, rfl, .inr ⟨hminus, hwhole s fun hnone => h (by rw [hnone, Option.map_none])⟩⟩
    · obtain ⟨d, s', heq, hd⟩ := hwhole _ h
      exact ⟨d, s', heq, .inl hd⟩

/-- A number is none of the constants. -/
theorem scanAtom_number {s : List Char} (h : lexInteger s ≠ none) : scanAtom s = scanNumber s := by
  have hnone : ∀ entry ∈ constants, dropWord entry.1 s = none := by
    intro entry hentry
    obtain ⟨c, s', rfl, hhead⟩ := lexInteger_head h
    rw [dropWord, if_neg]
    rw [List.isPrefixOf_iff_prefix]
    rintro ⟨rest, hrest⟩
    simp only [constants, List.mem_cons, List.not_mem_nil, or_false] at hentry
    rcases hentry with rfl | rfl | rfl | rfl | rfl | rfl
    all_goals
      obtain ⟨rfl, rfl⟩ := List.cons.inj hrest
      rcases hhead with hdigit | ⟨hminus, d, s'', htail, hdigit⟩
      · exact absurd hdigit (by decide)
    all_goals first
      | exact absurd hminus (by decide)
      | obtain ⟨rfl, rfl⟩ := List.cons.inj htail
        exact absurd hdigit (by decide)
  rw [scanAtom, List.findSome?_eq_none_iff.mpr]
  intro entry hentry
  simp only [hnone entry hentry, Option.map_none]

theorem lexInteger_text {s integer rest : List Char} (h : lexInteger s = some (integer, rest)) :
    s = integer ++ rest := by
  have hwhole : ∀ {s digits rest : List Char}, lexWhole s = some (digits, rest) →
      s = digits ++ rest := by
    intro s digits rest h
    cases s with
    | nil => exact absurd h (by simp [lexWhole])
    | cons c s =>
      rw [lexWhole] at h
      split at h
      · rename_i hzero
        obtain ⟨rfl, rfl⟩ := Prod.mk.inj (Option.some.inj h)
        rw [hzero]
        rfl
      · split at h
        · obtain ⟨rfl, rfl⟩ := Prod.mk.inj (Option.some.inj h)
          rw [List.cons_append, List.takeWhile_append_dropWhile]
        · exact absurd h (by simp)
  cases s with
  | nil => exact absurd h (by simp [lexInteger])
  | cons c s =>
    rw [lexInteger] at h
    split at h
    · rename_i hminus
      obtain ⟨⟨digits, rest'⟩, hdigits, heq⟩ := Option.map_eq_some_iff.mp h
      obtain ⟨rfl, rfl⟩ := Prod.mk.inj heq
      rw [hminus, hwhole hdigits]
      rfl
    · exact hwhole h

theorem lexTail_text (s : List Char) : (lexTail s).1 ++ (lexTail s).2 = s := by
  have hfraction : ∀ s, (lexFraction s).1 ++ (lexFraction s).2 = s := by
    intro s
    cases s with
    | nil => rfl
    | cons c s =>
      rw [lexFraction]
      split
      · rename_i hdot
        rw [hdot.1, List.cons_append, List.takeWhile_append_dropWhile]
      · rfl
  have hsign : ∀ s, (lexSign s).1 ++ (lexSign s).2 = s := by
    intro s
    cases s with
    | nil => rfl
    | cons c s =>
      rw [lexSign]
      split <;> rfl
  have hexponent : ∀ s, (lexExponent s).1 ++ (lexExponent s).2 = s := by
    intro s
    cases s with
    | nil => rfl
    | cons c s =>
      rw [lexExponent]
      split
      · rw [List.cons_append, List.cons_append, List.append_assoc, List.takeWhile_append_dropWhile,
          hsign]
      · rfl
  rw [lexTail, List.append_assoc, hexponent, hfraction]

/-- A float is read back. -/
theorem scanAtom_float (x : FloatLiteral) (rest : List Char) (h : HeadNot Continues rest) :
    scanAtom (x.literal ++ rest) = some (.float x, rest) := by
  obtain ⟨literal, hconstant | hfloat⟩ := x
  · simp only [nonFinite, List.mem_cons, List.not_mem_nil, or_false] at hconstant
    rcases hconstant with rfl | rfl | rfl
    · rfl
    · rfl
    · rfl
  · have hfloat' := hfloat
    rw [isFloat] at hfloat'
    split at hfloat'
    · rename_i integer tail hlex
      have htail : tail ≠ [] := by simpa using hfloat'
      have happ := lexNumber_append (t := rest) hlex (by simpa using h)
      obtain ⟨⟨digits, rest'⟩, hinteger, heq⟩ := Option.map_eq_some_iff.mp hlex
      simp only [Prod.mk.injEq] at heq
      obtain ⟨rfl, rfl, hrest⟩ := heq
      have htext : literal = digits ++ (lexTail rest').1 := by
        have hall := lexTail_text rest'
        rw [hrest, List.append_nil] at hall
        rw [lexInteger_text hinteger, hall]
      have hsome : lexInteger (literal ++ rest) ≠ none := by
        intro hnone
        simp only [lexNumber, hnone, Option.map_none] at happ
        exact absurd happ (by simp)
      rw [scanAtom_number hsome, scanNumber, happ]
      simp only [List.nil_append, if_neg htail]
      rw [dif_pos (htext ▸ hfloat)]
      simp only [← htext]
    · exact absurd hfloat' Bool.false_ne_true

/-! ## Strings -/

theorem units_lt {c unit : CodePoint} (h : unit ∈ units c) : unit.val < 0x10000 := by
  have hc := c.isLt
  rw [units] at h
  split at h
  · rename_i hsmall
    rw [List.mem_singleton.mp h]
    exact hsmall
  · simp only [List.mem_cons, List.not_mem_nil, or_false] at h
    obtain rfl | rfl := h
    · rw [Fin.val_ofNat, Nat.mod_eq_of_lt (by omega)]
      omega
    · rw [Fin.val_ofNat, Nat.mod_eq_of_lt (by omega)]
      omega

theorem hexValue_digitChar : ∀ d < 16, hexValue (Nat.digitChar d) = some d := by decide

/-- The four digits of a unit name it. -/
theorem decodeUnit_digits (unit : CodePoint) (h : unit.val < 0x10000) :
    decodeUnit (Nat.digitChar (unit.val / 4096 % 16)) (Nat.digitChar (unit.val / 256 % 16))
      (Nat.digitChar (unit.val / 16 % 16)) (Nat.digitChar (unit.val % 16)) = some unit := by
  have hsum : 4096 * (unit.val / 4096 % 16) + 256 * (unit.val / 256 % 16) +
      16 * (unit.val / 16 % 16) + unit.val % 16 = unit.val := by omega
  simp only [decodeUnit, hexValue_digitChar _ (Nat.mod_lt _ (by decide : 0 < 16)), Option.bind_eq_bind,
    Option.bind_some, hsum]
  exact congrArg some (Fin.ext (Nat.mod_eq_of_lt unit.isLt))

@[simp] theorem scanUnits_quote (s : List Char) : scanUnits ('"' :: s) = some ([], s) := by
  rw [scanUnits.eq_def]
  rfl

theorem scanUnits_raw (c : Char) (s : List Char) (hquote : c ≠ '"') (hback : c ≠ '\\')
    (hcontrol : ¬ c.val < 0x20) :
    scanUnits (c :: s) = (scanUnits s).map fun (units, rest) => (ofChar c :: units, rest) := by
  rw [scanUnits.eq_def]
  simp only [if_neg hquote, if_neg hback, if_neg hcontrol]

theorem scanUnits_short (e : Char) (s : List Char) (hunit : e ≠ 'u') :
    scanUnits ('\\' :: e :: s) = match backslash.lookup e with
      | none => none
      | some unit => (scanUnits s).map fun (units, rest) => (unit :: units, rest) := by
  rw [scanUnits.eq_3 _ _ _ fun _ _ _ _ _ he => absurd he hunit]
  rfl

theorem scanUnits_escapeUnit (unit : CodePoint) (h : unit.val < 0x10000) (s : List Char) :
    scanUnits (escapeUnit unit.val ++ s) =
      (scanUnits s).map fun (units, rest) => (unit :: units, rest) := by
  simp only [escapeUnit, List.cons_append, List.nil_append]
  rw [scanUnits.eq_2, if_neg (by decide), if_pos rfl, decodeUnit_digits unit h]

theorem scanUnits_escapeUnits (list : List CodePoint) (h : ∀ unit ∈ list, unit.val < 0x10000)
    (s : List Char) : scanUnits (list.flatMap (fun unit => escapeUnit unit.val) ++ s) =
      (scanUnits s).map fun (units, rest) => (list ++ units, rest) := by
  induction list with
  | nil =>
    rw [List.flatMap_nil, List.nil_append]
    simp
  | cons unit list ih =>
    rw [List.flatMap_cons, List.append_assoc, scanUnits_escapeUnit unit (h unit List.mem_cons_self),
      ih fun unit' h' => h unit' (List.mem_cons_of_mem _ h'), Option.map_map]
    rfl

/-- The short escapes are read back. -/
theorem escapeDct_backslash {c : CodePoint} {e : Char} (h : escapeDct.lookup c = some e) :
    e ≠ 'u' ∧ backslash.lookup e = some c ∧ units c = [c] := by
  have hall : ∀ entry ∈ escapeDct, entry.2 ≠ 'u' ∧ backslash.lookup entry.2 = some entry.1 ∧
      units entry.1 = [entry.1] := by decide
  obtain ⟨front, back, heq, -⟩ := List.lookup_eq_some_iff.mp h
  exact hall (c, e) (heq ▸ by simp)

/-- An escaped character is read back as its UTF-16 units. -/
theorem scanUnits_escape (c : CodePoint) (s : List Char) :
    scanUnits (escape c ++ s) = (scanUnits s).map fun (rest, t) => (units c ++ rest, t) := by
  rw [escape]
  split
  · rename_i e hlookup
    obtain ⟨hunit, hback, hsingle⟩ := escapeDct_backslash hlookup
    rw [hsingle, List.cons_append, List.singleton_append, scanUnits_short e s hunit, hback]
    rfl
  · rename_i hlookup
    split
    · rename_i hprint
      have hnat : (Char.ofNat c.val).toNat = c.val := by
        have hvalid : c.val.isValidChar := .inl (by omega)
        rw [Char.ofNat, dif_pos hvalid]
        rfl
      have hchar : ofChar (Char.ofNat c.val) = c := Fin.ext hnat
      have htable := List.lookup_eq_none_iff.mp hlookup
      have hquote : Char.ofNat c.val ≠ '"' := fun heq => by
        rw [heq] at hchar
        exact absurd (htable (c, '"') (by rw [← hchar]; decide)) (by simp)
      have hback : Char.ofNat c.val ≠ '\\' := fun heq => by
        rw [heq] at hchar
        exact absurd (htable (c, '\\') (by rw [← hchar]; decide)) (by simp)
      have hcontrol : ¬ (Char.ofNat c.val).val < 0x20 := by
        rw [UInt32.lt_iff_toNat_lt, Char.toNat_val, hnat]
        exact Nat.not_lt.mpr hprint.1
      have hsingle : units c = [c] := by
        rw [units, if_pos (by omega)]
      rw [hsingle, List.singleton_append, scanUnits_raw _ _ hquote hback hcontrol, hchar]
      rfl
    · exact scanUnits_escapeUnits _ (fun unit => units_lt) s

/-! ## Surrogates -/

theorem joinSurrogates_pair {high low : CodePoint} (h : (isHigh high && isLow low) = true) (s : Str) :
    joinSurrogates (high :: low :: s) = combine high low :: joinSurrogates s := by
  rw [joinSurrogates, if_pos h]

/-- A character that begins no pair stays. -/
theorem joinSurrogates_cons {c : CodePoint} {s : Str}
    (h : ∀ d ∈ s.head?, (isHigh c && isLow d) = false) :
    joinSurrogates (c :: s) = c :: joinSurrogates s := by
  cases s with
  | nil => rfl
  | cons d s => rw [joinSurrogates, if_neg (by simp [h d rfl])]

theorem isHigh_iff (c : CodePoint) : isHigh c = true ↔ 0xd800 ≤ c.val ∧ c.val < 0xdc00 := by
  simp [isHigh]

theorem isLow_iff (c : CodePoint) : isLow c = true ↔ 0xdc00 ≤ c.val ∧ c.val < 0xe000 := by
  simp [isLow]

theorem units_small {c : CodePoint} (h : c.val < 0x10000) : units c = [c] := by
  rw [units, if_pos h]

/-- A character outside the basic plane is a pair of surrogates that make it up. -/
theorem units_large {c : CodePoint} (h : 0x10000 ≤ c.val) :
    ∃ high low, units c = [high, low] ∧ isHigh high = true ∧ isLow low = true ∧
      combine high low = c := by
  have hc := c.isLt
  refine ⟨_, _, by rw [units, if_neg (by omega)], ?_, ?_, ?_⟩
  · rw [isHigh_iff, Fin.val_ofNat, Nat.mod_eq_of_lt (by omega)]
    omega
  · rw [isLow_iff, Fin.val_ofNat, Nat.mod_eq_of_lt (by omega)]
    omega
  · rw [combine, Fin.val_ofNat, Fin.val_ofNat, Nat.mod_eq_of_lt (by omega), Nat.mod_eq_of_lt (by omega)]
    refine Fin.ext ?_
    rw [Fin.val_ofNat, Nat.mod_eq_of_lt (by omega)]
    omega

theorem joinSurrogates_units {c : CodePoint} {s : Str}
    (h : ∀ d ∈ s.head?, (isHigh c && isLow d) = false) :
    joinSurrogates (units c ++ s) = c :: joinSurrogates s := by
  by_cases hc : c.val < 0x10000
  · rw [units_small hc, List.singleton_append, joinSurrogates_cons h]
  · obtain ⟨high, low, hunits, hhigh, hlow, hcombine⟩ := units_large (Nat.not_lt.mp hc)
    rw [hunits, List.cons_append, List.singleton_append,
      joinSurrogates_pair (by rw [hhigh, hlow]; rfl), hcombine]

/-- Only a low surrogate has a low surrogate for its first unit. -/
theorem head_units {c d : CodePoint} {s : Str} (h : d ∈ (units c ++ s).head?) (hlow : isLow d = true) :
    d = c := by
  by_cases hc : c.val < 0x10000
  · rw [units_small hc] at h
    simpa using h.symm
  · obtain ⟨high, low, hunits, hhigh, -, -⟩ := units_large (Nat.not_lt.mp hc)
    rw [hunits] at h
    have hd : d = high := by simpa using h.symm
    rw [isHigh_iff] at hhigh
    rw [hd, isLow_iff] at hlow
    omega

/-- Reading the units of a string gives what reading the string gives. -/
theorem joinSurrogates_flatMap_units (s : Str) :
    joinSurrogates (s.flatMap units) = joinSurrogates s := by
  induction s using joinSurrogates.induct with
  | case1 high low s hpair ih =>
    have hboth := hpair
    rw [Bool.and_eq_true, isHigh_iff, isLow_iff] at hboth
    rw [joinSurrogates_pair hpair, List.flatMap_cons, List.flatMap_cons, units_small (by omega),
      units_small (by omega), List.singleton_append, List.singleton_append, joinSurrogates_pair hpair, ih]
  | case2 high low s hpair ih =>
    have hpair : (isHigh high && isLow low) = false := Bool.eq_false_iff.mpr hpair
    rw [joinSurrogates_cons (by simpa using hpair), ← ih, List.flatMap_cons]
    refine joinSurrogates_units fun d hd => ?_
    rw [List.flatMap_cons] at hd
    by_contra hnot
    rw [Bool.not_eq_false, Bool.and_eq_true] at hnot
    rw [head_units hd hnot.2] at hnot
    rw [hnot.1, hnot.2] at hpair
    exact absurd hpair (by decide)
  | case3 s hshort =>
    cases s with
    | nil => rfl
    | cons c s =>
      cases s with
      | cons d s => exact absurd rfl (hshort c d s)
      | nil =>
        rw [List.flatMap_cons, List.flatMap_nil]
        exact joinSurrogates_units (by simp)

theorem combine_large {high low : CodePoint} (h : (isHigh high && isLow low) = true) :
    0x10000 ≤ (combine high low).val := by
  rw [Bool.and_eq_true, isHigh_iff, isLow_iff] at h
  rw [combine, Fin.val_ofNat, Nat.mod_eq_of_lt (by omega)]
  omega

/-- Only a low surrogate leaves a low surrogate in front. -/
theorem head_joinSurrogates {c d : CodePoint} {s : Str} (h : d ∈ (joinSurrogates (c :: s)).head?)
    (hlow : isLow d = true) : d = c := by
  cases s with
  | nil => simpa [joinSurrogates] using h.symm
  | cons c' s =>
    cases hpair : isHigh c && isLow c' with
    | true =>
      rw [joinSurrogates_pair hpair] at h
      have hd : d = combine c c' := by simpa using h.symm
      have hlarge := combine_large hpair
      rw [← hd] at hlarge
      rw [isLow_iff] at hlow
      omega
    | false =>
      rw [joinSurrogates_cons (by simpa using hpair)] at h
      simpa using h.symm

/-- What is read of a string reads as itself. -/
theorem joinSurrogates_idem (s : Str) : joinSurrogates (joinSurrogates s) = joinSurrogates s := by
  induction s using joinSurrogates.induct with
  | case1 high low s hpair ih =>
    have hlarge := combine_large hpair
    have hhigh : isHigh (combine high low) = false := by
      rw [← Bool.not_eq_true, isHigh_iff]
      omega
    rw [joinSurrogates_pair hpair, joinSurrogates_cons (by simp [hhigh]), ih]
  | case2 high low s hpair ih =>
    have hpair : (isHigh high && isLow low) = false := Bool.eq_false_iff.mpr hpair
    have hnext : ∀ d ∈ (joinSurrogates (low :: s)).head?, (isHigh high && isLow d) = false := by
      intro d hd
      by_contra hnot
      rw [Bool.not_eq_false, Bool.and_eq_true] at hnot
      rw [head_joinSurrogates hd hnot.2] at hnot
      rw [hnot.1, hnot.2] at hpair
      exact absurd hpair (by decide)
    rw [joinSurrogates_cons (by simpa using hpair), joinSurrogates_cons hnext, ih]
  | case3 s hshort =>
    cases s with
    | nil => rfl
    | cons c s =>
      cases s with
      | cons d s => exact absurd rfl (hshort c d s)
      | nil => rfl

/-- A quoted string is read back, its surrogates joined. -/
theorem scanString_quote (s : Str) (rest : List Char) :
    scanString (s.flatMap escape ++ '"' :: rest) = some (joinSurrogates s, rest) := by
  have hunits : scanUnits (s.flatMap escape ++ '"' :: rest) = some (s.flatMap units, rest) := by
    induction s with
    | nil => exact scanUnits_quote rest
    | cons c s ih =>
      rw [List.flatMap_cons, List.append_assoc, scanUnits_escape, ih]
      rfl
  rw [scanString, hunits, Option.map_some]
  simp only [joinSurrogates_flatMap_units]

end Genoh.Json
