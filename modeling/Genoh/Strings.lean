import Genoh.Separators

/-!
# Strings

Character strings as sequences of code points, lone surrogates included, with the queries of
Python's `str`.
-/
namespace Genoh.Strings

open Genoh.Separators

abbrev CodePoint := Fin 0x110000

abbrev Str := List CodePoint

def ofChar (c : Char) : CodePoint where
  val := c.toNat
  isLt := by
    have h := c.valid
    simp only [UInt32.isValidChar, Nat.isValidChar] at h
    simp only [Char.toNat]
    omega

/-- A text as a string. -/
def ofText (text : List Char) : Str := text.map ofChar

/-- A string without surrogates. -/
def str (s : String) : Str := ofText s.toList

def isSurrogate (c : CodePoint) : Bool := 0xd800 ≤ c.val && c.val < 0xe000

/-- The text of a string; none where surrogates stand in it, which have no encoding. -/
def toText? (s : Str) : Option (List Char) :=
  if s.any isSurrogate then none else some (s.map fun c => Char.ofNat c.val)

def slash : CodePoint := ofChar '/'

theorem ofChar_not_surrogate (c : Char) : isSurrogate (ofChar c) = false := by
  have h := c.valid
  simp only [UInt32.isValidChar, Nat.isValidChar] at h
  have hval : (ofChar c).val = c.val.toNat := rfl
  rw [isSurrogate, hval, ← Bool.not_eq_true, Bool.and_eq_true, decide_eq_true_iff,
    decide_eq_true_iff]
  omega

@[simp] theorem toText?_ofText (text : List Char) : toText? (ofText text) = some text := by
  rw [toText?, if_neg]
  · refine congrArg some ?_
    rw [ofText, List.map_map]
    exact (List.map_congr_left fun c _ => Char.ofNat_toNat c).trans (List.map_id text)
  · simp [ofText, ofChar_not_surrogate]

theorem ofText_injective : Function.Injective ofText := fun text text' h =>
  Option.some.inj (by rw [← toText?_ofText, h, toText?_ofText])

/-! ## Queries -/

/-- `s.startswith(start)`. -/
def startsWith (s start : Str) : Bool := start.isPrefixOf s

/-- `s.endswith(tail)`. -/
def endsWith (s tail : Str) : Bool := tail.isSuffixOf s

/-- `part in s`. -/
def contains (s part : Str) : Bool := decide (part <:+: s)

/-- `s[:-n]`. -/
def dropEnd (s : Str) (n : Nat) : Str := s.take (s.length - n)

/-- `len(s.split("/"))`: one more than there are slashes. -/
def segments (s : Str) : Nat := s.count slash + 1

/-- `s.split("/")`. -/
def splitSlash (s : Str) : List Str := s.splitOn slash

@[simp] theorem startsWith_iff (s start : Str) : startsWith s start = true ↔ start <+: s :=
  List.isPrefixOf_iff_prefix

@[simp] theorem startsWith_eq_false_iff (s start : Str) :
    startsWith s start = false ↔ ¬ start <+: s := by
  rw [← startsWith_iff, Bool.not_eq_true]

@[simp] theorem endsWith_iff (s tail : Str) : endsWith s tail = true ↔ tail <:+ s :=
  List.isSuffixOf_iff_suffix

@[simp] theorem contains_iff (s part : Str) : contains s part = true ↔ part <:+: s :=
  decide_eq_true_iff

theorem dropEnd_append (s tail : Str) (n : Nat) (h : tail.length = n) :
    dropEnd (s ++ tail) n = s := by
  rw [dropEnd, List.length_append, h, Nat.add_sub_cancel, List.take_left']
  rfl

/-- A part whose only slash is its last character lies on one side of any slash. -/
theorem infix_slash_iff (word front back : Str) (h : slash ∉ word) :
    word ++ [slash] <:+: front ++ slash :: back ↔
      word ++ [slash] <:+: front ++ [slash] ∨ word ++ [slash] <:+: back := by
  constructor
  · rintro ⟨before, after, heq⟩
    rw [List.append_assoc, List.append_assoc, List.singleton_append, ← List.append_assoc,
      List.append_eq_append_iff] at heq
    obtain ⟨between, hfront, hafter⟩ | ⟨between, hword, hback⟩ := heq
    · -- the part ends at this slash or before it
      refine .inl ?_
      cases between with
      | nil => exact ⟨before, [], by simp [hfront]⟩
      | cons c between =>
        rw [List.cons_append, List.cons.injEq] at hafter
        exact ⟨before, between ++ [slash], by simp [hfront, hafter.1]⟩
    · -- the part ends behind this slash, and so begins behind it
      cases between with
      | nil =>
        rw [List.append_nil] at hword
        exact .inl ⟨before, [], by simp [← hword]⟩
      | cons c between =>
        rw [List.cons_append, List.cons.injEq] at hback
        obtain ⟨rfl, rfl⟩ := hback
        rw [← List.singleton_append, ← List.append_assoc, List.append_eq_append_iff] at hword
        obtain ⟨gap, hlate, rfl⟩ | ⟨gap, rfl, rfl⟩ := hword
        · cases gap using List.reverseRecOn with
          | nil => exact .inr ⟨[], after, by simp⟩
          | append_singleton gap c =>
            rw [← List.append_assoc] at hlate
            obtain ⟨-, hc⟩ := List.append_inj' hlate rfl
            rw [List.cons.injEq] at hc
            exact absurd (by simp [hc.1]) h
        · exact .inr ⟨gap, after, by simp⟩
  · rintro (hfront | hback)
    · exact hfront.trans ⟨[], back, by simp⟩
    · exact hback.trans ⟨front ++ [slash], [], by simp⟩

/-- The part before the first slash and the part behind it. -/
theorem slash_cons_inj {front front' back back' : Str} (h : slash ∉ front) (h' : slash ∉ front')
    (heq : front ++ slash :: back = front' ++ slash :: back') : front = front' ∧ back = back' := by
  induction front generalizing front' with
  | nil =>
    cases front' with
    | nil => exact ⟨rfl, (List.cons.inj heq).2⟩
    | cons c front' =>
      rw [List.nil_append, List.cons_append, List.cons.injEq] at heq
      exact absurd (heq.1 ▸ List.mem_cons_self) h'
  | cons c front ih =>
    cases front' with
    | nil =>
      rw [List.nil_append, List.cons_append, List.cons.injEq] at heq
      exact absurd (heq.1 ▸ List.mem_cons_self) h
    | cons c' front' =>
      rw [List.cons_append, List.cons_append, List.cons.injEq] at heq
      obtain ⟨rfl, heq⟩ := heq
      obtain ⟨rfl, rfl⟩ := ih (List.not_mem_of_not_mem_cons h) (List.not_mem_of_not_mem_cons h') heq
      exact ⟨rfl, rfl⟩

/-! ## Segments -/

theorem splitSlash_single {s : Str} (h : slash ∉ s) : splitSlash s = [s] :=
  List.splitOn_eq_singleton h

theorem splitSlash_append (front back : Str) :
    splitSlash (front ++ slash :: back) = splitSlash front ++ splitSlash back :=
  List.splitOn_append_cons_self front back

/-- No segment has a slash in it. -/
theorem slash_not_mem_segment {s segment : Str} (h : segment ∈ splitSlash s) : slash ∉ segment :=
  sep_not_mem_part h

/-- The segments between slashes are read back. -/
theorem splitSlash_intercalate {parts : List Str} (hparts : parts ≠ [])
    (h : ∀ part ∈ parts, slash ∉ part) : splitSlash ([slash].intercalate parts) = parts :=
  List.splitOn_intercalate slash h hparts

end Genoh.Strings
