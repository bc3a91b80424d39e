import Mathlib.Computability.Language
import Mathlib.Data.List.DropRight
import Mathlib.Order.CompletePartialOrder

/-!
# Wildcard patterns

Patterns over words of segments: a segment is given, or one segment may be any, or any number
of segments may stand there. A pattern denotes a language, the product of those of its parts.
-/
namespace Genoh.Wildcards

variable {α : Type*}

inductive Chunk (α : Type*) where
  | exactly (a : α) | one | any
  deriving DecidableEq, Repr

def Chunk.language : Chunk α → Language α
  | .exactly a => {[a]}
  | .one => {w | ∃ a, w = [a]}
  | .any => ⊤

/-- The words that a pattern stands for. -/
def language (pattern : List (Chunk α)) : Language α := (pattern.map Chunk.language).prod

theorem language_append (front back : List (Chunk α)) :
    language (front ++ back) = language front * language back := by
  rw [language, List.map_append, List.prod_append]
  rfl

theorem language_singleton (c : Chunk α) : language [c] = c.language := by
  rw [language, List.map_singleton, List.prod_singleton]

theorem mem_concat (pattern : List (Chunk α)) (c : Chunk α) (w : List α) :
    w ∈ language (pattern ++ [c]) ↔
      ∃ front ∈ language pattern, ∃ back ∈ c.language, front ++ back = w := by
  rw [language_append, language_singleton, Language.mem_mul]

theorem mem_concat_exactly (pattern : List (Chunk α)) (a : α) (w : List α) :
    w ∈ language (pattern ++ [.exactly a]) ↔ ∃ front ∈ language pattern, w = front ++ [a] := by
  rw [mem_concat]
  constructor
  · rintro ⟨front, hfront, back, rfl, rfl⟩
    exact ⟨front, hfront, rfl⟩
  · rintro ⟨front, hfront, rfl⟩
    exact ⟨front, hfront, [a], rfl, rfl⟩

theorem mem_concat_one (pattern : List (Chunk α)) (w : List α) :
    w ∈ language (pattern ++ [.one]) ↔ ∃ front ∈ language pattern, ∃ a, w = front ++ [a] := by
  rw [mem_concat]
  constructor
  · rintro ⟨front, hfront, back, ⟨a, rfl⟩, rfl⟩
    exact ⟨front, hfront, a, rfl⟩
  · rintro ⟨front, hfront, a, rfl⟩
    exact ⟨front, hfront, [a], ⟨a, rfl⟩, rfl⟩

theorem mem_concat_any (pattern : List (Chunk α)) (w : List α) :
    w ∈ language (pattern ++ [.any]) ↔ ∃ front ∈ language pattern, ∃ back, w = front ++ back := by
  rw [mem_concat]
  constructor
  · rintro ⟨front, hfront, back, -, rfl⟩
    exact ⟨front, hfront, back, rfl⟩
  · rintro ⟨front, hfront, back, rfl⟩
    exact ⟨front, hfront, back, Set.mem_univ back, rfl⟩

/-- A pattern of given segments stands for itself alone. -/
theorem mem_language_exactly (word w : List α) :
    w ∈ language (word.map Chunk.exactly) ↔ w = word := by
  induction word using List.reverseRecOn generalizing w with
  | nil => exact Set.mem_singleton_iff
  | append_singleton word a ih =>
    rw [List.map_append, List.map_singleton, mem_concat_exactly]
    constructor
    · rintro ⟨front, hfront, rfl⟩
      rw [(ih front).mp hfront]
    · rintro rfl
      exact ⟨word, (ih word).mpr rfl, rfl⟩

/-! ## Inclusions -/

theorem chunk_le_one {c : Chunk α} (h : c ≠ .any) : c.language ≤ Chunk.one.language := by
  intro w hw
  cases c with
  | exactly a => exact ⟨a, hw⟩
  | one => exact hw
  | any => exact absurd rfl h

/-- Any part but one of any length is covered by one segment in its place. -/
theorem concat_le_one (pattern : List (Chunk α)) {c : Chunk α} (h : c ≠ .any) :
    language (pattern ++ [c]) ≤ language (pattern ++ [.one]) := by
  rw [language_append, language_append, language_singleton, language_singleton]
  exact mul_le_mul_right (chunk_le_one h) (language pattern)

/-- Whatever follows is covered by any number of segments in its place. -/
theorem append_le_any (pattern back : List (Chunk α)) :
    language (pattern ++ back) ≤ language (pattern ++ [.any]) := by
  rw [language_append, language_append, language_singleton]
  exact mul_le_mul_right le_top (language pattern)

/-! ## Samples -/

/-- A word of the pattern: one segment becomes the filler and any number becomes none. -/
def sample (filler : α) : List (Chunk α) → List α
  | [] => []
  | .exactly a :: pattern => a :: sample filler pattern
  | .one :: pattern => filler :: sample filler pattern
  | .any :: pattern => sample filler pattern

theorem sample_mem (filler : α) (pattern : List (Chunk α)) :
    sample filler pattern ∈ language pattern := by
  induction pattern with
  | nil => exact Language.nil_mem_one
  | cons c pattern ih =>
    rw [← List.singleton_append, language_append, language_singleton]
    cases c with
    | exactly a => exact Language.append_mem_mul (a := [a]) rfl ih
    | one => exact Language.append_mem_mul (a := [filler]) ⟨filler, rfl⟩ ih
    | any => exact Language.append_mem_mul (a := []) (Set.mem_univ []) ih

theorem mem_sample {filler a : α} {pattern : List (Chunk α)} (h : a ∈ sample filler pattern) :
    a = filler ∨ .exactly a ∈ pattern := by
  induction pattern with
  | nil => exact absurd h List.not_mem_nil
  | cons c pattern ih =>
    cases c with
    | exactly b =>
      rw [sample, List.mem_cons] at h
      obtain rfl | h := h
      · exact .inr List.mem_cons_self
      · exact (ih h).imp_right (List.mem_cons_of_mem _)
    | one =>
      rw [sample, List.mem_cons] at h
      obtain rfl | h := h
      · exact .inl rfl
      · exact (ih h).imp_right (List.mem_cons_of_mem _)
    | any => exact (ih h).imp_right (List.mem_cons_of_mem _)

/-- Two more segments than a pattern has room for, the first another than its last. -/
theorem two_not_mem (pattern : List (Chunk α)) (front : List α) {a b c : α} (h : b ≠ a) :
    front ++ [b, c] ∉ language (pattern ++ [.exactly a] ++ [.one]) := by
  rw [mem_concat_one]
  rintro ⟨front', hfront', c', heq⟩
  rw [mem_concat_exactly] at hfront'
  obtain ⟨front'', -, rfl⟩ := hfront'
  have hsplit : front ++ [b, c] = (front ++ [b]) ++ [c] := by simp
  rw [hsplit] at heq
  have hlast := List.append_inj_left' heq rfl
  exact h (List.cons.inj (List.append_inj_right' hlast rfl)).1

/-! ## A last part that takes something -/

def Chunk.isAny : Chunk α → Bool
  | .any => true
  | _ => false

theorem Chunk.isAny_iff (c : Chunk α) : c.isAny = true ↔ c = .any := by
  cases c <;> simp [isAny]

def nonempty : Language α := {w | w ≠ []}

/-- The words of a pattern where parts of any length at its end do not all take nothing. -/
def strict : List (Chunk α) → Language α
  | [] => 1
  | [.any] => nonempty
  | .any :: c :: pattern => ⊤ * strict (c :: pattern)
  | .exactly a :: pattern => {[a]} * strict pattern
  | .one :: pattern => Chunk.one.language * strict pattern

/-- The parts of any length at the end left out. -/
def core (pattern : List (Chunk α)) : List (Chunk α) := pattern.rdropWhile Chunk.isAny

theorem language_cons (c : Chunk α) (pattern : List (Chunk α)) :
    language (c :: pattern) = c.language * language pattern := by
  rw [← List.singleton_append, language_append, language_singleton]

theorem strict_cons {c : Chunk α} {pattern : List (Chunk α)} (h : c = .any → pattern ≠ []) :
    strict (c :: pattern) = c.language * strict pattern := by
  cases c with
  | exactly a => rw [strict, Chunk.language]
  | one => rw [strict]
  | any =>
    cases pattern with
    | nil => exact absurd rfl (h rfl)
    | cons d pattern => rw [strict, Chunk.language]

/-- Only the empty pattern has the empty word. -/
theorem nil_mem_strict (pattern : List (Chunk α)) : [] ∈ strict pattern ↔ pattern = [] := by
  induction pattern with
  | nil => exact iff_of_true Language.nil_mem_one rfl
  | cons c pattern ih =>
    refine iff_of_false ?_ (List.cons_ne_nil c pattern)
    by_cases hlast : c = .any ∧ pattern = []
    · obtain ⟨rfl, rfl⟩ := hlast
      exact fun h => h rfl
    · rw [strict_cons fun hc hnil => hlast ⟨hc, hnil⟩, Language.mem_mul]
      rintro ⟨front, hfront, back, hback, happend⟩
      obtain ⟨rfl, rfl⟩ := List.append_eq_nil_iff.mp happend
      obtain rfl := ih.mp hback
      cases c with
      | exactly a => exact List.cons_ne_nil a [] (Set.mem_singleton_iff.mp hfront).symm
      | one =>
        obtain ⟨a, ha⟩ := hfront
        exact List.cons_ne_nil a [] ha.symm
      | any => exact hlast ⟨rfl, rfl⟩

theorem strict_of_last {pattern : List (Chunk α)} (h : pattern.getLast? ≠ some .any) :
    strict pattern = language pattern := by
  induction pattern with
  | nil => rfl
  | cons c pattern ih =>
    have hcons : c = .any → pattern ≠ [] := by
      rintro rfl rfl
      exact h rfl
    rw [strict_cons hcons, language_cons]
    cases pattern with
    | nil => rfl
    | cons d pattern => rw [ih (by rwa [List.getLast?_cons_cons] at h)]

theorem strict_replicate (n : Nat) :
    strict (List.replicate (n + 1) (.any : Chunk α)) = nonempty := by
  induction n with
  | zero => rfl
  | succ n ih =>
    have hcons : (.any : Chunk α) = .any → List.replicate (n + 1) (.any : Chunk α) ≠ [] :=
      fun _ => by simp
    rw [List.replicate_succ, strict_cons hcons, ih]
    ext w
    rw [Language.mem_mul]
    constructor
    · rintro ⟨front, -, back, hback, rfl⟩
      exact List.append_ne_nil_of_right_ne_nil front hback
    · intro hw
      exact ⟨[], Set.mem_univ [], w, hw, rfl⟩

theorem strict_append (front : List (Chunk α)) (n : Nat) :
    strict (front ++ List.replicate (n + 1) .any) = language front * nonempty := by
  induction front with
  | nil => rw [List.nil_append, strict_replicate, language, List.map_nil, List.prod_nil, one_mul]
  | cons c front ih =>
    rw [List.cons_append, strict_cons (fun _ => by simp), ih, language_cons, mul_assoc]

theorem mem_language_append (front : List (Chunk α)) (n : Nat) (w : List α) :
    w ∈ language (front ++ List.replicate (n + 1) .any) ↔
      ∃ u ∈ language front, ∃ v, w = u ++ v := by
  induction n with
  | zero => exact mem_concat_any front w
  | succ n ih =>
    rw [List.replicate_succ', ← List.append_assoc, mem_concat_any]
    constructor
    · rintro ⟨middle, hmiddle, back, rfl⟩
      rw [language_append, Language.mem_mul] at hmiddle
      obtain ⟨u, hu, v, -, rfl⟩ := hmiddle
      exact ⟨u, hu, v ++ back, List.append_assoc u v back⟩
    · intro h
      exact ⟨w, ih.mpr h, [], (List.append_nil w).symm⟩

/-- A pattern with a part of any length at its end is its core with some of them. -/
theorem eq_core_append {pattern : List (Chunk α)} (h : pattern.getLast? = some .any) :
    ∃ n, pattern = core pattern ++ List.replicate (n + 1) .any := by
  have hsplit := List.rdropWhile_append_rtakeWhile (p := Chunk.isAny) (l := pattern)
  have hall : ∀ c ∈ pattern.rtakeWhile Chunk.isAny, c = .any := fun c hc =>
    (Chunk.isAny_iff c).mp (List.mem_rtakeWhile_imp hc)
  have hne : pattern.rtakeWhile Chunk.isAny ≠ [] := by
    intro hnil
    rw [List.rtakeWhile_eq_nil_iff] at hnil
    have hpattern : pattern ≠ [] := by
      rintro rfl
      cases h
    rw [List.getLast?_eq_some_getLast hpattern, Option.some.injEq] at h
    exact hnil hpattern ((Chunk.isAny_iff _).mpr h)
  obtain ⟨n, hn⟩ := Nat.exists_eq_succ_of_ne_zero (List.length_pos_iff.mpr hne).ne'
  have hreplicate := List.eq_replicate_of_mem hall
  rw [hn] at hreplicate
  exact ⟨n, by rw [core, ← hreplicate, hsplit]⟩

theorem strict_le (pattern : List (Chunk α)) : strict pattern ≤ language pattern := by
  by_cases hlast : pattern.getLast? = some .any
  · obtain ⟨n, hpattern⟩ := eq_core_append hlast
    rw [hpattern, strict_append]
    rintro w ⟨u, hu, v, -, rfl⟩
    exact (mem_language_append _ n _).mpr ⟨u, hu, v, rfl⟩
  · exact (strict_of_last hlast).le

/-- Strict words are those of a pattern where the core does not need all of the word, if there are parts
of any length at the end. -/
theorem mem_strict_iff (pattern : List (Chunk α)) (w : List α) :
    (w ∈ strict pattern ↔ w ∈ language pattern) ↔
      (pattern.getLast? = some .any → w ∈ language (core pattern) →
        ∃ u ∈ language (core pattern), ∃ v, v ≠ [] ∧ w = u ++ v) := by
  by_cases hlast : pattern.getLast? = some .any
  · obtain ⟨n, hpattern⟩ := eq_core_append hlast
    have hstrict : w ∈ strict pattern ↔
        ∃ u ∈ language (core pattern), ∃ v, v ≠ [] ∧ w = u ++ v := by
      conv_lhs => rw [hpattern]
      rw [strict_append, Language.mem_mul]
      constructor
      · rintro ⟨u, hu, v, hv, rfl⟩
        exact ⟨u, hu, v, hv, rfl⟩
      · rintro ⟨u, hu, v, hv, rfl⟩
        exact ⟨u, hu, v, hv, rfl⟩
    have hlanguage : w ∈ language pattern ↔ ∃ u ∈ language (core pattern), ∃ v, w = u ++ v := by
      conv_lhs => rw [hpattern]
      rw [mem_language_append]
    rw [hstrict, hlanguage]
    constructor
    · intro hsame _ hcore
      exact hsame.mpr ⟨w, hcore, [], (List.append_nil w).symm⟩
    · intro hproper
      constructor
      · rintro ⟨u, hu, v, -, rfl⟩
        exact ⟨u, hu, v, rfl⟩
      · rintro ⟨u, hu, v, rfl⟩
        by_cases hv : v = []
        · subst hv
          exact hproper hlast (by rwa [List.append_nil])
        · exact ⟨u, hu, v, hv, rfl⟩
  · rw [strict_of_last hlast]
    exact iff_of_true Iff.rfl fun h => absurd h hlast

end Genoh.Wildcards
