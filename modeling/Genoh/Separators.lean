import Mathlib.Data.List.Infix
import Mathlib.Data.List.TakeWhile

/-!
# Parts between separators

A text over any alphabet and its parts between the places of one letter, the separator.
-/
namespace Genoh.Separators

variable {α : Type*} {sep : α}

theorem intercalate_append {front back : List (List α)} (hfront : front ≠ []) (hback : back ≠ []) :
    [sep].intercalate (front ++ back) =
      [sep].intercalate front ++ sep :: [sep].intercalate back := by
  induction front with
  | nil => exact absurd rfl hfront
  | cons part front ih =>
    cases front with
    | nil =>
      rw [List.singleton_append, List.intercalate_cons_of_ne_nil hback, List.intercalate_singleton,
        List.append_assoc, List.singleton_append]
    | cons next front =>
      have hnext := ih (List.cons_ne_nil next front)
      rw [List.cons_append] at hnext
      rw [List.cons_append, List.cons_append, List.intercalate_cons_cons, hnext,
        List.intercalate_cons_cons, List.append_assoc, List.append_assoc, List.append_assoc]

variable [DecidableEq α]

theorem sep_not_mem_part {text part : List α} (h : part ∈ text.splitOn sep) : sep ∉ part := by
  induction text generalizing part with
  | nil =>
    rw [List.splitOn_nil, List.mem_singleton] at h
    rw [h]
    exact List.not_mem_nil
  | cons c text ih =>
    rw [List.splitOn_cons_eq_if_modifyHead] at h
    split at h
    · rw [List.mem_cons] at h
      obtain rfl | h := h
      · exact List.not_mem_nil
      · exact ih h
    · rename_i hc
      cases hsplit : text.splitOn sep with
      | nil => exact absurd hsplit (List.splitOn_ne_nil sep text)
      | cons first rest =>
        rw [hsplit] at h ih
        rw [List.modifyHead_cons, List.mem_cons] at h
        obtain rfl | h := h
        · rw [List.mem_cons, not_or]
          exact ⟨fun heq => hc (by simp [heq]), ih List.mem_cons_self⟩
        · exact ih (List.mem_cons_of_mem _ h)

/-- The first part of a text is what stands in front of its first separator. -/
theorem splitOn_head (sep : α) (text : List α) :
    ∃ rest, text.splitOn sep = text.takeWhile (· ≠ sep) :: rest := by
  have hclean (front : List α) (hfront : sep ∉ front) :
      ∀ c ∈ front, decide (c ≠ sep) = true := by
    intro c hc
    apply decide_eq_true
    rintro rfl
    exact hfront hc
  by_cases hsep : sep ∈ text
  · obtain ⟨front, back, rfl, hfront⟩ := List.eq_append_cons_of_mem hsep
    have htake : (front ++ sep :: back).takeWhile (· ≠ sep) = front := by
      rw [List.takeWhile_append_of_pos (hclean front hfront)]
      simp
    rw [List.splitOn_append_cons_self_of_not_mem hfront, htake]
    exact ⟨_, rfl⟩
  · have htake : text.takeWhile (· ≠ sep) = text :=
      List.takeWhile_eq_self_iff.mpr (hclean text hsep)
    rw [List.splitOn_eq_singleton hsep, htake]
    exact ⟨_, rfl⟩

theorem splitOn_injective (sep : α) : Function.Injective (List.splitOn sep) := by
  intro text text' h
  have htext := congrArg (List.intercalate [sep]) h
  rwa [List.intercalate_splitOn, List.intercalate_splitOn] at htext

theorem splitOn_map {β : Type*} [DecidableEq β] {f : α → β}
    (hf : Function.Injective f) (a : α) (l : List α) :
    (l.map f).splitOn (f a) = (l.splitOn a).map (List.map f) := by
  induction l with
  | nil => rfl
  | cons x l ih =>
    rw [List.map_cons, List.splitOn_cons_eq_if_modifyHead, List.splitOn_cons_eq_if_modifyHead, ih]
    by_cases hx : x = a
    · simp [hx]
    · have hfx : ¬ f x = f a := fun h => hx (hf h)
      cases hsplit : l.splitOn a with
      | nil => exact absurd hsplit (List.splitOn_ne_nil a l)
      | cons first rest => simp [hx, hfx]

/-- A word stands at the front of a text with a separator behind it where its parts stand at the
front of the parts of the text with a part behind them. -/
theorem splitOn_eq_append_iff {text word : List α} {rest : List (List α)} (hrest : rest ≠ []) :
    text.splitOn sep = word.splitOn sep ++ rest ↔
      ∃ back, text = word ++ sep :: back ∧ back.splitOn sep = rest := by
  constructor
  · intro h
    have hclean : ∀ part ∈ rest, sep ∉ part := by
      intro part hpart
      have hmem : part ∈ text.splitOn sep := by
        rw [h]
        exact List.mem_append_right _ hpart
      exact sep_not_mem_part hmem
    have htext : [sep].intercalate (text.splitOn sep) =
        word ++ sep :: [sep].intercalate rest := by
      rw [h, intercalate_append (List.splitOn_ne_nil sep word) hrest, List.intercalate_splitOn]
    rw [List.intercalate_splitOn] at htext
    exact ⟨_, htext, List.splitOn_intercalate sep hclean hrest⟩
  · rintro ⟨back, rfl, rfl⟩
    exact List.splitOn_append_cons_self word back

/-- What stands behind the first place of these parts that has something behind it. -/
def behindFirst (word : List (List α)) : List (List α) → Option (List (List α))
  | [] => none
  | part :: parts =>
    if word.isPrefixOf (part :: parts) && word.length != (part :: parts).length then
      some ((part :: parts).drop word.length)
    else behindFirst word parts

theorem behindFirst_here (word : List (List α)) {rest : List (List α)} (hrest : rest ≠ []) :
    behindFirst word (word ++ rest) = some rest := by
  have hparts : word ++ rest ≠ [] := List.append_ne_nil_of_right_ne_nil word hrest
  have hlength : word.length ≠ (word ++ rest).length := by
    have hpos := List.length_pos_iff.mpr hrest
    rw [List.length_append]
    omega
  have hprefix : word.isPrefixOf (word ++ rest) = true :=
    List.isPrefixOf_iff_prefix.mpr (List.prefix_append word rest)
  have hdrop : (word ++ rest).drop word.length = rest := List.drop_left
  obtain ⟨part, parts, heq⟩ := List.exists_cons_of_ne_nil hparts
  rw [heq] at hlength hprefix hdrop ⊢
  rw [behindFirst, hprefix, Bool.true_and, if_pos (bne_iff_ne.mpr hlength), hdrop]

theorem behindFirst_later {word : List (List α)} {part : List α} {parts : List (List α)}
    (h : ∀ rest, rest ≠ [] → part :: parts ≠ word ++ rest) :
    behindFirst word (part :: parts) = behindFirst word parts := by
  rw [behindFirst, if_neg]
  rw [Bool.and_eq_true, bne_iff_ne, List.isPrefixOf_iff_prefix]
  rintro ⟨⟨rest, hrest⟩, hlength⟩
  refine h rest ?_ hrest.symm
  rintro rfl
  rw [← hrest, List.append_nil] at hlength
  exact hlength rfl

theorem behindFirst_isSome (word front : List (List α)) {rest : List (List α)} (hrest : rest ≠ []) :
    behindFirst word (front ++ (word ++ rest)) ≠ none := by
  induction front with
  | nil =>
    rw [List.nil_append, behindFirst_here word hrest]
    exact Option.some_ne_none rest
  | cons part front ih =>
    rw [List.cons_append, behindFirst]
    split
    · exact Option.some_ne_none _
    · exact ih

end Genoh.Separators
