import Genoh.Strings
import Genoh.Wildcards

/-!
# Key matching in the simulation

`_match_key_expr` of `sim_harness/tools/zenoh_tools.py`, which calls itself on joined strings for
what stands behind a `**`. Set against the language that a pattern denotes.
-/
namespace Genoh.SimulatedMatching

open Genoh.Strings Genoh.Wildcards

/-- `"/".join(parts)`. -/
def join (parts : List Str) : Str := [slash].intercalate parts

/-- The inner loop: the rest of the pattern against what is left of the key, without one segment
more each time. -/
def trySuffixes (matchRest : Str → Option Bool) : List Str → Option Bool
  | [] => some false
  | k :: key =>
    match matchRest (join (k :: key)) with
    | some true => some true
    | some false => trySuffixes matchRest key
    | none => none

/-- The outer loop on the parts that are left, with the function itself for the calls inside. -/
def matchParts (matchKeyExpr : Str → Str → Option Bool) : List Str → List Str → Option Bool
  | p :: pattern, k :: key =>
    if p = str "**" then
      if pattern = [] then some true
      else trySuffixes (matchKeyExpr (join pattern)) (k :: key)
    else if p = str "*" ∨ p = k then matchParts matchKeyExpr pattern key
    else some false
  | pattern, key => some (pattern.isEmpty && key.isEmpty)

/-- `_match_key_expr`, with so many calls on the stack at most. -/
def matchKeyExpr : Nat → Str → Str → Option Bool
  | 0, _, _ => none
  | depth + 1, pattern, key =>
    matchParts (matchKeyExpr depth) (splitSlash pattern) (splitSlash key)

/-! ## What a pattern stands for -/

/-- A part of a pattern: `*` is one segment, `**` any number, and anything else itself. -/
def chunkOf (part : Str) : Chunk Str :=
  if part = str "**" then .any else if part = str "*" then .one else .exactly part

def chunks (pattern : Str) : List (Chunk Str) := (splitSlash pattern).map chunkOf

/-- The segments of the key can be split among the parts of the pattern. -/
def Matches (pattern key : Str) : Prop := splitSlash key ∈ language (chunks pattern)

/-- Parts as they come from a split. -/
def Plain (parts : List Str) : Prop := ∀ part ∈ parts, slash ∉ part

theorem plain_split (s : Str) : Plain (splitSlash s) := fun _ h => slash_not_mem_segment h

theorem splitSlash_join {parts : List Str} (hne : parts ≠ []) (h : Plain parts) :
    splitSlash (join parts) = parts :=
  splitSlash_intercalate hne h

theorem Plain.tail {part : Str} {parts : List Str} (h : Plain (part :: parts)) : Plain parts :=
  fun p hp => h p (List.mem_cons_of_mem part hp)

/-- The call answers, and yes just if `P` holds. -/
def Decides (answer : Option Bool) (P : Prop) : Prop := ∃ b, answer = some b ∧ (b = true ↔ P)

theorem Decides.congr {answer : Option Bool} {P Q : Prop} (h : Decides answer P) (hiff : P ↔ Q) :
    Decides answer Q := by
  obtain ⟨b, hb, hP⟩ := h
  exact ⟨b, hb, hP.trans hiff⟩

/-! ## The loops -/

theorem trySuffixes_decides {matchRest : Str → Option Bool} {P : List Str → Prop} {key : List Str}
    (hkey : Plain key)
    (h : ∀ suffix, suffix ≠ [] → Plain suffix → Decides (matchRest (join suffix)) (P suffix)) :
    Decides (trySuffixes matchRest key) (∃ u v, key = u ++ v ∧ v ≠ [] ∧ P v) := by
  induction key with
  | nil =>
    refine ⟨false, rfl, iff_of_false Bool.false_ne_true ?_⟩
    rintro ⟨u, v, hnil, hv, -⟩
    exact hv (List.append_eq_nil_iff.mp hnil.symm).2
  | cons k key ih =>
    obtain ⟨b, hb, hP⟩ := h (k :: key) (List.cons_ne_nil k key) hkey
    cases b with
    | true =>
      have hanswer : trySuffixes matchRest (k :: key) = some true := by rw [trySuffixes, hb]
      exact ⟨true, hanswer, iff_of_true rfl
        ⟨[], k :: key, rfl, List.cons_ne_nil k key, hP.mp rfl⟩⟩
    | false =>
      have hanswer : trySuffixes matchRest (k :: key) = trySuffixes matchRest key := by
        rw [trySuffixes, hb]
      rw [hanswer]
      refine (ih hkey.tail).congr ?_
      constructor
      · rintro ⟨u, v, rfl, hv, hPv⟩
        exact ⟨k :: u, v, rfl, hv, hPv⟩
      · rintro ⟨u, v, hsplit, hv, hPv⟩
        cases u with
        | nil =>
          rw [List.nil_append] at hsplit
          rw [← hsplit] at hPv
          exact absurd (hP.mpr hPv) Bool.false_ne_true
        | cons c u =>
          rw [List.cons_append, List.cons.injEq] at hsplit
          exact ⟨u, v, hsplit.2, hv, hPv⟩

/-- A part that is not `**` takes the first segment. -/
theorem mem_strict_cons {p : Str} (hp : p ≠ str "**") (pattern : List (Chunk Str)) (k : Str)
    (key : List Str) :
    k :: key ∈ strict (chunkOf p :: pattern) ↔ (p = str "*" ∨ p = k) ∧ key ∈ strict pattern := by
  rw [chunkOf, if_neg hp]
  by_cases hstar : p = str "*"
  · rw [if_pos hstar, strict, Language.mem_mul]
    constructor
    · rintro ⟨front, ⟨a, rfl⟩, back, hback, hsplit⟩
      rw [List.singleton_append, List.cons.injEq] at hsplit
      exact ⟨.inl hstar, hsplit.2 ▸ hback⟩
    · rintro ⟨-, hkey⟩
      exact ⟨[k], ⟨k, rfl⟩, key, hkey, rfl⟩
  · rw [if_neg hstar, strict, Language.mem_mul]
    constructor
    · rintro ⟨front, hfront, back, hback, hsplit⟩
      obtain rfl := Set.mem_singleton_iff.mp hfront
      rw [List.singleton_append, List.cons.injEq] at hsplit
      exact ⟨.inr hsplit.1, hsplit.2 ▸ hback⟩
    · rintro ⟨hsame, hkey⟩
      obtain rfl := hsame.resolve_left hstar
      exact ⟨[p], Set.mem_singleton [p], key, hkey, rfl⟩

/-- A `**` with more of the pattern behind it takes a front that leaves something. -/
theorem mem_strict_any {pattern : List (Chunk Str)} (hne : pattern ≠ []) (key : List Str) :
    key ∈ strict (.any :: pattern) ↔ ∃ u v, key = u ++ v ∧ v ≠ [] ∧ v ∈ strict pattern := by
  rw [strict_cons (fun _ => hne), Language.mem_mul]
  constructor
  · rintro ⟨u, -, v, hv, rfl⟩
    refine ⟨u, v, rfl, ?_, hv⟩
    rintro rfl
    exact hne ((nil_mem_strict pattern).mp hv)
  · rintro ⟨u, v, rfl, -, hv⟩
    exact ⟨u, Set.mem_univ u, v, hv, rfl⟩

theorem matchParts_decides {call : Str → Str → Option Bool} {depth : Nat}
    (hcall : ∀ pattern key, pattern ≠ [] → key ≠ [] → Plain pattern → Plain key →
      pattern.length ≤ depth →
        Decides (call (join pattern) (join key)) (key ∈ strict (pattern.map chunkOf)))
    {pattern key : List Str} (hpattern : Plain pattern) (hkey : Plain key)
    (hdepth : pattern.length ≤ depth + 1) :
    Decides (matchParts call pattern key) (key ∈ strict (pattern.map chunkOf)) := by
  induction pattern generalizing key with
  | nil =>
    refine ⟨key.isEmpty, by cases key <;> rfl, ?_⟩
    rw [List.isEmpty_iff]
    exact Iff.rfl
  | cons p pattern ih =>
    cases key with
    | nil =>
      refine ⟨false, rfl, iff_of_false Bool.false_ne_true ?_⟩
      rw [nil_mem_strict]
      exact List.cons_ne_nil _ _
    | cons k key =>
      rw [matchParts, List.map_cons]
      by_cases hany : p = str "**"
      · rw [if_pos hany, chunkOf, if_pos hany]
        by_cases hlast : pattern = []
        · rw [if_pos hlast, hlast]
          exact ⟨true, rfl, iff_of_true rfl (List.cons_ne_nil k key)⟩
        · rw [if_neg hlast]
          have hne : pattern.map chunkOf ≠ [] := fun h => hlast (List.map_eq_nil_iff.mp h)
          refine (trySuffixes_decides hkey fun suffix hsuffix hplain => ?_).congr
            (mem_strict_any hne (k :: key)).symm
          exact hcall pattern suffix hlast hsuffix hpattern.tail hplain (Nat.le_of_succ_le_succ hdepth)
      · rw [if_neg hany]
        by_cases hsame : p = str "*" ∨ p = k
        · rw [if_pos hsame]
          refine (ih hpattern.tail hkey.tail (Nat.le_of_succ_le hdepth)).congr ?_
          rw [mem_strict_cons hany]
          exact (and_iff_right hsame).symm
        · rw [if_neg hsame]
          refine ⟨false, rfl, iff_of_false Bool.false_ne_true ?_⟩
          rw [mem_strict_cons hany]
          exact fun h => hsame h.1

/-- Every call takes a part of the pattern off, so the depth that a pattern needs is bounded. -/
theorem matchKeyExpr_decides (depth : Nat) {pattern key : List Str} (hpattern : pattern ≠ [])
    (hkey : key ≠ []) (hp : Plain pattern) (hk : Plain key) (hdepth : pattern.length ≤ depth) :
    Decides (matchKeyExpr depth (join pattern) (join key)) (key ∈ strict (pattern.map chunkOf)) := by
  induction depth generalizing pattern key with
  | zero => exact absurd (List.length_eq_zero_iff.mp (Nat.le_zero.mp hdepth)) hpattern
  | succ depth ih =>
    rw [matchKeyExpr, splitSlash_join hpattern hp, splitSlash_join hkey hk]
    exact matchParts_decides (fun _ _ h₁ h₂ h₃ h₄ h₅ => ih h₁ h₂ h₃ h₄ h₅) hp hk hdepth

/-- The function returns this, as soon as the stack has room for a call a part of the pattern. -/
def Returns (pattern key : Str) (result : Bool) : Prop :=
  ∀ depth, (splitSlash pattern).length ≤ depth → matchKeyExpr depth pattern key = some result

theorem returns_strict (pattern key : Str) :
    ∃ result, Returns pattern key result ∧
      (result = true ↔ splitSlash key ∈ strict (chunks pattern)) := by
  have hcall : ∀ depth, (splitSlash pattern).length ≤ depth →
      Decides (matchKeyExpr depth pattern key) (splitSlash key ∈ strict (chunks pattern)) := by
    intro depth hdepth
    cases depth with
    | zero =>
      exact absurd (List.length_eq_zero_iff.mp (Nat.le_zero.mp hdepth))
        (List.splitOn_ne_nil slash pattern)
    | succ depth =>
      exact matchParts_decides (fun _ _ => matchKeyExpr_decides depth) (plain_split pattern)
        (plain_split key) hdepth
  obtain ⟨result, -, hresult⟩ := hcall _ (Nat.le_refl _)
  refine ⟨result, fun depth hdepth => ?_, hresult⟩
  obtain ⟨b, hb, hb'⟩ := hcall depth hdepth
  rw [hb, Bool.eq_iff_iff.mpr (hb'.trans hresult.symm)]

/-- Matching always comes to an end, and a key that it takes does match. What matches is taken just when a
`**` at the end of the pattern, if there is one, has a segment to take, or need have: the whole key is
no match for the pattern without it, or a front of the key is one too. -/
theorem match_key_expr_iff (pattern key : Str) :
    ∃ result, Returns pattern key result ∧ (result = true → Matches pattern key) ∧
      ((result = true ↔ Matches pattern key) ↔
        ((chunks pattern).getLast? = some .any →
          splitSlash key ∈ language (core (chunks pattern)) →
            ∃ front ∈ language (core (chunks pattern)), ∃ rest, rest ≠ [] ∧
              splitSlash key = front ++ rest)) := by
  obtain ⟨result, hreturns, hresult⟩ := returns_strict pattern key
  refine ⟨result, hreturns, fun h => strict_le _ (hresult.mp h), ?_⟩
  rw [hresult]
  exact mem_strict_iff (chunks pattern) (splitSlash key)

def WildcardFree (key : Str) : Prop := ofChar '*' ∉ key

/-- A `**` at the end takes no segment of the key where the rest of the pattern took all. -/
theorem match_misses_empty_tail :
    ¬ ∀ pattern key : Str, WildcardFree key → ∃ result, Returns pattern key result ∧
      (result = true ↔ Matches pattern key) := by
  intro hall
  have hfree : WildcardFree (str "a") := show ofChar '*' ∉ str "a" by decide
  obtain ⟨result, hreturns, hresult⟩ := hall (str "a/**") (str "a") hfree
  have hsplit : splitSlash (str "a") = [str "a"] := by decide
  have hchunks : chunks (str "a/**") = [.exactly (str "a")] ++ [.any] := by decide
  have hmatches : Matches (str "a/**") (str "a") := by
    rw [Matches, hsplit, hchunks, mem_concat_any]
    exact ⟨[str "a"], by rw [language_singleton]; rfl, [], rfl⟩
  have hcode : matchKeyExpr 2 (str "a/**") (str "a") = some false := by decide
  have hsame := (hreturns 2 (by decide)).symm.trans hcode
  rw [Option.some.injEq] at hsame
  rw [hsame] at hresult
  exact Bool.false_ne_true (hresult.mpr hmatches)

end Genoh.SimulatedMatching
