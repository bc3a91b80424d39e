import Mathlib.Data.List.DropRight

/-!
# The last elements of a list

`List.rtake` under the operations that grow a list at its end and map over it.
-/
namespace Genoh.LastElements

variable {α β : Type}

theorem length_rtake (l : List α) (n : Nat) : (l.rtake n).length = min l.length n := by
  rw [List.rtake, List.length_drop]
  omega

theorem rtake_suffix (l : List α) (n : Nat) : l.rtake n <:+ l := List.drop_suffix _ _

theorem rtake_map (f : α → β) (l : List α) (n : Nat) : (l.map f).rtake n = (l.rtake n).map f := by
  rw [List.rtake, List.rtake, List.length_map, List.map_drop]

theorem rtake_of_length_le {l : List α} {n : Nat} (h : l.length ≤ n) : l.rtake n = l := by
  rw [List.rtake, Nat.sub_eq_zero_of_le h, List.drop_zero]

theorem rtake_min (l : List α) (n : Nat) : l.rtake (min n l.length) = l.rtake n := by
  rw [List.rtake, List.rtake]
  congr 1
  omega

/-- The end of a list is that of every list it ends. -/
theorem rtake_append_of_le (old l : List α) {n : Nat} (h : n ≤ l.length) :
    (old ++ l).rtake n = l.rtake n := by
  have hdrop : old.length + l.length - n = old.length + (l.length - n) := by omega
  rw [List.rtake, List.rtake, List.length_append, hdrop, List.drop_length_add_append]

/-- The latest ones of the latest ones and a further one. -/
theorem rtake_concat_rtake (l : List α) (a : α) (n : Nat) :
    (l.rtake n ++ [a]).rtake n = (l ++ [a]).rtake n := by
  cases n with
  | zero => simp
  | succ n =>
    rw [List.rtake_concat_succ, List.rtake_concat_succ]
    congr 1
    rw [List.rtake, List.rtake, List.rtake, List.length_drop, List.drop_drop]
    congr 1
    omega

/-- An end that is long enough has the last elements. -/
theorem rtake_subset {l latest : List α} (h : latest <:+ l) {n : Nat}
    (hlength : min l.length n ≤ latest.length) : l.rtake n ⊆ latest := by
  obtain ⟨old, rfl⟩ := h
  rw [List.length_append] at hlength
  rw [List.rtake, List.length_append, List.drop_append,
    List.drop_eq_nil_of_le (show old.length ≤ old.length + latest.length - n by omega), List.nil_append]
  exact List.drop_subset _ _

end Genoh.LastElements
