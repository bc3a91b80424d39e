import Mathlib.Data.List.Induction

/-!
# Histories of keyed values

The last value that the events of a history give to a key.
-/
namespace Genoh.History

variable {Event K V : Type*} [DecidableEq K]

/-- The value that the last event about the key gives to it. -/
def lastOf (about : Event → Option (K × V)) (history : List Event) (key : K) : Option V :=
  history.reverse.findSome? fun e => (about e).bind fun (k, v) => if k = key then some v else none

variable {about : Event → Option (K × V)}

@[simp] theorem lastOf_nil (key : K) : lastOf about [] key = none := rfl

theorem lastOf_append (front back : List Event) (key : K) :
    lastOf about (front ++ back) key = (lastOf about back key).or (lastOf about front key) := by
  rw [lastOf, List.reverse_append, List.findSome?_append]
  rfl

theorem lastOf_concat (history : List Event) (e : Event) (key : K) :
    lastOf about (history ++ [e]) key =
      ((about e).bind fun (k, v) => if k = key then some v else none).or (lastOf about history key) := by
  rw [lastOf, List.reverse_append, List.reverse_singleton, List.singleton_append, List.findSome?_cons]
  cases (about e).bind fun (k, v) => if k = key then some v else none with
  | none => rfl
  | some v => rfl

/-- An event about nothing changes nothing. -/
theorem lastOf_concat_none (history : List Event) {e : Event} (h : about e = none) (key : K) :
    lastOf about (history ++ [e]) key = lastOf about history key := by
  rw [lastOf_concat, h]
  rfl

/-- An event about one key gives it its value and leaves the others their last one. -/
theorem lastOf_concat_some (history : List Event) {e : Event} {k : K} {v : V}
    (h : about e = some (k, v)) (key : K) :
    lastOf about (history ++ [e]) key = if key = k then some v else lastOf about history key := by
  rw [lastOf_concat, h]
  by_cases hkey : key = k
  · simp [hkey]
  · simp [hkey, Ne.symm hkey]

end Genoh.History
