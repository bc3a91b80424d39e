import Mathlib.Order.Lattice
import Genoh.Run

/-!
# Guards against replays

A receiver that remembers the last value it accepted and passes only larger ones. Values
come from any linear order.
-/
namespace Genoh.ReplayGuard

open Genoh.Run

variable {α : Type*} [LinearOrder α]

/-- A value is above the last accepted one, if there is one. -/
def Passes (last : Option α) (v : α) : Prop := ∀ l ∈ last, l < v

instance (last : Option α) (v : α) : Decidable (Passes last v) :=
  inferInstanceAs (Decidable (∀ l ∈ last, l < v))

def remember (last : Option α) (v : α) : Option α := if Passes last v then some v else last

@[simp] theorem passes_none (v : α) : Passes none v := nofun

@[simp] theorem passes_some (l v : α) : Passes (some l) v ↔ l < v := by simp [Passes]

/-- All values of a stream pass, in order, exactly when the stream increases strictly. -/
theorem always_passes_iff (last : Option α) (values : List α) :
    Always remember last Passes values ↔
      (∀ v ∈ values, Passes last v) ∧ values.Pairwise (· < ·) := by
  induction values generalizing last with
  | nil => simp [always_nil]
  | cons v values ih =>
    rw [always_cons, List.pairwise_cons, List.forall_mem_cons]
    by_cases hv : Passes last v
    · have hsome : ∀ w ∈ values, v < w → Passes last w :=
        fun w _ hvw l hl => (hv l hl).trans hvw
      rw [remember, if_pos hv, ih]
      simp only [passes_some]
      constructor
      · rintro ⟨-, hall, hpair⟩
        exact ⟨⟨hv, fun w hw => hsome w hw (hall w hw)⟩, hall, hpair⟩
      · rintro ⟨-, hall, hpair⟩
        exact ⟨hv, hall, hpair⟩
    · simp [hv]

/-- In a strictly increasing stream the positions decide which values pass. -/
theorem passes_getElem {values : List α} (h : values.Pairwise (· < ·)) {i j : Nat}
    (hi : i < values.length) (hj : j < values.length) :
    Passes (some values[j]) values[i] ↔ j < i := by
  rw [passes_some]
  constructor
  · intro hlt
    by_contra hle
    obtain hsame | hless := Nat.lt_or_eq_of_le (Nat.not_lt.mp hle)
    · exact absurd (List.pairwise_iff_getElem.mp h i j hi hj hsame) (not_lt_of_gt hlt)
    · subst hless
      exact lt_irrefl _ hlt
  · exact List.pairwise_iff_getElem.mp h j i hj hi

/-- The last value of a strictly increasing list is its greatest. -/
theorem le_getLast {values : List α} (h : values.Pairwise (· < ·)) {v : α} (hv : v ∈ values) :
    ∃ l ∈ values.getLast?, v ≤ l := by
  cases values using List.reverseRecOn with
  | nil => exact absurd hv List.not_mem_nil
  | append_singleton front l =>
    refine ⟨l, by simp, ?_⟩
    obtain hv | hv := List.mem_append.mp hv
    · exact ((List.pairwise_append.mp h).2.2 v hv l (List.mem_singleton_self l)).le
    · exact (List.mem_singleton.mp hv).le

end Genoh.ReplayGuard
