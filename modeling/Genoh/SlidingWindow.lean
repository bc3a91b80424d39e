import Mathlib.Data.List.DropRight
import Mathlib.Data.List.Induction
import Mathlib.Data.Vector.Basic
import Genoh.LastElements

/-!
# Sliding windows over a ring

A ring of fixed capacity keeps the latest values pushed into it. A limiter that admits a
time only while fewer than `k` of the latest admitted ones lie in the window before it admits
at most `k` in any window, as long as the ring holds `k` of them.
-/
namespace Genoh.SlidingWindow

/-! ## Rings -/

/-- Slots in a circle, the oldest value at the head. -/
structure Ring (α : Type) (n : Nat) where
  slots : Vector α n
  head : Fin n
  count : Fin (n + 1)

namespace Ring

variable {α : Type} {n : Nat}

/-- The place of the `i`-th oldest value. -/
def slot (r : Ring α n) (i : Nat) : Fin n :=
  ⟨(r.head.val + i) % n, Nat.mod_lt _ (Nat.lt_of_le_of_lt (Nat.zero_le _) r.head.isLt)⟩

/-- The values in the ring, oldest first. -/
def contents (r : Ring α n) : List α := (List.range r.count).map fun i => r.slots[r.slot i]

/-- The value goes behind the youngest one; a full ring loses its oldest. -/
def push (r : Ring α n) (a : α) : Ring α n :=
  let slots := r.slots.set (r.slot r.count) a
  if h : r.count.val < n then { r with slots, count := ⟨r.count.val + 1, by omega⟩ }
  else { r with slots, head := r.slot 1 }

theorem contents_length (r : Ring α n) : r.contents.length = r.count.val := by simp [contents]

/-- Places less than a round apart are different. -/
theorem slot_ne (r : Ring α n) (i j : Nat) (hij : i < j) (hround : j < i + n) :
    r.slot i ≠ r.slot j := by
  intro h
  have hval : (r.head.val + i) % n = (r.head.val + j) % n := congrArg Fin.val h
  have hleft := Nat.div_add_mod (r.head.val + i) n
  have hright := Nat.div_add_mod (r.head.val + j) n
  have hquotient : (r.head.val + i) / n < (r.head.val + j) / n := by
    by_contra hle
    have hmul := Nat.mul_le_mul_left n (Nat.not_lt.mp hle)
    omega
  have hmul := Nat.mul_le_mul_left n hquotient
  rw [Nat.mul_succ] at hmul
  omega

/-- Behind a head that has moved on by one place. -/
theorem slot_moved (r : Ring α n) (slots : Vector α n) (count : Fin (n + 1)) (i : Nat) :
    (Ring.mk slots (r.slot 1) count).slot i = r.slot (i + 1) := by
  apply Fin.ext
  simp only [slot, Nat.mod_add_mod, Nat.add_assoc, Nat.add_comm 1 i]

/-- A write to another place does not reach the value. -/
theorem getElem_set_slot (r : Ring α n) (a : α) (i j : Nat) (h : r.slot j ≠ r.slot i) :
    (r.slots.set (r.slot i) a)[r.slot j] = r.slots[r.slot j] :=
  Vector.getElem_set_ne _ _ fun heq => h (Fin.ext heq.symm)

theorem contents_getElem? (r : Ring α n) (i : Nat) :
    r.contents[i]? = if i < r.count.val then some r.slots[r.slot i] else none := by
  by_cases hi : i < r.count.val
  · simp [contents, hi]
  · rw [if_neg hi, List.getElem?_eq_none (by rw [contents_length]; omega)]

/-- What changes every used slot by one function changes the contents by it. -/
theorem contents_map (r : Ring α n) {slots : Vector α n} {f : α → α}
    (h : ∀ i < r.count.val, slots[r.slot i] = f r.slots[r.slot i]) :
    (Ring.mk slots r.head r.count).contents = r.contents.map f := by
  rw [contents, contents, List.map_map]
  exact List.map_congr_left fun i hi => h i (List.mem_range.mp hi)

theorem push_room (r : Ring α n) (a : α) (h : r.count.val < n) :
    (r.push a).contents = r.contents ++ [a] := by
  have hpush : r.push a = { r with
      slots := r.slots.set (r.slot r.count) a
      count := ⟨r.count.val + 1, by omega⟩ } := dif_pos h
  have hold : ∀ i ∈ List.range r.count, (r.slots.set (r.slot r.count) a)[r.slot i] =
      r.slots[r.slot i] := by
    intro i hi
    have hlt := List.mem_range.mp hi
    exact getElem_set_slot r a r.count i (slot_ne r i r.count hlt (by omega))
  have hnew : (r.slots.set (r.slot r.count) a)[r.slot r.count] = a := Vector.getElem_set_self _
  rw [hpush]
  change (List.range (r.count.val + 1)).map
    (fun i => (r.slots.set (r.slot r.count) a)[r.slot i]) = _
  rw [List.range_succ, List.map_append, List.map_singleton, hnew, List.map_congr_left hold]
  rfl

theorem push_full (r : Ring α n) (a : α) (h : r.count.val = n) :
    (r.push a).contents = r.contents.tail ++ [a] := by
  have hpos : 0 < r.count.val := by
    have hhead := r.head.isLt
    omega
  have hpush : r.push a = { r with
      slots := r.slots.set (r.slot r.count) a
      head := r.slot 1 } := dif_neg (by omega)
  have htail : r.contents.tail.length = r.count.val - 1 := by
    rw [List.length_tail, contents_length]
  apply List.ext_getElem?
  intro i
  rw [contents_getElem?, hpush]
  simp only [slot_moved]
  by_cases hi : i + 1 < r.count.val
  · rw [if_pos (by omega), List.getElem?_append_left (by omega), List.getElem?_tail,
      contents_getElem?, if_pos hi,
      getElem_set_slot r a r.count (i + 1) (slot_ne r (i + 1) r.count hi (by omega))]
  · by_cases hlast : i + 1 = r.count.val
    · have hnew : ∀ j, j = r.count.val → (r.slots.set (r.slot r.count) a)[r.slot j] = a := by
        rintro j rfl
        exact Vector.getElem_set_self _
      rw [if_pos (by omega), hnew (i + 1) hlast, List.getElem?_append_right (by omega), htail,
        show i - (r.count.val - 1) = 0 by omega]
      rfl
    · rw [if_neg (by omega), List.getElem?_eq_none (by
        rw [List.length_append, htail, List.length_singleton]
        omega)]

/-- Pushing keeps the latest `n` values. -/
theorem push_contents (r : Ring α n) (a : α) :
    (r.push a).contents = (r.contents ++ [a]).rtake n := by
  have hlen : (r.contents ++ [a]).length = r.count.val + 1 := by
    rw [List.length_append, contents_length, List.length_singleton]
  rw [List.rtake, hlen]
  by_cases hroom : r.count.val < n
  · rw [push_room r a hroom, Nat.sub_eq_zero_of_le (by omega), List.drop_zero]
  · have hfull : r.count.val = n := by omega
    have hne : 1 ≤ r.contents.length := by
      have hhead := r.head.isLt
      rw [contents_length]
      omega
    rw [push_full r a hfull, show r.count.val + 1 - n = 1 by omega,
      List.drop_append_of_le_length hne, List.drop_one]

end Ring

/-! ## Windows -/

section Windows

variable {times : List Nat}

/-- Each time came with fewer than `k` of the earlier ones in the window of length `w` before it. -/
def Spaced (k w : Nat) (times : List Nat) : Prop :=
  ∀ front t back, times = front ++ t :: back → front.countP (fun s => t ≤ s + w) < k

theorem spaced_nil (k w : Nat) : Spaced k w [] := by
  intro front t back h
  exact absurd h (by simp)

theorem spaced_concat (k w t : Nat) :
    Spaced k w (times ++ [t]) ↔ Spaced k w times ∧ times.countP (fun s => t ≤ s + w) < k := by
  constructor
  · intro h
    constructor
    · rintro front s back rfl
      exact h front s (back ++ [t]) (by simp)
    · exact h times t [] rfl
  · rintro ⟨hspaced, hlast⟩ front s back heq
    cases back using List.reverseRecOn with
    | nil =>
      obtain ⟨rfl, hs⟩ := List.append_inj' heq rfl
      obtain rfl := List.singleton_inj.mp hs
      exact hlast
    | append_singleton back b =>
      rw [← List.cons_append, ← List.append_assoc] at heq
      obtain ⟨rfl, -⟩ := List.append_inj' heq rfl
      exact hspaced front s back rfl

/-- No window of length `w` holds more than `k` of them: the last one in it has seen all the others. -/
theorem spaced_window (k w : Nat) (h : Spaced k w times) (t : Nat) :
    times.countP (fun s => t ≤ s + w ∧ s ≤ t) ≤ k := by
  induction times using List.reverseRecOn with
  | nil => exact Nat.zero_le k
  | append_singleton times last ih =>
    obtain ⟨hspaced, hlast⟩ := (spaced_concat k w last).mp h
    rw [List.countP_append]
    by_cases hin : t ≤ last + w ∧ last ≤ t
    · have hseen : times.countP (fun s => t ≤ s + w ∧ s ≤ t) ≤
          times.countP (fun s => last ≤ s + w) := by
        apply List.countP_mono_left
        intro s _ hs
        simp only [decide_eq_true_eq] at hs ⊢
        omega
      rw [List.countP_singleton, if_pos (by simpa using hin)]
      omega
    · rw [List.countP_singleton, if_neg (by simpa using hin)]
      exact ih hspaced

/-- In order, those that reach the window are the last ones, so the latest `n` show all of them
or `n`. -/
theorem rtake_countP (n w t : Nat) (hsorted : times.Pairwise (· ≤ ·)) :
    (times.rtake n).countP (fun s => t ≤ s + w) = min n (times.countP fun s => t ≤ s + w) := by
  induction times using List.reverseRecOn generalizing n with
  | nil => simp
  | append_singleton times last ih =>
    obtain ⟨hfront, -, hle⟩ := List.pairwise_append.mp hsorted
    cases n with
    | zero => simp
    | succ n =>
      rw [List.rtake_concat_succ, List.countP_append, List.countP_append, ih n hfront]
      by_cases hlast : t ≤ last + w
      · rw [List.countP_singleton, if_pos (by simpa using hlast)]
        omega
      · have hnone : times.countP (fun s => t ≤ s + w) = 0 := by
          rw [List.countP_eq_zero]
          intro s hs
          have hsl := hle s hs last (by simp)
          simp only [decide_eq_true_eq]
          omega
        rw [hnone, List.countP_singleton, if_neg (by simpa using hlast)]
        omega

end Windows

end Genoh.SlidingWindow
