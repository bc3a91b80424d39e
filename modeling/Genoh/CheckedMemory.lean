import Genoh.Checked
import Mathlib.Data.List.GetD

/-!
# Checked memory

Code over arrays as a computation that stops at its first fault: an access outside an array, an
unsigned subtraction below zero, a read of a variable that was not set, a loop that outlives its
budget. A computation that returns a value has made every access it asked for.
-/
namespace Genoh.CheckedMemory

open Genoh.Checked

inductive Fault where
  | outOfBounds | wrapped | unset | endless
  deriving DecidableEq, Repr

variable {α β σ : Type}

/-! ## Accesses -/

/-- `buf[i]` as a value. -/
def load (buf : List α) (i : Nat) : Checked Fault α :=
  match buf[i]? with
  | some v => .ok v
  | none => .error .outOfBounds

/-- `buf[i] = v`. -/
def store (buf : List α) (i : Nat) (v : α) : Checked Fault (List α) :=
  if i < buf.length then .ok (buf.set i v) else .error .outOfBounds

/-- The `n` elements from `off` on. -/
def loadSlice (buf : List α) (off n : Nat) : Checked Fault (List α) :=
  if off + n ≤ buf.length then .ok ((buf.drop off).take n) else .error .outOfBounds

/-- The array with the elements from `off` on replaced. -/
def splice (buf : List α) (off : Nat) (src : List α) : List α :=
  buf.take off ++ src ++ buf.drop (off + src.length)

def storeSlice (buf : List α) (off : Nat) (src : List α) : Checked Fault (List α) :=
  if off + src.length ≤ buf.length then .ok (splice buf off src) else .error .outOfBounds

/-- `memcpy(dst + dstOff, src + srcOff, n)`. -/
def copy (dst : List α) (dstOff : Nat) (src : List α) (srcOff n : Nat) : Checked Fault (List α) := do
  let moved ← loadSlice src srcOff n
  storeSlice dst dstOff moved

/-- An unsigned difference. -/
def minus (a b : Nat) : Checked Fault Nat := if b ≤ a then .ok (a - b) else .error .wrapped

/-- The value of a variable. -/
def get (v : Option α) : Checked Fault α :=
  match v with
  | some a => .ok a
  | none => .error .unset

/-- The loop that steps over the elements with `p`: the index of the first other one. -/
def scan (p : α → Bool) (buf : List α) (i : Nat) : Checked Fault Nat :=
  if h : i < buf.length then
    if p buf[i] then scan p buf (i + 1) else .ok i
  else .error .outOfBounds
termination_by buf.length - i

theorem load_ok (buf : List α) (i : Nat) (d : α) (h : i < buf.length) :
    load buf i = .ok (buf.getD i d) := by
  simp [load, h]

theorem load_drop (buf : List α) (off i : Nat) : load (buf.drop off) i = load buf (off + i) := by
  rw [load, load, List.getElem?_drop]

theorem store_ok (buf : List α) (i : Nat) (v : α) (h : i < buf.length) :
    store buf i v = .ok (buf.set i v) := if_pos h

theorem minus_ok (a b : Nat) (h : b ≤ a) : minus a b = .ok (a - b) := if_pos h

@[simp] theorem get_some (a : α) : get (some a) = .ok a := rfl

theorem loadSlice_ok (buf : List α) (off n : Nat) (h : off + n ≤ buf.length) :
    loadSlice buf off n = .ok ((buf.drop off).take n) := if_pos h

theorem copy_ok (dst : List α) (dstOff : Nat) (src : List α) (srcOff n : Nat)
    (hdst : dstOff + n ≤ dst.length) (hsrc : srcOff + n ≤ src.length) :
    copy dst dstOff src srcOff n = .ok (splice dst dstOff ((src.drop srcOff).take n)) := by
  have hlen : ((src.drop srcOff).take n).length = n := by
    rw [List.length_take, List.length_drop]
    omega
  rw [copy, loadSlice_ok src srcOff n hsrc, ok_bind, storeSlice, if_pos (by rwa [hlen])]

theorem splice_length (buf : List α) (off : Nat) (src : List α)
    (h : off + src.length ≤ buf.length) : (splice buf off src).length = buf.length := by
  simp [splice]
  omega

/-- The scan ends at the first element without `p`, if there is one. -/
theorem scan_ok (p : α → Bool) (buf : List α) (i : Nat) (h : ∃ v ∈ buf.drop i, p v = false) :
    scan p buf i = .ok (i + ((buf.drop i).takeWhile p).length) := by
  fun_induction scan p buf i with
  | case1 i hi hp ih =>
    rw [List.drop_eq_getElem_cons hi] at h ⊢
    rw [ih ?_, List.takeWhile_cons_of_pos hp, List.length_cons]
    · congr 1
      omega
    · obtain ⟨v, hv, hfalse⟩ := h
      obtain rfl | hv := List.mem_cons.mp hv
      · exact absurd (hfalse.symm.trans hp) (by decide)
      · exact ⟨v, hv, hfalse⟩
  | case2 i hi hp =>
    rw [List.drop_eq_getElem_cons hi, List.takeWhile_cons_of_neg hp]
    rfl
  | case3 i hi =>
    rw [List.drop_eq_nil_of_le (Nat.not_lt.mp hi)] at h
    obtain ⟨v, hv, -⟩ := h
    exact absurd hv List.not_mem_nil

/-! ## Arrays filled from the front -/

/-- The array after its front was overwritten. -/
def filled (buf front : List α) : List α := front ++ buf.drop front.length

@[simp] theorem filled_nil (buf : List α) : filled buf [] = buf := rfl

theorem filled_length (buf front : List α) (h : front.length ≤ buf.length) :
    (filled buf front).length = buf.length := by
  simp [filled]
  omega

/-- An array overwritten to its end holds nothing else. -/
theorem filled_full (buf front : List α) (h : buf.length ≤ front.length) :
    filled buf front = front := by
  rw [filled, List.drop_eq_nil_of_le h, List.append_nil]

theorem filled_take (buf front : List α) : (filled buf front).take front.length = front :=
  List.take_left' rfl

/-- A load from the overwritten front. -/
theorem load_filled (buf front : List α) (i : Nat) (d : α) (h : i < front.length) :
    load (filled buf front) i = .ok (front.getD i d) := by
  rw [load_ok _ i d (by simp [filled]; omega), filled, List.getD_append _ _ _ _ h]

/-- A load behind it. -/
theorem load_filled_rest (buf front : List α) (i : Nat) (h : front.length ≤ i) :
    load (filled buf front) i = load buf i := by
  rw [load, load, filled, List.getElem?_append_right h, List.getElem?_drop, Nat.add_sub_cancel' h]

theorem copy_filled (buf front src : List α) (srcOff n : Nat)
    (hdst : front.length + n ≤ buf.length) (hsrc : srcOff + n ≤ src.length) :
    copy (filled buf front) front.length src srcOff n =
      .ok (filled buf (front ++ (src.drop srcOff).take n)) := by
  have hlen : ((src.drop srcOff).take n).length = n := by
    rw [List.length_take, List.length_drop]
    omega
  have hfits : front.length + n ≤ (filled buf front).length := by
    rw [filled_length _ _ (by omega)]
    exact hdst
  have htail : (filled buf front).drop (front.length + n) = buf.drop (front.length + n) := by
    rw [filled, ← List.drop_drop, List.drop_left, List.drop_drop]
  rw [copy_ok _ _ _ _ _ hfits hsrc, splice, filled_take, hlen, htail, filled, List.length_append,
    hlen]

theorem copy_front (buf src : List α) (n : Nat) (hdst : n ≤ buf.length) (hsrc : n ≤ src.length) :
    copy buf 0 src 0 n = .ok (filled buf (src.take n)) := by
  have hcopy := copy_filled buf [] src 0 n (by rw [List.length_nil]; omega) (by omega)
  rwa [filled_nil, List.length_nil, List.drop_zero, List.nil_append] at hcopy

theorem store_filled (buf front : List α) (v : α) (h : front.length < buf.length) :
    store (filled buf front) front.length v = .ok (filled buf (front ++ [v])) := by
  have hlen : front.length < (filled buf front).length := by
    rw [filled_length _ _ (Nat.le_of_lt h)]
    exact h
  rw [store_ok _ _ _ hlen, filled, filled,
    List.set_append_right _ _ (Nat.le_refl _), Nat.sub_self, List.drop_eq_getElem_cons h, List.set_cons_zero,
    List.length_append, List.length_singleton, List.append_assoc, List.singleton_append]

/-! ## Loops -/

/-- A loop whose steps all return, while the invariant holds, is the loop of their values. -/
theorem foldlM_ok {ι : Type} {f : σ → ι → Checked Fault σ} {g : σ → ι → σ} {P : σ → Prop} (is : List ι)
    (s : σ) (start : P s) (step : ∀ s, P s → ∀ i ∈ is, f s i = .ok (g s i) ∧ P (g s i)) :
    is.foldlM f s = .ok (is.foldl g s) ∧ P (is.foldl g s) := by
  induction is generalizing s with
  | nil => exact ⟨rfl, start⟩
  | cons i is ih =>
    obtain ⟨hstep, hnext⟩ := step s start i (List.mem_cons_self ..)
    rw [List.foldlM_cons, hstep, ok_bind, List.foldl_cons]
    exact ih (g s i) hnext fun s hs j hj => step s hs j (List.mem_cons_of_mem i hj)

/-- A loop that overwrites an array from the front, `c` elements a turn. -/
theorem foldlM_filled (c : Nat) {f : List α → Nat → Checked Fault (List α)}
    {g : List α → Nat → List α} (buf : List α) (start n : Nat) (front : List α)
    (hfront : front.length = c * start)
    (step : ∀ front i, start ≤ i → i < start + n → front.length = c * i →
      f (filled buf front) i = .ok (filled buf (front ++ g front i)) ∧
        (g front i).length = c) :
    (List.range' start n).foldlM f (filled buf front) =
      .ok (filled buf ((List.range' start n).foldl (fun front i => front ++ g front i) front)) ∧
    ((List.range' start n).foldl (fun front i => front ++ g front i) front).length =
      c * (start + n) := by
  induction n generalizing start front with
  | zero => exact ⟨rfl, hfront⟩
  | succ n ih =>
    obtain ⟨hstep, hchunk⟩ := step front start (Nat.le_refl _) (by omega) hfront
    have hnext : (front ++ g front start).length = c * (start + 1) := by
      rw [List.length_append, hfront, hchunk, Nat.mul_succ]
    rw [List.range'_succ, List.foldlM_cons, hstep, ok_bind, List.foldl_cons,
      show start + (n + 1) = start + 1 + n by omega]
    exact ih (start + 1) _ hnext fun front i hi hlt => step front i (by omega) (by omega)

end Genoh.CheckedMemory
