import Mathlib.Data.List.Nodup
import Mathlib.Logic.Equiv.Basic
import Mathlib.Order.Nat
import Mathlib.Tactic.Common

/-!
# Binary heaps

A heap in the cells of an array, the root first and the children of a cell behind each other, by a
key that is looked up whenever two elements are compared.
-/
namespace Genoh.BinaryHeap

variable {α : Type*} (key : α → Nat)

structure Heap (α : Type*) where
  buffer : Nat → α
  size : Nat

def parent (i : Nat) : Nat := (i - 1) / 2

def swap (b : Nat → α) (i j : Nat) : Nat → α := b ∘ Equiv.swap i j

theorem parent_lt {i : Nat} (h : 0 < i) : parent i < i := by
  unfold parent
  omega

def siftUp (b : Nat → α) (i : Nat) : Nat → α :=
  if _h : 0 < i then
    if key (b i) < key (b (parent i)) then siftUp (swap b (parent i) i) (parent i) else b
  else b
termination_by i
decreasing_by exact parent_lt _h

/-- The child, if it is there and less. -/
def lesser (b : Nat → α) (size i child : Nat) : Nat :=
  if child < size ∧ key (b child) < key (b i) then child else i

/-- The least of a cell and its children. -/
def best (b : Nat → α) (size i : Nat) : Nat :=
  lesser key b size (lesser key b size i (2 * i + 1)) (2 * i + 2)

theorem lesser_cases (b : Nat → α) (size i child : Nat) :
    lesser key b size i child = i ∨
      (lesser key b size i child = child ∧ child < size) ∧ key (b child) < key (b i) := by
  unfold lesser
  split
  · rename_i h
    exact .inr ⟨⟨rfl, h.1⟩, h.2⟩
  · exact .inl rfl

theorem lesser_le (b : Nat → α) (size i child : Nat) :
    key (b (lesser key b size i child)) ≤ key (b i) := by
  obtain h | ⟨⟨h, -⟩, hless⟩ := lesser_cases key b size i child
  · rw [h]
  · rw [h]
    exact hless.le

theorem lesser_le_child (b : Nat → α) {size : Nat} (i : Nat) {child : Nat} (h : child < size) :
    key (b (lesser key b size i child)) ≤ key (b child) := by
  unfold lesser
  split
  · exact le_rfl
  · rename_i hnot
    exact Nat.not_lt.mp fun hless => hnot ⟨h, hless⟩

theorem parent_left (i : Nat) : parent (2 * i + 1) = i := by
  unfold parent
  omega

theorem parent_right (i : Nat) : parent (2 * i + 2) = i := by
  unfold parent
  omega

theorem best_cases (b : Nat → α) (size i : Nat) :
    best key b size i = i ∨
      (best key b size i < size ∧ 0 < best key b size i ∧ parent (best key b size i) = i) ∧
        key (b (best key b size i)) < key (b i) := by
  have hfirst := lesser_cases key b size i (2 * i + 1)
  unfold best
  obtain h | ⟨⟨h, hsize⟩, hless⟩ :=
    lesser_cases key b size (lesser key b size i (2 * i + 1)) (2 * i + 2)
  · rw [h]
    obtain h' | ⟨⟨h', hsize⟩, hless⟩ := hfirst
    · exact .inl h'
    · rw [h']
      exact .inr ⟨⟨hsize, Nat.succ_pos _, parent_left i⟩, hless⟩
  · rw [h]
    exact .inr ⟨⟨hsize, Nat.succ_pos _, parent_right i⟩, hless.trans_le (lesser_le key b size i _)⟩

/-- No child is less than the best. -/
theorem best_le (b : Nat → α) {size i j : Nat} (hj : 0 < j) (hsize : j < size)
    (hparent : parent j = i) : key (b (best key b size i)) ≤ key (b j) := by
  have hchild : j = 2 * i + 1 ∨ j = 2 * i + 2 := by
    unfold parent at hparent
    omega
  obtain rfl | rfl := hchild
  · exact (lesser_le key b size _ _).trans (lesser_le_child key b i hsize)
  · exact lesser_le_child key b _ hsize

def siftDown (b : Nat → α) (size i : Nat) : Nat → α :=
  if best key b size i = i then b
  else siftDown (swap b i (best key b size i)) size (best key b size i)
termination_by size - i
decreasing_by
  obtain hbest | ⟨⟨hsize, hpos, hparent⟩, -⟩ := best_cases key b size i
  · contradiction
  · have hlt := parent_lt hpos
    omega

namespace Heap

def push (h : Heap α) (elem : α) : Heap α where
  buffer := siftUp key (Function.update h.buffer h.size elem) h.size
  size := h.size + 1

/-- The heap without its root. -/
def pop (h : Heap α) : Heap α where
  buffer :=
    if 0 < h.size - 1 then
      siftDown key (Function.update h.buffer 0 (h.buffer (h.size - 1))) (h.size - 1) 0
    else h.buffer
  size := h.size - 1

def items (h : Heap α) : List α := (List.range h.size).map h.buffer

end Heap

/-! ## What is in a heap -/

theorem swap_perm (b : Nat → α) {n i j : Nat} (hi : i < n) (hj : j < n) :
    ((List.range n).map (swap b i j)).Perm ((List.range n).map b) := by
  have hrange : ((List.range n).map (Equiv.swap i j)).Perm (List.range n) := by
    have hnodup := (List.nodup_range (n := n)).map (Equiv.swap i j).injective
    refine (List.perm_ext_iff_of_nodup hnodup List.nodup_range).mpr fun k => ?_
    rw [List.mem_map, List.mem_range]
    constructor
    · rintro ⟨m, hm, rfl⟩
      rw [List.mem_range] at hm
      rw [Equiv.swap_apply_def]
      split
      · exact hj
      · split
        · exact hi
        · exact hm
    · intro hk
      refine ⟨Equiv.swap i j k, ?_, Equiv.swap_apply_self i j k⟩
      rw [List.mem_range, Equiv.swap_apply_def]
      split
      · exact hj
      · split
        · exact hi
        · exact hk
  have hmap := hrange.map b
  rwa [List.map_map] at hmap

theorem siftUp_perm (b : Nat → α) {n i : Nat} (hi : i < n) :
    ((List.range n).map (siftUp key b i)).Perm ((List.range n).map b) := by
  fun_induction siftUp key b i with
  | case1 b i hpos hless ih =>
    have hparent := (parent_lt hpos).trans hi
    exact (ih hparent).trans (swap_perm b hparent hi)
  | case2 b i hpos hless => exact .refl _
  | case3 b i hzero => exact .refl _

theorem siftDown_perm (b : Nat → α) {n i : Nat} (hi : i < n) :
    ((List.range n).map (siftDown key b n i)).Perm ((List.range n).map b) := by
  fun_induction siftDown key b n i with
  | case1 b i hbest => exact .refl _
  | case2 b i hbest ih =>
    obtain hsame | ⟨⟨hsize, -, -⟩, -⟩ := best_cases key b n i
    · exact absurd hsame hbest
    · exact (ih hsize).trans (swap_perm b hi hsize)

theorem map_range_congr {b b' : Nat → α} {n : Nat} (h : ∀ k < n, b k = b' k) :
    (List.range n).map b = (List.range n).map b' :=
  List.map_congr_left fun k hk => h k (List.mem_range.mp hk)

theorem push_perm (h : Heap α) (elem : α) : (h.push key elem).items.Perm (elem :: h.items) := by
  have hfront : (List.range h.size).map (Function.update h.buffer h.size elem) = h.items :=
    map_range_congr fun k hk => Function.update_of_ne hk.ne _ _
  have hall : (List.range (h.size + 1)).map (Function.update h.buffer h.size elem) =
      h.items ++ [elem] := by
    rw [List.range_succ, List.map_append, hfront, List.map_singleton, Function.update_self]
  refine (siftUp_perm key _ (Nat.lt_succ_self h.size)).trans ?_
  rw [hall]
  exact List.perm_append_singleton elem h.items

theorem pop_perm (h : Heap α) (hpos : 0 < h.size) :
    h.items.Perm (h.buffer 0 :: (h.pop key).items) := by
  obtain ⟨n, hn⟩ := Nat.exists_eq_succ_of_ne_zero hpos.ne'
  have hlast : h.size - 1 = n := by omega
  rw [Heap.items, hn]
  change ((List.range (n + 1)).map h.buffer).Perm
    (h.buffer 0 :: (List.range (h.size - 1)).map (h.pop key).buffer)
  rw [Heap.pop, hlast]
  by_cases hmore : 0 < n
  · obtain ⟨m, rfl⟩ := Nat.exists_eq_succ_of_ne_zero hmore.ne'
    rw [if_pos hmore]
    have hroot : (List.range (m + 1)).map (Function.update h.buffer 0 (h.buffer (m + 1))) =
        h.buffer (m + 1) :: (List.range m).map (h.buffer ∘ Nat.succ) := by
      rw [List.range_succ_eq_map, List.map_cons, Function.update_self, List.map_map]
      refine congrArg _ (map_range_congr fun k _ => ?_)
      exact Function.update_of_ne (Nat.succ_ne_zero k) _ _
    have hcells : (List.range (m + 1 + 1)).map h.buffer =
        h.buffer 0 :: ((List.range m).map (h.buffer ∘ Nat.succ) ++ [h.buffer (m + 1)]) := by
      rw [List.range_succ_eq_map, List.map_cons, List.map_map, List.range_succ, List.map_append,
        List.map_singleton]
      rfl
    have hdown := siftDown_perm key (Function.update h.buffer 0 (h.buffer (m + 1))) hmore
    rw [hroot] at hdown
    rw [hcells]
    exact ((List.perm_append_singleton _ _).trans hdown.symm).cons _
  · obtain rfl : n = 0 := by omega
    exact .refl _

/-! ## Order -/

/-- No cell is less than its parent. -/
def Ordered (b : Nat → α) (n : Nat) : Prop :=
  ∀ j, 0 < j → j < n → key (b (parent j)) ≤ key (b j)

theorem root_le {b : Nat → α} {n : Nat} (h : Ordered key b n) (j : Nat) (hj : j < n) :
    key (b 0) ≤ key (b j) := by
  induction j using Nat.strongRecOn with
  | ind j ih =>
    by_cases hzero : j = 0
    · rw [hzero]
    · have hpos := Nat.pos_of_ne_zero hzero
      have hlt := parent_lt hpos
      exact (ih _ hlt (hlt.trans hj)).trans (h j hpos hj)

/-- Only the cell at `i` may be less than its parent, and what is below it is not. -/
structure UpReady (b : Nat → α) (n i : Nat) : Prop where
  others : ∀ j, 0 < j → j < n → j ≠ i → key (b (parent j)) ≤ key (b j)
  below : ∀ j, 0 < j → j < n → parent j = i → 0 < i → key (b (parent i)) ≤ key (b j)

/-- Only the children of the cell at `i` may be less than it, and its parent is not above them. -/
structure DownReady (b : Nat → α) (n i : Nat) : Prop where
  others : ∀ j, 0 < j → j < n → parent j ≠ i → key (b (parent j)) ≤ key (b j)
  below : ∀ j, 0 < j → j < n → parent j = i → 0 < i → key (b (parent i)) ≤ key (b j)

theorem swap_left (b : Nat → α) (i j : Nat) : swap b i j i = b j :=
  congrArg b (Equiv.swap_apply_left i j)

theorem swap_right (b : Nat → α) (i j : Nat) : swap b i j j = b i :=
  congrArg b (Equiv.swap_apply_right i j)

theorem swap_other (b : Nat → α) {i j k : Nat} (hi : k ≠ i) (hj : k ≠ j) : swap b i j k = b k :=
  congrArg b (Equiv.swap_apply_of_ne_of_ne hi hj)

variable {key}

theorem UpReady.swap {b : Nat → α} {n i : Nat} (h : UpReady key b n i) (hpos : 0 < i) (hi : i < n)
    (hless : key (b i) < key (b (parent i))) :
    UpReady key (swap b (parent i) i) n (parent i) := by
  have hup := parent_lt hpos
  constructor
  · intro j hj hsize hne
    by_cases hsame : j = i
    · rw [hsame, swap_left, swap_right]
      exact hless.le
    · rw [swap_other b hne hsame]
      by_cases hchild : parent j = i
      · rw [hchild, swap_right]
        exact h.below j hj hsize hchild hpos
      · by_cases hsibling : parent j = parent i
        · rw [hsibling, swap_left]
          have hother := h.others j hj hsize hsame
          rw [hsibling] at hother
          exact hless.le.trans hother
        · rw [swap_other b hsibling hchild]
          exact h.others j hj hsize hsame
  · intro j hj hsize hparent hroot
    have hgrand := parent_lt hroot
    rw [swap_other b hgrand.ne (hgrand.trans hup).ne]
    have habove := h.others (parent i) hroot (hup.trans hi) hup.ne
    by_cases hsame : j = i
    · rwa [hsame, swap_right]
    · have hchild := parent_lt hj
      rw [swap_other b (by omega) hsame]
      have hother := h.others j hj hsize hsame
      rw [hparent] at hother
      exact habove.trans hother

theorem siftUp_ordered {b : Nat → α} {n i : Nat} (h : UpReady key b n i) (hi : i < n) :
    Ordered key (siftUp key b i) n := by
  fun_induction siftUp key b i with
  | case1 b i hpos hless ih => exact ih (h.swap hpos hi hless) ((parent_lt hpos).trans hi)
  | case2 b i hpos hless =>
    intro j hj hsize
    by_cases hsame : j = i
    · rw [hsame]
      exact Nat.not_lt.mp hless
    · exact h.others j hj hsize hsame
  | case3 b i hzero => exact fun j hj hsize => h.others j hj hsize (by omega)

theorem DownReady.swap {b : Nat → α} {n i c : Nat} (h : DownReady key b n i) (hpos : 0 < c)
    (hc : c < n) (hparent : parent c = i) (hless : key (b c) < key (b i))
    (hleast : ∀ j, 0 < j → j < n → parent j = i → key (b c) ≤ key (b j)) :
    DownReady key (swap b i c) n c := by
  have hdown : i < c := hparent ▸ parent_lt hpos
  constructor
  · intro j hj hsize hne
    by_cases hsame : j = c
    · rw [hsame, hparent, swap_left, swap_right]
      exact hless.le
    · by_cases hself : j = i
      · have hup := parent_lt hj
        rw [hself] at hj hup ⊢
        rw [swap_left, swap_other b hup.ne (hup.trans hdown).ne]
        exact h.below c hpos hc hparent hj
      · rw [swap_other b hself hsame]
        by_cases hsibling : parent j = i
        · rw [hsibling, swap_left]
          exact hleast j hj hsize hsibling
        · rw [swap_other b hsibling hne]
          exact h.others j hj hsize hsibling
  · intro j hj hsize hchild _
    have hlow := parent_lt hj
    rw [hparent, swap_left, swap_other b (by omega) (by omega)]
    have hother := h.others j hj hsize (by omega)
    rwa [hchild] at hother

theorem siftDown_ordered {b : Nat → α} {n i : Nat} (h : DownReady key b n i) :
    Ordered key (siftDown key b n i) n := by
  fun_induction siftDown key b n i with
  | case1 b i hbest =>
    intro j hj hsize
    by_cases hchild : parent j = i
    · have hleast := best_le key b hj hsize hchild
      rw [hbest] at hleast
      rwa [hchild]
    · exact h.others j hj hsize hchild
  | case2 b i hbest ih =>
    obtain hsame | ⟨⟨hsize, hpos, hparent⟩, hless⟩ := best_cases key b n i
    · exact absurd hsame hbest
    · exact ih (h.swap hpos hsize hparent hless fun j => best_le key b)

theorem push_ordered {h : Heap α} (hordered : Ordered key h.buffer h.size) (elem : α) :
    Ordered key (h.push key elem).buffer (h.push key elem).size := by
  refine siftUp_ordered ⟨?_, ?_⟩ (Nat.lt_succ_self h.size)
  · intro j hj hsize hne
    change j < h.size + 1 at hsize
    have hin : j < h.size := by omega
    have hup := (parent_lt hj).trans hin
    rw [Function.update_of_ne hne, Function.update_of_ne hup.ne]
    exact hordered j hj hin
  · intro j hj hsize hparent _
    change j < h.size + 1 at hsize
    have hup := parent_lt hj
    omega

theorem pop_ordered {h : Heap α} (hordered : Ordered key h.buffer h.size) :
    Ordered key (h.pop key).buffer (h.pop key).size := by
  rw [Heap.pop]
  by_cases hmore : 0 < h.size - 1
  · rw [if_pos hmore]
    refine siftDown_ordered ⟨?_, fun j _ _ _ hroot => absurd hroot (Nat.lt_irrefl 0)⟩
    intro j hj hsize hparent
    rw [Function.update_of_ne hparent, Function.update_of_ne hj.ne']
    exact hordered j hj (by omega)
  · rw [if_neg hmore]
    intro j hj hsize
    change j < h.size - 1 at hsize
    omega

/-- Only the keys of what is in the heap matter. -/
theorem Ordered.congr {key' : α → Nat} {h : Heap α} (hordered : Ordered key h.buffer h.size)
    (hkeys : ∀ a ∈ h.items, key' a = key a) : Ordered key' h.buffer h.size := by
  have hcell : ∀ j < h.size, key' (h.buffer j) = key (h.buffer j) := fun j hj =>
    hkeys _ (List.mem_map_of_mem (List.mem_range.mpr hj))
  intro j hj hsize
  rw [hcell j hsize, hcell _ ((parent_lt hj).trans hsize)]
  exact hordered j hj hsize

end Genoh.BinaryHeap
