import Mathlib.Data.List.Nodup

/-!
# Dictionaries in insertion order

Key-value pairs with distinct keys. Setting a known key keeps its place, a new key goes
to the end.
-/
namespace Genoh.OrderedDict

variable {K V : Type*} [DecidableEq K]

/-- The pairs after `d[key] = value`. -/
def setPairs : List (K × V) → K → V → List (K × V)
  | [], key, value => [(key, value)]
  | (k, v) :: rest, key, value =>
    if k = key then (k, value) :: rest else (k, v) :: setPairs rest key value

theorem mem_keys_setPairs (pairs : List (K × V)) (key : K) (value : V) (k : K) :
    k ∈ (setPairs pairs key value).map Prod.fst ↔ k = key ∨ k ∈ pairs.map Prod.fst := by
  induction pairs with
  | nil => simp [setPairs]
  | cons pair rest ih =>
    obtain ⟨k', v'⟩ := pair
    rw [setPairs]
    split
    · rename_i heq
      subst heq
      simp
    · rw [List.map_cons, List.mem_cons, ih, List.map_cons, List.mem_cons]
      tauto

theorem nodup_setPairs (pairs : List (K × V)) (key : K) (value : V)
    (h : (pairs.map Prod.fst).Nodup) : ((setPairs pairs key value).map Prod.fst).Nodup := by
  induction pairs with
  | nil => simp [setPairs]
  | cons pair rest ih =>
    obtain ⟨k', v'⟩ := pair
    rw [List.map_cons, List.nodup_cons] at h
    rw [setPairs]
    split
    · exact List.nodup_cons.mpr h
    · rename_i hne
      rw [List.map_cons, List.nodup_cons, mem_keys_setPairs]
      exact ⟨not_or.mpr ⟨hne, h.1⟩, ih h.2⟩

theorem mem_of_mem_setPairs {pairs : List (K × V)} {key : K} {value : V} {pair : K × V}
    (h : pair ∈ setPairs pairs key value) : pair = (key, value) ∨ pair ∈ pairs := by
  induction pairs with
  | nil => exact .inl (List.mem_singleton.mp h)
  | cons other rest ih =>
    obtain ⟨k, v⟩ := other
    rw [setPairs] at h
    split at h
    · rename_i hk
      rw [List.mem_cons, hk] at h
      exact h.imp_right (List.mem_cons_of_mem _)
    · rw [List.mem_cons] at h
      obtain rfl | hrest := h
      · exact .inr List.mem_cons_self
      · exact (ih hrest).imp_right (List.mem_cons_of_mem _)

theorem setPairs_of_notMem {pairs : List (K × V)} {key : K} (value : V)
    (h : key ∉ pairs.map Prod.fst) : setPairs pairs key value = pairs ++ [(key, value)] := by
  induction pairs with
  | nil => rfl
  | cons other rest ih =>
    obtain ⟨k, v⟩ := other
    rw [List.map_cons, List.mem_cons, not_or] at h
    rw [setPairs, if_neg (Ne.symm h.1), ih h.2, List.cons_append]

theorem length_setPairs_of_mem {pairs : List (K × V)} {key : K} (value : V)
    (h : key ∈ pairs.map Prod.fst) : (setPairs pairs key value).length = pairs.length := by
  induction pairs with
  | nil => cases h
  | cons other rest ih =>
    obtain ⟨k, v⟩ := other
    rw [setPairs]
    split
    · rfl
    · rename_i hk
      rw [List.map_cons, List.mem_cons] at h
      rw [List.length_cons, List.length_cons, ih (h.resolve_left (Ne.symm hk))]

theorem length_setPairs_le (pairs : List (K × V)) (key : K) (value : V) :
    (setPairs pairs key value).length ≤ pairs.length + 1 := by
  induction pairs with
  | nil => exact Nat.le_refl 1
  | cons other rest ih =>
    obtain ⟨k, v⟩ := other
    rw [setPairs]
    split
    · exact Nat.le_succ _
    · exact Nat.succ_le_succ ih

/-- Keys that are new one after the other are appended in their order. -/
theorem foldl_setPairs {pairs more : List (K × V)} (h : ((pairs ++ more).map Prod.fst).Nodup) :
    more.foldl (fun pairs (key, value) => setPairs pairs key value) pairs = pairs ++ more := by
  induction more generalizing pairs with
  | nil => exact (List.append_nil pairs).symm
  | cons pair more ih =>
    obtain ⟨key, value⟩ := pair
    have hkey : key ∉ pairs.map Prod.fst := fun hmem => by
      rw [List.map_append, List.nodup_append] at h
      exact h.2.2 _ hmem _ (by simp) rfl
    rw [List.foldl_cons]
    simp only [setPairs_of_notMem value hkey]
    rw [ih (by simpa using h), List.append_assoc, List.singleton_append]

variable (K V) in
structure Dict where
  pairs : List (K × V)
  nodup : (pairs.map Prod.fst).Nodup

namespace Dict

def empty : Dict K V := ⟨[], List.nodup_nil⟩

def get? (d : Dict K V) (key : K) : Option V := (d.pairs.find? (·.1 = key)).map Prod.snd

def set (d : Dict K V) (key : K) (value : V) : Dict K V :=
  ⟨setPairs d.pairs key value, nodup_setPairs d.pairs key value d.nodup⟩

/-- `del d[key]`. -/
def erase (d : Dict K V) (key : K) : Dict K V where
  pairs := d.pairs.filter fun p => p.1 ≠ key
  nodup := List.Nodup.sublist (List.filter_sublist.map Prod.fst) d.nodup

omit [DecidableEq K] in
theorem ext_pairs {d d' : Dict K V} (h : d.pairs = d'.pairs) : d = d' := by
  cases d
  cases d'
  cases h
  rfl

theorem mem_pairs_iff (d : Dict K V) (key : K) (value : V) :
    (key, value) ∈ d.pairs ↔ d.get? key = some value := by
  obtain ⟨pairs, hnodup⟩ := d
  change (key, value) ∈ pairs ↔ (pairs.find? (·.1 = key)).map Prod.snd = some value
  induction pairs with
  | nil => simp
  | cons pair rest ih =>
    obtain ⟨k, v⟩ := pair
    rw [List.map_cons, List.nodup_cons] at hnodup
    have ih := ih hnodup.2
    by_cases hk : k = key
    · subst hk
      have hrest : (k, value) ∉ rest := fun hmem =>
        hnodup.1 (List.mem_map.mpr ⟨(k, value), hmem, rfl⟩)
      simp [hrest, eq_comm]
    · rw [List.find?_cons_of_neg (by simpa using hk), ← ih]
      simp [Ne.symm hk]

/-- Setting a known key does not make the dictionary longer. -/
theorem length_set_of_get? {d : Dict K V} {key : K} {old : V} (value : V)
    (h : d.get? key = some old) : (d.set key value).pairs.length = d.pairs.length :=
  length_setPairs_of_mem value (List.mem_map_of_mem ((d.mem_pairs_iff key old).mpr h))

/-- Setting a new key makes the dictionary longer by one. -/
theorem length_set_of_new {d : Dict K V} {key : K} (value : V) (h : d.get? key = none) :
    (d.set key value).pairs.length = d.pairs.length + 1 := by
  have hkey : key ∉ d.pairs.map Prod.fst := by
    intro hmem
    obtain ⟨⟨k, v⟩, hpair, rfl⟩ := List.mem_map.mp hmem
    exact absurd (h.symm.trans ((d.mem_pairs_iff k v).mp hpair)) (by simp)
  change (setPairs d.pairs key value).length = _
  rw [setPairs_of_notMem value hkey, List.length_append, List.length_singleton]

theorem erase_of_new {d : Dict K V} {key : K} (h : d.get? key = none) : d.erase key = d := by
  refine ext_pairs (List.filter_eq_self.mpr fun pair hpair => ?_)
  obtain ⟨k, v⟩ := pair
  refine decide_eq_true ?_
  rintro rfl
  exact absurd (h.symm.trans ((d.mem_pairs_iff k v).mp hpair)) (by simp)

/-- Deleting a known key makes the dictionary shorter by one. -/
theorem length_erase {d : Dict K V} {key : K} {old : V} (h : d.get? key = some old) :
    (d.erase key).pairs.length + 1 = d.pairs.length := by
  obtain ⟨front, back, hpairs⟩ := List.append_of_mem ((d.mem_pairs_iff key old).mpr h)
  have hnodup := d.nodup
  rw [hpairs, List.map_append, List.map_cons] at hnodup
  obtain ⟨hout, -⟩ := List.nodup_cons.mp (List.perm_middle.nodup_iff.mp hnodup)
  rw [List.mem_append, not_or] at hout
  have hkeep : ∀ part : List (K × V), key ∉ part.map Prod.fst →
      part.filter (fun p => p.1 ≠ key) = part := by
    intro part hpart
    refine List.filter_eq_self.mpr fun pair hpair => decide_eq_true ?_
    rintro rfl
    exact hpart (List.mem_map_of_mem hpair)
  have herase : (d.erase key).pairs = front ++ back := by
    change d.pairs.filter _ = _
    rw [hpairs, List.filter_append, hkeep front hout.1, List.filter_cons_of_neg (by simp),
      hkeep back hout.2]
  rw [herase, hpairs, List.length_append, List.length_append, List.length_cons]
  rfl

/-- Every value changed in place. -/
def mapValues (f : V → V) (d : Dict K V) : Dict K V where
  pairs := d.pairs.map fun p => (p.1, f p.2)
  nodup := by simpa [List.map_map, Function.comp_def] using d.nodup

omit [DecidableEq K] in
theorem length_mapValues (f : V → V) (d : Dict K V) :
    (d.mapValues f).pairs.length = d.pairs.length := List.length_map _

theorem get?_mapValues (f : V → V) (d : Dict K V) (key : K) :
    (d.mapValues f).get? key = (d.get? key).map f := by
  rw [get?, get?, mapValues, List.find?_map, Option.map_map, Option.map_map]
  rfl

theorem get?_set (d : Dict K V) (key : K) (value : V) (k : K) :
    (d.set key value).get? k = if k = key then some value else d.get? k := by
  obtain ⟨pairs, hnodup⟩ := d
  have hpairs : ((setPairs pairs key value).find? (·.1 = k)).map Prod.snd =
      if k = key then some value else (pairs.find? (·.1 = k)).map Prod.snd := by
    induction pairs with
    | nil =>
      by_cases hk : k = key
      · simp [setPairs, hk]
      · simp [setPairs, hk, Ne.symm hk]
    | cons pair rest ih =>
      obtain ⟨k', v'⟩ := pair
      have ih := ih (List.nodup_cons.mp hnodup).2
      rw [setPairs]
      by_cases hk' : k' = key
      · rw [if_pos hk']
        by_cases hk : k = key
        · simp [hk', hk]
        · simp [hk', hk, Ne.symm hk]
      · rw [if_neg hk']
        by_cases hk : k' = k
        · have hkey : k ≠ key := hk ▸ hk'
          simp [hk, hkey]
        · rw [List.find?_cons_of_neg (by simpa using hk), ih, List.find?_cons_of_neg (by simpa using hk)]
  exact hpairs

@[simp] theorem get?_set_self (d : Dict K V) (key : K) (value : V) :
    (d.set key value).get? key = some value := by
  rw [get?_set, if_pos rfl]

theorem get?_set_of_ne (d : Dict K V) (key : K) (value : V) (k : K) (h : k ≠ key) :
    (d.set key value).get? k = d.get? k := by
  rw [get?_set, if_neg h]

theorem get?_erase (d : Dict K V) (key k : K) :
    (d.erase key).get? k = if k = key then none else d.get? k := by
  rw [get?, erase, List.find?_filter, get?]
  by_cases hk : k = key
  · rw [if_pos hk, hk]
    simp
  · have hsame : (fun p : K × V => decide (decide (p.1 ≠ key) = true ∧ decide (p.1 = k) = true)) =
        fun p => decide (p.1 = k) := by
      funext p
      by_cases hp : p.1 = k
      · simp [hp, hk]
      · simp [hp]
    rw [if_neg hk, hsame]

end Dict

end Genoh.OrderedDict
