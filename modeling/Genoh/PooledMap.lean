import Genoh.OrderedDict
import Genoh.Run
import Mathlib.Data.List.Perm.Subperm
import Mathlib.Logic.Function.Basic
import Mathlib.Order.Nat
import Mathlib.Tactic.Common

/-!
# The pooled hash map

`collections/hashmap_template.h` of the vendored client: buckets of chains through a fixed pool of
nodes, and a chain of the free ones. The walks along the chains have fuel for a chain through all of
the pool. Where the keys and values that go are destroyed is left out, and `remove`, which the
executor does not use.
-/
namespace Genoh.PooledMap

open Genoh.OrderedDict

variable {K V : Type*} [DecidableEq K]

/-- `INDEX_NONE`, the last value of the index type that the capacity selects. -/
def indexNone (capacity : Nat) : Nat :=
  if capacity ≤ 254 then 255 else if capacity ≤ 65534 then 65535 else 4294967295

/-- What the template is instantiated with: nodes, and as many buckets as `new` can count to. -/
structure Shape (K : Type*) where
  hash : K → Nat
  bucketCount : Nat
  capacity : Nat
  positive : 0 < bucketCount
  counted : bucketCount ≤ indexNone capacity
  nodes : 0 < capacity
  indexed : capacity < indexNone capacity

/-- `_pool`, `_next`, `_buckets`, `_free_head` and `_size`; `INDEX_NONE` is `none`. -/
structure Map (K V : Type*) where
  pool : Nat → Option (K × V)
  next : Nat → Option Nat
  buckets : Nat → Option Nat
  freeHead : Option Nat
  size : Nat

def Shape.bucket (shape : Shape K) (key : K) : Nat := shape.hash key % shape.bucketCount

/-- `new`: no entries, and a chain of all nodes. -/
def Map.new (shape : Shape K) : Map K V where
  pool _ := none
  next i := if i + 1 < shape.capacity then some (i + 1) else none
  buckets _ := none
  freeHead := some 0
  size := 0

/-- The walk of `get_idx` and `insert` along a chain. -/
def walk (m : Map K V) (key : K) : Nat → Option Nat → Option Nat
  | 0, _ => none
  | fuel + 1, idx => idx.bind fun i =>
    if (m.pool i).map Prod.fst = some key then some i else walk m key fuel (m.next i)

namespace Map

variable (shape : Shape K) (m : Map K V)

def getIdx (key : K) : Option Nat :=
  walk m key (shape.capacity + 1) (m.buckets (shape.bucket key))

def get (key : K) : Option V := (m.getIdx shape key).bind fun i => (m.pool i).map Prod.snd

/-- `pool_alloc` and the linking in of `insert`. -/
def link (key : K) (val : V) (i : Nat) : Map K V where
  pool := Function.update m.pool i (some (key, val))
  next := Function.update m.next i (m.buckets (shape.bucket key))
  buckets := Function.update m.buckets (shape.bucket key) (some i)
  freeHead := m.next i
  size := m.size + 1

/-- `insert`: the map and the index of the entry, none where the pool is exhausted. -/
def insert (key : K) (val : V) : Map K V × Option Nat :=
  (m.getIdx shape key).elim
    (m.freeHead.elim (m, none) fun i => (m.link shape key val i, some i))
    fun i => ({ m with pool := Function.update m.pool i (some (key, val)) }, some i)

/-- The value at an index changed in place. -/
def setAt (i : Nat) (f : V → V) : Map K V :=
  { m with pool := Function.update m.pool i ((m.pool i).map fun e => (e.1, f e.2)) }

end Map

/-- The walk of `remove_at`: the node in front of the index, if it is not the first; nothing where
it runs off the chain. -/
def previous (next : Nat → Option Nat) (i : Nat) :
    Nat → Option Nat → Option Nat → Option (Option Nat)
  | 0, _, _ => none
  | fuel + 1, prev, cur =>
    if cur = some i then some prev
    else cur.bind fun c => previous next i fuel (some c) (next c)

/-- The unlinking of `remove_at` and `pool_free`. -/
def Map.unlink (m : Map K V) (bucket i : Nat) (prev : Option Nat) : Map K V where
  pool := Function.update m.pool i none
  next := Function.update
    (prev.elim m.next fun p => Function.update m.next p (m.next i)) i m.freeHead
  buckets := prev.elim (Function.update m.buckets bucket (m.next i)) fun _ => m.buckets
  freeHead := some i
  size := m.size - 1

/-- `remove_at`; nothing where there is no entry at the index. -/
def Map.removeAt (shape : Shape K) (m : Map K V) (i : Nat) : Option (Map K V) :=
  (m.pool i).bind fun e =>
    (previous m.next i (shape.capacity + 1) none (m.buckets (shape.bucket e.1))).map
      (m.unlink (shape.bucket e.1) i)

/-! ## Chains -/

inductive Chain (next : Nat → Option Nat) : Option Nat → List Nat → Prop where
  | done : Chain next none []
  | link (i : Nat) {nodes : List Nat} (rest : Chain next (next i) nodes) :
      Chain next (some i) (i :: nodes)

theorem Chain.first {next : Nat → Option Nat} {start : Option Nat} {i : Nat} {nodes : List Nat}
    (h : Chain next start (i :: nodes)) : start = some i ∧ Chain next (next i) nodes := by
  cases h with
  | link _ rest => exact ⟨rfl, rest⟩

theorem Chain.update {next : Nat → Option Nat} {start : Option Nat} {nodes : List Nat}
    (h : Chain next start nodes) {i : Nat} (hi : i ∉ nodes) (after : Option Nat) :
    Chain (Function.update next i after) start nodes := by
  induction h with
  | done => exact .done
  | link j rest ih =>
    rw [List.mem_cons, not_or] at hi
    refine .link j ?_
    rw [Function.update_of_ne (Ne.symm hi.1)]
    exact ih hi.2

/-- What stands behind a node of a chain. -/
theorem Chain.behind {next : Nat → Option Nat} {start : Option Nat} {front back : List Nat} {i : Nat}
    (h : Chain next start (front ++ i :: back)) : Chain next (next i) back := by
  induction front generalizing start with
  | nil => exact h.first.2
  | cons j front ih => exact ih h.first.2

/-- A chain goes on without a node that the one in front of it no longer points to. -/
theorem Chain.skip {next : Nat → Option Nat} {start : Option Nat} {front back : List Nat} {p i : Nat}
    (h : Chain next start (front ++ p :: i :: back)) (hnodup : (front ++ p :: i :: back).Nodup) :
    Chain (Function.update next p (next i)) start (front ++ p :: back) := by
  induction front generalizing start with
  | nil =>
    obtain ⟨rfl, hrest⟩ := h.first
    rw [List.nil_append, List.nodup_cons, List.mem_cons, not_or] at hnodup
    refine .link p ?_
    rw [Function.update_self]
    exact hrest.first.2.update hnodup.1.2 _
  | cons j front ih =>
    obtain ⟨rfl, hrest⟩ := h.first
    rw [List.cons_append, List.nodup_cons] at hnodup
    have hne : j ≠ p := by
      rintro rfl
      exact hnodup.1 (by simp)
    refine .link j ?_
    rw [Function.update_of_ne hne]
    exact ih hrest hnodup.2

theorem walk_eq_some {m : Map K V} {key : K} {fuel : Nat} {start : Option Nat} {nodes : List Nat}
    (h : Chain m.next start nodes) (hfuel : nodes.length < fuel) (i : Nat) :
    walk m key fuel start = some i →
      i ∈ nodes ∧ (m.pool i).map Prod.fst = some key := by
  induction h generalizing fuel with
  | done =>
    cases fuel with
    | zero => exact fun hwalk => absurd hwalk (by simp [walk])
    | succ fuel => exact fun hwalk => absurd hwalk (by simp [walk])
  | link j rest ih =>
    cases fuel with
    | zero => exact fun hwalk => absurd hwalk (by simp [walk])
    | succ fuel =>
      rw [walk, Option.bind_some]
      intro hwalk
      split at hwalk
      · rename_i hkey
        obtain rfl := Option.some.inj hwalk
        exact ⟨List.mem_cons_self, hkey⟩
      · obtain ⟨hmem, hkey⟩ := ih (Nat.lt_of_succ_lt_succ hfuel) hwalk
        exact ⟨List.mem_cons_of_mem _ hmem, hkey⟩

theorem walk_eq_none {m : Map K V} {key : K} {fuel : Nat} {start : Option Nat} {nodes : List Nat}
    (h : Chain m.next start nodes) (hfuel : nodes.length < fuel)
    (hwalk : walk m key fuel start = none) :
    ∀ i ∈ nodes, (m.pool i).map Prod.fst ≠ some key := by
  induction h generalizing fuel with
  | done => exact fun i hi => absurd hi List.not_mem_nil
  | link j rest ih =>
    cases fuel with
    | zero => exact absurd hfuel (Nat.not_lt_zero _)
    | succ fuel =>
      rw [walk, Option.bind_some] at hwalk
      split at hwalk
      · exact absurd hwalk (by simp)
      · rename_i hkey
        intro i hi
        rw [List.mem_cons] at hi
        obtain rfl | hi := hi
        · exact hkey
        · exact ih (Nat.lt_of_succ_lt_succ hfuel) hwalk i hi

/-- The walk of `remove_at` ends at the index with the node in front of it. -/
theorem previous_eq {next : Nat → Option Nat} {i fuel : Nat} {prev start : Option Nat}
    {front back : List Nat} (h : Chain next start (front ++ i :: back)) (hi : i ∉ front)
    (hfuel : front.length < fuel) :
    previous next i fuel prev start = some (front.getLast?.or prev) := by
  induction front generalizing fuel prev start with
  | nil =>
    cases fuel with
    | zero => exact absurd hfuel (Nat.not_lt_zero _)
    | succ fuel =>
      obtain ⟨rfl, -⟩ := h.first
      rw [previous, if_pos rfl, List.getLast?_nil, Option.none_or]
  | cons j front ih =>
    cases fuel with
    | zero => exact absurd hfuel (Nat.not_lt_zero _)
    | succ fuel =>
      rw [List.mem_cons, not_or] at hi
      obtain ⟨rfl, hrest⟩ := h.first
      have hne : ¬ some j = some i := fun heq => hi.1 (Option.some.inj heq).symm
      rw [previous, if_neg hne, Option.bind_some,
        ih hrest hi.2 (Nat.lt_of_succ_lt_succ hfuel), List.getLast?_cons]
      cases front.getLast? with
      | none => rfl
      | some p => rfl

/-! ## The layout -/

/-- The chains of the buckets and of the free nodes share out the pool. -/
structure Layout (shape : Shape K) (m : Map K V) (chains : Nat → List Nat) (free : List Nat) :
    Prop where
  bucket : ∀ b < shape.bucketCount, Chain m.next (m.buckets b) (chains b)
  bucketNodup : ∀ b < shape.bucketCount, (chains b).Nodup
  entry : ∀ b < shape.bucketCount, ∀ i ∈ chains b, i < shape.capacity ∧
    ∃ e, m.pool i = some e ∧ shape.bucket e.1 = b
  freeChain : Chain m.next m.freeHead free
  freeNodup : free.Nodup
  freeNode : ∀ i ∈ free, i < shape.capacity ∧ m.pool i = none
  place : ∀ i < shape.capacity, (∀ e, m.pool i = some e → i ∈ chains (shape.bucket e.1)) ∧
    (m.pool i = none → i ∈ free)
  keys : ∀ i < shape.capacity, ∀ j < shape.capacity, ∀ e e', m.pool i = some e →
    m.pool j = some e' → e.1 = e'.1 → i = j
  count : m.size + free.length = shape.capacity

def WellFormed (shape : Shape K) (m : Map K V) : Prop := ∃ chains free, Layout shape m chains free

omit [DecidableEq K] in
theorem bucket_lt (shape : Shape K) (key : K) : shape.bucket key < shape.bucketCount :=
  Nat.mod_lt _ shape.positive

theorem insert_pool (shape : Shape K) (m : Map K V) (key : K) (val : V) :
    (m.insert shape key val).1.pool = m.pool ∨
      ∃ i, (m.insert shape key val).1.pool = Function.update m.pool i (some (key, val)) := by
  rw [Map.insert]
  cases m.getIdx shape key with
  | none =>
    cases m.freeHead with
    | none => exact .inl rfl
    | some i => exact .inr ⟨i, rfl⟩
  | some i => exact .inr ⟨i, rfl⟩

omit [DecidableEq K] in
theorem removeAt_pool {shape : Shape K} {m m' : Map K V} {i : Nat} (h : m.removeAt shape i = some m') :
    m'.pool = Function.update m.pool i none := by
  obtain ⟨e, -, h⟩ := Option.bind_eq_some_iff.mp h
  obtain ⟨prev, -, rfl⟩ := Option.map_eq_some_iff.mp h
  rfl

theorem length_le_of_nodup {nodes : List Nat} {n : Nat} (hnodup : nodes.Nodup)
    (h : ∀ i ∈ nodes, i < n) : nodes.length ≤ n := by
  have hsub : nodes ⊆ List.range n := fun i hi => List.mem_range.mpr (h i hi)
  have hlength := (hnodup.subperm hsub).length_le
  rwa [List.length_range] at hlength

theorem new_freeChain (capacity : Nat) (k : Nat) :
    Chain (fun i => if i + 1 < capacity then some (i + 1) else none)
      (if capacity - k < capacity then some (capacity - k) else none)
      (List.range' (capacity - k) (min k capacity)) := by
  induction k with
  | zero => simpa using Chain.done
  | succ k ih =>
    by_cases hk : k < capacity
    · have hfirst : capacity - (k + 1) + 1 = capacity - k := by omega
      rw [if_pos (by omega), Nat.min_eq_left hk, List.range'_succ]
      refine .link _ ?_
      rw [hfirst]
      rwa [Nat.min_eq_left hk.le] at ih
    · have hsame : capacity - (k + 1) = capacity - k := by omega
      rw [hsame, Nat.min_eq_right (by omega)]
      rwa [Nat.min_eq_right (by omega)] at ih

omit [DecidableEq K] in
theorem new_layout (shape : Shape K) :
    Layout shape (Map.new shape : Map K V) (fun _ => []) (List.range shape.capacity) where
  bucket b hb := .done
  bucketNodup b hb := List.nodup_nil
  entry b hb i hi := absurd hi List.not_mem_nil
  freeChain := by
    have hall := new_freeChain shape.capacity shape.capacity
    rw [Nat.sub_self, if_pos shape.nodes, Nat.min_self, ← List.range_eq_range'] at hall
    exact hall
  freeNodup := List.nodup_range
  freeNode i hi := ⟨List.mem_range.mp hi, rfl⟩
  place i hi := ⟨fun e he => absurd he (by simp [Map.new]), fun _ => List.mem_range.mpr hi⟩
  keys i _ j _ e e' he := absurd he (by simp [Map.new])
  count := by rw [List.length_range]; exact Nat.zero_add _

section Operations

variable {shape : Shape K} {m : Map K V}

/-- `get_idx` finds the entry of the key. -/
theorem WellFormed.getIdx_iff (h : WellFormed shape m) (key : K) (i : Nat) :
    m.getIdx shape key = some i ↔ i < shape.capacity ∧ (m.pool i).map Prod.fst = some key := by
  obtain ⟨chains, free, h⟩ := h
  have hb := bucket_lt shape key
  have hlength : (chains (shape.bucket key)).length < shape.capacity + 1 :=
    Nat.lt_succ_of_le
      (length_le_of_nodup (h.bucketNodup _ hb) fun j hj => (h.entry _ hb j hj).1)
  constructor
  · intro hwalk
    obtain ⟨hmem, hkey⟩ := walk_eq_some (h.bucket _ hb) hlength i hwalk
    exact ⟨(h.entry _ hb i hmem).1, hkey⟩
  · rintro ⟨hi, hkey⟩
    obtain ⟨e, he, rfl⟩ := Option.map_eq_some_iff.mp hkey
    have hmem := (h.place i hi).1 e he
    cases hwalk : m.getIdx shape e.1 with
    | none => exact absurd hkey (walk_eq_none (h.bucket _ hb) hlength hwalk i hmem)
    | some j =>
      obtain ⟨hmem', hkey'⟩ := walk_eq_some (h.bucket _ hb) hlength j hwalk
      obtain ⟨e', he', hsame⟩ := Option.map_eq_some_iff.mp hkey'
      rw [h.keys i hi j (h.entry _ hb j hmem').1 e e' he he' hsame.symm]

theorem WellFormed.getIdx_eq_none_iff (h : WellFormed shape m) (key : K) :
    m.getIdx shape key = none ↔
      ∀ i < shape.capacity, (m.pool i).map Prod.fst ≠ some key := by
  rw [Option.eq_none_iff_forall_ne_some]
  constructor
  · intro hnone i hi hkey
    exact hnone i ((h.getIdx_iff key i).mpr ⟨hi, hkey⟩)
  · intro hall i hidx
    obtain ⟨hi, hkey⟩ := (h.getIdx_iff key i).mp hidx
    exact hall i hi hkey

omit [DecidableEq K] in
/-- The layout is of the keys; values may change. -/
theorem Layout.congr {m' : Map K V} {chains : Nat → List Nat} {free : List Nat}
    (h : Layout shape m chains free) (hnext : m'.next = m.next) (hbuckets : m'.buckets = m.buckets)
    (hfree : m'.freeHead = m.freeHead) (hsize : m'.size = m.size)
    (hkeys : ∀ i, (m'.pool i).map Prod.fst = (m.pool i).map Prod.fst) :
    Layout shape m' chains free := by
  have hold : ∀ i e', m'.pool i = some e' → ∃ e, m.pool i = some e ∧ e.1 = e'.1 := by
    intro i e' he'
    have hkey := hkeys i
    rw [he', Option.map_some] at hkey
    exact Option.map_eq_some_iff.mp hkey.symm
  have hnew : ∀ i e, m.pool i = some e → ∃ e', m'.pool i = some e' ∧ e'.1 = e.1 := by
    intro i e he
    have hkey := hkeys i
    rw [he, Option.map_some] at hkey
    exact Option.map_eq_some_iff.mp hkey
  have hnone : ∀ i, m'.pool i = none ↔ m.pool i = none := by
    intro i
    rw [← Option.map_eq_none_iff (f := Prod.fst), hkeys i, Option.map_eq_none_iff]
  constructor
  · rw [hnext, hbuckets]
    exact h.bucket
  · exact h.bucketNodup
  · intro b hb i hi
    obtain ⟨hlt, e, he, hbucket⟩ := h.entry b hb i hi
    obtain ⟨e', he', hsame⟩ := hnew i e he
    exact ⟨hlt, e', he', by rw [hsame, hbucket]⟩
  · rw [hnext, hfree]
    exact h.freeChain
  · exact h.freeNodup
  · exact fun i hi => ⟨(h.freeNode i hi).1, (hnone i).mpr (h.freeNode i hi).2⟩
  · intro i hi
    refine ⟨fun e' he' => ?_, fun hempty => (h.place i hi).2 ((hnone i).mp hempty)⟩
    obtain ⟨e, he, hsame⟩ := hold i e' he'
    rw [← hsame]
    exact (h.place i hi).1 e he
  · intro i hi j hj e₁ e₂ he₁ he₂ hsame
    obtain ⟨e₁', he₁', hkey₁⟩ := hold i e₁ he₁
    obtain ⟨e₂', he₂', hkey₂⟩ := hold j e₂ he₂
    exact h.keys i hi j hj e₁' e₂' he₁' he₂' (by rw [hkey₁, hsame, hkey₂])
  · rw [hsize]
    exact h.count

omit [DecidableEq K] in
theorem link_layout {chains : Nat → List Nat} {rest : List Nat} {i : Nat}
    (h : Layout shape m chains (i :: rest)) {key : K}
    (hkey : ∀ j < shape.capacity, (m.pool j).map Prod.fst ≠ some key) (val : V) :
    Layout shape (m.link shape key val i)
      (Function.update chains (shape.bucket key) (i :: chains (shape.bucket key))) rest := by
  have hb := bucket_lt shape key
  obtain ⟨hi, hempty⟩ := h.freeNode i List.mem_cons_self
  have hnodup := List.nodup_cons.mp h.freeNodup
  have hout : ∀ b < shape.bucketCount, i ∉ chains b := by
    intro b hlt hmem
    obtain ⟨-, e, he, -⟩ := h.entry b hlt i hmem
    exact absurd (he.symm.trans hempty) (by simp)
  have hother : ∀ j, j ≠ i → (m.link shape key val i).pool j = m.pool j := fun j hj =>
    Function.update_of_ne hj _ _
  have hself : (m.link shape key val i).pool i = some (key, val) := Function.update_self _ _ _
  constructor
  case bucket =>
    intro b hlt
    change Chain (Function.update m.next i (m.buckets (shape.bucket key)))
      (Function.update m.buckets (shape.bucket key) (some i) b) _
    by_cases hsame : b = shape.bucket key
    · rw [hsame, Function.update_self, Function.update_self]
      refine .link i ?_
      rw [Function.update_self]
      exact (h.bucket _ hb).update (hout _ hb) _
    · rw [Function.update_of_ne hsame, Function.update_of_ne hsame]
      exact (h.bucket b hlt).update (hout b hlt) _
  case bucketNodup =>
    intro b hlt
    by_cases hsame : b = shape.bucket key
    · rw [hsame, Function.update_self, List.nodup_cons]
      exact ⟨hout _ hb, h.bucketNodup _ hb⟩
    · rw [Function.update_of_ne hsame]
      exact h.bucketNodup b hlt
  case entry =>
    intro b hlt j hj
    have hold : j ∈ chains b → j < shape.capacity ∧
        ∃ e, (m.link shape key val i).pool j = some e ∧ shape.bucket e.1 = b := by
      intro hmem
      rw [hother j fun hji => hout b hlt (hji ▸ hmem)]
      exact h.entry b hlt j hmem
    by_cases hsame : b = shape.bucket key
    · rw [hsame, Function.update_self, List.mem_cons] at hj
      obtain rfl | hj := hj
      · exact ⟨hi, _, hself, hsame.symm⟩
      · exact hold (hsame ▸ hj)
    · rw [Function.update_of_ne hsame] at hj
      exact hold hj
  case freeChain =>
    exact h.freeChain.first.2.update hnodup.1 _
  case freeNodup =>
    exact hnodup.2
  case freeNode =>
    intro j hj
    rw [hother j fun hji => hnodup.1 (hji ▸ hj)]
    exact h.freeNode j (List.mem_cons_of_mem _ hj)
  case place =>
    intro j hj
    by_cases hji : j = i
    · rw [hji, hself]
      refine ⟨fun e he => ?_, fun hnone => absurd hnone (by simp)⟩
      obtain rfl := Option.some.inj he
      rw [Function.update_self]
      exact List.mem_cons_self
    · rw [hother j hji]
      constructor
      · intro e he
        have hmem := (h.place j hj).1 e he
        by_cases hsame : shape.bucket e.1 = shape.bucket key
        · rw [hsame, Function.update_self]
          exact List.mem_cons_of_mem _ (hsame ▸ hmem)
        · rwa [Function.update_of_ne hsame]
      · intro hnone
        exact ((List.mem_cons.mp ((h.place j hj).2 hnone)).resolve_left hji)
  case keys =>
    intro j hj j' hj' e e' he he' hsame
    by_cases hji : j = i
    · by_cases hji' : j' = i
      · rw [hji, hji']
      · rw [hother j' hji'] at he'
        rw [hji, hself] at he
        obtain rfl := Option.some.inj he
        exact absurd (by rw [he', Option.map_some, ← hsame]) (hkey j' hj')
    · rw [hother j hji] at he
      by_cases hji' : j' = i
      · rw [hji', hself] at he'
        obtain rfl := Option.some.inj he'
        exact absurd (by rw [he, Option.map_some, hsame]) (hkey j hj)
      · rw [hother j' hji'] at he'
        exact h.keys j hj j' hj' e e' he he' hsame
  case count =>
    have hcount := h.count
    rw [List.length_cons] at hcount
    change m.size + 1 + rest.length = shape.capacity
    omega

omit [DecidableEq K] in
/-- A chain without one of its nodes, behind the links that `remove_at` sets. -/
theorem unlink_chain {chains : Nat → List Nat} {free : List Nat} (h : Layout shape m chains free)
    {b i : Nat} (hb : b < shape.bucketCount) {front back : List Nat}
    (hchain : chains b = front ++ i :: back) :
    Chain (m.unlink b i front.getLast?).next ((m.unlink b i front.getLast?).buckets b)
      (front ++ back) := by
  have hnodup := h.bucketNodup b hb
  have hbucket := h.bucket b hb
  rw [hchain] at hnodup hbucket
  have hout : i ∉ front ++ back := (List.nodup_cons.mp (List.perm_middle.nodup_iff.mp hnodup)).1
  cases front using List.reverseRecOn with
  | nil =>
    change Chain (Function.update m.next i m.freeHead)
      (Function.update m.buckets b (m.next i) b) back
    rw [Function.update_self]
    exact hbucket.first.2.update hout _
  | append_singleton front p =>
    rw [List.getLast?_concat]
    change Chain (Function.update (Function.update m.next p (m.next i)) i m.freeHead) (m.buckets b) _
    rw [List.append_assoc, List.singleton_append] at hbucket hnodup hout ⊢
    exact (hbucket.skip hnodup).update hout _

omit [DecidableEq K] in
theorem unlink_next_other {b i : Nat} {prev : Option Nat} {j : Nat} (hj : j ≠ i)
    (hprev : prev ≠ some j) : (m.unlink b i prev).next j = m.next j := by
  refine (Function.update_of_ne hj _ _).trans ?_
  cases prev with
  | none => rfl
  | some p => exact Function.update_of_ne (fun hjp => hprev (congrArg some hjp.symm)) _ _

omit [DecidableEq K] in
theorem Chain.congr {next next' : Nat → Option Nat} {start : Option Nat} {nodes : List Nat}
    (h : Chain next start nodes) (hsame : ∀ j ∈ nodes, next' j = next j) :
    Chain next' start nodes := by
  induction h with
  | done => exact .done
  | link j rest ih =>
    refine .link j ?_
    rw [hsame j List.mem_cons_self]
    exact ih fun k hk => hsame k (List.mem_cons_of_mem _ hk)

omit [DecidableEq K] in
theorem Layout.not_free {chains : Nat → List Nat} {free : List Nat} (h : Layout shape m chains free)
    {i : Nat} {e : K × V} (he : m.pool i = some e) : i ∉ free := fun hmem =>
  absurd (he.symm.trans (h.freeNode i hmem).2) (by simp)

omit [DecidableEq K] in
theorem Layout.size_pos {chains : Nat → List Nat} {free : List Nat} (h : Layout shape m chains free)
    {i : Nat} (hi : i < shape.capacity) {e : K × V} (he : m.pool i = some e) : 0 < m.size := by
  have hcount := h.count
  have hnodup := List.nodup_cons.mpr ⟨h.not_free he, h.freeNodup⟩
  have hle : (i :: free).length ≤ shape.capacity := by
    refine length_le_of_nodup hnodup fun j hj => ?_
    obtain rfl | hj := List.mem_cons.mp hj
    · exact hi
    · exact (h.freeNode j hj).1
  rw [List.length_cons] at hle
  omega

omit [DecidableEq K] in
theorem unlink_layout {chains : Nat → List Nat} {free : List Nat} (h : Layout shape m chains free)
    {i : Nat} (hi : i < shape.capacity) {e : K × V} (he : m.pool i = some e)
    {front back : List Nat} (hchain : chains (shape.bucket e.1) = front ++ i :: back) :
    Layout shape (m.unlink (shape.bucket e.1) i front.getLast?)
      (Function.update chains (shape.bucket e.1) (front ++ back)) (i :: free) := by
  have hb := bucket_lt shape e.1
  have hnodup := h.bucketNodup _ hb
  rw [hchain] at hnodup
  obtain ⟨hout, hnodup'⟩ := List.nodup_cons.mp (List.perm_middle.nodup_iff.mp hnodup)
  have hperm : (chains (shape.bucket e.1)).Perm (i :: (front ++ back)) := by
    rw [hchain]
    exact List.perm_middle
  have hbucketOf : ∀ b < shape.bucketCount, ∀ j ∈ chains b, ∀ e', m.pool j = some e' →
      shape.bucket e'.1 = b := by
    intro b hlt j hj e' he'
    obtain ⟨-, e'', he'', hbucket⟩ := h.entry b hlt j hj
    rwa [Option.some.inj (he'.symm.trans he'')]
  have hprev : ∀ j, front.getLast? = some j → j ∈ chains (shape.bucket e.1) := by
    intro j hj
    rw [hchain]
    exact List.mem_append_left _ (List.mem_of_getLast? hj)
  have hself : (m.unlink (shape.bucket e.1) i front.getLast?).pool i = none :=
    Function.update_self _ _ _
  have hother : ∀ j, j ≠ i → (m.unlink (shape.bucket e.1) i front.getLast?).pool j = m.pool j :=
    fun j hj => Function.update_of_ne hj _ _
  have hlive : ∀ j e', (m.unlink (shape.bucket e.1) i front.getLast?).pool j = some e' →
      j ≠ i ∧ m.pool j = some e' := by
    intro j e' he'
    by_cases hji : j = i
    · rw [hji, hself] at he'
      exact absurd he' (by simp)
    · exact ⟨hji, by rwa [hother j hji] at he'⟩
  have hfree := h.not_free he
  constructor
  case bucket =>
    intro b hlt
    by_cases hsame : b = shape.bucket e.1
    · rw [hsame, Function.update_self]
      exact unlink_chain h hb hchain
    · have hhead : (m.unlink (shape.bucket e.1) i front.getLast?).buckets b = m.buckets b := by
        change (front.getLast?.elim _ _ : Nat → Option Nat) b = _
        cases front.getLast? with
        | none => exact Function.update_of_ne hsame _ _
        | some p => rfl
      rw [Function.update_of_ne hsame, hhead]
      refine (h.bucket b hlt).congr fun j hj => unlink_next_other ?_ ?_
      · rintro rfl
        exact hsame (hbucketOf b hlt j hj e he).symm
      · intro hlast
        obtain ⟨-, e', he', hbucket⟩ := h.entry b hlt j hj
        exact hsame (hbucket.symm.trans (hbucketOf _ hb j (hprev j hlast) e' he'))
  case bucketNodup =>
    intro b hlt
    by_cases hsame : b = shape.bucket e.1
    · rw [hsame, Function.update_self]
      exact hnodup'
    · rw [Function.update_of_ne hsame]
      exact h.bucketNodup b hlt
  case entry =>
    intro b hlt j hj
    have hold : j ∈ chains b ∧ j ≠ i := by
      by_cases hsame : b = shape.bucket e.1
      · rw [hsame, Function.update_self] at hj
        exact ⟨hsame ▸ hperm.mem_iff.mpr (List.mem_cons_of_mem _ hj), fun hji => hout (hji ▸ hj)⟩
      · rw [Function.update_of_ne hsame] at hj
        refine ⟨hj, ?_⟩
        rintro rfl
        exact hsame (hbucketOf b hlt j hj e he).symm
    rw [hother j hold.2]
    exact h.entry b hlt j hold.1
  case freeChain =>
    refine .link i ?_
    have hnext : (m.unlink (shape.bucket e.1) i front.getLast?).next i = m.freeHead :=
      Function.update_self _ _ _
    rw [hnext]
    refine h.freeChain.congr fun j hj => unlink_next_other (fun hji => hfree (hji ▸ hj)) ?_
    intro hlast
    obtain ⟨-, e', he', -⟩ := h.entry _ hb j (hprev j hlast)
    exact absurd (he'.symm.trans (h.freeNode j hj).2) (by simp)
  case freeNodup =>
    exact List.nodup_cons.mpr ⟨hfree, h.freeNodup⟩
  case freeNode =>
    intro j hj
    by_cases hji : j = i
    · rw [hji]
      exact ⟨hi, hself⟩
    · rw [hother j hji]
      exact h.freeNode j ((List.mem_cons.mp hj).resolve_left hji)
  case place =>
    intro j hj
    constructor
    · intro e' he'
      obtain ⟨hji, hlive'⟩ := hlive j e' he'
      have hmem := (h.place j hj).1 e' hlive'
      by_cases hsame : shape.bucket e'.1 = shape.bucket e.1
      · rw [hsame] at hmem ⊢
        rw [Function.update_self]
        exact (List.mem_cons.mp (hperm.mem_iff.mp hmem)).resolve_left hji
      · rwa [Function.update_of_ne hsame]
    · intro hnone
      by_cases hji : j = i
      · rw [hji]
        exact List.mem_cons_self
      · rw [hother j hji] at hnone
        exact List.mem_cons_of_mem _ ((h.place j hj).2 hnone)
  case keys =>
    intro j hj j' hj' e₁ e₂ he₁ he₂ hsame
    exact h.keys j hj j' hj' e₁ e₂ (hlive j e₁ he₁).2 (hlive j' e₂ he₂).2 hsame
  case count =>
    have hcount := h.count
    have hpos := h.size_pos hi he
    change m.size - 1 + (free.length + 1) = shape.capacity
    omega

omit [DecidableEq K] in
/-- `remove_at` of an entry frees its node and no other. -/
theorem WellFormed.removeAt_eq (h : WellFormed shape m) {i : Nat} (hi : i < shape.capacity)
    {e : K × V} (he : m.pool i = some e) :
    ∃ m', m.removeAt shape i = some m' ∧ m'.pool = Function.update m.pool i none ∧
      m'.size = m.size - 1 ∧ 0 < m.size ∧ WellFormed shape m' := by
  obtain ⟨chains, free, h⟩ := h
  have hb := bucket_lt shape e.1
  obtain ⟨front, back, hchain⟩ := List.append_of_mem ((h.place i hi).1 e he)
  have hnodup := h.bucketNodup _ hb
  have hbucket := h.bucket _ hb
  have hlength := length_le_of_nodup hnodup fun j hj => (h.entry _ hb j hj).1
  rw [hchain] at hnodup hbucket hlength
  have hfront : i ∉ front := fun hmem => (List.nodup_cons.mp
    (List.perm_middle.nodup_iff.mp hnodup)).1 (List.mem_append_left _ hmem)
  have hfuel : front.length < shape.capacity + 1 := by
    rw [List.length_append, List.length_cons] at hlength
    omega
  refine ⟨_, ?_, rfl, rfl, h.size_pos hi he, _, _, unlink_layout h hi he hchain⟩
  rw [Map.removeAt, he, Option.bind_some, previous_eq hbucket hfront hfuel, Option.map_some,
    Option.or_none]

/-- `insert` of a known key puts the value in its place. -/
theorem WellFormed.insert_known (h : WellFormed shape m) {key : K} {i : Nat}
    (hidx : m.getIdx shape key = some i) (val : V) :
    m.insert shape key val =
        ({ m with pool := Function.update m.pool i (some (key, val)) }, some i) ∧
      WellFormed shape (m.insert shape key val).1 := by
  obtain ⟨-, hkey⟩ := (h.getIdx_iff key i).mp hidx
  have hinsert : m.insert shape key val =
      ({ m with pool := Function.update m.pool i (some (key, val)) }, some i) := by
    rw [Map.insert, hidx]
    rfl
  refine ⟨hinsert, ?_⟩
  obtain ⟨chains, free, h⟩ := h
  rw [hinsert]
  refine ⟨chains, free, h.congr rfl rfl rfl rfl fun j => ?_⟩
  change (Function.update m.pool i (some (key, val)) j).map Prod.fst = _
  by_cases hji : j = i
  · rw [hji, Function.update_self, hkey]
    rfl
  · rw [Function.update_of_ne hji]

/-- `insert` of a new key takes a free node, if there is one. -/
theorem WellFormed.insert_new (h : WellFormed shape m) {key : K}
    (hidx : m.getIdx shape key = none) (val : V) :
    (m.size = shape.capacity ∧ m.insert shape key val = (m, none)) ∨
    ∃ i < shape.capacity, m.size < shape.capacity ∧ m.pool i = none ∧
      (m.insert shape key val).2 = some i ∧
      (m.insert shape key val).1.pool = Function.update m.pool i (some (key, val)) ∧
      (m.insert shape key val).1.size = m.size + 1 ∧ WellFormed shape (m.insert shape key val).1 := by
  have hkeys := (h.getIdx_eq_none_iff key).mp hidx
  obtain ⟨chains, free, h⟩ := h
  have hcount := h.count
  have hchain := h.freeChain
  cases free with
  | nil =>
    refine .inl ⟨hcount, ?_⟩
    have hhead : m.freeHead = none := by
      generalize m.freeHead = head at hchain
      cases hchain
      rfl
    rw [Map.insert, hidx, hhead]
    rfl
  | cons i rest =>
    obtain ⟨hhead, -⟩ := hchain.first
    obtain ⟨hi, hempty⟩ := h.freeNode i List.mem_cons_self
    have hinsert : m.insert shape key val = (m.link shape key val i, some i) := by
      rw [Map.insert, hidx, hhead]
      rfl
    rw [List.length_cons] at hcount
    rw [hinsert]
    exact .inr ⟨i, hi, by omega, hempty, rfl, rfl, rfl, _, _, link_layout h hkeys val⟩

omit [DecidableEq K] in
theorem WellFormed.setAt (h : WellFormed shape m) (i : Nat) (f : V → V) :
    WellFormed shape (m.setAt i f) := by
  obtain ⟨chains, free, h⟩ := h
  refine ⟨chains, free, h.congr rfl rfl rfl rfl fun j => ?_⟩
  change (Function.update m.pool i _ j).map Prod.fst = _
  by_cases hji : j = i
  · rw [hji, Function.update_self, Option.map_map]
    rfl
  · rw [Function.update_of_ne hji]

theorem WellFormed.get_iff (h : WellFormed shape m) (key : K) (v : V) :
    m.get shape key = some v ↔ ∃ i < shape.capacity, m.pool i = some (key, v) := by
  rw [Map.get, Option.bind_eq_some_iff]
  constructor
  · rintro ⟨i, hidx, hval⟩
    obtain ⟨hi, hkey⟩ := (h.getIdx_iff key i).mp hidx
    obtain ⟨⟨k, v'⟩, he, rfl⟩ := Option.map_eq_some_iff.mp hkey
    rw [he] at hval
    exact ⟨i, hi, by rw [he, ← Option.some.inj hval]⟩
  · rintro ⟨i, hi, he⟩
    exact ⟨i, (h.getIdx_iff key i).mpr ⟨hi, by rw [he, Option.map_some]⟩, by rw [he, Option.map_some]⟩

end Operations

/-! ## The dictionary it stands for -/

inductive Request (K V : Type*) where
  | insert (key : K) (val : V)
  | get (key : K)
  | remove (key : K)

inductive Answer (V : Type*) where
  | inserted (taken : Bool)
  | got (val : Option V)
  | removed (known : Bool)

/-- A removal finds the index of the key and frees it, as the executor does. -/
def Map.step (shape : Shape K) (m : Map K V) : Request K V → Option (Map K V × Answer V)
  | .insert key val =>
    some ((m.insert shape key val).1, .inserted (m.insert shape key val).2.isSome)
  | .get key => some (m, .got (m.get shape key))
  | .remove key => (m.getIdx shape key).elim (some (m, .removed false)) fun i =>
    (m.removeAt shape i).map fun m' => (m', .removed true)

def Map.answers (shape : Shape K) : Map K V → List (Request K V) → Option (List (Answer V))
  | _, [] => some []
  | m, r :: requests =>
    (m.step shape r).bind fun s => (answers shape s.1 requests).map (s.2 :: ·)

/-- There is room for as many keys as there are nodes. -/
def dictStep (capacity : Nat) (d : Dict K V) : Request K V → Dict K V × Answer V
  | .insert key val =>
    if (d.get? key).isSome = true ∨ d.pairs.length < capacity then (d.set key val, .inserted true)
    else (d, .inserted false)
  | .get key => (d, .got (d.get? key))
  | .remove key => (d.erase key, .removed (d.get? key).isSome)

def dictAnswers (capacity : Nat) : Dict K V → List (Request K V) → List (Answer V)
  | _, [] => []
  | d, r :: requests => (dictStep capacity d r).2 :: dictAnswers capacity (dictStep capacity d r).1 requests

structure Refines (shape : Shape K) (m : Map K V) (d : Dict K V) : Prop where
  formed : WellFormed shape m
  size : m.size = d.pairs.length
  get : ∀ key, m.get shape key = d.get? key

theorem get_update {shape : Shape K} {m m' : Map K V} (h : WellFormed shape m)
    (h' : WellFormed shape m') {i : Nat} (hi : i < shape.capacity) {key : K} {val : V}
    (hpool : m'.pool = Function.update m.pool i (some (key, val)))
    (hold : m.pool i = none ∨ (m.pool i).map Prod.fst = some key)
    (honly : ∀ j < shape.capacity, (m.pool j).map Prod.fst = some key → j = i) (k : K) :
    m'.get shape k = if k = key then some val else m.get shape k := by
  ext v
  rw [h'.get_iff, hpool]
  by_cases hk : k = key
  · rw [if_pos hk, hk]
    constructor
    · rintro ⟨j, hj, he⟩
      by_cases hji : j = i
      · rw [hji, Function.update_self] at he
        exact congrArg (Option.map Prod.snd) he
      · rw [Function.update_of_ne hji] at he
        exact absurd (honly j hj (by rw [he, Option.map_some])) hji
    · intro hv
      obtain rfl := Option.some.inj hv
      exact ⟨i, hi, Function.update_self _ _ _⟩
  · rw [if_neg hk, h.get_iff]
    refine exists_congr fun j => and_congr_right fun _ => ?_
    by_cases hji : j = i
    · rw [hji, Function.update_self]
      refine iff_of_false ?_ ?_
      · intro he
        exact hk (congrArg Prod.fst (Option.some.inj he)).symm
      · intro he
        obtain hnone | hsame := hold
        · exact absurd (he.symm.trans hnone) (by simp)
        · rw [he, Option.map_some] at hsame
          exact hk (Option.some.inj hsame)
    · rw [Function.update_of_ne hji]

theorem get_eq_none_iff {shape : Shape K} {m : Map K V} (h : WellFormed shape m) (key : K) :
    m.get shape key = none ↔ m.getIdx shape key = none := by
  constructor
  · intro hnone
    cases hidx : m.getIdx shape key with
    | none => rfl
    | some i =>
      obtain ⟨hi, hkey⟩ := (h.getIdx_iff key i).mp hidx
      obtain ⟨⟨k, v⟩, he, rfl⟩ := Option.map_eq_some_iff.mp hkey
      exact absurd (hnone.symm.trans ((h.get_iff k v).mpr ⟨i, hi, he⟩)) (by simp)
  · intro hnone
    rw [Map.get, hnone, Option.bind_none]

/-- A key has one node. -/
theorem WellFormed.index_unique {shape : Shape K} {m : Map K V} (h : WellFormed shape m) {key : K}
    {i j : Nat} (hidx : m.getIdx shape key = some i) (hj : j < shape.capacity)
    (hkey : (m.pool j).map Prod.fst = some key) : j = i :=
  Option.some.inj (((h.getIdx_iff key j).mpr ⟨hj, hkey⟩).symm.trans hidx)

/-- A node that is freed takes its key with it. -/
theorem get_freed {shape : Shape K} {m m' : Map K V} (h : WellFormed shape m)
    (h' : WellFormed shape m') {i : Nat} {key : K} (hidx : m.getIdx shape key = some i)
    (hpool : m'.pool = Function.update m.pool i none) (k : K) :
    m'.get shape k = if k = key then none else m.get shape k := by
  obtain ⟨-, hkey⟩ := (h.getIdx_iff key i).mp hidx
  ext v
  rw [h'.get_iff, hpool]
  by_cases hk : k = key
  · rw [if_pos hk, hk]
    refine iff_of_false ?_ (by simp)
    rintro ⟨j, hj, he⟩
    by_cases hji : j = i
    · rw [hji, Function.update_self] at he
      exact absurd he (by simp)
    · rw [Function.update_of_ne hji] at he
      exact hji (h.index_unique hidx hj (by rw [he, Option.map_some]))
  · rw [if_neg hk, h.get_iff]
    refine exists_congr fun j => and_congr_right fun _ => ?_
    by_cases hji : j = i
    · rw [hji, Function.update_self]
      refine iff_of_false (by simp) fun he => ?_
      rw [he, Option.map_some] at hkey
      exact hk (Option.some.inj hkey)
    · rw [Function.update_of_ne hji]

section Refines

variable {shape : Shape K} {m : Map K V} {d : Dict K V}

/-- A key that is known keeps its node, a new one gets a free node if there is one. -/
theorem Refines.insert (h : Refines shape m d) (key : K) (val : V) :
    ∃ m', m.step shape (.insert key val) =
        some (m', (dictStep shape.capacity d (.insert key val)).2) ∧
      Refines shape m' (dictStep shape.capacity d (.insert key val)).1 := by
  have hsame := get_eq_none_iff h.formed key
  rw [h.get] at hsame
  cases hidx : m.getIdx shape key with
  | some i =>
    obtain ⟨hi, hkey⟩ := (h.formed.getIdx_iff key i).mp hidx
    have hknown : (d.get? key).isSome = true := by
      rw [Option.isSome_iff_ne_none]
      exact fun hnone => absurd (hsame.mp hnone) (by simp [hidx])
    obtain ⟨old, hold⟩ := Option.isSome_iff_exists.mp hknown
    obtain ⟨hinsert, hformed⟩ := h.formed.insert_known hidx val
    refine ⟨_, by rw [Map.step, hinsert, dictStep, if_pos (.inl hknown)]; rfl, ?_⟩
    rw [hinsert] at hformed
    rw [dictStep, if_pos (.inl hknown)]
    refine ⟨hformed, ?_, fun k => ?_⟩
    · exact h.size.trans (Dict.length_set_of_get? val hold).symm
    · rw [get_update h.formed hformed hi rfl (.inr hkey) fun j => h.formed.index_unique hidx,
        Dict.get?_set, h.get]
  | none =>
    have hnew := hsame.mpr hidx
    have hkeys := (h.formed.getIdx_eq_none_iff key).mp hidx
    obtain ⟨hfull, hinsert⟩ | ⟨i, hi, hroom, hempty, hsome, hpool, hsize, hformed⟩ :=
      h.formed.insert_new hidx val
    · have hno : ¬ ((d.get? key).isSome = true ∨ d.pairs.length < shape.capacity) := by
        rw [hnew, ← h.size, hfull]
        simp
      rw [dictStep, if_neg hno]
      exact ⟨m, by rw [Map.step, hinsert]; rfl, h⟩
    · have hroom' : (d.get? key).isSome = true ∨ d.pairs.length < shape.capacity :=
        .inr (h.size ▸ hroom)
      rw [dictStep, if_pos hroom']
      refine ⟨_, by rw [Map.step, hsome]; rfl, hformed, ?_, fun k => ?_⟩
      · rw [hsize, h.size, Dict.length_set_of_new val hnew]
      · rw [get_update h.formed hformed hi hpool (.inl hempty)
          (fun j hj hjkey => absurd hjkey (hkeys j hj)), Dict.get?_set, h.get]

/-- A key that is known gives its node back. -/
theorem Refines.remove (h : Refines shape m d) (key : K) :
    ∃ m', m.step shape (.remove key) = some (m', (dictStep shape.capacity d (.remove key)).2) ∧
      Refines shape m' (dictStep shape.capacity d (.remove key)).1 := by
  have hsame := get_eq_none_iff h.formed key
  rw [h.get] at hsame
  cases hidx : m.getIdx shape key with
  | none =>
    have hnew := hsame.mpr hidx
    refine ⟨m, by rw [Map.step, hidx, dictStep, hnew]; rfl, ?_⟩
    rw [dictStep, Dict.erase_of_new hnew]
    exact h
  | some i =>
    obtain ⟨hi, hkey⟩ := (h.formed.getIdx_iff key i).mp hidx
    obtain ⟨⟨k, old⟩, he, rfl⟩ := Option.map_eq_some_iff.mp hkey
    obtain ⟨m', hremove, hpool, hsize, hpos, hformed⟩ := h.formed.removeAt_eq hi he
    have hold : d.get? k = some old := by
      rw [← h.get]
      exact (h.formed.get_iff k old).mpr ⟨i, hi, he⟩
    refine ⟨m', ?_, hformed, ?_, fun k' => ?_⟩
    · rw [Map.step, hidx, Option.elim_some, hremove, dictStep, hold]
      rfl
    · have hlength := Dict.length_erase hold
      rw [hsize, h.size]
      change d.pairs.length - 1 = (d.erase k).pairs.length
      omega
    · change _ = (d.erase k).get? k'
      rw [Dict.get?_erase, ← h.get, get_freed h.formed hformed hidx hpool]

theorem step_refines (h : Refines shape m d) (r : Request K V) :
    ∃ m', m.step shape r = some (m', (dictStep shape.capacity d r).2) ∧
      Refines shape m' (dictStep shape.capacity d r).1 := by
  cases r with
  | insert key val => exact h.insert key val
  | get key => exact ⟨m, by rw [Map.step, h.get]; rfl, h⟩
  | remove key => exact h.remove key

end Refines

/-- Insertions, lookups and removals in any order answer as on a dictionary that has room for the
capacity, and never leave a chain. -/
theorem map_is_dictionary (shape : Shape K) (requests : List (Request K V)) :
    Map.answers shape (Map.new shape) requests =
      some (dictAnswers shape.capacity Dict.empty requests) := by
  have hall : ∀ (m : Map K V) (d : Dict K V), Refines shape m d →
      Map.answers shape m requests = some (dictAnswers shape.capacity d requests) := by
    induction requests with
    | nil => exact fun _ _ _ => rfl
    | cons r requests ih =>
      intro m d h
      obtain ⟨m', hstep, hrefines⟩ := step_refines h r
      rw [Map.answers, hstep, Option.bind_some, ih m' _ hrefines]
      rfl
  have hnew : WellFormed shape (Map.new shape : Map K V) := ⟨_, _, new_layout shape⟩
  refine hall _ _ ⟨hnew, rfl, fun key => ?_⟩
  rw [(get_eq_none_iff hnew key).mpr ((hnew.getIdx_eq_none_iff key).mpr fun i _ => by simp [Map.new])]
  rfl

end Genoh.PooledMap
