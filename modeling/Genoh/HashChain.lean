import Mathlib.Data.List.Nodup
import Mathlib.Data.List.Infix
import Mathlib.Data.Set.Function

/-!
# Hash chains

Lists of contents with digests, each digest made from the one before it and the content. A check
from the front stops at the first digest that does not fit. What a chain shows is relative to the
inputs that the checks hash: that no two of them collide, and that none gives the genesis digest.
-/
namespace Genoh.HashChain

variable {Content Digest : Type*} (link : Digest → Content → Digest)

def Linked : Digest → List (Content × Digest) → Prop
  | _, [] => True
  | prev, (content, digest) :: entries => digest = link prev content ∧ Linked digest entries

/-- The digest that the next entry starts from. -/
def lastDigest : Digest → List (Content × Digest) → Digest
  | prev, [] => prev
  | _, (_, digest) :: entries => lastDigest digest entries

/-- What a check from the front hashes. -/
def inputs [DecidableEq Digest] : Digest → List (Content × Digest) → List (Digest × Content)
  | _, [] => []
  | prev, (content, digest) :: entries =>
    (prev, content) :: if digest = link prev content then inputs digest entries else []

/-- No two of the inputs collide. -/
def CollisionFree (hashed : List (Digest × Content)) : Prop :=
  Set.InjOn (fun input => link input.1 input.2) {input | input ∈ hashed}

@[simp] theorem lastDigest_concat (prev : Digest) (entries : List (Content × Digest))
    (entry : Content × Digest) : lastDigest prev (entries ++ [entry]) = entry.2 := by
  induction entries generalizing prev with
  | nil => rfl
  | cons other entries ih => exact ih other.2

theorem lastDigest_mem (prev : Digest) {entries : List (Content × Digest)} (h : entries ≠ []) :
    lastDigest prev entries ∈ entries.map Prod.snd := by
  induction entries using List.reverseRecOn with
  | nil => exact absurd rfl h
  | append_singleton entries entry => simp

theorem linked_append (prev : Digest) (front back : List (Content × Digest)) :
    Linked link prev (front ++ back) ↔
      Linked link prev front ∧ Linked link (lastDigest prev front) back := by
  induction front generalizing prev with
  | nil => simp [Linked, lastDigest]
  | cons entry front ih =>
    obtain ⟨content, digest⟩ := entry
    rw [List.cons_append, Linked, Linked, ih, lastDigest, and_assoc]

theorem linked_concat (prev : Digest) (entries : List (Content × Digest)) (content : Content)
    (digest : Digest) : Linked link prev (entries ++ [(content, digest)]) ↔
      Linked link prev entries ∧ digest = link (lastDigest prev entries) content := by
  rw [linked_append, Linked, Linked, and_true]

variable {link} in
theorem Linked.of_prefix {prev : Digest} {front entries : List (Content × Digest)}
    (h : Linked link prev entries) (hfront : front <+: entries) : Linked link prev front := by
  obtain ⟨back, rfl⟩ := hfront
  exact ((linked_append link prev front back).mp h).1

/-! ## Inputs -/

section Inputs

variable {link}

theorem CollisionFree.mono {hashed more : List (Digest × Content)} (h : CollisionFree link more)
    (hsub : hashed ⊆ more) : CollisionFree link hashed := Set.InjOn.mono (fun _ hmem => hsub hmem) h

variable [DecidableEq Digest]

theorem inputs_append {prev : Digest} {front : List (Content × Digest)}
    (h : Linked link prev front) (back : List (Content × Digest)) :
    inputs link prev (front ++ back) =
      inputs link prev front ++ inputs link (lastDigest prev front) back := by
  induction front generalizing prev with
  | nil => rfl
  | cons entry front ih =>
    obtain ⟨content, digest⟩ := entry
    rw [List.cons_append, inputs, inputs, if_pos h.1, if_pos h.1, ih h.2, List.cons_append]
    rfl

/-- The check comes to the first entry behind a linked front. -/
theorem mem_inputs {prev : Digest} {front : List (Content × Digest)} (h : Linked link prev front)
    (entry : Content × Digest) (back : List (Content × Digest)) :
    (lastDigest prev front, entry.1) ∈ inputs link prev (front ++ entry :: back) := by
  rw [inputs_append h, inputs]
  exact List.mem_append_right _ List.mem_cons_self

theorem inputs_contents {prev : Digest} {entries : List (Content × Digest)}
    (h : Linked link prev entries) :
    (inputs link prev entries).map Prod.snd = entries.map Prod.fst := by
  induction entries generalizing prev with
  | nil => rfl
  | cons entry entries ih =>
    obtain ⟨content, digest⟩ := entry
    rw [inputs, if_pos h.1, List.map_cons, ih h.2, List.map_cons]

theorem inputs_digests {prev : Digest} {entries : List (Content × Digest)}
    (h : Linked link prev entries) :
    (inputs link prev entries).map (fun input => link input.1 input.2) = entries.map Prod.snd := by
  induction entries generalizing prev with
  | nil => rfl
  | cons entry entries ih =>
    obtain ⟨content, digest⟩ := entry
    rw [inputs, if_pos h.1, List.map_cons, ih h.2, List.map_cons, ← h.1]

/-- With distinct contents no digest comes twice. -/
theorem nodup_digests {prev : Digest} {entries : List (Content × Digest)}
    (h : Linked link prev entries) (hfree : CollisionFree link (inputs link prev entries))
    (hgenesis : ∀ input ∈ inputs link prev entries, link input.1 input.2 ≠ prev)
    (hcontents : (entries.map Prod.fst).Nodup) : (prev :: entries.map Prod.snd).Nodup := by
  rw [← inputs_contents h] at hcontents
  rw [← inputs_digests h, List.nodup_cons]
  refine ⟨fun hmem => ?_, (List.Nodup.of_map _ hcontents).map_on fun x hx y hy => hfree hx hy⟩
  obtain ⟨input, hinput, heq⟩ := List.mem_map.mp hmem
  exact hgenesis input hinput heq

end Inputs

/-! ## What a chain shows -/

section Evidence

variable [DecidableEq Digest] {link} {genesis : Digest}

/-- The content of an entry with its digest cannot be replaced. -/
theorem linked_replace {front back : List (Content × Digest)} {content content' : Content}
    {digest : Digest} (h : Linked link genesis (front ++ (content, digest) :: back))
    (hfree : CollisionFree link (inputs link genesis (front ++ (content, digest) :: back) ++
      inputs link genesis (front ++ (content', digest) :: back))) :
    Linked link genesis (front ++ (content', digest) :: back) ↔ content' = content := by
  constructor
  · intro h'
    have hfront := ((linked_append link genesis _ _).mp h).1
    have hdigest : digest = link _ content := ((linked_append link genesis _ _).mp h).2.1
    have hdigest' : digest = link _ content' := ((linked_append link genesis _ _).mp h').2.1
    have heq := hfree (List.mem_append_right _ (mem_inputs hfront (content', digest) back))
      (List.mem_append_left _ (mem_inputs hfront (content, digest) back)) (hdigest'.symm.trans hdigest)
    exact (Prod.mk.inj heq).2
  · rintro rfl
    exact h

/-- Entries that are left out behind the ones that are kept leave no trace; any other loss does. -/
theorem linked_sublist {prev : Digest} {kept entries : List (Content × Digest)}
    (h : Linked link prev entries) (hdigests : (prev :: entries.map Prod.snd).Nodup)
    (hfree : CollisionFree link (inputs link prev entries ++ inputs link prev kept))
    (hsub : kept.Sublist entries) : Linked link prev kept ↔ kept <+: entries := by
  refine ⟨fun hkept => ?_, fun hprefix => h.of_prefix hprefix⟩
  induction kept generalizing prev entries with
  | nil => exact List.nil_prefix
  | cons entry kept ih =>
    obtain ⟨content, digest⟩ := entry
    obtain ⟨early, back, rfl, hentry, htail⟩ := List.cons_sublist_iff.mp hsub
    obtain ⟨front, rest, rfl⟩ := List.append_of_mem hentry
    rw [List.append_assoc, List.cons_append] at *
    have hback : kept.Sublist (rest ++ back) := htail.trans (List.sublist_append_right _ _)
    generalize rest ++ back = back at *
    cases front with
    | nil =>
      rw [List.nil_append] at *
      obtain ⟨heq, hentries⟩ := h
      have hsubset : inputs link digest back ++ inputs link digest kept ⊆
          inputs link prev ((content, digest) :: back) ++
            inputs link prev ((content, digest) :: kept) := by
        rw [inputs, inputs, if_pos heq, if_pos heq]
        exact List.append_subset.mpr ⟨fun _ hmem => List.mem_append_left _ (List.mem_cons_of_mem _ hmem),
          fun _ hmem => List.mem_append_right _ (List.mem_cons_of_mem _ hmem)⟩
      have hprefix := ih hentries (List.nodup_cons.mp hdigests).2 (hfree.mono hsubset) hback hkept.2
      exact List.cons_prefix_cons.mpr ⟨rfl, hprefix⟩
    | cons other front =>
      -- the entry is linked to the start and to what stood before it, which are different digests
      obtain ⟨hfront, hentry', -⟩ := (linked_append link prev (other :: front) _).mp h
      have hinput := mem_inputs hfront (content, digest) back
      have hempty : Linked link prev [] := trivial
      have hinput' := mem_inputs hempty (content, digest) kept
      have heq := hfree (List.mem_append_right _ hinput') (List.mem_append_left _ hinput)
        (hkept.1.symm.trans hentry')
      have hlast := lastDigest_mem prev (List.cons_ne_nil other front)
      rw [← (Prod.mk.inj heq).1] at hlast
      refine absurd ?_ (List.nodup_cons.mp hdigests).1
      rw [List.map_append]
      exact List.mem_append_left _ hlast

theorem lastDigest_ne {entries : List (Content × Digest)} (h : Linked link genesis entries)
    (hgenesis : ∀ input ∈ inputs link genesis entries, link input.1 input.2 ≠ genesis)
    (hne : entries ≠ []) : lastDigest genesis entries ≠ genesis := by
  have hmem := lastDigest_mem genesis hne
  rw [← inputs_digests h] at hmem
  obtain ⟨input, hinput, heq⟩ := List.mem_map.mp hmem
  exact heq ▸ hgenesis input hinput

/-- Two chains from the genesis digest to the same digest are the same. -/
theorem linked_unique {entries others : List (Content × Digest)} (h : Linked link genesis entries)
    (h' : Linked link genesis others)
    (hlast : lastDigest genesis entries = lastDigest genesis others)
    (hfree : CollisionFree link (inputs link genesis entries ++ inputs link genesis others))
    (hgenesis : ∀ input ∈ inputs link genesis entries ++ inputs link genesis others,
      link input.1 input.2 ≠ genesis) : entries = others := by
  have hempty : ∀ entries : List (Content × Digest), Linked link genesis entries →
      (∀ input ∈ inputs link genesis entries, link input.1 input.2 ≠ genesis) →
      lastDigest genesis entries = genesis → entries = [] := by
    intro entries h hgenesis hlast
    by_contra hne
    exact lastDigest_ne h hgenesis hne hlast
  rw [List.forall_mem_append] at hgenesis
  induction entries using List.reverseRecOn generalizing others with
  | nil => exact (hempty others h' hgenesis.2 hlast.symm).symm
  | append_singleton entries entry ih =>
    cases others using List.reverseRecOn with
    | nil => exact hempty _ h hgenesis.1 hlast
    | append_singleton others other =>
      obtain ⟨hentries, hdigest⟩ := (linked_concat link genesis entries entry.1 entry.2).mp h
      obtain ⟨hothers, hdigest'⟩ := (linked_concat link genesis others other.1 other.2).mp h'
      rw [lastDigest_concat, lastDigest_concat] at hlast
      have heq := hfree (List.mem_append_left _ (mem_inputs hentries entry []))
        (List.mem_append_right _ (mem_inputs hothers other []))
        (hdigest.symm.trans (hlast.trans hdigest'))
      obtain ⟨hprev, hcontent⟩ := Prod.mk.inj heq
      rw [inputs_append hentries, inputs_append hothers] at hfree hgenesis
      have hsubset : inputs link genesis entries ++ inputs link genesis others ⊆
          (inputs link genesis entries ++ inputs link (lastDigest genesis entries) [entry]) ++
            (inputs link genesis others ++ inputs link (lastDigest genesis others) [other]) :=
        List.append_subset.mpr ⟨fun _ hmem => List.mem_append_left _ (List.mem_append_left _ hmem),
          fun _ hmem => List.mem_append_right _ (List.mem_append_left _ hmem)⟩
      rw [List.forall_mem_append, List.forall_mem_append] at hgenesis
      have hfront := ih hentries hothers hprev (hfree.mono hsubset) ⟨hgenesis.1.1, hgenesis.2.1⟩
      rw [hfront, Prod.ext hcontent hlast]

end Evidence

end Genoh.HashChain
