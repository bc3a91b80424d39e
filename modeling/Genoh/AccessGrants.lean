import Genoh.AccessDecisions
import Genoh.Wildcards

/-!
# What a granted key expression stands for

The matchers of the access control and of the intrusion detection side by side, and the
keys that a granted key expression denotes against those of the policy.
-/
namespace Genoh.AccessGrants

open Genoh.MasterAcl Genoh.Strings Genoh.AccessDecisions Genoh.Wildcards
open Genoh.MasterIds (IDSEngine IDSRuleID)

/-! ## The two matchers -/

/-- The key is the pattern, stands at or below the stem of a pattern with two stars, or one segment
below the stem of a pattern with one. -/
inductive Covers (keyExpr : Str) : Str → Prop where
  | same : Covers keyExpr keyExpr
  | below (stem : Str) (place : stem ++ [slash] <+: keyExpr ∨ keyExpr = stem) :
      Covers keyExpr (stem ++ str "/**")
  | segment (stem segment : Str) (single : slash ∉ segment) (place : keyExpr = stem ++ slash :: segment) :
      Covers keyExpr (stem ++ str "/*")

theorem keyExprMatches_iff_covers (keyExpr pattern : Str) :
    keyExprMatches keyExpr pattern = true ↔ Covers keyExpr pattern := by
  constructor
  · intro h
    by_cases htwo : endsWith pattern (str "/**") = true
    · obtain ⟨stem, rfl⟩ := (endsWith_iff _ _).mp htwo
      exact .below stem ((keyExprMatches_below keyExpr stem).mp h)
    · by_cases hone : endsWith pattern (str "/*") = true
      · obtain ⟨stem, rfl⟩ := (endsWith_iff _ _).mp hone
        obtain ⟨segment, hsingle, hplace⟩ := (keyExprMatches_segment keyExpr stem).mp h
        exact .segment stem segment hsingle hplace
      · rw [keyExprMatches, if_neg htwo, if_neg hone] at h
        split at h
        · rename_i heq
          rw [heq]
          exact .same
        · exact absurd h Bool.false_ne_true
  · intro h
    cases h with
    | same => rw [keyExprMatches, if_pos rfl]
    | below stem hplace => exact (keyExprMatches_below keyExpr stem).mpr hplace
    | segment stem segment hsingle hplace =>
      exact (keyExprMatches_segment keyExpr stem).mpr ⟨segment, hsingle, hplace⟩

/-- The key goes on behind the stem of a pattern with two stars, but not with a slash. -/
def RunsOn (keyExpr pattern : Str) : Prop :=
  ∃ stem, pattern = stem ++ str "/**" ∧ stem <+: keyExpr ∧ keyExpr ≠ stem ∧
    ¬ stem ++ [slash] <+: keyExpr

/-- What the access control takes the intrusion detection takes as well. -/
theorem ids_matches_of_matches {keyExpr pattern : Str} (h : keyExprMatches keyExpr pattern = true) :
    MasterIds.keyExprMatches keyExpr pattern = true := by
  cases hends : endsWith pattern (str "/**") with
  | false => rwa [matchers_agree keyExpr pattern hends]
  | true =>
    obtain ⟨stem, rfl⟩ := (endsWith_iff _ _).mp hends
    exact (ids_matches_below keyExpr stem).mpr (below_starts ((keyExprMatches_below keyExpr stem).mp h))

/-- The intrusion detection takes more just where the key runs on. -/
theorem ids_matches_iff (keyExpr pattern : Str) :
    MasterIds.keyExprMatches keyExpr pattern = true ↔
      keyExprMatches keyExpr pattern = true ∨ RunsOn keyExpr pattern := by
  constructor
  · intro h
    cases hends : endsWith pattern (str "/**") with
    | false =>
      rw [matchers_agree keyExpr pattern hends] at h
      exact .inl h
    | true =>
      obtain ⟨stem, rfl⟩ := (endsWith_iff _ _).mp hends
      rw [ids_matches_below] at h
      rw [keyExprMatches_below]
      by_cases hbelow : stem ++ [slash] <+: keyExpr ∨ keyExpr = stem
      · exact .inl hbelow
      · rw [not_or] at hbelow
        exact .inr ⟨stem, rfl, h, hbelow.2, hbelow.1⟩
  · rintro (h | ⟨stem, rfl, hstart, -, -⟩)
    · exact ids_matches_of_matches h
    · exact (ids_matches_below keyExpr stem).mpr hstart

theorem runsOn_not_matches {keyExpr pattern : Str} (h : RunsOn keyExpr pattern) :
    ¬ keyExprMatches keyExpr pattern = true := by
  obtain ⟨stem, rfl, -, hne, hslash⟩ := h
  rw [keyExprMatches_below]
  exact not_or.mpr ⟨hslash, hne⟩

/-- A pattern covers the key or none has a stem that runs on into it; where the action is not
allowed, none covers it either. -/
def Settled (policy : ACLPolicy) (keyExpr action : Str) : Prop :=
  (action ∈ policy.allowedActions →
    (∃ pattern ∈ policy.allowedKeyExprs, Covers keyExpr pattern) ∨
      ∀ pattern ∈ policy.allowedKeyExprs, ¬ RunsOn keyExpr pattern) ∧
  (action ∉ policy.allowedActions →
    ∀ pattern ∈ policy.allowedKeyExprs, ¬ Covers keyExpr pattern ∧ ¬ RunsOn keyExpr pattern)

theorem checkAccess_iff (acl : ACLManager) (nodeId keyExpr action : Str) :
    acl.checkAccess nodeId keyExpr action = true ↔
      ∃ policy, acl.getPolicy nodeId = some policy ∧ action ∈ policy.allowedActions ∧
        ∃ pattern ∈ policy.allowedKeyExprs, keyExprMatches keyExpr pattern = true := by
  rw [ACLManager.checkAccess]
  cases acl.getPolicy nodeId with
  | none => simp
  | some policy =>
    by_cases haction : action ∈ policy.allowedActions
    · simp [haction]
    · simp [haction]

theorem verdict_settled_iff (policy : ACLPolicy) (keyExpr action : Str) :
    (action ∈ policy.allowedActions ∧
        (∃ pattern ∈ policy.allowedKeyExprs, keyExprMatches keyExpr pattern = true) ↔
      ∃ pattern ∈ policy.allowedKeyExprs, MasterIds.keyExprMatches keyExpr pattern = true) ↔
      Settled policy keyExpr action := by
  simp only [ids_matches_iff, keyExprMatches_iff_covers, and_or_left, exists_or]
  by_cases haction : action ∈ policy.allowedActions
  · simp only [Settled, haction, true_and, not_true_eq_false, forall_const, IsEmpty.forall_iff,
      and_true]
    constructor
    · intro h
      by_cases hcovers : ∃ pattern ∈ policy.allowedKeyExprs, Covers keyExpr pattern
      · exact .inl hcovers
      · exact .inr fun pattern hmem hruns => hcovers (h.mpr (.inr ⟨pattern, hmem, hruns⟩))
    · rintro (hcovers | hnone)
      · exact iff_of_true hcovers (.inl hcovers)
      · exact ⟨.inl, fun h => h.resolve_right fun ⟨pattern, hmem, hruns⟩ => hnone pattern hmem hruns⟩
  · simp only [Settled, haction, false_and, not_false_eq_true, forall_const, IsEmpty.forall_iff,
      true_and]
    constructor
    · intro h pattern hmem
      exact ⟨fun hcovers => h.mpr (.inl ⟨pattern, hmem, hcovers⟩),
        fun hruns => h.mpr (.inr ⟨pattern, hmem, hruns⟩)⟩
    · intro hnone
      refine iff_of_false id ?_
      rintro (⟨pattern, hmem, hcovers⟩ | ⟨pattern, hmem, hruns⟩)
      · exact (hnone pattern hmem).1 hcovers
      · exact (hnone pattern hmem).2 hruns

/-- The matchers agree on a key and a pattern unless the key runs on behind the pattern's stem, and
the two checks agree on a node, whatever its policy, where that and its actions are settled. -/
theorem matchers_agree_iff (keyExpr pattern : Str) (acl : ACLManager) (nodeId action : Str)
    (ids : IDSEngine) (now : Nat) :
    (keyExprMatches keyExpr pattern = MasterIds.keyExprMatches keyExpr pattern ↔
      ¬ RunsOn keyExpr pattern) ∧
    ((acl.checkAccess nodeId keyExpr action = true ↔
        ¬ ∃ alert ∈ (ids.checkAcl nodeId keyExpr (allowedKeyExprs acl nodeId) now).1,
          alert.ruleId = IDSRuleID.ids001.value) ↔
      ∀ policy, acl.getPolicy nodeId = some policy → Settled policy keyExpr action) := by
  constructor
  · rw [Bool.eq_iff_iff, ids_matches_iff]
    constructor
    · intro h hruns
      exact runsOn_not_matches hruns (h.mpr (.inr hruns))
    · intro hnone
      exact ⟨.inl, fun h => h.resolve_right hnone⟩
  · rw [checkAcl_alert_iff, not_not, checkAccess_iff, allowedKeyExprs]
    cases acl.getPolicy nodeId with
    | none => simp
    | some policy =>
      simp only [Option.some.injEq, exists_eq_left', forall_eq']
      exact verdict_settled_iff policy keyExpr action

/-- `vehicles` is not below `vehicle/`, but begins with `vehicle`. -/
theorem matchers_differ :
    keyExprMatches (str "vehicles") (str "vehicle/**") = false ∧
      MasterIds.keyExprMatches (str "vehicles") (str "vehicle/**") = true := by
  decide +kernel

/-! ## What key expressions denote -/

def oneStar : Str := str "*"

def twoStars : Str := str "**"

def chunk (segment : Str) : Chunk Str :=
  if segment = oneStar then .one else if segment = twoStars then .any else .exactly segment

def chunks (keyExpr : Str) : List (Chunk Str) := (splitSlash keyExpr).map chunk

/-- The key expression stands for the key: one star for one segment, two for any number. -/
def Denotes (keyExpr key : Str) : Prop := splitSlash key ∈ language (chunks keyExpr)

/-- A key without wildcards. -/
def Concrete (key : Str) : Prop := ∀ segment ∈ splitSlash key, segment ≠ oneStar ∧ segment ≠ twoStars

/-- Every key of the first expression is one of the second. -/
def Included (keyExpr pattern : Str) : Prop :=
  ∀ key, Concrete key → Denotes keyExpr key → Denotes pattern key

theorem included_of_le {keyExpr pattern : Str} (h : language (chunks keyExpr) ≤ language (chunks pattern)) :
    Included keyExpr pattern := fun _ _ hkey => h hkey

theorem chunks_append (front back : Str) :
    chunks (front ++ slash :: back) = chunks front ++ chunks back := by
  rw [chunks, splitSlash_append, List.map_append]
  rfl

theorem chunks_single {segment : Str} (h : slash ∉ segment) : chunks segment = [chunk segment] := by
  rw [chunks, splitSlash_single h, List.map_singleton]

theorem chunk_eq_exactly {segment : Str} (h : segment ≠ oneStar ∧ segment ≠ twoStars) :
    chunk segment = .exactly segment := by
  rw [chunk, if_neg h.1, if_neg h.2]

theorem chunk_eq_any_iff (segment : Str) : chunk segment = .any ↔ segment = twoStars := by
  rw [chunk]
  split
  · rename_i hstar
    rw [hstar]
    exact iff_of_false (by simp) (by decide)
  · split
    · rename_i hdouble
      exact iff_of_true rfl hdouble
    · rename_i hdouble
      exact iff_of_false (by simp) hdouble

theorem chunk_eq_exactly_iff (segment given : Str) :
    chunk segment = .exactly given ↔ segment = given ∧ given ≠ oneStar ∧ given ≠ twoStars := by
  constructor
  · intro h
    rw [chunk] at h
    split at h
    · exact absurd h (by simp)
    · split at h
      · exact absurd h (by simp)
      · rename_i hstar hdouble
        obtain rfl := Chunk.exactly.inj h
        exact ⟨rfl, hstar, hdouble⟩
  · rintro ⟨rfl, hne⟩
    exact chunk_eq_exactly hne

/-- A pattern `stem/*` and a key expression one segment below its stem. -/
theorem chunks_below (stem : Str) {segment : Str} (h : slash ∉ segment) :
    chunks (stem ++ slash :: segment) = chunks stem ++ [chunk segment] := by
  rw [chunks_append, chunks_single h]

theorem chunks_oneStar (stem : Str) : chunks (stem ++ str "/*") = chunks stem ++ [.one] := by
  have hslash : str "/*" = slash :: oneStar := by decide
  rw [hslash, chunks_below stem (by decide)]
  rfl

theorem chunks_twoStars (stem : Str) : chunks (stem ++ str "/**") = chunks stem ++ [.any] := by
  have hslash : str "/**" = slash :: twoStars := by decide
  rw [hslash, chunks_below stem (by decide)]
  rfl

theorem endsWith_twoStars_iff (stem : Str) {segment : Str} (h : slash ∉ segment) :
    endsWith (stem ++ slash :: segment) (str "/**") = true ↔ segment = twoStars := by
  have hslash : str "/**" = slash :: twoStars := by decide
  rw [endsWith_iff, hslash]
  constructor
  · rintro ⟨front, heq⟩
    have hsplit := congrArg splitSlash heq
    rw [splitSlash_append, splitSlash_append, splitSlash_single h,
      splitSlash_single (by decide : slash ∉ twoStars)] at hsplit
    exact (List.singleton_inj.mp (List.append_inj_right' hsplit rfl)).symm
  · rintro rfl
    exact List.suffix_append stem _

/-! ## Grants -/

/-- A covered key expression denotes no more than its pattern, unless it has two stars where the
pattern has one. -/
theorem included_of_covers {keyExpr pattern : Str} (h : Covers keyExpr pattern)
    (hone : ¬ (endsWith pattern (str "/*") = true ∧ endsWith keyExpr (str "/**") = true)) :
    Included keyExpr pattern := by
  cases h with
  | same => exact fun _ _ hkey => hkey
  | below stem hplace =>
    refine included_of_le ?_
    rw [chunks_twoStars]
    obtain ⟨back, rfl⟩ | rfl := hplace
    · rw [List.append_assoc, List.singleton_append, chunks_append]
      exact append_le_any (chunks stem) (chunks back)
    · have hall := append_le_any (chunks keyExpr) []
      rwa [List.append_nil] at hall
  | segment stem segment hsingle hplace =>
    subst hplace
    refine included_of_le ?_
    rw [chunks_oneStar, chunks_below stem hsingle]
    refine concat_le_one (chunks stem) fun hany => hone ⟨(endsWith_star stem).2, ?_⟩
    rwa [endsWith_twoStars_iff stem hsingle, ← chunk_eq_any_iff]

/-- A segment that no policy names. -/
def filler : Str := str "x"

/-- A key of `stem/**` two segments below the stem. -/
def deepKey (stem : Str) : Str :=
  [slash].intercalate (sample filler (chunks stem) ++ [filler, filler])

theorem sample_chunk {stem segment : Str} (h : segment ∈ sample filler (chunks stem)) :
    slash ∉ segment ∧ segment ≠ oneStar ∧ segment ≠ twoStars := by
  obtain rfl | hmem := mem_sample h
  · decide
  · obtain ⟨segment', hmem', heq⟩ := List.mem_map.mp hmem
    rw [chunk_eq_exactly_iff] at heq
    obtain ⟨rfl, hne⟩ := heq
    exact ⟨slash_not_mem_segment hmem', hne⟩

theorem deepKey_segment {stem segment : Str}
    (h : segment ∈ sample filler (chunks stem) ++ [filler, filler]) :
    slash ∉ segment ∧ segment ≠ oneStar ∧ segment ≠ twoStars := by
  rw [List.mem_append] at h
  obtain h | h := h
  · exact sample_chunk h
  · obtain rfl : segment = filler := by simpa using h
    decide

theorem splitSlash_deepKey (stem : Str) :
    splitSlash (deepKey stem) = sample filler (chunks stem) ++ [filler, filler] :=
  splitSlash_intercalate (by simp) fun _ hpart => (deepKey_segment hpart).1

theorem deepKey_concrete (stem : Str) : Concrete (deepKey stem) := by
  intro segment hsegment
  rw [splitSlash_deepKey] at hsegment
  exact (deepKey_segment hsegment).2

theorem deepKey_denoted (stem : Str) : Denotes (stem ++ str "/**") (deepKey stem) := by
  rw [Denotes, splitSlash_deepKey, chunks_twoStars, mem_concat_any]
  exact ⟨_, sample_mem filler (chunks stem), _, rfl⟩

/-! ## Policies of slaves -/

theorem chunks_given (front : Str) {name : Str} (h : slash ∉ name ∧ name ≠ oneStar ∧ name ≠ twoStars) :
    chunks (front ++ slash :: name) = chunks front ++ [.exactly name] := by
  rw [chunks_below front h.1, chunk_eq_exactly h.2]

theorem deepKey_not_given (stem front : Str) {name : Str}
    (h : slash ∉ name ∧ name ≠ oneStar ∧ name ≠ twoStars) (hne : name ≠ filler) :
    ¬ Denotes (front ++ slash :: name) (deepKey stem) := by
  rw [Denotes, splitSlash_deepKey, chunks_given front h, mem_concat_exactly]
  rintro ⟨front', -, heq⟩
  have hsplit : sample filler (chunks stem) ++ [filler, filler] =
      (sample filler (chunks stem) ++ [filler]) ++ [filler] := by simp
  rw [hsplit] at heq
  exact hne (List.singleton_inj.mp (List.append_inj_right' heq rfl)).symm

theorem deepKey_not_star (stem front : Str) {name : Str}
    (h : slash ∉ name ∧ name ≠ oneStar ∧ name ≠ twoStars) (hne : name ≠ filler) :
    ¬ Denotes (front ++ slash :: name ++ str "/*") (deepKey stem) := by
  rw [Denotes, splitSlash_deepKey, chunks_oneStar, chunks_given front h]
  exact two_not_mem _ _ hne.symm

/-- No pattern of a slave reaches two segments below any stem. -/
theorem deepKey_outside (stem : Str) {r : Registration} (h : IsSlave r.role) {pattern : Str}
    (hmem : pattern ∈ generateKeyExprs r.nodeId r.zone r.role) : ¬ Denotes pattern (deepKey stem) := by
  have hstar : ∀ name, nodeKey r.zone r.nodeId (name ++ str "/*") =
      str "vehicle/" ++ r.zone ++ slash :: r.nodeId ++ slash :: name ++ str "/*" := by
    intro name
    rw [nodeKey_append, nodeKey]
  have hbeat : heartbeatKey = str "vehicle/master" ++ slash :: str "heartbeat" := by decide
  have hcommand : commandKey = str "vehicle/master" ++ slash :: str "command" := by decide
  rw [mem_generateKeyExprs _ _ _ h] at hmem
  obtain rfl | rfl | rfl | rfl | ⟨-, rfl⟩ | ⟨-, rfl⟩ := hmem
  · exact deepKey_not_given stem _ (by decide) (by decide)
  · exact deepKey_not_given stem _ (by decide) (by decide)
  · rw [hbeat]
    exact deepKey_not_given stem _ (by decide) (by decide)
  · rw [hcommand]
    exact deepKey_not_given stem _ (by decide) (by decide)
  · have hsensor := hstar (str "sensor")
    rw [show str "sensor" ++ str "/*" = str "sensor/*" by decide] at hsensor
    rw [hsensor]
    exact deepKey_not_star stem _ (by decide) (by decide)
  · have hactuator := hstar (str "actuator")
    rw [show str "actuator" ++ str "/*" = str "actuator/*" by decide] at hactuator
    rw [hactuator]
    exact deepKey_not_star stem _ (by decide) (by decide)

/-- A key expression that ends in two stars has keys outside every slave's policy. -/
theorem wider_than_slave {r : Registration} (h : IsSlave r.role) {keyExpr : Str}
    (hends : endsWith keyExpr (str "/**") = true) :
    ∃ key, Concrete key ∧ Denotes keyExpr key ∧
      ∀ pattern ∈ generateKeyExprs r.nodeId r.zone r.role, ¬ Denotes pattern key := by
  obtain ⟨stem, rfl⟩ := (endsWith_iff _ _).mp hends
  exact ⟨deepKey stem, deepKey_concrete stem, deepKey_denoted stem, fun _ => deepKey_outside stem h⟩

/-- Only slaves have patterns with one star. -/
theorem slave_of_oneStar {nodeId zone pattern : Str} {role : NodeSecurityRole}
    (hmem : pattern ∈ generateKeyExprs nodeId zone role) (hone : endsWith pattern (str "/*") = true) :
    IsSlave role := by
  have hall : endsWith (str "vehicle/**") (str "/*") = false := by decide
  cases role with
  | coordinator =>
    obtain rfl := List.mem_singleton.mp hmem
    exact absurd hone (by rw [hall]; decide)
  | diagnostic =>
    obtain rfl := List.mem_singleton.mp hmem
    exact absurd hone (by rw [hall]; decide)
  | sensorNode => exact .inl rfl
  | actuatorNode => exact .inr (.inl rfl)
  | mixedNode => exact .inr (.inr rfl)

/-- A generated pattern that matches, and the policy of a node that is granted the key expression,
denote all that the key expression does, unless it has two stars where a slave has one. -/
theorem granted_included_iff (keyExpr nodeId zone : Str) (role : NodeSecurityRole) :
    (∀ pattern ∈ generateKeyExprs nodeId zone role, keyExprMatches keyExpr pattern = true →
      (Included keyExpr pattern ↔
        ¬ (endsWith pattern (str "/*") = true ∧ endsWith keyExpr (str "/**") = true))) ∧
    (∀ history node action r, latest history node = some r →
      (registered history).checkAccess node keyExpr action = true →
      ((∀ key, Concrete key → Denotes keyExpr key →
          ∃ pattern ∈ generateKeyExprs r.nodeId r.zone r.role, Denotes pattern key) ↔
        ¬ (IsSlave r.role ∧ endsWith keyExpr (str "/**") = true))) := by
  constructor
  · intro pattern hmem hmatch
    constructor
    · rintro hincluded ⟨hone, hends⟩
      obtain ⟨key, hconcrete, hkey, houtside⟩ := wider_than_slave
        (r := ⟨nodeId, zone, role⟩) (slave_of_oneStar hmem hone) hends
      exact houtside pattern hmem (hincluded key hconcrete hkey)
    · exact included_of_covers ((keyExprMatches_iff_covers _ _).mp hmatch)
  · intro history node action r hlatest haccess
    constructor
    · rintro hgranted ⟨hslave, hends⟩
      obtain ⟨key, hconcrete, hkey, houtside⟩ := wider_than_slave hslave hends
      obtain ⟨pattern, hmem, hdenotes⟩ := hgranted key hconcrete hkey
      exact houtside pattern hmem hdenotes
    · intro hnot key hconcrete hkey
      obtain ⟨r', hlatest', -, pattern, hmem, hmatch⟩ := (checkAccess_registered _ _ _ _).mp haccess
      obtain rfl := Option.some.inj (hlatest.symm.trans hlatest')
      refine ⟨pattern, hmem, ?_⟩
      refine included_of_covers ((keyExprMatches_iff_covers _ _).mp hmatch) ?_ key hconcrete hkey
      exact fun ⟨hone, hends⟩ => hnot ⟨slave_of_oneStar hmem hone, hends⟩

theorem granted_included_iff_temperature :
    (keyExprMatches (str "vehicle/f/1/sensor/t") (str "vehicle/f/1/sensor/*") = true ∧
      Included (str "vehicle/f/1/sensor/t") (str "vehicle/f/1/sensor/*")) ∧
    ∀ key, Concrete key → Denotes (str "vehicle/f/1/sensor/t") key →
      ∃ pattern ∈ generateKeyExprs (str "1") (str "f") .sensorNode, Denotes pattern key := by
  have hmatch : keyExprMatches (str "vehicle/f/1/sensor/t") (str "vehicle/f/1/sensor/*") = true := by
    decide +kernel
  have hiff := granted_included_iff (str "vehicle/f/1/sensor/t") (str "1") (str "f") .sensorNode
  exact ⟨⟨hmatch, (hiff.1 _ (by decide +kernel) hmatch).mpr (by decide +kernel)⟩,
    (hiff.2 [⟨str "1", str "f", .sensorNode⟩] (str "1") (str "put") ⟨str "1", str "f", .sensorNode⟩
      rfl (by decide +kernel)).mpr (by decide +kernel)⟩

/-- A sensor node may subscribe to all that is below its sensors, though its policy has one segment
there. -/
theorem subscription_wider :
    (registered [⟨str "1", str "f", .sensorNode⟩]).checkAccess (str "1")
        (str "vehicle/f/1/sensor/**") (str "declare_subscriber") = true ∧
      keyExprMatches (str "vehicle/f/1/sensor/**") (str "vehicle/f/1/sensor/*") = true ∧
      ¬ Included (str "vehicle/f/1/sensor/**") (str "vehicle/f/1/sensor/*") := by
  refine ⟨by decide +kernel, by decide +kernel, fun hincluded => ?_⟩
  have hends : endsWith (str "vehicle/f/1/sensor/**") (str "/**") = true := by decide +kernel
  obtain ⟨key, hconcrete, hkey, houtside⟩ :=
    wider_than_slave (r := ⟨str "1", str "f", .sensorNode⟩) (.inl rfl) hends
  exact houtside _ (by decide +kernel) (hincluded key hconcrete hkey)

end Genoh.AccessGrants
