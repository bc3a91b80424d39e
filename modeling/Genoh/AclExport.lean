import Genoh.AccessGrants

/-!
# The exported access control

`generate_zenohd_acl_config` of `master/acl_manager.py`: the rules that a router is given, against the
decisions that the master takes itself. The router is not in the repository: it is a parameter here, of
which no more is asked than that it takes such rules as a white list.
-/
namespace Genoh.AclExport

open Genoh.MasterAcl Genoh.Strings Genoh.AccessDecisions Genoh.AccessGrants Genoh.Wildcards
open Genoh.Separators

structure Rule where
  id : Str
  certCommonName : Str
  permission : Str
  keyExprs : List Str
  actions : List Str

structure AccessControl where
  enabled : Bool
  defaultPermission : Str
  rules : List Rule

def allow : Str := str "allow"

def deny : Str := str "deny"

/-- The common name of a node's certificate, as its rule has it. -/
def certCommonName (nodeId : Str) : Str := str "zenoh-node-" ++ nodeId

def rule (nodeId : Str) (policy : ACLPolicy) : Rule where
  id := str "acl_" ++ nodeId
  certCommonName := certCommonName nodeId
  permission := allow
  keyExprs := policy.allowedKeyExprs
  actions := policy.allowedActions

/-- `generate_zenohd_acl_config`. -/
def generateZenohdAclConfig (acl : ACLManager) : AccessControl where
  enabled := true
  defaultPermission := deny
  rules := acl.policies.pairs.map fun pair => rule pair.1 pair.2

/-! ## The router -/

/-- A segment that stands for itself only. -/
def PlainSegment (segment : Str) : Prop := segment ≠ [] ∧ ∀ c ∈ segment, c ∉ str "*$#?"

instance : DecidablePred PlainSegment := fun segment =>
  @instDecidableAnd _ _ _ (List.decidableBAll (fun c => c ∉ str "*$#?") segment)

def Plain (key : Str) : Prop := ∀ segment ∈ splitSlash key, PlainSegment segment

/-- A key expression whose stars are whole segments, with no two stars in front of others. -/
structure WellFormed (keyExpr : Str) : Prop where
  segments : ∀ segment ∈ splitSlash keyExpr,
    segment = oneStar ∨ segment = twoStars ∨ PlainSegment segment
  canonical : (splitSlash keyExpr).IsChain fun segment next =>
    segment = twoStars → next ≠ oneStar ∧ next ≠ twoStars

/-- What a router permits of certificates, actions and keys where everything is denied that no rule
allows: what is in one of the rules for the certificate. `acl_policy.json5` and the documentation of
the format call this a white list. -/
def TakesWhiteLists (permits : AccessControl → Str → Str → Str → Prop) : Prop :=
  ∀ config, config.enabled = true → config.defaultPermission = deny →
    (∀ rule ∈ config.rules, rule.permission = allow ∧ ∀ keyExpr ∈ rule.keyExprs, WellFormed keyExpr) →
    ∀ name action key, Plain key → (permits config name action key ↔
      ∃ rule ∈ config.rules, rule.certCommonName = name ∧ action ∈ rule.actions ∧
        ∃ keyExpr ∈ rule.keyExprs, Denotes keyExpr key)

/-- The names in a registration make key expressions. -/
def Registration.WellFormed (r : Registration) : Prop :=
  ∀ keyExpr ∈ generateKeyExprs r.nodeId r.zone r.role, AclExport.WellFormed keyExpr

theorem not_star_of_plain {segment : Str} (h : PlainSegment segment) :
    segment ≠ oneStar ∧ segment ≠ twoStars := by
  have hstar : ofChar '*' ∈ str "*$#?" := by decide
  constructor
  · rintro rfl
    exact h.2 (ofChar '*') (by decide) hstar
  · rintro rfl
    exact h.2 (ofChar '*') (by decide) hstar

theorem concrete_of_plain {key : Str} (h : Plain key) : Concrete key :=
  fun segment hsegment => not_star_of_plain (h segment hsegment)

theorem certCommonName_injective : Function.Injective certCommonName := fun _ _ h =>
  List.append_cancel_left h

section Router

variable {permits : AccessControl → Str → Str → Str → Prop} (hrouter : TakesWhiteLists permits)
variable {history : List Registration} (hformed : ∀ r ∈ history, Registration.WellFormed r)

include hrouter hformed

/-- A router follows the last registrations, as the master's own decision does. -/
theorem permits_registered (nodeId action : Str) {key : Str} (hkey : Plain key) :
    permits (generateZenohdAclConfig (registered history)) (certCommonName nodeId) action key ↔
      ∃ r, latest history nodeId = some r ∧ action ∈ roleActions r.role ∧
        ∃ keyExpr ∈ generateKeyExprs r.nodeId r.zone r.role, Denotes keyExpr key := by
  have hpolicy : ∀ {node : Str} {policy : ACLPolicy}, (node, policy) ∈ (registered history).policies.pairs →
      ∃ r, latest history node = some r ∧ r.policy = policy := by
    intro node policy hpair
    have hget : (registered history).getPolicy node = some policy :=
      ((registered history).policies.mem_pairs_iff node policy).mp hpair
    rw [registered_getPolicy] at hget
    exact Option.map_eq_some_iff.mp hget
  rw [hrouter _ rfl rfl ?_ _ _ _ hkey]
  · constructor
    · rintro ⟨rule', hrule, hname, haction, hdenotes⟩
      obtain ⟨⟨node, policy⟩, hpair, rfl⟩ := List.mem_map.mp hrule
      obtain rfl := certCommonName_injective hname
      obtain ⟨r, hlatest, rfl⟩ := hpolicy hpair
      exact ⟨r, hlatest, haction, hdenotes⟩
    · rintro ⟨r, hlatest, haction, hdenotes⟩
      have hget : (registered history).getPolicy nodeId = some r.policy := by
        rw [registered_getPolicy, hlatest]
        rfl
      have hpair := ((registered history).policies.mem_pairs_iff nodeId r.policy).mpr hget
      exact ⟨_, List.mem_map_of_mem hpair, rfl, haction, hdenotes⟩
  · intro rule' hrule
    obtain ⟨⟨node, policy⟩, hpair, rfl⟩ := List.mem_map.mp hrule
    obtain ⟨r, hlatest, rfl⟩ := hpolicy hpair
    exact ⟨rfl, hformed r (List.mem_reverse.mp (List.mem_of_find?_eq_some hlatest))⟩

end Router

/-! ## Patterns on a stem without wildcards -/

instance (key : Str) : Decidable (Concrete key) :=
  inferInstanceAs (Decidable (∀ segment ∈ splitSlash key, segment ≠ oneStar ∧ segment ≠ twoStars))

theorem chunks_concrete {keyExpr : Str} (h : Concrete keyExpr) :
    chunks keyExpr = (splitSlash keyExpr).map Chunk.exactly :=
  List.map_congr_left fun segment hsegment => chunk_eq_exactly (h segment hsegment)

theorem mem_language_chunks {keyExpr : Str} (h : Concrete keyExpr) (w : List Str) :
    w ∈ language (chunks keyExpr) ↔ w = splitSlash keyExpr := by
  rw [chunks_concrete h, mem_language_exactly]

theorem denotes_concrete {keyExpr : Str} (h : Concrete keyExpr) (key : Str) :
    Denotes keyExpr key ↔ key = keyExpr := by
  rw [Denotes, mem_language_chunks h]
  exact (splitOn_injective slash).eq_iff

theorem denotes_oneStar {stem : Str} (h : Concrete stem) (key : Str) :
    Denotes (stem ++ str "/*") key ↔ ∃ segment, slash ∉ segment ∧ key = stem ++ slash :: segment := by
  rw [Denotes, chunks_oneStar, mem_concat_one]
  simp only [mem_language_chunks h, exists_eq_left]
  constructor
  · rintro ⟨segment, hkey⟩
    obtain ⟨back, rfl, hback⟩ := (splitOn_eq_append_iff (List.cons_ne_nil segment [])).mp hkey
    have hsingle : slash ∉ segment :=
      sep_not_mem_part (hback ▸ List.mem_singleton_self segment)
    have hsame := congrArg (List.intercalate [slash]) hback
    rw [List.intercalate_splitOn, List.intercalate_singleton] at hsame
    exact ⟨back, hsame ▸ hsingle, rfl⟩
  · rintro ⟨segment, hsingle, rfl⟩
    exact ⟨segment, by rw [splitSlash_append, splitSlash_single hsingle]⟩

theorem denotes_twoStars {stem : Str} (h : Concrete stem) (key : Str) :
    Denotes (stem ++ str "/**") key ↔ stem ++ [slash] <+: key ∨ key = stem := by
  rw [Denotes, chunks_twoStars, mem_concat_any]
  simp only [mem_language_chunks h, exists_eq_left]
  constructor
  · rintro ⟨rest, hkey⟩
    by_cases hrest : rest = []
    · rw [hrest, List.append_nil] at hkey
      exact .inr (splitOn_injective slash hkey)
    · obtain ⟨back, rfl, -⟩ := (splitOn_eq_append_iff hrest).mp hkey
      exact .inl ⟨back, by simp⟩
  · rintro (⟨back, rfl⟩ | rfl)
    · exact ⟨splitSlash back, by
        rw [List.append_assoc, List.singleton_append, splitSlash_append]⟩
    · exact ⟨[], (List.append_nil _).symm⟩

theorem concrete_append_iff (front back : Str) :
    Concrete (front ++ slash :: back) ↔ Concrete front ∧ Concrete back := by
  rw [Concrete, splitSlash_append]
  exact List.forall_mem_append

theorem nodeKey_concrete_iff (zone nodeId : Str) {tail : Str} (h : Concrete tail) :
    Concrete (nodeKey zone nodeId tail) ↔ Concrete zone ∧ Concrete nodeId := by
  have hfront : str "vehicle/" = str "vehicle" ++ [slash] := by decide
  have hvehicle : Concrete (str "vehicle") := by decide
  have hkey : nodeKey zone nodeId tail =
      str "vehicle" ++ slash :: (zone ++ slash :: (nodeId ++ slash :: tail)) := by
    simp [nodeKey, hfront]
  rw [hkey, concrete_append_iff, concrete_append_iff, concrete_append_iff]
  exact ⟨fun hall => ⟨hall.2.1, hall.2.2.1⟩, fun hnames => ⟨hvehicle, hnames.1, hnames.2, h⟩⟩

/-! ## Nodes whose names have no wildcards -/

theorem pattern_of_not_slave {nodeId zone pattern : Str} {role : NodeSecurityRole}
    (h : ¬ IsSlave role) (hmem : pattern ∈ generateKeyExprs nodeId zone role) :
    pattern = str "vehicle/**" := by
  cases role with
  | coordinator => exact List.mem_singleton.mp hmem
  | diagnostic => exact List.mem_singleton.mp hmem
  | sensorNode => exact absurd (.inl rfl) h
  | actuatorNode => exact absurd (.inr (.inl rfl)) h
  | mixedNode => exact absurd (.inr (.inr rfl)) h

theorem denotes_vehicle_iff (key : Str) :
    Denotes (str "vehicle/**") key ↔ keyExprMatches key (str "vehicle/**") = true := by
  have hpattern : str "vehicle/**" = str "vehicle" ++ str "/**" := by decide
  have hstem : Concrete (str "vehicle") := by decide
  rw [hpattern, denotes_twoStars hstem, keyExprMatches_below]

/-- A slave's patterns, of names without wildcards, denote the keys that the master takes. -/
theorem denotes_slave_iff {r : Registration} (hslave : IsSlave r.role) (hzone : Concrete r.zone)
    (hnode : Concrete r.nodeId) {pattern : Str}
    (hmem : pattern ∈ generateKeyExprs r.nodeId r.zone r.role) (key : Str) :
    Denotes pattern key ↔ keyExprMatches key pattern = true := by
  have hplain : ∀ {tail : Str}, Concrete tail → Concrete (nodeKey r.zone r.nodeId tail) :=
    fun htail => (nodeKey_concrete_iff _ _ htail).mpr ⟨hzone, hnode⟩
  have hstar : ∀ {name : Str}, Concrete name →
      (Denotes (nodeKey r.zone r.nodeId (name ++ str "/*")) key ↔
        keyExprMatches key (nodeKey r.zone r.nodeId (name ++ str "/*")) = true) := by
    intro name hname
    rw [nodeKey_append, denotes_oneStar (hplain hname), keyExprMatches_segment]
  have hsensors : str "sensor" ++ str "/*" = str "sensor/*" := by decide
  have hactuators : str "actuator" ++ str "/*" = str "actuator/*" := by decide
  obtain ⟨hlast, hlast', hlast'', hlast'''⟩ := exact_patterns_getLast? r
  rw [mem_generateKeyExprs _ _ _ hslave] at hmem
  obtain rfl | rfl | rfl | rfl | ⟨-, rfl⟩ | ⟨-, rfl⟩ := hmem
  · rw [denotes_concrete (hplain (by decide)), keyExprMatches_exact key _ hlast]
  · rw [denotes_concrete (hplain (by decide)), keyExprMatches_exact key _ hlast']
  · rw [denotes_concrete (by decide), keyExprMatches_exact key _ hlast'']
  · rw [denotes_concrete (by decide), keyExprMatches_exact key _ hlast''']
  · rw [← hsensors]
    exact hstar (by decide)
  · rw [← hactuators]
    exact hstar (by decide)

/-! ## Nodes whose names have wildcards -/

/-- The slave's own keys all have its names in them. -/
theorem slaveKey_concrete {r : Registration} {key : Str} (h : SlaveKey r key) (hkey : Concrete key) :
    key = heartbeatKey ∨ key = commandKey ∨ Concrete r.zone ∧ Concrete r.nodeId := by
  have hnames : ∀ {front segment : Str}, Concrete (nodeKey r.zone r.nodeId (front ++ slash :: segment)) →
      Concrete r.zone ∧ Concrete r.nodeId := by
    intro front segment hall
    rw [nodeKey_append, concrete_append_iff, nodeKey, concrete_append_iff] at hall
    have hzone := hall.1.1
    have hfront : str "vehicle/" = str "vehicle" ++ [slash] := by decide
    rw [hfront, List.append_assoc, List.append_assoc, List.singleton_append, concrete_append_iff,
      concrete_append_iff] at hzone
    exact ⟨hzone.2.1, hzone.2.2⟩
  cases h with
  | heartbeat => exact .inl rfl
  | command => exact .inr (.inl rfl)
  | status => exact .inr (.inr ((nodeKey_concrete_iff _ _ (by decide)).mp hkey))
  | alive => exact .inr (.inr ((nodeKey_concrete_iff _ _ (by decide)).mp hkey))
  | sensor segment => exact .inr (.inr (hnames hkey))
  | actuator segment => exact .inr (.inr (hnames hkey))

/-- A key of the slave's status pattern, with a filler for each star. -/
def statusKey (r : Registration) : Str :=
  [slash].intercalate (sample filler (chunks (nodeKey r.zone r.nodeId (str "status"))))

theorem splitSlash_statusKey (r : Registration) :
    splitSlash (statusKey r) = sample filler (chunks (nodeKey r.zone r.nodeId (str "status"))) := by
  refine splitSlash_intercalate ?_ fun _ hpart => (sample_chunk hpart).1
  have hmem := sample_mem filler (chunks (nodeKey r.zone r.nodeId (str "status")))
  intro hnil
  rw [hnil, nodeKey, chunks_given _ (by decide), mem_concat_exactly] at hmem
  obtain ⟨front, -, hfront⟩ := hmem
  exact absurd hfront (by simp)

theorem statusKey_plain {r : Registration} (hr : Registration.WellFormed r) (hslave : IsSlave r.role) :
    Plain (statusKey r) := by
  have hstatus := hr _ ((mem_generateKeyExprs _ _ _ hslave _).mpr (.inl rfl))
  intro segment hsegment
  rw [splitSlash_statusKey] at hsegment
  have hnot := (sample_chunk hsegment).2
  obtain rfl | hmem := mem_sample hsegment
  · decide
  · obtain ⟨segment', hmem', heq⟩ := List.mem_map.mp hmem
    obtain ⟨rfl, -⟩ := (chunk_eq_exactly_iff _ _).mp heq
    exact ((hstatus.segments _ hmem').resolve_left hnot.1).resolve_left hnot.2

theorem statusKey_denoted (r : Registration) :
    Denotes (nodeKey r.zone r.nodeId (str "status")) (statusKey r) := by
  rw [Denotes, splitSlash_statusKey]
  exact sample_mem filler _

/-- The two keys of the master have another last segment. -/
theorem statusKey_not_master (r : Registration) :
    statusKey r ≠ heartbeatKey ∧ statusKey r ≠ commandKey := by
  have hlast : (splitSlash (statusKey r)).getLast? = some (str "status") := by
    have hdenoted := statusKey_denoted r
    rw [Denotes, nodeKey, chunks_given _ (by decide), mem_concat_exactly] at hdenoted
    obtain ⟨front, -, hfront⟩ := hdenoted
    rw [hfront, List.getLast?_concat]
  constructor
  · intro hsame
    rw [hsame] at hlast
    exact absurd hlast (by decide)
  · intro hsame
    rw [hsame] at hlast
    exact absurd hlast (by decide)

/-! ## The export against the master's decision -/

/-- A key that the master grants is denoted by one of the node's patterns. -/
theorem denotes_of_checkAccess {history : List Registration} {nodeId key action : Str}
    (hkey : Concrete key) (h : (registered history).checkAccess nodeId key action = true) :
    ∃ r, latest history nodeId = some r ∧ action ∈ roleActions r.role ∧
      ∃ keyExpr ∈ generateKeyExprs r.nodeId r.zone r.role, Denotes keyExpr key := by
  obtain ⟨r, hlatest, haction, pattern, hmem, hmatch⟩ := (checkAccess_registered _ _ _ _).mp h
  refine ⟨r, hlatest, haction, pattern, hmem, ?_⟩
  have hstars : ¬ endsWith key (str "/**") = true := by
    rw [endsWith_iff]
    rintro ⟨front, rfl⟩
    have hslash : str "/**" = slash :: twoStars := by decide
    rw [hslash, concrete_append_iff] at hkey
    exact absurd hkey.2 (by decide)
  exact included_of_covers ((keyExprMatches_iff_covers _ _).mp hmatch) (fun hone => hstars hone.2)
    key hkey ((denotes_concrete hkey key).mpr rfl)

/-- What rules permit where each of them allows. -/
def whiteList (config : AccessControl) (name action key : Str) : Prop :=
  ∃ rule ∈ config.rules, rule.certCommonName = name ∧ action ∈ rule.actions ∧
    ∃ keyExpr ∈ rule.keyExprs, Denotes keyExpr key

def sensorOne : Registration := ⟨str "1", str "front_left", .sensorNode⟩

theorem sensorOne_wellFormed : Registration.WellFormed sensorOne := by
  intro keyExpr hmem
  have hall : ∀ keyExpr ∈ generateKeyExprs sensorOne.nodeId sensorOne.zone sensorOne.role,
      (∀ segment ∈ splitSlash keyExpr,
        segment = oneStar ∨ segment = twoStars ∨ PlainSegment segment) ∧
      (splitSlash keyExpr).IsChain fun segment next =>
        segment = twoStars → next ≠ oneStar ∧ next ≠ twoStars := by decide +kernel
  exact ⟨(hall keyExpr hmem).1, (hall keyExpr hmem).2⟩

end Genoh.AclExport
