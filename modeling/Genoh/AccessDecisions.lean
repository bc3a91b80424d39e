import Genoh.MasterAcl
import Genoh.MasterIds

/-!
# Access decisions

What the access control grants to the nodes of each role, and how the two rules of the
intrusion detection about keys compare with it.
-/
namespace Genoh.AccessDecisions

open Genoh.MasterAcl Genoh.Strings
open Genoh.MasterAcl.NodeSecurityRole (coordinator sensorNode actuatorNode mixedNode diagnostic)
open Genoh.MasterIds (IDSEngine IDSRuleID)

/-! ## Patterns -/

theorem getLast?_of_suffix {s front : Str} {c : CodePoint} (h : front ++ [c] <:+ s) :
    s.getLast? = some c := by
  obtain ⟨before, rfl⟩ := h
  simp

theorem endsWith_no_star {pattern : Str} (h : pattern.getLast? ≠ some (ofChar '*')) :
    endsWith pattern (str "/**") = false ∧ endsWith pattern (str "/*") = false := by
  simp only [← Bool.not_eq_true, endsWith_iff]
  constructor
  · intro hends
    have hstar : str "/*" ++ [ofChar '*'] <:+ pattern := hends
    exact h (getLast?_of_suffix hstar)
  · intro hends
    have hstar : str "/" ++ [ofChar '*'] <:+ pattern := hends
    exact h (getLast?_of_suffix hstar)

/-- A pattern without a star at the end stands for itself. -/
theorem keyExprMatches_exact (keyExpr pattern : Str) (h : pattern.getLast? ≠ some (ofChar '*')) :
    keyExprMatches keyExpr pattern = true ↔ keyExpr = pattern := by
  obtain ⟨htwo, hone⟩ := endsWith_no_star h
  rw [keyExprMatches, htwo, hone]
  simp [eq_comm]

theorem endsWith_star (stem : Str) :
    endsWith (stem ++ str "/*") (str "/**") = false ∧ endsWith (stem ++ str "/*") (str "/*") = true := by
  constructor
  · rw [← Bool.not_eq_true, endsWith_iff]
    rintro ⟨before, heq⟩
    have hlast : str "/**" = [slash, ofChar '*'] ++ [ofChar '*'] := by decide
    have hlast' : str "/*" = [slash] ++ [ofChar '*'] := by decide
    rw [hlast, hlast', ← List.append_assoc, ← List.append_assoc] at heq
    have hstem := (List.append_inj' heq rfl).1
    have hstar : [slash, ofChar '*'] = [slash] ++ [ofChar '*'] := rfl
    rw [hstar, ← List.append_assoc] at hstem
    exact absurd (List.append_inj' hstem rfl).2 (by decide)
  · rw [endsWith_iff]
    exact List.suffix_append stem _

/-- A pattern with one star at the end takes exactly one segment there. -/
theorem keyExprMatches_segment (keyExpr stem : Str) :
    keyExprMatches keyExpr (stem ++ str "/*") = true ↔
      ∃ segment, slash ∉ segment ∧ keyExpr = stem ++ slash :: segment := by
  obtain ⟨htwo, hone⟩ := endsWith_star stem
  rw [keyExprMatches, htwo, hone]
  by_cases heq : stem ++ str "/*" = keyExpr
  · rw [if_pos heq]
    exact iff_of_true rfl ⟨[ofChar '*'], by decide, heq.symm⟩
  · simp only [if_neg heq, Bool.false_eq_true, if_false, if_true, dropEnd_append stem (str "/*") 2 rfl]
    constructor
    · intro h
      split at h
      · rename_i hcount
        rw [startsWith_iff] at h
        obtain ⟨segment, rfl⟩ := h
        refine ⟨segment, ?_, by simp⟩
        have hzero : segment.count slash = 0 := by
          simp only [segments, List.count_append, List.count_singleton_self] at hcount
          omega
        exact List.count_eq_zero.mp hzero
      · exact absurd h Bool.false_ne_true
    · rintro ⟨segment, hsegment, rfl⟩
      have hcount : segments (stem ++ slash :: segment) = segments stem + 1 := by
        simp [segments, List.count_eq_zero.mpr hsegment]
      rw [if_pos hcount, startsWith_iff]
      exact ⟨segment, by simp⟩

/-- A pattern with two stars at the end is its stem and all below it. -/
theorem keyExprMatches_below (keyExpr stem : Str) :
    keyExprMatches keyExpr (stem ++ str "/**") = true ↔ stem ++ [slash] <+: keyExpr ∨ keyExpr = stem := by
  have hends : endsWith (stem ++ str "/**") (str "/**") = true := (endsWith_iff _ _).mpr ⟨stem, rfl⟩
  rw [keyExprMatches, hends]
  by_cases heq : stem ++ str "/**" = keyExpr
  · subst heq
    have hbelow : stem ++ str "/**" = stem ++ [slash] ++ str "**" := by
      rw [List.append_assoc]
      rfl
    exact iff_of_true (by simp) (.inl ⟨str "**", hbelow.symm⟩)
  · rw [if_neg heq, if_pos rfl]
    simp only [dropEnd_append stem (str "/**") 3 rfl, Bool.or_eq_true, startsWith_iff, beq_iff_eq]

/-- `vehicle/**` is `vehicle` and all below it. -/
theorem keyExprMatches_vehicle (keyExpr : Str) :
    keyExprMatches keyExpr (str "vehicle/**") = true ↔
      str "vehicle/" <+: keyExpr ∨ keyExpr = str "vehicle" := by
  have hpattern : str "vehicle/**" = str "vehicle" ++ str "/**" := by decide
  have hslash : str "vehicle" ++ [slash] = str "vehicle/" := by decide
  rw [hpattern, keyExprMatches_below, hslash]

/-! ## What slaves may put -/

def IsSlave (role : NodeSecurityRole) : Prop :=
  role = sensorNode ∨ role = actuatorNode ∨ role = mixedNode

instance (role : NodeSecurityRole) : Decidable (IsSlave role) := by
  unfold IsSlave
  infer_instance

theorem put_mem_roleActions {role : NodeSecurityRole} (h : IsSlave role) :
    str "put" ∈ roleActions role := by
  obtain rfl | rfl | rfl := h
  all_goals decide

/-- The keys that a sensor, actuator or mixed node may put. -/
inductive SlaveKey (r : Registration) : Str → Prop where
  | heartbeat : SlaveKey r heartbeatKey
  | command : SlaveKey r commandKey
  | status : SlaveKey r (nodeKey r.zone r.nodeId (str "status"))
  | alive : SlaveKey r (nodeKey r.zone r.nodeId (str "alive"))
  | sensor (segment : Str) (single : slash ∉ segment)
      (role : r.role = sensorNode ∨ r.role = mixedNode) :
      SlaveKey r (nodeKey r.zone r.nodeId (str "sensor" ++ slash :: segment))
  | actuator (segment : Str) (single : slash ∉ segment)
      (role : r.role = actuatorNode ∨ r.role = mixedNode) :
      SlaveKey r (nodeKey r.zone r.nodeId (str "actuator" ++ slash :: segment))

theorem nodeKey_append (zone nodeId front tail : Str) :
    nodeKey zone nodeId (front ++ tail) = nodeKey zone nodeId front ++ tail := by
  simp [nodeKey]

theorem mem_generateKeyExprs (nodeId zone : Str) (role : NodeSecurityRole) (h : IsSlave role)
    (pattern : Str) : pattern ∈ generateKeyExprs nodeId zone role ↔
      pattern = nodeKey zone nodeId (str "status") ∨ pattern = nodeKey zone nodeId (str "alive") ∨
      pattern = heartbeatKey ∨ pattern = commandKey ∨
      (role = sensorNode ∨ role = mixedNode) ∧ pattern = nodeKey zone nodeId (str "sensor/*") ∨
      (role = actuatorNode ∨ role = mixedNode) ∧
        pattern = nodeKey zone nodeId (str "actuator/*") := by
  obtain rfl | rfl | rfl := h
  all_goals simp [generateKeyExprs]

theorem nodeKey_getLast? (zone nodeId tail : Str) (h : tail ≠ []) :
    (nodeKey zone nodeId tail).getLast? = tail.getLast? := by
  have hkey : nodeKey zone nodeId tail = nodeKey zone nodeId [] ++ tail :=
    nodeKey_append zone nodeId [] tail
  rw [hkey, List.getLast?_append, List.getLast?_eq_some_getLast h, Option.some_or]

theorem matches_nodeKey_star (keyExpr zone nodeId name : Str) :
    keyExprMatches keyExpr (nodeKey zone nodeId (name ++ str "/*")) = true ↔
      ∃ segment, slash ∉ segment ∧ keyExpr = nodeKey zone nodeId (name ++ slash :: segment) := by
  rw [nodeKey_append, keyExprMatches_segment]
  simp only [nodeKey_append]

theorem exact_patterns_getLast? (r : Registration) :
    (nodeKey r.zone r.nodeId (str "status")).getLast? ≠ some (ofChar '*') ∧
    (nodeKey r.zone r.nodeId (str "alive")).getLast? ≠ some (ofChar '*') ∧
    heartbeatKey.getLast? ≠ some (ofChar '*') ∧ commandKey.getLast? ≠ some (ofChar '*') := by
  rw [nodeKey_getLast? _ _ _ (by decide), nodeKey_getLast? _ _ _ (by decide)]
  decide

/-- A slave's patterns match its keys and no others. -/
theorem slave_matches_iff (r : Registration) (h : IsSlave r.role) (keyExpr : Str) :
    (∃ pattern ∈ generateKeyExprs r.nodeId r.zone r.role, keyExprMatches keyExpr pattern = true) ↔
      SlaveKey r keyExpr := by
  obtain ⟨hlast, hlast', hlast'', hlast'''⟩ := exact_patterns_getLast? r
  have hstatus := keyExprMatches_exact keyExpr _ hlast
  have halive := keyExprMatches_exact keyExpr _ hlast'
  have hbeat := keyExprMatches_exact keyExpr _ hlast''
  have hcommand := keyExprMatches_exact keyExpr _ hlast'''
  have hsensor := matches_nodeKey_star keyExpr r.zone r.nodeId (str "sensor")
  have hactuator := matches_nodeKey_star keyExpr r.zone r.nodeId (str "actuator")
  have hsensors : str "sensor" ++ str "/*" = str "sensor/*" := by decide
  have hactuators : str "actuator" ++ str "/*" = str "actuator/*" := by decide
  rw [hsensors] at hsensor
  rw [hactuators] at hactuator
  constructor
  · rintro ⟨pattern, hmem, hmatch⟩
    rw [mem_generateKeyExprs _ _ _ h] at hmem
    obtain rfl | rfl | rfl | rfl | ⟨hrole, rfl⟩ | ⟨hrole, rfl⟩ := hmem
    · rw [hstatus.mp hmatch]
      exact .status
    · rw [halive.mp hmatch]
      exact .alive
    · rw [hbeat.mp hmatch]
      exact .heartbeat
    · rw [hcommand.mp hmatch]
      exact .command
    · obtain ⟨segment, hsingle, rfl⟩ := hsensor.mp hmatch
      exact .sensor segment hsingle hrole
    · obtain ⟨segment, hsingle, rfl⟩ := hactuator.mp hmatch
      exact .actuator segment hsingle hrole
  · have hpattern := mem_generateKeyExprs r.nodeId r.zone r.role h
    intro hkey
    cases hkey with
    | heartbeat => exact ⟨heartbeatKey, (hpattern _).mpr (by simp), hbeat.mpr rfl⟩
    | command => exact ⟨commandKey, (hpattern _).mpr (by simp), hcommand.mpr rfl⟩
    | status => exact ⟨_, (hpattern _).mpr (.inl rfl), hstatus.mpr rfl⟩
    | alive => exact ⟨_, (hpattern _).mpr (.inr (.inl rfl)), halive.mpr rfl⟩
    | sensor segment hsingle hrole =>
      refine ⟨_, (hpattern _).mpr ?_, hsensor.mpr ⟨segment, hsingle, rfl⟩⟩
      exact .inr (.inr (.inr (.inr (.inl ⟨hrole, rfl⟩))))
    | actuator segment hsingle hrole =>
      refine ⟨_, (hpattern _).mpr ?_, hactuator.mpr ⟨segment, hsingle, rfl⟩⟩
      exact .inr (.inr (.inr (.inr (.inr ⟨hrole, rfl⟩))))

def put : Str := str "put"

/-- A slave is granted exactly its keys. -/
theorem slave_put_iff {history : List Registration} {nodeId : Str} {r : Registration}
    (hlatest : latest history nodeId = some r) (hslave : IsSlave r.role) (keyExpr : Str) :
    (registered history).checkAccess nodeId keyExpr put = true ↔ SlaveKey r keyExpr := by
  have hput : put ∈ roleActions r.role := put_mem_roleActions hslave
  rw [checkAccess_registered, hlatest, ← slave_matches_iff r hslave]
  simp [hput]

/-- A node without a policy and a diagnostic node are granted nothing. -/
theorem put_denied {history : List Registration} {nodeId : Str}
    (h : ∀ r, latest history nodeId = some r → r.role = diagnostic) (keyExpr : Str) :
    (registered history).checkAccess nodeId keyExpr put = false := by
  rw [← Bool.not_eq_true, checkAccess_registered]
  rintro ⟨r, hlatest, haction, -⟩
  rw [h r hlatest] at haction
  exact absurd haction (by decide)

/-- A slave's key is below `vehicle/master/` or names the node in its third segment. -/
theorem slaveKey_place {r : Registration} {keyExpr : Str} (h : SlaveKey r keyExpr) :
    str "vehicle/master/" <+: keyExpr ∨ ∃ tail, keyExpr = nodeKey r.zone r.nodeId tail := by
  cases h with
  | heartbeat => exact .inl (by decide)
  | command => exact .inl (by decide)
  | status => exact .inr ⟨_, rfl⟩
  | alive => exact .inr ⟨_, rfl⟩
  | sensor segment => exact .inr ⟨_, rfl⟩
  | actuator segment => exact .inr ⟨_, rfl⟩

theorem nodeKey_nodeId {zone zone' nodeId nodeId' tail tail' : Str} (hzone : slash ∉ zone)
    (hzone' : slash ∉ zone') (hnode : slash ∉ nodeId) (hnode' : slash ∉ nodeId')
    (heq : nodeKey zone nodeId tail = nodeKey zone' nodeId' tail') : nodeId = nodeId' := by
  simp only [nodeKey, List.append_assoc, List.append_cancel_left_eq] at heq
  obtain ⟨-, heq⟩ := slash_cons_inj hzone hzone' heq
  exact (slash_cons_inj hnode hnode' heq).1

theorem latest_mem {history : List Registration} {nodeId : Str} {r : Registration}
    (h : latest history nodeId = some r) : r ∈ history := by
  simpa using List.mem_of_find?_eq_some h

/-- Slaves write below their own node and on the two shared master keys only, the others write
nothing, and two slaves never share a key outside `vehicle/master/`. -/
theorem slaves_isolated (history : List Registration)
    (slashFree : ∀ r ∈ history, slash ∉ r.zone ∧ slash ∉ r.nodeId) :
    (∀ nodeId r keyExpr, latest history nodeId = some r → IsSlave r.role →
      (registered history).checkAccess nodeId keyExpr put = true → SlaveKey r keyExpr) ∧
    (∀ nodeId keyExpr, (∀ r, latest history nodeId = some r → r.role = diagnostic) →
      (registered history).checkAccess nodeId keyExpr put = false) ∧
    (∀ nodeId nodeId' r r' keyExpr, nodeId ≠ nodeId' →
      latest history nodeId = some r → IsSlave r.role →
      latest history nodeId' = some r' → IsSlave r'.role →
      (registered history).checkAccess nodeId keyExpr put = true →
      (registered history).checkAccess nodeId' keyExpr put = true →
      str "vehicle/master/" <+: keyExpr) := by
  refine ⟨?_, ?_, ?_⟩
  · intro nodeId r keyExpr hlatest hslave haccess
    exact (slave_put_iff hlatest hslave keyExpr).mp haccess
  · intro nodeId keyExpr h
    exact put_denied h keyExpr
  · intro nodeId nodeId' r r' keyExpr hne hlatest hslave hlatest' hslave' haccess haccess'
    have hkey := (slave_put_iff hlatest hslave keyExpr).mp haccess
    have hkey' := (slave_put_iff hlatest' hslave' keyExpr).mp haccess'
    obtain hmaster | ⟨tail, htail⟩ := slaveKey_place hkey
    · exact hmaster
    obtain hmaster | ⟨tail', htail'⟩ := slaveKey_place hkey'
    · exact hmaster
    obtain ⟨hzone, hnode⟩ := slashFree r (latest_mem hlatest)
    obtain ⟨hzone', hnode'⟩ := slashFree r' (latest_mem hlatest')
    have hsame : r.nodeId = r'.nodeId :=
      nodeKey_nodeId hzone hzone' hnode hnode' (htail.symm.trans htail')
    rw [latest_nodeId hlatest, latest_nodeId hlatest'] at hsame
    exact absurd hsame hne

theorem slaves_isolated_two :
    SlaveKey ⟨str "1", str "front_left", sensorNode⟩ (str "vehicle/front_left/1/sensor/light") ∧
      (registered [⟨str "1", str "front_left", sensorNode⟩, ⟨str "10", str "front_left", mixedNode⟩]
        ).checkAccess (str "1") (str "vehicle/front_left/1/sensor/light") put = true := by
  have haccess : (registered [⟨str "1", str "front_left", sensorNode⟩,
      ⟨str "10", str "front_left", mixedNode⟩]).checkAccess (str "1")
        (str "vehicle/front_left/1/sensor/light") put = true := by decide +kernel
  exact ⟨(slaves_isolated _ (by decide +kernel)).1 (str "1") _ _ rfl (.inl rfl) haccess, haccess⟩

/-! ## Master keys -/

/-- A message that passes all the checks of its protection. -/
def validMessage (nodeId keyExpr : Str) (payloadSize : Nat) : IDSEngine.Message where
  sourceNode := nodeId
  keyExpr := keyExpr
  payloadSize := payloadSize

/-- The node is a master by its name, or its registration and the key have no `master/`. -/
def ClearOfMaster (r : Registration) (keyExpr : Str) : Prop :=
  str "master" <+: r.nodeId ∨
    keyExpr ≠ heartbeatKey ∧ keyExpr ≠ commandKey ∧
      ¬ str "master/" <:+: r.zone ++ [slash] ∧ ¬ str "master/" <:+: r.nodeId ++ [slash]

theorem master_infix_nodeKey (zone nodeId tail : Str) :
    str "master/" <:+: nodeKey zone nodeId tail ↔
      str "master/" <:+: zone ++ [slash] ∨ str "master/" <:+: nodeId ++ [slash] ∨
        str "master/" <:+: tail := by
  have hkey : nodeKey zone nodeId tail =
      str "vehicle" ++ slash :: (zone ++ slash :: (nodeId ++ slash :: tail)) := by
    have hvehicle : str "vehicle/" = str "vehicle" ++ [slash] := by decide
    simp [nodeKey, hvehicle]
  have hword : str "master/" = str "master" ++ [slash] := by decide
  have hnone : ¬ str "master" ++ [slash] <:+: str "vehicle" ++ [slash] := by decide
  have hclean : slash ∉ str "master" := by decide
  rw [hkey, hword, infix_slash_iff _ (str "vehicle") _ hclean, infix_slash_iff _ zone _ hclean,
    infix_slash_iff _ nodeId _ hclean]
  simp only [hnone, false_or]

/-- A part with a slash is in no segment, and in a name with one segment behind it only if it is
in the name. -/
theorem master_infix_segment (name segment : Str) (hname : ¬ str "master/" <:+: name ++ [slash])
    (hsegment : slash ∉ segment) : ¬ str "master/" <:+: name ++ slash :: segment := by
  have hword : str "master/" = str "master" ++ [slash] := by decide
  rw [hword] at hname ⊢
  rw [infix_slash_iff _ _ _ (by decide)]
  rintro (h | h)
  · exact hname h
  · exact hsegment (h.subset (by simp))

/-- Which of a slave's keys are master keys. -/
theorem slaveKey_master_iff {r : Registration} {keyExpr : Str} (h : SlaveKey r keyExpr) :
    str "master/" <:+: keyExpr ↔
      keyExpr = heartbeatKey ∨ keyExpr = commandKey ∨
        str "master/" <:+: r.zone ++ [slash] ∨ str "master/" <:+: r.nodeId ++ [slash] := by
  have hmaster : ∀ key, key = heartbeatKey ∨ key = commandKey → str "master/" <:+: key := by
    rintro key (rfl | rfl)
    · decide
    · decide
  have hplace : ∀ tail, ¬ str "master/" <:+: tail → keyExpr = nodeKey r.zone r.nodeId tail →
      (str "master/" <:+: keyExpr ↔
        keyExpr = heartbeatKey ∨ keyExpr = commandKey ∨
          str "master/" <:+: r.zone ++ [slash] ∨ str "master/" <:+: r.nodeId ++ [slash]) := by
    intro tail htail hkey
    have hinside := master_infix_nodeKey r.zone r.nodeId tail
    rw [← hkey, or_iff_left htail] at hinside
    refine ⟨fun hin => .inr (.inr (hinside.mp hin)), ?_⟩
    rintro (hbeat | hcommand | hname)
    · exact hmaster keyExpr (.inl hbeat)
    · exact hmaster keyExpr (.inr hcommand)
    · exact hinside.mpr hname
  cases h with
  | heartbeat => exact iff_of_true (hmaster _ (.inl rfl)) (.inl rfl)
  | command => exact iff_of_true (hmaster _ (.inr rfl)) (.inr (.inl rfl))
  | status => exact hplace _ (by decide) rfl
  | alive => exact hplace _ (by decide) rfl
  | sensor segment hsingle =>
    exact hplace _ (master_infix_segment _ _ (by decide) hsingle) rfl
  | actuator segment hsingle =>
    exact hplace _ (master_infix_segment _ _ (by decide) hsingle) rfl

/-- A key that a node other than a coordinator may put raises no alert about master keys exactly
when the node is called a master or its registration and the key are clear of `master/`. -/
theorem put_unalerted_iff (history : List Registration) (nodeId keyExpr : Str) (r : Registration)
    (hlatest : latest history nodeId = some r) (hrole : r.role ≠ coordinator)
    (haccess : (registered history).checkAccess nodeId keyExpr put = true) (ids : IDSEngine)
    (payloadSize rate : Nat) (anomalies : List Str) (now : Nat) :
    (∀ alert ∈ (ids.checkMessage (validMessage nodeId keyExpr payloadSize) rate anomalies now).1,
        alert.ruleId ≠ IDSRuleID.ids007.value) ↔
      ClearOfMaster r keyExpr := by
  have hslave : IsSlave r.role := by
    cases hr : r.role with
    | coordinator => exact absurd hr hrole
    | sensorNode => exact .inl rfl
    | actuatorNode => exact .inr (.inl rfl)
    | mixedNode => exact .inr (.inr rfl)
    | diagnostic =>
      have hdenied : (registered history).checkAccess nodeId keyExpr put = false := by
        refine put_denied (fun r' h' => ?_) keyExpr
        rw [hlatest, Option.some.injEq] at h'
        rw [← h', hr]
      rw [hdenied] at haccess
      exact absurd haccess Bool.false_ne_true
  have hkey := (slave_put_iff hlatest hslave keyExpr).mp haccess
  have hkeys := slaveKey_master_iff hkey
  have hrule := (ids.exists_alert_iff (validMessage nodeId keyExpr payloadSize) rate anomalies now
    .ids007).trans (IDSEngine.ids007_iff (validMessage nodeId keyExpr payloadSize) rate anomalies)
  have hnone : (∀ alert ∈ (ids.checkMessage (validMessage nodeId keyExpr payloadSize) rate anomalies
      now).1, alert.ruleId ≠ IDSRuleID.ids007.value) ↔ ¬ ∃ alert ∈ (ids.checkMessage
        (validMessage nodeId keyExpr payloadSize) rate anomalies now).1,
          alert.ruleId = IDSRuleID.ids007.value := by
    simp only [not_exists, not_and, ne_eq]
  rw [hnone, hrule, ClearOfMaster, latest_nodeId hlatest]
  change ¬ (str "master/" <:+: keyExpr ∧ ¬ str "master" <+: nodeId) ↔ _
  rw [hkeys, latest_nodeId hlatest, not_and_or, not_not, or_comm, not_or, not_or, not_or]

theorem put_unalerted_iff_sensor :
    (∀ alert ∈ (IDSEngine.init.checkMessage (validMessage (str "1")
        (str "vehicle/front_left/1/status") 50) 1 [] 0).1, alert.ruleId ≠ IDSRuleID.ids007.value) ↔
      ClearOfMaster ⟨str "1", str "front_left", sensorNode⟩ (str "vehicle/front_left/1/status") :=
  put_unalerted_iff [⟨str "1", str "front_left", sensorNode⟩] (str "1") _ _ rfl (by decide)
    (by decide +kernel) IDSEngine.init 50 1 [] 0

/-- A sensor node may put the master's heartbeat, and is reported for it. -/
theorem heartbeat_put_alerted :
    (registered [⟨str "1", str "front_left", sensorNode⟩]).checkAccess (str "1") heartbeatKey put =
        true ∧
      (IDSEngine.init.checkMessage (validMessage (str "1") heartbeatKey 50) 1 [] 0).1.map
        (·.ruleId) = [IDSRuleID.ids007.value] := by
  decide +kernel

/-! ## Denied keys -/

/-- The patterns that `security_acl_check` passes on. -/
def allowedKeyExprs (acl : ACLManager) (nodeId : Str) : List Str :=
  match acl.getPolicy nodeId with
  | none => []
  | some policy => policy.allowedKeyExprs

theorem allowedKeyExprs_registered (history : List Registration) (nodeId : Str) :
    allowedKeyExprs (registered history) nodeId =
      ((latest history nodeId).map fun r => generateKeyExprs r.nodeId r.zone r.role).getD [] := by
  rw [allowedKeyExprs, registered_getPolicy]
  cases latest history nodeId <;> rfl

theorem checkAcl_alert_iff (ids : IDSEngine) (nodeId keyExpr : Str) (patterns : List Str)
    (now : Nat) :
    (∃ alert ∈ (ids.checkAcl nodeId keyExpr patterns now).1,
        alert.ruleId = IDSRuleID.ids001.value) ↔
      ¬ ∃ pattern ∈ patterns, MasterIds.keyExprMatches keyExpr pattern = true := by
  rw [IDSEngine.checkAcl, ← List.any_eq_true]
  by_cases h : (patterns.any fun pattern => MasterIds.keyExprMatches keyExpr pattern) = true
  · simp [h]
  · simp only [h]
    exact iff_of_true ⟨_, List.mem_cons_self, rfl⟩ Bool.false_ne_true

/-- The two matchers differ on patterns that end in two stars only. -/
theorem matchers_agree (keyExpr pattern : Str) (h : endsWith pattern (str "/**") = false) :
    MasterIds.keyExprMatches keyExpr pattern = keyExprMatches keyExpr pattern := by
  simp only [MasterIds.keyExprMatches, keyExprMatches, h, Bool.false_eq_true, if_false]

theorem slave_pattern_one_star {r : Registration} (h : IsSlave r.role) {pattern : Str}
    (hmem : pattern ∈ generateKeyExprs r.nodeId r.zone r.role) :
    endsWith pattern (str "/**") = false := by
  obtain ⟨hlast, hlast', hlast'', hlast'''⟩ := exact_patterns_getLast? r
  have hstar : ∀ name, endsWith (nodeKey r.zone r.nodeId (name ++ str "/*")) (str "/**") = false := by
    intro name
    rw [nodeKey_append]
    exact (endsWith_star _).1
  rw [mem_generateKeyExprs _ _ _ h] at hmem
  obtain rfl | rfl | rfl | rfl | ⟨-, rfl⟩ | ⟨-, rfl⟩ := hmem
  · exact (endsWith_no_star hlast).1
  · exact (endsWith_no_star hlast').1
  · exact (endsWith_no_star hlast'').1
  · exact (endsWith_no_star hlast''').1
  · exact hstar (str "sensor")
  · exact hstar (str "actuator")

/-- To the intrusion detection it is all that begins with its stem. -/
theorem ids_matches_below (keyExpr stem : Str) :
    MasterIds.keyExprMatches keyExpr (stem ++ str "/**") = true ↔ stem <+: keyExpr := by
  have hends : endsWith (stem ++ str "/**") (str "/**") = true := (endsWith_iff _ _).mpr ⟨stem, rfl⟩
  rw [MasterIds.keyExprMatches, hends]
  by_cases heq : stem ++ str "/**" = keyExpr
  · rw [if_pos heq]
    exact iff_of_true rfl ⟨str "/**", heq⟩
  · rw [if_neg heq, if_pos rfl, dropEnd_append stem (str "/**") 3 rfl, startsWith_iff]

theorem ids_matches_vehicle (keyExpr : Str) :
    MasterIds.keyExprMatches keyExpr (str "vehicle/**") = true ↔ str "vehicle" <+: keyExpr := by
  have hpattern : str "vehicle/**" = str "vehicle" ++ str "/**" := by decide
  rw [hpattern, ids_matches_below]

/-- The node may read everything but put nothing, or the key only begins like one of the vehicle. -/
def Unnoticed (r : Registration) (keyExpr : Str) : Prop :=
  str "vehicle" <+: keyExpr ∧ (r.role = diagnostic ∨
    r.role = coordinator ∧ keyExpr ≠ str "vehicle" ∧ ¬ str "vehicle/" <+: keyExpr)

theorem below_starts {keyExpr stem : Str} (h : stem ++ [slash] <+: keyExpr ∨ keyExpr = stem) :
    stem <+: keyExpr := by
  obtain h | rfl := h
  · exact (List.prefix_append stem [slash]).trans h
  · exact List.prefix_rfl

theorem slave_verdicts {r : Registration} (h : IsSlave r.role) (keyExpr : Str)
    {role : NodeSecurityRole} (hrole : r.role = role) :
    ((put ∈ roleActions role ∧ ∃ pattern ∈ generateKeyExprs r.nodeId r.zone role,
        keyExprMatches keyExpr pattern = true) ↔
      ∃ pattern ∈ generateKeyExprs r.nodeId r.zone role,
        MasterIds.keyExprMatches keyExpr pattern = true) ↔ ¬ Unnoticed r keyExpr := by
  subst hrole
  refine iff_of_true ?_ ?_
  · have hput : put ∈ roleActions r.role := put_mem_roleActions h
    rw [and_iff_right hput]
    refine exists_congr fun pattern => and_congr_right fun hmem => ?_
    rw [matchers_agree keyExpr pattern (slave_pattern_one_star h hmem)]
  · rintro ⟨-, hother | ⟨hother, -⟩⟩
    all_goals
      rw [hother] at h
      exact absurd h (by decide)

/-- The intrusion detection grants what the access control grants, but for unnoticed keys. -/
theorem verdicts_agree_iff (history : List Registration) (nodeId keyExpr : Str) :
    ((registered history).checkAccess nodeId keyExpr put = true ↔
      ∃ pattern ∈ allowedKeyExprs (registered history) nodeId,
        MasterIds.keyExprMatches keyExpr pattern = true) ↔
      ¬ ∃ r, latest history nodeId = some r ∧ Unnoticed r keyExpr := by
  rw [checkAccess_registered, allowedKeyExprs_registered]
  cases hlatest : latest history nodeId with
  | none => simp
  | some r =>
    simp only [Option.some.injEq, exists_eq_left', Option.map_some, Option.getD_some]
    cases hrole : r.role with
    | coordinator =>
      have hput : put ∈ roleActions coordinator := by decide
      have hall : generateKeyExprs r.nodeId r.zone coordinator = [str "vehicle/**"] := rfl
      simp only [Unnoticed, hrole, hput, hall, true_and, List.mem_singleton, exists_eq_left,
        keyExprMatches_vehicle, ids_matches_vehicle, reduceCtorEq, false_or]
      constructor
      · rintro h ⟨hstart, hne, hslash⟩
        exact (h.mpr hstart).elim hslash hne
      · intro h
        have hslash : str "vehicle/" = str "vehicle" ++ [slash] := by decide
        rw [hslash] at h ⊢
        refine ⟨below_starts, fun hstart => ?_⟩
        by_contra hnot
        rw [not_or] at hnot
        exact h ⟨hstart, hnot.2, hnot.1⟩
    | diagnostic =>
      have hput : put ∉ roleActions diagnostic := by decide
      have hall : generateKeyExprs r.nodeId r.zone diagnostic = [str "vehicle/**"] := rfl
      simp only [Unnoticed, hrole, hput, hall, false_and, List.mem_singleton, exists_eq_left,
        ids_matches_vehicle, true_or, and_true, false_iff]
    | sensorNode => exact slave_verdicts (.inl hrole) keyExpr hrole
    | actuatorNode => exact slave_verdicts (.inr (.inl hrole)) keyExpr hrole
    | mixedNode => exact slave_verdicts (.inr (.inr hrole)) keyExpr hrole

/-- Denied keys raise an alert, and granted ones none, exactly for the nodes and keys that do not go
unnoticed. -/
theorem denied_alerted_iff (history : List Registration) (nodeId keyExpr : Str) (ids : IDSEngine)
    (now : Nat) :
    (((registered history).checkAccess nodeId keyExpr put = false →
      ∃ alert ∈ (ids.checkAcl nodeId keyExpr (allowedKeyExprs (registered history) nodeId) now).1,
        alert.ruleId = IDSRuleID.ids001.value) ∧
    ((registered history).checkAccess nodeId keyExpr put = true →
      ¬ ∃ alert ∈ (ids.checkAcl nodeId keyExpr (allowedKeyExprs (registered history) nodeId) now).1,
        alert.ruleId = IDSRuleID.ids001.value)) ↔
      ¬ ∃ r, latest history nodeId = some r ∧ Unnoticed r keyExpr := by
  rw [checkAcl_alert_iff, not_not, ← verdicts_agree_iff, ← Bool.not_eq_true]
  constructor
  · rintro ⟨hdenied, hgranted⟩
    exact ⟨hgranted, fun hmatch => by_contra fun hnot => hdenied hnot hmatch⟩
  · intro h
    exact ⟨fun hnot hmatch => hnot (h.mpr hmatch), h.mp⟩

/-- A diagnostic node may not put, and nothing is reported when it does. -/
theorem diagnostic_put_unnoticed :
    (registered [⟨str "diag", str "master", diagnostic⟩]).checkAccess (str "diag") commandKey put =
        false ∧
      ¬ ∃ alert ∈ (IDSEngine.init.checkAcl (str "diag") commandKey
          (allowedKeyExprs (registered [⟨str "diag", str "master", diagnostic⟩]) (str "diag")) 0).1,
        alert.ruleId = IDSRuleID.ids001.value := by
  refine ⟨by decide +kernel, ?_⟩
  rw [checkAcl_alert_iff, not_not]
  exact ⟨str "vehicle/**", by decide +kernel, by decide +kernel⟩

end Genoh.AccessDecisions
