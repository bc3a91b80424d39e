import Genoh.OrderedDict
import Genoh.Run
import Genoh.Strings

/-!
# Master access control

`master/acl_manager.py`: the policy a node gets from its role, and the decision on a key
expression. The warning of a violation is left out, and the zenohd configuration is in `AclExport`.
-/
namespace Genoh.MasterAcl

open Genoh.OrderedDict Genoh.Run Genoh.Strings

inductive NodeSecurityRole where
  | coordinator | sensorNode | actuatorNode | mixedNode | diagnostic
  deriving DecidableEq, Repr

structure ACLPolicy where
  nodeId : Str
  role : NodeSecurityRole
  allowedKeyExprs : List Str
  allowedActions : List Str

/-- `ROLE_ACTIONS`. -/
def roleActions : NodeSecurityRole → List Str
  | .coordinator => [str "put", str "get", str "declare_subscriber", str "declare_queryable"]
  | .sensorNode => [str "put", str "declare_subscriber", str "declare_queryable"]
  | .actuatorNode => [str "put", str "declare_subscriber", str "declare_queryable"]
  | .mixedNode => [str "put", str "declare_subscriber", str "declare_queryable"]
  | .diagnostic => [str "declare_subscriber"]

structure ACLManager where
  policies : Dict Str ACLPolicy

/-- `vehicle/{zone}/{node_id}/` before a last part. -/
def nodeKey (zone nodeId tail : Str) : Str :=
  str "vehicle/" ++ zone ++ slash :: nodeId ++ slash :: tail

def heartbeatKey : Str := str "vehicle/master/heartbeat"

def commandKey : Str := str "vehicle/master/command"

/-- `_generate_key_exprs`. -/
def generateKeyExprs (nodeId zone : Str) (role : NodeSecurityRole) : List Str :=
  if role = .coordinator then [str "vehicle/**"]
  else
    let keyExprs := [nodeKey zone nodeId (str "status"), nodeKey zone nodeId (str "alive"),
      heartbeatKey, commandKey]
    let keyExprs := if role = .sensorNode ∨ role = .mixedNode then
      keyExprs ++ [nodeKey zone nodeId (str "sensor/*")] else keyExprs
    let keyExprs := if role = .actuatorNode ∨ role = .mixedNode then
      keyExprs ++ [nodeKey zone nodeId (str "actuator/*")] else keyExprs
    if role = .diagnostic then [str "vehicle/**"] else keyExprs

/-- `_key_expr_matches`. -/
def keyExprMatches (keyExpr pattern : Str) : Bool :=
  if pattern = keyExpr then true
  else if endsWith pattern (str "/**") then
    let stem := dropEnd pattern 3
    startsWith keyExpr (stem ++ [slash]) || keyExpr == stem
  else if endsWith pattern (str "/*") then
    let stem := dropEnd pattern 2
    if segments keyExpr = segments stem + 1 then startsWith keyExpr (stem ++ [slash]) else false
  else false

namespace ACLManager

def init : ACLManager := ⟨Dict.empty⟩

/-- `add_node`. -/
def addNode (acl : ACLManager) (nodeId zone : Str) (role : NodeSecurityRole) : ACLManager :=
  ⟨acl.policies.set nodeId {
    nodeId := nodeId
    role := role
    allowedKeyExprs := generateKeyExprs nodeId zone role
    allowedActions := roleActions role }⟩

def getPolicy (acl : ACLManager) (nodeId : Str) : Option ACLPolicy := acl.policies.get? nodeId

/-- `check_access`. -/
def checkAccess (acl : ACLManager) (nodeId keyExpr action : Str) : Bool :=
  match acl.getPolicy nodeId with
  | none => false
  | some policy =>
    if action ∉ policy.allowedActions then false
    else policy.allowedKeyExprs.any fun pattern => keyExprMatches keyExpr pattern

end ACLManager

/-! ## Histories -/

/-- The arguments of an `add_node` call. -/
structure Registration where
  nodeId : Str
  zone : Str
  role : NodeSecurityRole

/-- The manager after the calls, oldest first. -/
def registered (history : List Registration) : ACLManager :=
  run (fun acl r => acl.addNode r.nodeId r.zone r.role) ACLManager.init history

/-- The last registration of a node. -/
def latest (history : List Registration) (nodeId : Str) : Option Registration :=
  history.reverse.find? (·.nodeId = nodeId)

def Registration.policy (r : Registration) : ACLPolicy where
  nodeId := r.nodeId
  role := r.role
  allowedKeyExprs := generateKeyExprs r.nodeId r.zone r.role
  allowedActions := roleActions r.role

theorem latest_nodeId {history : List Registration} {nodeId : Str} {r : Registration}
    (h : latest history nodeId = some r) : r.nodeId = nodeId := by
  simpa using List.find?_some h

/-- A node's policy is that of its last registration. -/
theorem registered_getPolicy (history : List Registration) (nodeId : Str) :
    (registered history).getPolicy nodeId = (latest history nodeId).map Registration.policy := by
  induction history using List.reverseRecOn with
  | nil => rfl
  | append_singleton history r ih =>
    rw [registered, run_concat, latest, List.reverse_append, List.reverse_singleton,
      List.singleton_append]
    by_cases hid : r.nodeId = nodeId
    · rw [List.find?_cons_of_pos (by simpa using hid), Option.map_some]
      subst hid
      exact Dict.get?_set_self _ _ _
    · rw [List.find?_cons_of_neg (by simpa using hid)]
      exact (Dict.get?_set_of_ne _ _ _ _ (Ne.symm hid)).trans ih

/-- Access is decided by the last registration. -/
theorem checkAccess_registered (history : List Registration) (nodeId keyExpr action : Str) :
    (registered history).checkAccess nodeId keyExpr action = true ↔
      ∃ r, latest history nodeId = some r ∧ action ∈ roleActions r.role ∧
        ∃ pattern ∈ generateKeyExprs r.nodeId r.zone r.role,
          keyExprMatches keyExpr pattern = true := by
  rw [ACLManager.checkAccess, registered_getPolicy]
  cases latest history nodeId with
  | none => simp
  | some r =>
    rw [Option.map_some]
    by_cases hact : action ∈ roleActions r.role
    · simp [Registration.policy, hact]
    · simp [Registration.policy, hact]

end Genoh.MasterAcl
