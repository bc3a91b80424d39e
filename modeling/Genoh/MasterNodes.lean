import Genoh.OrderedDict
import Genoh.Strings

/-!
# Master node registry

`common/key_expressions.py`, as far as the registry needs it, and `master/node_manager.py`: the
registered nodes, the two liveliness handlers and the replies to the initial query. Locks are
held over each access, so that a handler is one step; log lines are left out.
-/
namespace Genoh.MasterNodes

open Genoh.OrderedDict Genoh.Strings

/-! ## Key expressions -/

/-- `vehicle/{zone}/{node_id}/alive`. -/
def aliveKey (zone nodeId : Str) : Str :=
  str "vehicle/" ++ zone ++ slash :: nodeId ++ slash :: str "alive"

/-- The dictionary of `parse_key_expr`; the node id and the type may be missing in it. -/
structure ParsedKey where
  zone : Str
  nodeId : Option Str
  category : Str
  type : Option Str
  deriving DecidableEq, Repr

/-- `parse_key_expr`. -/
def parseKeyExpr (keyExpr : Str) : Option ParsedKey :=
  let parts := splitSlash keyExpr
  if parts.length < 2 ∨ parts.head? ≠ some (str "vehicle") then none
  else match parts with
    | [_, zone, nodeId, category, type] => some ⟨zone, some nodeId, category, some type⟩
    | [_, zone, nodeId, category] => some ⟨zone, some nodeId, category, none⟩
    | [_, zone, category] => some ⟨zone, none, category, none⟩
    | _ => none

/-- The zone and the node id of a liveliness token are one segment each. -/
structure Token where
  zone : Str
  nodeId : Str
  zone_single : slash ∉ zone
  nodeId_single : slash ∉ nodeId
  deriving DecidableEq

def Token.key (t : Token) : Str := aliveKey t.zone t.nodeId

/-- Two nodes with one node id. -/
def frontNode : Token := ⟨str "front", str "1", by decide, by decide⟩

def rearNode : Token := ⟨str "rear", str "1", by decide, by decide⟩

theorem Token.ext_parts {t t' : Token} (hzone : t.zone = t'.zone) (hnode : t.nodeId = t'.nodeId) :
    t = t' := by
  cases t
  cases t'
  cases hzone
  cases hnode
  rfl

theorem parseKeyExpr_key (t : Token) :
    parseKeyExpr t.key = some ⟨t.zone, some t.nodeId, str "alive", none⟩ := by
  have hvehicle : str "vehicle/" ++ t.zone = str "vehicle" ++ slash :: t.zone := by
    have hslash : str "vehicle/" = str "vehicle" ++ [slash] := by decide
    rw [hslash, List.append_assoc]
    rfl
  have hparts : splitSlash t.key = [str "vehicle", t.zone, t.nodeId, str "alive"] := by
    rw [Token.key, aliveKey, hvehicle, splitSlash_append, splitSlash_append, splitSlash_append]
    rw [splitSlash_single t.zone_single, splitSlash_single t.nodeId_single,
      splitSlash_single (by decide), splitSlash_single (by decide)]
    rfl
  simp [parseKeyExpr, hparts]

/-! ## Registry -/

inductive NodeRole where
  | sensor | actuator | mixed
  deriving DecidableEq, Repr

structure NodeInfo where
  nodeId : Str
  zone : Str
  plcaNodeId : Int
  role : NodeRole := .mixed
  alive : Bool := false
  lastSeenMs : Int
  deriving DecidableEq, Repr

/-- The registry, and which callbacks `start_discovery` was given. -/
structure NodeManager where
  nodes : Dict Str NodeInfo
  onNodeOnline : Bool
  onNodeOffline : Bool

/-- The callbacks that are called. -/
inductive Callback where
  | online (node : NodeInfo)
  | offline (node : NodeInfo)

/-- `zenoh.SampleKind`. -/
inductive SampleKind where
  | put | delete
  deriving DecidableEq, Repr

namespace NodeManager

def init : NodeManager := ⟨Dict.empty, false, false⟩

/-- `register_node`; the entry is a new one also where the node is known. -/
def registerNode (mgr : NodeManager) (nodeId zone : Str) (plcaNodeId : Int) (role : NodeRole)
    (now : Int) : NodeManager :=
  { mgr with nodes := mgr.nodes.set nodeId {
      nodeId := nodeId
      zone := zone
      plcaNodeId := plcaNodeId
      role := role
      alive := false
      lastSeenMs := now } }

/-- `_handle_node_online`; a known node keeps its zone. -/
def handleNodeOnline (mgr : NodeManager) (nodeId zone : Str) (now : Int) :
    NodeManager × List Callback :=
  let node : NodeInfo := match mgr.nodes.get? nodeId with
    | some node => { node with alive := true, lastSeenMs := now }
    | none => {
        nodeId := nodeId
        zone := zone
        plcaNodeId := -1
        alive := true
        lastSeenMs := now }
  ({ mgr with nodes := mgr.nodes.set nodeId node },
    if mgr.onNodeOnline then [.online node] else [])

/-- `_handle_node_offline`. -/
def handleNodeOffline (mgr : NodeManager) (nodeId : Str) : NodeManager × List Callback :=
  match mgr.nodes.get? nodeId with
  | none => (mgr, [])
  | some node =>
    let node := { node with alive := false }
    ({ mgr with nodes := mgr.nodes.set nodeId node },
      if mgr.onNodeOffline then [.offline node] else [])

/-- `_on_liveliness_event`. -/
def onLivelinessEvent (mgr : NodeManager) (key : Str) (kind : SampleKind) (now : Int) :
    NodeManager × List Callback :=
  match parseKeyExpr key with
  | some ⟨zone, some nodeId, _, _⟩ => match kind with
    | .put => mgr.handleNodeOnline nodeId zone now
    | .delete => mgr.handleNodeOffline nodeId
  | _ => (mgr, [])

/-- One reply in the loop of `_query_initial_liveliness`; a reply without a sample is skipped. -/
def handleReply (mgr : NodeManager) (ok : Option Str) (now : Int) : NodeManager × List Callback :=
  match ok with
  | none => (mgr, [])
  | some key => match parseKeyExpr key with
    | some ⟨zone, some nodeId, _, _⟩ => mgr.handleNodeOnline nodeId zone now
    | _ => (mgr, [])

theorem onLivelinessEvent_put (mgr : NodeManager) (t : Token) (now : Int) :
    mgr.onLivelinessEvent t.key .put now = mgr.handleNodeOnline t.nodeId t.zone now := by
  simp only [onLivelinessEvent, parseKeyExpr_key]

theorem onLivelinessEvent_delete (mgr : NodeManager) (t : Token) (now : Int) :
    mgr.onLivelinessEvent t.key .delete now = mgr.handleNodeOffline t.nodeId := by
  simp only [onLivelinessEvent, parseKeyExpr_key]

theorem handleReply_key (mgr : NodeManager) (t : Token) (now : Int) :
    mgr.handleReply (some t.key) now = mgr.handleNodeOnline t.nodeId t.zone now := by
  simp only [handleReply, parseKeyExpr_key]

/-! ## What a step does to one node -/

theorem registerNode_get? (mgr : NodeManager) (nodeId zone : Str) (plcaNodeId : Int)
    (role : NodeRole) (now : Int) (id : Str) :
    (mgr.registerNode nodeId zone plcaNodeId role now).nodes.get? id =
      if id = nodeId then some ⟨nodeId, zone, plcaNodeId, role, false, now⟩
      else mgr.nodes.get? id :=
  Dict.get?_set _ _ _ _

/-- A node that comes online keeps what the registry knows of it. -/
theorem handleNodeOnline_get? (mgr : NodeManager) (nodeId zone : Str) (now : Int) (id : Str) :
    (mgr.handleNodeOnline nodeId zone now).1.nodes.get? id =
      if id = nodeId then
        some { (mgr.nodes.get? nodeId).getD ⟨nodeId, zone, -1, .mixed, true, now⟩ with
          alive := true, lastSeenMs := now }
      else mgr.nodes.get? id := by
  rw [handleNodeOnline]
  cases hnode : mgr.nodes.get? nodeId with
  | none => exact Dict.get?_set _ _ _ _
  | some node => exact Dict.get?_set _ _ _ _

theorem handleNodeOffline_get? (mgr : NodeManager) (nodeId id : Str) :
    (mgr.handleNodeOffline nodeId).1.nodes.get? id =
      if id = nodeId then (mgr.nodes.get? nodeId).map fun node => { node with alive := false }
      else mgr.nodes.get? id := by
  rw [handleNodeOffline]
  cases hnode : mgr.nodes.get? nodeId with
  | none =>
    dsimp only
    split
    · rename_i hid
      rw [hid, hnode]
      rfl
    · rfl
  | some node => exact Dict.get?_set _ _ _ _

/-! ## Liveliness of a node -/

/-- The registry has the node and marks it alive. -/
def Alive (mgr : NodeManager) (nodeId : Str) : Prop :=
  ∃ node, mgr.nodes.get? nodeId = some node ∧ node.alive = true

theorem alive_handleNodeOnline (mgr : NodeManager) (nodeId zone : Str) (now : Int) (id : Str) :
    (mgr.handleNodeOnline nodeId zone now).1.Alive id ↔ id = nodeId ∨ mgr.Alive id := by
  simp only [Alive, handleNodeOnline_get?]
  by_cases hid : id = nodeId
  · simp [hid]
  · simp [hid]

theorem alive_handleNodeOffline (mgr : NodeManager) (nodeId id : Str) :
    (mgr.handleNodeOffline nodeId).1.Alive id ↔ id ≠ nodeId ∧ mgr.Alive id := by
  simp only [Alive, handleNodeOffline_get?]
  by_cases hid : id = nodeId
  · simp [hid]
  · simp [hid]

end NodeManager

end Genoh.MasterNodes
