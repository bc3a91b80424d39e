import Genoh.History
import Genoh.MasterNodes
import Genoh.Run

/-!
# The registry against the liveliness events

Events on the tokens of any zones and nodes, interleaved with registrations. The registry has
one entry a node id, with the zone it was made with.
-/
namespace Genoh.NodeRegistry

open Genoh.History Genoh.MasterNodes Genoh.OrderedDict Genoh.Run Genoh.Strings

inductive Event where
  | liveliness (kind : SampleKind) (token : Token) (now : Int)
  | register (nodeId zone : Str) (plcaNodeId : Int) (role : NodeRole) (now : Int)

def step (mgr : NodeManager) : Event → NodeManager
  | .liveliness kind token now => (mgr.onLivelinessEvent token.key kind now).1
  | .register nodeId zone plcaNodeId role now => mgr.registerNode nodeId zone plcaNodeId role now

/-- The token and the kind of a liveliness event. -/
def about : Event → Option (Token × SampleKind)
  | .liveliness kind token _ => some (token, kind)
  | .register .. => none

/-- The registry has an entry with the zone and the node id that is marked alive. -/
def Listed (mgr : NodeManager) (t : Token) : Prop :=
  ∃ node ∈ mgr.nodes.pairs.map Prod.snd, node.zone = t.zone ∧ node.nodeId = t.nodeId ∧ node.alive = true

/-- A token that occurred is listed just when its last event was a PUT. -/
def Follows (past : List Event) (mgr : NodeManager) : Prop :=
  ∀ t kind, lastOf about past t = some kind → (Listed mgr t ↔ kind = .put)

/-- A node comes online in the zone of its entry, goes offline in the zone it is alive in, and is not
registered while it is alive. -/
def Fits (mgr : NodeManager) : Event → Prop
  | .liveliness .put t _ => ∀ node, mgr.nodes.get? t.nodeId = some node → node.zone = t.zone
  | .liveliness .delete t _ =>
    ∀ node, mgr.nodes.get? t.nodeId = some node → node.alive = true → node.zone = t.zone
  | .register nodeId .. => ¬ mgr.Alive nodeId

/-! ## Entries -/

/-- Every entry stands under its node id. -/
def Keyed (mgr : NodeManager) : Prop :=
  ∀ id node, mgr.nodes.get? id = some node → node.nodeId = id

theorem listed_iff {mgr : NodeManager} (h : Keyed mgr) (t : Token) :
    Listed mgr t ↔
      ∃ node, mgr.nodes.get? t.nodeId = some node ∧ node.zone = t.zone ∧ node.alive = true := by
  constructor
  · rintro ⟨node, hmem, hzone, hid, halive⟩
    obtain ⟨⟨id, node'⟩, hpair, rfl⟩ := List.mem_map.mp hmem
    have hget := (Dict.mem_pairs_iff _ _ _).mp hpair
    have hkey := h id node' hget
    rw [hid] at hkey
    subst hkey
    exact ⟨node', hget, hzone, halive⟩
  · rintro ⟨node, hget, hzone, halive⟩
    have hpair := (Dict.mem_pairs_iff _ _ _).mpr hget
    exact ⟨node, List.mem_map.mpr ⟨_, hpair, rfl⟩, hzone, h _ _ hget, halive⟩

theorem keyed_online {mgr : NodeManager} (h : Keyed mgr) (nodeId zone : Str) (now : Int) :
    Keyed (mgr.handleNodeOnline nodeId zone now).1 := by
  intro id node hget
  rw [NodeManager.handleNodeOnline_get?] at hget
  split at hget
  · rename_i hid
    obtain rfl := Option.some.inj hget
    cases hnode : mgr.nodes.get? nodeId with
    | none => exact hid.symm
    | some node => exact (h _ _ hnode).trans hid.symm
  · exact h id node hget

theorem keyed_offline {mgr : NodeManager} (h : Keyed mgr) (nodeId : Str) :
    Keyed (mgr.handleNodeOffline nodeId).1 := by
  intro id node hget
  rw [NodeManager.handleNodeOffline_get?] at hget
  split at hget
  · rename_i hid
    obtain ⟨node', hnode, rfl⟩ := Option.map_eq_some_iff.mp hget
    exact (h _ _ hnode).trans hid.symm
  · exact h id node hget

theorem keyed_register {mgr : NodeManager} (h : Keyed mgr) (nodeId zone : Str) (plcaNodeId : Int)
    (role : NodeRole) (now : Int) : Keyed (mgr.registerNode nodeId zone plcaNodeId role now) := by
  intro id node hget
  rw [NodeManager.registerNode_get?] at hget
  split at hget
  · rename_i hid
    obtain rfl := Option.some.inj hget
    exact hid.symm
  · exact h id node hget

/-! ## Steps -/

/-- The entries that are alive are the tokens whose last event was a PUT. -/
structure Tracks (past : List Event) (mgr : NodeManager) : Prop where
  keyed : Keyed mgr
  listed : ∀ t, lastOf about past t = some .put → Listed mgr t
  heard : ∀ id node, mgr.nodes.get? id = some node → node.alive = true →
    ∃ t : Token, t.nodeId = id ∧ t.zone = node.zone ∧ lastOf about past t = some .put

theorem Tracks.put_of_listed {past : List Event} {mgr : NodeManager} (h : Tracks past mgr) {t : Token}
    (hlisted : Listed mgr t) : lastOf about past t = some .put := by
  obtain ⟨node, hget, hzone, halive⟩ := (listed_iff h.keyed t).mp hlisted
  obtain ⟨t', hid, hzone', hput⟩ := h.heard _ _ hget halive
  rwa [Token.ext_parts (hzone'.trans hzone) hid] at hput

theorem Tracks.follows {past : List Event} {mgr : NodeManager} (h : Tracks past mgr) :
    Follows past mgr := by
  intro t kind hkind
  constructor
  · intro hlisted
    exact Option.some.inj (hkind.symm.trans (h.put_of_listed hlisted))
  · rintro rfl
    exact h.listed t hkind

theorem tracks_init : Tracks [] NodeManager.init := by
  have hnone : ∀ id, NodeManager.init.nodes.get? id = none := fun _ => rfl
  refine ⟨?_, ?_, ?_⟩
  · intro id node hget
    exact absurd hget (by simp [hnone])
  · intro t hput
    exact absurd hput (by simp)
  · intro id node hget
    exact absurd hget (by simp [hnone])

section Step

variable {past : List Event} {mgr : NodeManager}

theorem lastOf_put (past : List Event) (kind : SampleKind) (t : Token) (now : Int) (t' : Token) :
    lastOf about (past ++ [.liveliness kind t now]) t' =
      if t' = t then some kind else lastOf about past t' :=
  lastOf_concat_some past rfl t'

theorem lastOf_register (past : List Event) (nodeId zone : Str) (plcaNodeId : Int) (role : NodeRole)
    (now : Int) (t : Token) :
    lastOf about (past ++ [.register nodeId zone plcaNodeId role now]) t = lastOf about past t :=
  lastOf_concat_none past rfl t

/-- Two tokens of one node that are both listed are one. -/
theorem Tracks.same_token (h : Tracks past mgr) {t t' : Token} (hid : t'.nodeId = t.nodeId)
    (hput : lastOf about past t' = some .put)
    (hzone : ∀ node, mgr.nodes.get? t.nodeId = some node → node.alive = true → node.zone = t.zone) :
    t' = t := by
  obtain ⟨node, hget, hzone', halive⟩ := (listed_iff h.keyed t').mp (h.listed t' hput)
  rw [hid] at hget
  exact Token.ext_parts (hzone'.symm.trans (hzone node hget halive)) hid

theorem tracks_put (h : Tracks past mgr) (t : Token) (now : Int)
    (hfits : Fits mgr (.liveliness .put t now)) :
    Tracks (past ++ [.liveliness .put t now]) (step mgr (.liveliness .put t now)) := by
  rw [step, NodeManager.onLivelinessEvent_put]
  have hkeyed := keyed_online h.keyed t.nodeId t.zone now
  have hentry := NodeManager.handleNodeOnline_get? mgr t.nodeId t.zone now
  have hnode : ∃ node, (mgr.handleNodeOnline t.nodeId t.zone now).1.nodes.get? t.nodeId = some node ∧
      node.zone = t.zone ∧ node.alive = true := by
    refine ⟨_, (hentry t.nodeId).trans (if_pos rfl), ?_, rfl⟩
    cases hget : mgr.nodes.get? t.nodeId with
    | none => rfl
    | some node => exact hfits node hget
  refine ⟨hkeyed, ?_, ?_⟩
  · intro t' hput
    rw [lastOf_put] at hput
    rw [listed_iff hkeyed]
    split at hput
    · rename_i heq
      rw [heq]
      exact hnode
    · rename_i hne
      by_cases hid : t'.nodeId = t.nodeId
      · exact absurd (h.same_token hid hput fun node hget _ => hfits node hget) hne
      · rw [hentry, if_neg hid]
        exact (listed_iff h.keyed t').mp (h.listed t' hput)
  · intro id node hget halive
    by_cases hid : id = t.nodeId
    · obtain ⟨node', hget', hzone', -⟩ := hnode
      rw [hid, hget', Option.some.injEq] at hget
      subst hget
      exact ⟨t, hid.symm, hzone'.symm, by rw [lastOf_put, if_pos rfl]⟩
    · rw [hentry, if_neg hid] at hget
      obtain ⟨t', hid', hzone', hput⟩ := h.heard id node hget halive
      refine ⟨t', hid', hzone', ?_⟩
      rw [lastOf_put, if_neg]
      · exact hput
      · rintro rfl
        exact hid hid'.symm

theorem tracks_delete (h : Tracks past mgr) (t : Token) (now : Int)
    (hfits : Fits mgr (.liveliness .delete t now)) :
    Tracks (past ++ [.liveliness .delete t now]) (step mgr (.liveliness .delete t now)) := by
  rw [step, NodeManager.onLivelinessEvent_delete]
  have hkeyed := keyed_offline h.keyed t.nodeId
  have hentry := NodeManager.handleNodeOffline_get? mgr t.nodeId
  refine ⟨hkeyed, ?_, ?_⟩
  · intro t' hput
    rw [lastOf_put] at hput
    split at hput
    · cases hput
    · rename_i hne
      by_cases hid : t'.nodeId = t.nodeId
      · exact absurd (h.same_token hid hput hfits) hne
      · rw [listed_iff hkeyed, hentry, if_neg hid]
        exact (listed_iff h.keyed t').mp (h.listed t' hput)
  · intro id node hget halive
    rw [hentry] at hget
    split at hget
    · obtain ⟨node', -, rfl⟩ := Option.map_eq_some_iff.mp hget
      exact absurd halive Bool.false_ne_true
    · rename_i hid
      obtain ⟨t', hid', hzone', hput⟩ := h.heard id node hget halive
      refine ⟨t', hid', hzone', ?_⟩
      rw [lastOf_put, if_neg]
      · exact hput
      · rintro rfl
        exact hid hid'.symm

theorem tracks_register (h : Tracks past mgr) (nodeId zone : Str) (plcaNodeId : Int)
    (role : NodeRole) (now : Int) (hfits : Fits mgr (.register nodeId zone plcaNodeId role now)) :
    Tracks (past ++ [.register nodeId zone plcaNodeId role now])
      (step mgr (.register nodeId zone plcaNodeId role now)) := by
  have hkeyed := keyed_register h.keyed nodeId zone plcaNodeId role now
  have hentry := NodeManager.registerNode_get? mgr nodeId zone plcaNodeId role now
  refine ⟨hkeyed, ?_, ?_⟩
  · intro t hput
    rw [lastOf_register] at hput
    obtain ⟨node, hget, hzone, halive⟩ := (listed_iff h.keyed t).mp (h.listed t hput)
    have hid : t.nodeId ≠ nodeId := fun hid => hfits ⟨node, hid ▸ hget, halive⟩
    exact (listed_iff hkeyed t).mpr ⟨node, (hentry t.nodeId).trans ((if_neg hid).trans hget), hzone, halive⟩
  · intro id node hget halive
    rw [step, hentry] at hget
    split at hget
    · obtain rfl := Option.some.inj hget
      exact absurd halive Bool.false_ne_true
    · obtain ⟨t, hid, hzone, hput⟩ := h.heard id node hget halive
      exact ⟨t, hid, hzone, by rwa [lastOf_register]⟩

theorem tracks_step (h : Tracks past mgr) (e : Event) (hfits : Fits mgr e) :
    Tracks (past ++ [e]) (step mgr e) := by
  cases e with
  | liveliness kind t now =>
    cases kind with
    | put => exact tracks_put h t now hfits
    | delete => exact tracks_delete h t now hfits
  | register nodeId zone plcaNodeId role now =>
    exact tracks_register h nodeId zone plcaNodeId role now hfits

/-- A step behind which the registry still follows the events is one that fits. -/
theorem fits_of_follows (h : Tracks past mgr) (e : Event)
    (hfollows : Follows (past ++ [e]) (step mgr e)) : Fits mgr e := by
  cases e with
  | liveliness kind t now =>
    cases kind with
    | put =>
      intro node hget
      have hlast : lastOf about (past ++ [.liveliness .put t now]) t = some .put := by
        rw [lastOf_put, if_pos rfl]
      have hlisted := (hfollows t .put hlast).mpr rfl
      rw [step, NodeManager.onLivelinessEvent_put, listed_iff (keyed_online h.keyed _ _ _),
        NodeManager.handleNodeOnline_get?, if_pos rfl, hget] at hlisted
      obtain ⟨node', heq, hzone, -⟩ := hlisted
      rw [← hzone, ← Option.some.inj heq]
      rfl
    | delete =>
      intro node hget halive
      by_contra hzone
      obtain ⟨t', hid', hzone', hput⟩ := h.heard _ node hget halive
      have hne : t' ≠ t := by
        rintro rfl
        exact hzone hzone'.symm
      have hlast : lastOf about (past ++ [.liveliness .delete t now]) t' = some .put := by
        rw [lastOf_put, if_neg hne, hput]
      have hlisted := (hfollows t' .put hlast).mpr rfl
      rw [step, NodeManager.onLivelinessEvent_delete, listed_iff (keyed_offline h.keyed _),
        NodeManager.handleNodeOffline_get?, if_pos hid', hget] at hlisted
      obtain ⟨node', heq, -, halive'⟩ := hlisted
      rw [← Option.some.inj heq] at halive'
      exact Bool.false_ne_true halive'
  | register nodeId zone plcaNodeId role now =>
    rintro ⟨node, hget, halive⟩
    obtain ⟨t, hid, -, hput⟩ := h.heard nodeId node hget halive
    have hlast : lastOf about (past ++ [.register nodeId zone plcaNodeId role now]) t = some .put := by
      rw [lastOf_register, hput]
    have hlisted := (hfollows t .put hlast).mpr rfl
    rw [step, listed_iff (keyed_register h.keyed _ _ _ _ _), NodeManager.registerNode_get?,
      if_pos hid] at hlisted
    obtain ⟨node', heq, -, halive'⟩ := hlisted
    rw [← Option.some.inj heq] at halive'
    exact Bool.false_ne_true halive'

end Step

/-! ## Runs -/

/-- The registry follows the liveliness events all along a run just when every node comes online in
the zone of its entry, goes offline in the zone it is alive in and is not registered while alive. -/
theorem registry_follows_iff (events : List Event) :
    (∀ past, past <+: events → Follows past (run step NodeManager.init past)) ↔
      Always step NodeManager.init Fits events := by
  refine prefixes_iff_always (I := Tracks) tracks_init (fun _ h => h.follows) ?_ ?_ events
  · intro past e h
    rw [run_concat]
    exact ⟨fits_of_follows h e, fun hfits => (tracks_step h e hfits).follows⟩
  · intro past e h hfits
    rw [run_concat]
    exact tracks_step h e hfits

/-- Node 1 of the rear zone is online but not listed; its registration hides the one in front too. -/
theorem registry_misses :
    (¬ Follows [.liveliness .put frontNode 0, .liveliness .put rearNode 1]
      (run step NodeManager.init [.liveliness .put frontNode 0, .liveliness .put rearNode 1])) ∧
    ¬ Follows [.liveliness .put frontNode 0, .register (str "1") (str "front") 1 .mixed 1]
      (run step NodeManager.init
        [.liveliness .put frontNode 0, .register (str "1") (str "front") 1 .mixed 1]) := by
  constructor
  · intro hfollows
    obtain ⟨node, hmem, hzone, -⟩ := (hfollows rearNode .put (by decide +kernel)).mpr rfl
    have hnodes : (run step NodeManager.init [.liveliness .put frontNode 0,
        .liveliness .put rearNode 1]).nodes.pairs.map Prod.snd =
          [⟨str "1", str "front", -1, .mixed, true, 1⟩] := by decide +kernel
    rw [hnodes, List.mem_singleton] at hmem
    rw [hmem] at hzone
    exact absurd hzone (by decide)
  · intro hfollows
    obtain ⟨node, hmem, -, -, halive⟩ := (hfollows frontNode .put (by decide +kernel)).mpr rfl
    have hnodes : (run step NodeManager.init [.liveliness .put frontNode 0,
        .register (str "1") (str "front") 1 .mixed 1]).nodes.pairs.map Prod.snd =
          [⟨str "1", str "front", 1, .mixed, false, 1⟩] := by decide +kernel
    rw [hnodes, List.mem_singleton] at hmem
    rw [hmem] at halive
    exact absurd halive (by decide)

end Genoh.NodeRegistry
