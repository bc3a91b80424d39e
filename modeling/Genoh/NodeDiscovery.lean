import Genoh.History
import Genoh.MasterNodes
import Genoh.Run

/-!
# Discovery

The router with the live tokens, the subscriber's events under way, the replies to the initial
query and the registry. Events are processed in order, replies whenever the query thread gets
to them.
-/
namespace Genoh.NodeDiscovery

open Genoh.History Genoh.MasterNodes Genoh.Run Genoh.Strings

/-- What the manager hears of a node. -/
inductive Notice where
  | event (kind : SampleKind)
  | reply
  deriving DecidableEq, Repr

/-- The live tokens have distinct node ids. The notices that were processed are a ghost. -/
structure System where
  live : List Token
  distinct : (live.map Token.nodeId).Nodup
  pending : List (Token × SampleKind)
  replies : Option (List Token)
  manager : NodeManager
  processed : List (Str × Notice)

inductive Step where
  | declare (token : Token)
  | undeclare (nodeId : Str)
  | query
  | deliver (now : Int)
  | reply (i : Nat) (now : Int)

def Live (live : List Token) (nodeId : Str) : Prop := ∃ t ∈ live, t.nodeId = nodeId

instance (live : List Token) (nodeId : Str) : Decidable (Live live nodeId) :=
  inferInstanceAs (Decidable (∃ t ∈ live, t.nodeId = nodeId))

/-- A node with a new node id comes to life. -/
def declare (s : System) (t : Token) : System :=
  if h : Live s.live t.nodeId then s
  else
    { s with
      live := s.live ++ [t]
      distinct := by
        rw [List.map_append, List.map_singleton]
        refine List.nodup_append.mpr ⟨s.distinct, List.nodup_singleton _, ?_⟩
        simpa [Live] using h
      pending := s.pending ++ [(t, .put)] }

def undeclare (s : System) (nodeId : Str) : System :=
  match s.live.find? (·.nodeId = nodeId) with
  | none => s
  | some t =>
    { s with
      live := s.live.filter (·.nodeId ≠ nodeId)
      distinct := s.distinct.sublist (List.filter_sublist.map _)
      pending := s.pending ++ [(t, .delete)] }

/-- The router answers the query of `_query_initial_liveliness` with the tokens of this moment. -/
def query (s : System) : System :=
  match s.replies with
  | some _ => s
  | none => { s with replies := some s.live }

/-- The subscriber's next event is handled. -/
def deliver (s : System) (now : Int) : System :=
  match s.pending with
  | [] => s
  | (t, kind) :: pending =>
    { s with
      pending := pending
      manager := (s.manager.onLivelinessEvent t.key kind now).1
      processed := s.processed ++ [(t.nodeId, .event kind)] }

/-- One of the replies is handled. -/
def reply (s : System) (i : Nat) (now : Int) : System :=
  match s.replies with
  | none => s
  | some replies => match replies[i]? with
    | none => s
    | some t =>
      { s with
        replies := some (replies.eraseIdx i)
        manager := (s.manager.handleReply (some t.key) now).1
        processed := s.processed ++ [(t.nodeId, .reply)] }

def step (s : System) : Step → System
  | .declare t => declare s t
  | .undeclare nodeId => undeclare s nodeId
  | .query => query s
  | .deliver now => deliver s now
  | .reply i now => reply s i now

/-- `start_discovery` where the given tokens are live: the subscriber asks for the history. -/
def start (live : List Token) (distinct : (live.map Token.nodeId).Nodup) : System where
  live := live
  distinct := distinct
  pending := live.map fun t => (t, .put)
  replies := none
  manager := NodeManager.init
  processed := []

/-! ## Convergence -/

/-- All replies and events have been processed. -/
def Settled (s : System) : Prop := s.pending = [] ∧ s.replies = some []

/-- The nodes marked alive are those whose token is alive. -/
def Converged (s : System) : Prop := ∀ nodeId, s.manager.Alive nodeId ↔ Live s.live nodeId

/-- Where the last notice of a node was a reply, its token is alive. -/
def InTime (s : System) : Prop :=
  ∀ nodeId, lastOf some s.processed nodeId = some .reply → Live s.live nodeId

/-! ## Notices -/

/-- The events among the notices. -/
def eventKind : Str × Notice → Option (Str × SampleKind)
  | (nodeId, .event kind) => some (nodeId, kind)
  | (_, .reply) => none

section Notices

variable (notices : List (Str × Notice)) (nodeId : Str) (kind : SampleKind) (id : Str)

theorem lastOf_notice (notice : Notice) :
    lastOf some (notices ++ [(nodeId, notice)]) id =
      if id = nodeId then some notice else lastOf some notices id :=
  lastOf_concat_some notices rfl id

theorem lastOf_event : lastOf eventKind (notices ++ [(nodeId, .event kind)]) id =
    if id = nodeId then some kind else lastOf eventKind notices id :=
  lastOf_concat_some notices (show eventKind (nodeId, .event kind) = some (nodeId, kind) by rfl) id

theorem lastOf_reply : lastOf eventKind (notices ++ [(nodeId, .reply)]) id =
    lastOf eventKind notices id :=
  lastOf_concat_none notices (show eventKind (nodeId, .reply) = none by rfl) id

/-- A last notice that is no reply is the last event. -/
theorem lastOf_event_of_notice (h : lastOf some notices id ≠ some .reply) :
    lastOf eventKind notices id = (lastOf some notices id).bind fun
      | .event kind => some kind
      | .reply => none := by
  induction notices using List.reverseRecOn with
  | nil => rfl
  | append_singleton notices entry ih =>
    obtain ⟨nodeId, notice⟩ := entry
    rw [lastOf_notice] at h ⊢
    cases notice with
    | event kind =>
      rw [lastOf_event]
      split
      · rfl
      · rename_i hid
        rw [if_neg hid] at h
        exact ih h
    | reply =>
      rw [lastOf_reply]
      by_cases hid : id = nodeId
      · exact absurd (if_pos hid) h
      · rw [if_neg hid] at h ⊢
        exact ih h

end Notices

theorem live_concat (live : List Token) (t : Token) (nodeId : Str) :
    Live (live ++ [t]) nodeId ↔ nodeId = t.nodeId ∨ Live live nodeId := by
  simp only [Live, List.mem_append, List.mem_singleton, or_and_right, exists_or, exists_eq_left]
  rw [or_comm, eq_comm]

theorem live_filter (live : List Token) (gone nodeId : Str) :
    Live (live.filter (·.nodeId ≠ gone)) nodeId ↔ nodeId ≠ gone ∧ Live live nodeId := by
  constructor
  · rintro ⟨t, hmem, rfl⟩
    rw [List.mem_filter] at hmem
    exact ⟨by simpa using hmem.2, t, hmem.1, rfl⟩
  · rintro ⟨hne, t, hmem, rfl⟩
    exact ⟨t, List.mem_filter.mpr ⟨hmem, by simpa using hne⟩, rfl⟩

/-! ## Invariant -/

/-- Events under way, as the notices they will be. -/
def upcoming (pending : List (Token × SampleKind)) : List (Str × Notice) :=
  pending.map fun (t, kind) => (t.nodeId, .event kind)

theorem upcoming_concat (pending : List (Token × SampleKind)) (t : Token) (kind : SampleKind) :
    upcoming (pending ++ [(t, kind)]) = upcoming pending ++ [(t.nodeId, .event kind)] :=
  List.map_append

/-- The registry goes by the last notice, and the tokens by the last event, of which some are still
to come. -/
structure Invariant (s : System) : Prop where
  alive : ∀ nodeId, s.manager.Alive nodeId ↔ lastOf some s.processed nodeId = some (.event .put) ∨
    lastOf some s.processed nodeId = some .reply
  live : ∀ nodeId, Live s.live nodeId ↔
    lastOf eventKind (s.processed ++ upcoming s.pending) nodeId = some .put

theorem live_history (live : List Token) (nodeId : Str) :
    Live live nodeId ↔ lastOf eventKind (upcoming (live.map fun t => (t, .put))) nodeId = some .put := by
  induction live using List.reverseRecOn with
  | nil => simp [Live, upcoming]
  | append_singleton live t ih =>
    rw [List.map_append, List.map_singleton, upcoming_concat, lastOf_event, live_concat, ih]
    split
    · rename_i hid
      exact iff_of_true (.inl hid) rfl
    · rename_i hid
      exact or_iff_right hid

theorem invariant_start (live : List Token) (distinct : (live.map Token.nodeId).Nodup) :
    Invariant (start live distinct) := by
  constructor
  · intro nodeId
    refine iff_of_false ?_ (by simp [start])
    rintro ⟨node, hget, -⟩
    exact absurd hget (by simp [start, NodeManager.init, OrderedDict.Dict.empty, OrderedDict.Dict.get?])
  · exact live_history live

section Step

variable {s : System} (h : Invariant s)

include h

/-- A token that comes or goes is announced by an event behind all others. -/
theorem live_announced (t : Token) (kind : SampleKind) (nodeId : Str) :
    lastOf eventKind (s.processed ++ upcoming (s.pending ++ [(t, kind)])) nodeId = some .put ↔
      if nodeId = t.nodeId then kind = .put else Live s.live nodeId := by
  rw [upcoming_concat, ← List.append_assoc, lastOf_event]
  split
  · exact Option.some_inj
  · exact (h.live nodeId).symm

theorem invariant_declare (t : Token) : Invariant (declare s t) := by
  rw [declare]
  split
  · exact h
  · refine ⟨h.alive, fun nodeId => ?_⟩
    dsimp only
    rw [live_announced h, live_concat]
    split
    · rename_i hid
      exact iff_of_true (.inl hid) rfl
    · rename_i hid
      exact or_iff_right hid

theorem invariant_undeclare (nodeId : Str) : Invariant (undeclare s nodeId) := by
  rw [undeclare]
  split
  · exact h
  · rename_i t hfind
    have hid : t.nodeId = nodeId := by simpa using List.find?_some hfind
    refine ⟨h.alive, fun id => ?_⟩
    dsimp only
    rw [live_announced h, live_filter, hid]
    split
    · rename_i heq
      exact iff_of_false (fun hne => hne.1 heq) (by decide)
    · rename_i hne
      exact and_iff_right hne

theorem invariant_query : Invariant (query s) := by
  rw [query]
  split
  · exact h
  · exact ⟨h.alive, h.live⟩

theorem invariant_deliver (now : Int) : Invariant (deliver s now) := by
  rw [deliver]
  split
  · exact h
  · rename_i t kind pending hpending
    have hlive := h.live
    rw [hpending, upcoming, List.map_cons, List.append_cons] at hlive
    refine ⟨fun nodeId => ?_, hlive⟩
    dsimp only
    rw [lastOf_notice]
    cases kind with
    | put =>
      rw [NodeManager.onLivelinessEvent_put, NodeManager.alive_handleNodeOnline, h.alive]
      split
      · rename_i hid
        exact iff_of_true (.inl hid) (.inl rfl)
      · rename_i hid
        exact or_iff_right hid
    | delete =>
      rw [NodeManager.onLivelinessEvent_delete, NodeManager.alive_handleNodeOffline, h.alive]
      split
      · rename_i hid
        exact iff_of_false (fun hne => hne.1 hid) (by decide)
      · rename_i hid
        exact and_iff_right hid

theorem invariant_reply (i : Nat) (now : Int) : Invariant (reply s i now) := by
  rw [reply]
  split
  · exact h
  · split
    · exact h
    · rename_i t ht
      constructor
      · intro nodeId
        dsimp only
        rw [lastOf_notice, NodeManager.handleReply_key, NodeManager.alive_handleNodeOnline, h.alive]
        split
        · rename_i hid
          exact iff_of_true (.inl hid) (.inr rfl)
        · rename_i hid
          exact or_iff_right hid
      · intro nodeId
        dsimp only
        rw [h.live, lastOf_append, lastOf_append, lastOf_reply]

theorem invariant_step (e : Step) : Invariant (step s e) := by
  cases e with
  | declare t => exact invariant_declare h t
  | undeclare nodeId => exact invariant_undeclare h nodeId
  | query => exact invariant_query h
  | deliver now => exact invariant_deliver h now
  | reply i now => exact invariant_reply h i now

/-- Once nothing is under way, replies that came too late are all that can be wrong. -/
theorem converged_iff (hpending : s.pending = []) : Converged s ↔ InTime s := by
  have hlive := h.live
  rw [hpending, upcoming, List.map_nil, List.append_nil] at hlive
  constructor
  · intro hconverged nodeId hreply
    exact (hconverged nodeId).mp ((h.alive nodeId).mpr (.inr hreply))
  · intro hintime nodeId
    by_cases hreply : lastOf some s.processed nodeId = some .reply
    · exact iff_of_true ((h.alive nodeId).mpr (.inr hreply)) (hintime nodeId hreply)
    · rw [h.alive, hlive, lastOf_event_of_notice _ _ hreply, or_iff_left hreply]
      cases lastOf some s.processed nodeId with
      | none => simp
      | some notice =>
        cases notice with
        | event kind => simp
        | reply => simp

end Step

/-! ## Runs -/

/-- Whatever tokens come and go and however replies and events interleave, once all of them have been
processed the registry has converged just when no node is gone whose last notice was a reply. -/
theorem discovery_converges_iff (live : List Token) (distinct : (live.map Token.nodeId).Nodup)
    (steps : List Step) (hsettled : Settled (run step (start live distinct) steps)) :
    Converged (run step (start live distinct) steps) ↔
      InTime (run step (start live distinct) steps) := by
  have hinv := run_invariant (invariant_start live distinct) (fun _ e h => invariant_step h e) steps
  exact converged_iff hinv hsettled.1

theorem discovery_converges_iff_front :
    Converged (run step (start [frontNode] (by decide)) [.query, .reply 0 0, .deliver 1]) ↔
      InTime (run step (start [frontNode] (by decide)) [.query, .reply 0 0, .deliver 1]) :=
  discovery_converges_iff [frontNode] (by decide) [.query, .reply 0 0, .deliver 1] ⟨rfl, rfl⟩

/-- The node dies while the reply that it lives is under way, and the reply is handled last. -/
def overtaken : List Step := [.query, .undeclare (str "1"), .deliver 0, .deliver 1, .reply 0 2]

theorem dead_node_alive : Settled (run step (start [frontNode] (by decide)) overtaken) ∧
    ¬ Converged (run step (start [frontNode] (by decide)) overtaken) := by
  have hsettled : Settled (run step (start [frontNode] (by decide)) overtaken) :=
    ⟨by decide +kernel, by decide +kernel⟩
  refine ⟨hsettled, fun hconverged => ?_⟩
  have hreply : lastOf some (run step (start [frontNode] (by decide)) overtaken).processed (str "1") =
      some .reply := by decide +kernel
  have hgone : (run step (start [frontNode] (by decide)) overtaken).live = [] := by decide +kernel
  have hinv := run_invariant (invariant_start [frontNode] (by decide)) (fun _ e h => invariant_step h e)
    overtaken
  obtain ⟨t, hmem, -⟩ := (converged_iff hinv hsettled.1).mp hconverged (str "1") hreply
  rw [hgone] at hmem
  exact List.not_mem_nil hmem

end Genoh.NodeDiscovery
