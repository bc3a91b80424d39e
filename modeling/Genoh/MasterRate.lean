import Genoh.MasterIds
import Genoh.OrderedDict
import Genoh.Run
import Mathlib.Algebra.Order.Field.Rat

/-!
# The rate limiter of the master

`RateLimiter` of `master/ids_engine.py`, with `time.monotonic()` passed in as an exact rational. A
recording prunes the timestamps of its node; the rates are those of the full history all the same.
-/
namespace Genoh.MasterRate

open Genoh.OrderedDict Genoh.Run Genoh.Strings

/-- `ZeroDivisionError`, of a window without length. -/
inductive Raised where
  | zeroDivisionError
  deriving DecidableEq, Repr

/-- So many messages, over the window. -/
def perWindow (count : Nat) (windowSec : ℚ) : Except Raised ℚ :=
  if windowSec = 0 then .error .zeroDivisionError else .ok (count / windowSec)

structure RateLimiter where
  windowSec : ℚ
  timestamps : Dict Str (List ℚ)

namespace RateLimiter

def init (windowSec : ℚ := 1) : RateLimiter := ⟨windowSec, Dict.empty⟩

/-- The list of a node, empty where the table has none. -/
def tsList (limiter : RateLimiter) (nodeId : Str) : List ℚ :=
  (limiter.timestamps.get? nodeId).getD []

/-- `record`. The list is pruned before the division can raise. -/
def record (limiter : RateLimiter) (nodeId : Str) (now : ℚ) : Except Raised ℚ × RateLimiter :=
  let tsList := limiter.tsList nodeId ++ [now]
  let cutoff := now - limiter.windowSec
  let kept := tsList.filter fun t => cutoff < t
  (perWindow kept.length limiter.windowSec,
    { limiter with timestamps := limiter.timestamps.set nodeId kept })

/-- `get_rate`. -/
def getRate (limiter : RateLimiter) (nodeId : Str) (now : ℚ) : Except Raised ℚ × RateLimiter :=
  let cutoff := now - limiter.windowSec
  let valid := (limiter.tsList nodeId).filter fun t => cutoff < t
  (perWindow valid.length limiter.windowSec, limiter)

end RateLimiter

/-! ## Calls in any order -/

inductive Call where
  | record (nodeId : Str) (now : ℚ)
  | getRate (nodeId : Str) (now : ℚ)
  deriving DecidableEq

namespace Call

def nodeId : Call → Str
  | record nodeId _ => nodeId
  | getRate nodeId _ => nodeId

def now : Call → ℚ
  | record _ now => now
  | getRate _ now => now

def records : Call → Bool
  | record _ _ => true
  | getRate _ _ => false

end Call

def perform (limiter : RateLimiter) : Call → Except Raised ℚ × RateLimiter
  | .record nodeId now => limiter.record nodeId now
  | .getRate nodeId now => limiter.getRate nodeId now

def step (limiter : RateLimiter) (call : Call) : RateLimiter := (perform limiter call).2

/-- The times of all recordings for a node. -/
def recorded (nodeId : Str) (calls : List Call) : List ℚ :=
  (calls.filter fun call => call.records ∧ call.nodeId = nodeId).map Call.now

/-- The rate that all recordings for the node make, those in the window up to `now` counted. -/
def fullRate (windowSec : ℚ) (nodeId : Str) (calls : List Call) (now : ℚ) : Except Raised ℚ :=
  perWindow ((recorded nodeId calls).countP fun t => now - windowSec < t ∧ t ≤ now) windowSec

theorem recorded_concat (nodeId : Str) (past : List Call) (call : Call) :
    recorded nodeId (past ++ [call]) =
      if call.records ∧ call.nodeId = nodeId then recorded nodeId past ++ [call.now]
      else recorded nodeId past := by
  rw [recorded, recorded, List.filter_append, List.map_append]
  by_cases h : call.records ∧ call.nodeId = nodeId
  · rw [if_pos h, List.filter_cons_of_pos (by simpa using h)]
    rfl
  · rw [if_neg h, List.filter_cons_of_neg (by simpa using h)]
    exact List.append_nil _

@[simp] theorem step_windowSec (limiter : RateLimiter) (call : Call) :
    (step limiter call).windowSec = limiter.windowSec := by
  cases call with
  | record nodeId now => rfl
  | getRate nodeId now => rfl

theorem step_tsList (limiter : RateLimiter) (call : Call) (nodeId : Str) :
    (step limiter call).tsList nodeId =
      if call.records ∧ call.nodeId = nodeId then
        (limiter.tsList nodeId ++ [call.now]).filter fun t => call.now - limiter.windowSec < t
      else limiter.tsList nodeId := by
  cases call with
  | getRate node now => rfl
  | record node now =>
    have hset : (step limiter (.record node now)).timestamps = limiter.timestamps.set node
        ((limiter.tsList node ++ [now]).filter fun t => now - limiter.windowSec < t) := rfl
    by_cases hnode : node = nodeId
    · subst hnode
      rw [if_pos ⟨rfl, rfl⟩, RateLimiter.tsList, hset, Dict.get?_set_self]
      rfl
    · rw [if_neg (fun h => hnode h.2), RateLimiter.tsList, hset,
        Dict.get?_set_of_ne _ _ _ _ (Ne.symm hnode)]
      rfl

/-- What a call answers, from the list of its node with the time of a recording behind it. -/
theorem perform_answer (limiter : RateLimiter) (call : Call) :
    (perform limiter call).1 = perWindow
      (((limiter.tsList call.nodeId ++ if call.records then [call.now] else []).filter
        fun t => call.now - limiter.windowSec < t).length) limiter.windowSec := by
  cases call with
  | record nodeId now => rfl
  | getRate nodeId now =>
    change _ = perWindow ((limiter.tsList nodeId ++ []).filter _).length _
    rw [List.append_nil]
    rfl

theorem run_windowSec (windowSec : ℚ) (calls : List Call) :
    (run step (.init windowSec) calls).windowSec = windowSec := by
  induction calls using List.reverseRecOn with
  | nil => rfl
  | append_singleton calls call ih => rw [run_concat, step_windowSec, ih]

/-! ## Pruning -/

/-- A further filter with a later cutoff makes an earlier one needless. -/
theorem filter_filter_cutoff {cutoff later : ℚ} (h : cutoff ≤ later) (times : List ℚ) :
    (times.filter fun t => cutoff < t).filter (fun t => later < t) =
      times.filter fun t => later < t := by
  rw [List.filter_filter]
  apply List.filter_congr
  intro t _
  by_cases ht : later < t
  · simp [ht, h.trans_lt ht]
  · simp [ht]

/-- Behind the last cutoff so far, a pruned list is the full one. -/
theorem run_tsList_filter (windowSec : ℚ) (nodeId : Str) (past : List Call) (cutoff : ℚ)
    (hlate : ∀ call ∈ past, call.now - windowSec ≤ cutoff) :
    ((run step (.init windowSec) past).tsList nodeId).filter (fun t => cutoff < t) =
      (recorded nodeId past).filter fun t => cutoff < t := by
  induction past using List.reverseRecOn with
  | nil => rfl
  | append_singleton past call ih =>
    have hpast := ih fun c hc => hlate c (List.mem_append_left _ hc)
    rw [run_concat, step_tsList, recorded_concat, run_windowSec]
    by_cases hcall : call.records ∧ call.nodeId = nodeId
    · rw [if_pos hcall, if_pos hcall, filter_filter_cutoff (hlate call (by simp)),
        List.filter_append, List.filter_append, hpast]
    · rw [if_neg hcall, if_neg hcall, hpast]

/-- In order, no recording so far lies behind the present. -/
theorem recorded_le {past : List Call} {call : Call}
    (hclock : ((past ++ [call]).map Call.now).Pairwise (· ≤ ·)) (nodeId : Str) :
    ∀ t ∈ recorded nodeId (past ++ [call]), t ≤ call.now := by
  intro t ht
  obtain ⟨c, hc, rfl⟩ := List.mem_map.mp ht
  rw [List.map_append, List.pairwise_append] at hclock
  obtain hpast | hlast := List.mem_append.mp (List.mem_of_mem_filter hc)
  · exact hclock.2.2 c.now (List.mem_map_of_mem hpast) call.now (by simp)
  · rw [List.mem_singleton.mp hlast]

theorem perform_fullRate (windowSec : ℚ) {past : List Call} {call : Call}
    (hclock : ((past ++ [call]).map Call.now).Pairwise (· ≤ ·)) :
    (perform (run step (.init windowSec) past) call).1 =
      fullRate windowSec call.nodeId (past ++ [call]) call.now := by
  have hlate : ∀ c ∈ past, c.now - windowSec ≤ call.now - windowSec := by
    intro c hc
    rw [List.map_append, List.pairwise_append] at hclock
    exact sub_le_sub_right (hclock.2.2 c.now (List.mem_map_of_mem hc) call.now (by simp)) windowSec
  have hhistory : recorded call.nodeId (past ++ [call]) =
      recorded call.nodeId past ++ if call.records then [call.now] else [] := by
    rw [recorded_concat]
    by_cases hrecords : call.records = true
    · rw [if_pos ⟨hrecords, rfl⟩, if_pos hrecords]
    · rw [if_neg (fun h => hrecords h.1), if_neg hrecords, List.append_nil]
  have hcount : (recorded call.nodeId (past ++ [call])).countP
      (fun t => call.now - windowSec < t ∧ t ≤ call.now) =
        ((recorded call.nodeId (past ++ [call])).filter
          fun t => call.now - windowSec < t).length := by
    rw [← List.countP_eq_length_filter]
    apply List.countP_congr
    intro t ht
    simp [recorded_le hclock call.nodeId t ht]
  rw [perform_answer, run_windowSec, List.filter_append,
    run_tsList_filter windowSec call.nodeId past _ hlate, ← List.filter_append, ← hhistory,
    fullRate, hcount]

/-! ## Calls that do not matter -/

theorem run_filter_records (windowSec : ℚ) (past : List Call) :
    run step (.init windowSec) (past.filter Call.records) = run step (.init windowSec) past := by
  induction past using List.reverseRecOn with
  | nil => rfl
  | append_singleton past call ih =>
    rw [List.filter_append, run_append, ih, run_append]
    cases call with
    | record nodeId now => rfl
    | getRate nodeId now => rfl

/-- The list of a node comes from the calls for it. -/
theorem run_tsList_filter_node (windowSec : ℚ) (nodeId : Str) (past : List Call) :
    (run step (.init windowSec) (past.filter fun c => c.nodeId = nodeId)).tsList nodeId =
      (run step (.init windowSec) past).tsList nodeId := by
  induction past using List.reverseRecOn with
  | nil => rfl
  | append_singleton past call ih =>
    rw [List.filter_append, run_concat, step_tsList, run_windowSec, ← ih]
    by_cases hnode : call.nodeId = nodeId
    · rw [List.filter_cons_of_pos (by simpa using hnode), List.filter_nil, run_concat, step_tsList,
        run_windowSec]
    · rw [List.filter_cons_of_neg (by simpa using hnode), List.filter_nil, List.append_nil,
        if_neg fun h => hnode h.2]

theorem perform_filter_node (windowSec : ℚ) (past : List Call) (call : Call) :
    (perform (run step (.init windowSec) (past.filter fun c => c.nodeId = call.nodeId)) call).1 =
      (perform (run step (.init windowSec) past) call).1 := by
  rw [perform_answer, perform_answer, run_windowSec, run_windowSec, run_tsList_filter_node]

/-- Along any calls at nondecreasing times, every answer is the rate of the full history. `get_rate`
calls leave no trace, and the calls for other nodes are not seen either. -/
theorem rate_of_history (windowSec : ℚ) (calls : List Call)
    (hclock : (calls.map Call.now).Pairwise (· ≤ ·)) :
    ∀ past call future, calls = past ++ call :: future →
      (perform (run step (.init windowSec) past) call).1 =
          fullRate windowSec call.nodeId (past ++ [call]) call.now ∧
        run step (.init windowSec) (past.filter Call.records) = run step (.init windowSec) past ∧
        (perform (run step (.init windowSec) (past.filter fun c => c.nodeId = call.nodeId)) call).1 =
          (perform (run step (.init windowSec) past) call).1 := by
  rintro past call future rfl
  have hupto : ((past ++ [call]).map Call.now).Pairwise (· ≤ ·) := by
    rw [List.append_cons, List.map_append, List.pairwise_append] at hclock
    exact hclock.1
  exact ⟨perform_fullRate windowSec hupto, run_filter_records windowSec past,
    perform_filter_node windowSec past call⟩

/-- Three messages of which the second, a window before the present, no longer counts. -/
theorem rate_of_history_boundary :
    (perform (run step (.init 1) [.record (str "cam") 0, .record (str "cam") (1 / 2)])
      (.record (str "cam") (3 / 2))).1 = .ok 1 := by
  have hclock : ([Call.record (str "cam") 0, .record (str "cam") (1 / 2),
      .record (str "cam") (3 / 2)].map Call.now).Pairwise (· ≤ ·) := by decide +kernel
  have hrate := (rate_of_history 1 _ hclock [.record (str "cam") 0, .record (str "cam") (1 / 2)]
    (.record (str "cam") (3 / 2)) [] rfl).1
  rw [hrate]
  decide +kernel

theorem rateFindings_iff (rate : Nat) : MasterIds.IDSEngine.rateFindings rate ≠ [] ↔ 50 < rate := by
  rw [MasterIds.IDSEngine.rateFindings]
  split
  · rename_i hblock
    exact iff_of_true (List.cons_ne_nil _ _) (Nat.lt_trans (by decide) hblock)
  · split
    · rename_i hwarning
      exact iff_of_true (List.cons_ne_nil _ _) hwarning
    · rename_i hquiet
      exact iff_of_false (fun h => h rfl) hquiet

end Genoh.MasterRate
