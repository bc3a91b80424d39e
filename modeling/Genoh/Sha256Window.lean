import Genoh.Sha256

/-!
# SHA-256 with a moving schedule

The rounds with the sixteen schedule words that are still needed in a window that moves one
word a round, so that each word is computed once.
-/
namespace Genoh.Sha256

open Genoh.Bytes

/-- The word behind a window of sixteen. -/
def nextWord (w : List Word) : Word :=
  smallSigma1 (w.getD 14 0) + w.getD 9 0 + smallSigma0 (w.getD 1 0) + w.headD 0

/-- One round for each constant. -/
def windowRounds : List Word → List Word → Work → Work
  | [], _, s => s
  | k :: ks, w, s => windowRounds ks (w.tail ++ [nextWord w]) (round k (w.headD 0) s)

def windowCompress (s : Work) (block : List Byte) : Work :=
  let r := windowRounds constants ((List.range 16).map (wordAt block)) s
  ⟨s.a + r.a, s.b + r.b, s.c + r.c, s.d + r.d, s.e + r.e, s.f + r.f, s.g + r.g, s.h + r.h⟩

/-- Chain the first `n` blocks of a message. -/
def windowChain (n : Nat) (msg : List Byte) : Work :=
  (List.range n).foldl (fun s i => windowCompress s (block msg i)) initial

def windowHash (msg : List Byte) : List Byte :=
  digest (windowChain ((pad msg).length / 64) (pad msg))

/-- The schedule words from the `t`-th on. -/
def window (m : Nat → Word) (t : Nat) : List Word :=
  (List.range 16).map fun j => schedule m (t + j)

theorem nextWord_window (m : Nat → Word) (t : Nat) :
    nextWord (window m t) = schedule m (t + 16) := by
  rw [schedule_ge m (t + 16) (by omega)]
  rfl

theorem window_succ (m : Nat → Word) (t : Nat) :
    (window m t).tail ++ [nextWord (window m t)] = window m (t + 1) := by
  rw [nextWord_window]
  rfl

/-- The window carries the schedule through the rounds, by induction on the constants left. -/
theorem windowRounds_window (m : Nat → Word) (ks : List Word) (t : Nat) (s : Work) :
    windowRounds ks (window m t) s =
      (List.range ks.length).foldl (fun s i => round (ks.getD i 0) (schedule m (t + i)) s) s := by
  induction ks generalizing t s with
  | nil => rfl
  | cons k ks ih =>
    have hhead : (window m t).headD 0 = schedule m t := rfl
    rw [windowRounds, window_succ, hhead, ih, List.length_cons, List.range_succ_eq_map,
      List.foldl_cons, List.foldl_map]
    simp only [List.getD_cons_zero, List.getD_cons_succ, Nat.add_zero, Nat.succ_eq_add_one,
      Nat.add_assoc, Nat.add_comm 1]

theorem windowCompress_eq (s : Work) (block : List Byte) :
    windowCompress s block = compress s block := by
  have hstart : (List.range 16).map (wordAt block) = window (wordAt block) 0 := by
    refine List.map_congr_left fun j hj => ?_
    rw [Nat.zero_add, schedule_lt _ _ (List.mem_range.mp hj)]
  have hrounds : windowRounds constants (window (wordAt block) 0) s =
      rounds (schedule (wordAt block)) s := by
    rw [windowRounds_window]
    simp only [Nat.zero_add]
    rfl
  rw [windowCompress, hstart, hrounds]
  rfl

theorem windowChain_eq (n : Nat) (msg : List Byte) : windowChain n msg = chain n msg := by
  have hstep : (fun s i => windowCompress s (block msg i)) = fun s i => compress s (block msg i) := by
    funext s i
    exact windowCompress_eq s _
  rw [windowChain, hstep]
  rfl

theorem windowHash_eq : windowHash = hash := by
  funext msg
  rw [windowHash, windowChain_eq]
  rfl

end Genoh.Sha256
