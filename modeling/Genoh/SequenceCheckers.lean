import Genoh.FirmwareE2E
import Genoh.MasterE2E
import Genoh.Run

/-!
# The sequence checkers

The receivers of both sides against each other, and the receiver of the master against the
counter of the sender.
-/
namespace Genoh.SequenceCheckers

open Genoh.Run
open Genoh.FirmwareE2E (E2eStatus E2eSeqChecker e2eSeqCheck e2eSeqCheckerInit)
open Genoh.MasterE2E (SequenceChecker SequenceCounterState SeqVerdict)

/-! ## Firmware and master -/

/-- The firmware's word for a verdict of the master. -/
def statusOf : SeqVerdict → E2eStatus
  | .init | .ok | .okSomeLost => .ok
  | .repeated => .errSeqRepeated
  | .error => .errSeqGap

/-- The last number, -1 for none. -/
def lastNumber (last : Option Nat) : Int :=
  match last with
  | none => -1
  | some n => n

/-- The same gap and the same last number, which is a 16-bit one. -/
structure SameChecker (chk : E2eSeqChecker) (c : SequenceChecker) : Prop where
  maxGap : c.maxGap = chk.maxGap.toNat
  lastSeq : chk.lastSeq = lastNumber c.lastSeq
  short : ∀ last ∈ c.lastSeq, last < 65536

theorem init_same (maxGap : BitVec 16) :
    SameChecker (e2eSeqCheckerInit maxGap) { maxGap := maxGap.toNat } :=
  ⟨rfl, rfl, by simp⟩

/-- The masked difference of the firmware is the difference of the master modulo 65536. -/
theorem delta_toNat (seq : BitVec 16) (last : Nat) (hlast : last < 65536) :
    ((seq - BitVec.ofInt 16 last).toNat : Int) = ((seq.toNat : Int) - last) % 65536 := by
  have hseq := seq.isLt
  have hofNat : (BitVec.ofInt 16 (last : Int)).toNat = last := by
    rw [BitVec.ofInt_natCast, BitVec.toNat_ofNat, Nat.mod_eq_of_lt (by omega)]
  rw [BitVec.toNat_sub, hofNat]
  omega

/-- The firmware's check on the same difference as the master's. -/
theorem e2eSeqCheck_after (chk : E2eSeqChecker) (seq : BitVec 16) {last : Nat}
    (hlast : chk.lastSeq = last) (hlt : last < 65536) :
    e2eSeqCheck chk seq =
      if ((seq.toNat : Int) - last) % 65536 = 0 then (.errSeqRepeated, chk)
      else if ((seq.toNat : Int) - last) % 65536 ≤ chk.maxGap.toNat then
        (.ok, { chk with lastSeq := seq.toNat, validCount := chk.validCount + 1 })
      else (.errSeqGap, { chk with lastSeq := seq.toNat, validCount := 0 }) := by
  have hpos : ¬ (last : Int) < 0 := not_lt.mpr (Int.natCast_nonneg last)
  have hzero : ∀ delta : BitVec 16, delta = 0 ↔ (delta.toNat : Int) = 0 := by
    intro delta
    rw [← BitVec.toNat_inj]
    exact Int.natCast_eq_zero.symm
  have hle : ∀ delta : BitVec 16, delta ≤ chk.maxGap ↔ (delta.toNat : Int) ≤ chk.maxGap.toNat := by
    intro delta
    rw [BitVec.le_def, Int.ofNat_le]
  simp only [e2eSeqCheck, hlast, if_neg hpos, hzero, hle, delta_toNat seq last hlt]

/-- One message: corresponding verdicts, and the same last number again. -/
theorem check_same {chk : E2eSeqChecker} {c : SequenceChecker} (h : SameChecker chk c)
    (hgap : 1 ≤ chk.maxGap) (seq : BitVec 16) :
    (e2eSeqCheck chk seq).1 = statusOf (c.check seq.toNat).1 ∧
      SameChecker (e2eSeqCheck chk seq).2 (c.check seq.toNat).2 := by
  obtain ⟨hmax, hlast, hshort⟩ := h
  have hseq : ∀ last ∈ some seq.toNat, last < 65536 := by
    rintro _ ⟨⟩
    exact seq.isLt
  cases hsome : c.lastSeq with
  | none =>
    have hneg : chk.lastSeq < 0 := by
      rw [hlast, hsome]
      decide
    simp only [e2eSeqCheck, SequenceChecker.check, hsome, if_pos hneg]
    exact ⟨rfl, hmax, rfl, hseq⟩
  | some last =>
    have hpos : 1 ≤ chk.maxGap.toNat := BitVec.le_def.mp hgap
    rw [e2eSeqCheck_after chk seq (by rw [hlast, hsome]; rfl) (hshort last hsome)]
    simp only [SequenceChecker.check, hsome, hmax]
    have hnonneg := Int.emod_nonneg ((seq.toNat : Int) - last) (by decide : (65536 : Int) ≠ 0)
    generalize ((seq.toNat : Int) - last) % 65536 = delta at hnonneg ⊢
    by_cases hrep : delta = 0
    · rw [if_pos hrep, if_pos hrep]
      exact ⟨rfl, hmax, hlast, hshort⟩
    · rw [if_neg hrep, if_neg hrep]
      by_cases hone : delta = 1
      · rw [if_pos (by omega : delta ≤ chk.maxGap.toNat), if_pos hone]
        split_ifs
        · exact ⟨rfl, rfl, rfl, hseq⟩
        · exact ⟨rfl, rfl, rfl, hseq⟩
      · rw [if_neg hone]
        by_cases hin : delta ≤ chk.maxGap.toNat
        · rw [if_pos hin, if_pos ⟨by omega, hin⟩]
          exact ⟨rfl, rfl, rfl, hseq⟩
        · rw [if_neg hin, if_neg (fun h => hin h.2)]
          exact ⟨rfl, rfl, rfl, hseq⟩

theorem e2eSeqCheck_maxGap (chk : E2eSeqChecker) (seq : BitVec 16) :
    (e2eSeqCheck chk seq).2.maxGap = chk.maxGap := by
  simp only [e2eSeqCheck]
  split
  · rfl
  · split
    · rfl
    · split <;> rfl

def firmwareRun (maxGap : BitVec 16) (seqs : List (BitVec 16)) : E2eSeqChecker :=
  run (fun chk seq => (e2eSeqCheck chk seq).2) (e2eSeqCheckerInit maxGap) seqs

def masterRun (maxGap : Nat) (seqs : List Nat) : SequenceChecker :=
  run (fun c seq => (c.check seq).2) { maxGap := maxGap } seqs

theorem run_same (maxGap : BitVec 16) (hgap : 1 ≤ maxGap) (seqs : List (BitVec 16)) :
    SameChecker (firmwareRun maxGap seqs) (masterRun maxGap.toNat (seqs.map BitVec.toNat)) ∧
      (firmwareRun maxGap seqs).maxGap = maxGap := by
  induction seqs using List.reverseRecOn with
  | nil => exact ⟨init_same maxGap, rfl⟩
  | append_singleton seqs seq ih =>
    obtain ⟨hsame, hmax⟩ := ih
    rw [firmwareRun, masterRun, List.map_append, List.map_singleton, run_concat, run_concat]
    refine ⟨(check_same hsame ?_ seq).2, ?_⟩
    · rwa [hmax]
    · rw [e2eSeqCheck_maxGap]
      exact hmax

/-- At every step of every stream the checkers give corresponding verdicts and hold the same last
number. -/
theorem checkers_agree (maxGap : BitVec 16) (hgap : 1 ≤ maxGap) (past : List (BitVec 16))
    (seq : BitVec 16) :
    (e2eSeqCheck (firmwareRun maxGap past) seq).1 =
        statusOf ((masterRun maxGap.toNat (past.map BitVec.toNat)).check seq.toNat).1 ∧
      (firmwareRun maxGap past).lastSeq =
        lastNumber (masterRun maxGap.toNat (past.map BitVec.toNat)).lastSeq ∧
      (e2eSeqCheck (firmwareRun maxGap past) seq).2.lastSeq =
        lastNumber ((masterRun maxGap.toNat (past.map BitVec.toNat)).check seq.toNat).2.lastSeq := by
  obtain ⟨hsame, hmax⟩ := run_same maxGap hgap past
  obtain ⟨hverdict, hnext⟩ := check_same hsame (by rwa [hmax]) seq
  exact ⟨hverdict, hsame.lastSeq, hnext.lastSeq⟩

/-- A stream over the wrap, then with a gap of two at the limit of one. -/
theorem checkers_agree_wrap :
    (1 : BitVec 16) ≤ 1 ∧
      (e2eSeqCheck (firmwareRun 1 [65534, 65535, 0]) 2).1 =
        statusOf ((masterRun 1 [65534, 65535, 0]).check 2).1 ∧
      (e2eSeqCheck (firmwareRun 1 [65534, 65535, 0]) 2).1 = .errSeqGap :=
  ⟨by decide, (checkers_agree 1 (by decide) [65534, 65535, 0] 2).1, by decide⟩

/-! ## Sender and receiver -/

inductive Fate where
  | received
  | lost
  deriving DecidableEq, Repr

/-- A sender's counter and the checker of its receiver. -/
structure Link where
  counter : SequenceCounterState
  checker : SequenceChecker

/-- A fresh receiver; the sender may have counted before. -/
def link (maxGap : Nat) (seq : BitVec 16) (alive : BitVec 8) : Link :=
  ⟨⟨seq.toNat, alive.toNat⟩, { maxGap := maxGap }⟩

/-- The verdict on the next message, should it be received. -/
def verdict (l : Link) : SeqVerdict := (l.checker.check l.counter.next.1.1).1

/-- The sender numbers a message; the receiver checks it unless it is lost. -/
def transmit (l : Link) : Fate → Link
  | .received => ⟨l.counter.next.2, (l.checker.check l.counter.next.1.1).2⟩
  | .lost => ⟨l.counter.next.2, l.checker⟩

/-- Then one received message and `k` lost ones. -/
def afterLosses (l : Link) (past : List Fate) (k : Nat) : Link :=
  run transmit l (past ++ .received :: List.replicate k .lost)

theorem check_maxGap (c : SequenceChecker) (seq : Nat) : (c.check seq).2.maxGap = c.maxGap := by
  cases hlast : c.lastSeq with
  | none => simp only [SequenceChecker.check, hlast]
  | some last =>
    simp only [SequenceChecker.check, hlast]
    split_ifs <;> rfl

/-- Whatever the verdict, the checked number is the last one: a repeated number is the last one
already. -/
theorem check_lastSeq (c : SequenceChecker) (seq : Nat) (hseq : seq < 65536)
    (hshort : ∀ last ∈ c.lastSeq, last < 65536) : (c.check seq).2.lastSeq = some seq := by
  cases hlast : c.lastSeq with
  | none => simp only [SequenceChecker.check, hlast]
  | some last =>
    have hlt := hshort last hlast
    simp only [SequenceChecker.check, hlast]
    split_ifs with hrep
    · rw [hlast, Option.some_inj]
      omega
    all_goals rfl

/-- Both ends are in 16 bits, the sender at the number of the messages. -/
structure Counts (maxGap : Nat) (seq : BitVec 16) (fates : List Fate) (l : Link) : Prop where
  currentSeq : l.counter.currentSeq = (seq.toNat + fates.length) % 65536
  maxGap : l.checker.maxGap = maxGap
  short : ∀ last ∈ l.checker.lastSeq, last < 65536

theorem Counts.lt {maxGap : Nat} {seq : BitVec 16} {fates : List Fate} {l : Link}
    (h : Counts maxGap seq fates l) : l.counter.next.1.1 < 65536 := by
  show l.counter.currentSeq < 65536
  rw [h.currentSeq]
  exact Nat.mod_lt _ (by decide)

theorem counts_run (maxGap : Nat) (seq : BitVec 16) (alive : BitVec 8) (fates : List Fate) :
    Counts maxGap seq fates (run transmit (link maxGap seq alive) fates) := by
  induction fates using List.reverseRecOn with
  | nil => exact ⟨(Nat.mod_eq_of_lt seq.isLt).symm, rfl, by simp [link]⟩
  | append_singleton fates fate ih =>
    rw [run_concat]
    have hnumber := ih.currentSeq
    have hnext : ((run transmit (link maxGap seq alive) fates).counter.currentSeq + 1) % 65536 =
        (seq.toNat + (fates ++ [fate]).length) % 65536 := by
      rw [List.length_append, List.length_singleton]
      omega
    cases fate with
    | received =>
      refine ⟨hnext, (check_maxGap _ _).trans ih.maxGap, ?_⟩
      simp only [transmit, check_lastSeq _ _ ih.lt ih.short]
      rintro _ ⟨⟩
      exact ih.lt
    | lost => exact ⟨hnext, ih.maxGap, ih.short⟩

/-- While messages are lost the receiver holds the number of the last received one. -/
theorem afterLosses_lastSeq (maxGap : Nat) (seq : BitVec 16) (alive : BitVec 8)
    (past : List Fate) (k : Nat) :
    (afterLosses (link maxGap seq alive) past k).checker.lastSeq =
      some ((seq.toNat + past.length) % 65536) := by
  induction k with
  | zero =>
    have hpast := counts_run maxGap seq alive past
    rw [afterLosses, List.replicate_zero, run_concat, transmit,
      check_lastSeq _ _ hpast.lt hpast.short]
    exact congrArg some hpast.currentSeq
  | succ k ih =>
    rw [afterLosses, List.replicate_succ', ← List.cons_append, ← List.append_assoc, run_concat]
    exact ih

/-- After `k` losses the numbers are `k + 1` apart, also across the wrap. -/
theorem afterLosses_verdict (maxGap : Nat) (seq : BitVec 16) (alive : BitVec 8)
    (past : List Fate) (k : Nat) (hk : k + 1 < 65536) :
    verdict (afterLosses (link maxGap seq alive) past k) =
      if k = 0 then
        if (afterLosses (link maxGap seq alive) past k).checker.validCount + 1 <
          (afterLosses (link maxGap seq alive) past k).checker.initCount then .init else .ok
      else if k + 1 ≤ maxGap then .okSomeLost else .error := by
  have hlast := afterLosses_lastSeq maxGap seq alive past k
  have hcounts : Counts maxGap seq _ (afterLosses (link maxGap seq alive) past k) :=
    counts_run maxGap seq alive _
  have hnumber := hcounts.currentSeq
  rw [List.length_append, List.length_cons, List.length_replicate] at hnumber
  have hdelta : (((seq.toNat + (past.length + (k + 1))) % 65536 : Nat) -
      ((seq.toNat + past.length) % 65536 : Nat) : Int) % 65536 = k + 1 := by omega
  simp only [verdict, SequenceCounterState.next, SequenceChecker.check, hlast, hnumber,
    hcounts.maxGap, hdelta]
  rw [if_neg (by omega)]
  by_cases hzero : k = 0
  · rw [if_pos (by omega), if_pos hzero]
    split_ifs <;> rfl
  · rw [if_neg (by omega), if_neg hzero]
    by_cases hin : k + 1 ≤ maxGap
    · rw [if_pos hin, if_pos (by omega)]
    · rw [if_neg hin, if_neg (by omega)]

theorem afterLosses_none (maxGap : Nat) (seq : BitVec 16) (alive : BitVec 8) (past : List Fate) :
    verdict (afterLosses (link maxGap seq alive) past 0) = .init ∨
      verdict (afterLosses (link maxGap seq alive) past 0) = .ok := by
  rw [afterLosses_verdict maxGap seq alive past 0 (by decide), if_pos rfl]
  split_ifs
  · exact .inl rfl
  · exact .inr rfl

/-- The number of losses decides the verdict, in a run of any length and whatever was received or
lost before. -/
theorem losses_classified (m : Nat) (hm : 1 ≤ m ∧ m ≤ 65534) (seq : BitVec 16) (alive : BitVec 8)
    (past : List Fate) (k : Nat) :
    (k = 0 → verdict (afterLosses (link m seq alive) past k) = .init ∨
      verdict (afterLosses (link m seq alive) past k) = .ok) ∧
    (1 ≤ k ∧ k ≤ m - 1 → verdict (afterLosses (link m seq alive) past k) = .okSomeLost) ∧
    (m ≤ k ∧ k ≤ 65534 → verdict (afterLosses (link m seq alive) past k) = .error) ∧
    ∀ n, verdict (run transmit (link m seq alive) (List.replicate n .received)) = .init ∨
      verdict (run transmit (link m seq alive) (List.replicate n .received)) = .ok := by
  obtain ⟨hlow, hhigh⟩ := hm
  refine ⟨?_, ?_, ?_, ?_⟩
  · rintro rfl
    exact afterLosses_none m seq alive past
  · rintro ⟨hpos, hle⟩
    rw [afterLosses_verdict m seq alive past k (by omega), if_neg (by omega), if_pos (by omega)]
  · rintro ⟨hge, hle⟩
    rw [afterLosses_verdict m seq alive past k (by omega), if_neg (by omega), if_neg (by omega)]
  · intro n
    cases n with
    | zero => exact .inl rfl
    | succ n =>
      rw [List.replicate_succ']
      exact afterLosses_none m seq alive (List.replicate n .received)

theorem losses_classified_three :
    (1 ≤ 3 ∧ 3 ≤ 65534) ∧
      verdict (afterLosses (link 3 65534 255) [.lost] 2) = .okSomeLost ∧
      verdict (afterLosses (link 3 65534 255) [.lost] 3) = .error :=
  ⟨by decide, (losses_classified 3 (by decide) 65534 255 [.lost] 2).2.1 (by decide),
    (losses_classified 3 (by decide) 65534 255 [.lost] 3).2.2.1 (by decide)⟩

end Genoh.SequenceCheckers
