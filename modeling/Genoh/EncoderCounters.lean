import Genoh.PayloadStack

/-!
# Counters and failed encodes

The five encoders of both sides, each with the counters it draws from. A failing
exit in front of the counter update leaves them alone; one behind it, where the
work buffer or a header field turns out too small, has used a number up.
-/
namespace Genoh.EncoderCounters

open Genoh.Bytes Genoh.MasterE2E Genoh.MasterPayloads Genoh.PayloadStack

/-- The counters of the node and of the master. -/
structure Counters where
  node : FirmwareE2E.E2eCounterState
  freshness : FirmwareSecOC.SecocFreshness
  master : SequenceCounterState
  deriving DecidableEq, Repr

/-- One call of an encoder, with its arguments. -/
inductive Call (Value : Type) where
  | nodeE2e (payload : List Byte) (dataId : BitVec 16) (outBufSize : Nat)
  | nodeSecoc (e2eMsg : List Byte) (key : FirmwareSecOC.Key) (tickCount : BitVec 32)
      (outBufSize : Nat)
  | e2e (dataId : Nat) (payload : List Byte)
  | encodeE2e (data : Value) (keyExpr encoding : String)
  | encodeSecoc (data : Value) (keyExpr : String) (secocKey : List Byte) (encoding : String)
      (nowMs : Nat)

variable {Value : Type} (codecs : Codecs Value)

/-- The message, none for a returned 0 or an exception, and the counters after the call. -/
def Call.run (c : Counters) : Call Value → Option (List Byte) × Counters
  | .nodeE2e payload dataId outBufSize =>
    let (message, node) := FirmwareE2E.e2eEncode payload dataId c.node outBufSize
    (message, { c with node })
  | .nodeSecoc e2eMsg key tickCount outBufSize =>
    let (message, freshness) :=
      FirmwareSecOC.secocEncode e2eMsg key c.freshness tickCount outBufSize
    (message, { c with freshness })
  | .e2e dataId payload =>
    let (message, master) := e2eEncode dataId payload c.master
    (message.toOption, { c with master })
  | .encodeE2e data keyExpr encoding =>
    let (message, master) := MasterPayloads.encodeE2e codecs data keyExpr c.master encoding
    (message.toOption, { c with master })
  | .encodeSecoc data keyExpr secocKey encoding nowMs =>
    let (message, master) :=
      MasterPayloads.encodeSecoc codecs data keyExpr c.master secocKey encoding nowMs
    (message.toOption, { c with master })

/-- If the call fails, the counters are the same as before it, and the next successful call
sends what it would have sent without it. -/
def BurnsNothing (call : Call Value) (c : Counters) : Prop :=
  (call.run codecs c).1 = none → (call.run codecs c).2 = c ∧
    ∀ (next : Call Value) (message : List Byte),
      (next.run codecs (call.run codecs c).2).1 = some message →
        (next.run codecs c).1 = some message

/-- The call gets as far as the counter update and fails behind it. -/
def FailsLate (c : Counters) : Call Value → Prop
  | .nodeE2e payload _ outBufSize => 11 + payload.length ≤ outBufSize ∧ 512 < payload.length
  | .nodeSecoc e2eMsg _ _ outBufSize => e2eMsg.length + 24 ≤ outBufSize ∧ 592 < e2eMsg.length
  | .e2e dataId payload => ¬ Fits dataId payload c.master
  | .encodeE2e data keyExpr encoding => ∃ payload dataId, encode codecs data encoding = .ok payload ∧
      resolveDataId keyExpr = .ok dataId ∧ ¬ Fits dataId payload c.master
  | .encodeSecoc data keyExpr _ encoding nowMs => ∃ payload dataId,
      encode codecs data encoding = .ok payload ∧ resolveDataId keyExpr = .ok dataId ∧
        ¬ (Fits dataId payload c.master ∧ nowMs < 256 ^ 6)

/-! ## A counter that moves does not stay where it is -/

theorem succ_ne (c : FirmwareE2E.E2eCounterState) :
    (⟨c.seq + 1, c.alive + 1⟩ : FirmwareE2E.E2eCounterState) ≠ c := by
  intro h
  have hseq : c.seq + 1 = c.seq := congrArg FirmwareE2E.E2eCounterState.seq h
  bv_omega

theorem freshness_succ_ne (c : FirmwareSecOC.SecocFreshness) :
    (⟨c.counter + 1⟩ : FirmwareSecOC.SecocFreshness) ≠ c := by
  intro h
  have hcounter : c.counter + 1 = c.counter := congrArg FirmwareSecOC.SecocFreshness.counter h
  bv_omega

theorem next_ne (c : SequenceCounterState) : c.next.2 ≠ c := by
  intro h
  have hseq : (c.currentSeq + 1) % 65536 = c.currentSeq := congrArg SequenceCounterState.currentSeq h
  omega

/-! ## The exits of each encoder -/

/-- A call burns nothing exactly when it does not both fail and move a counter. -/
theorem burnsNothing_iff (call : Call Value) (c : Counters) :
    BurnsNothing codecs call c ↔
      ¬ ((call.run codecs c).1 = none ∧ (call.run codecs c).2 ≠ c) := by
  constructor
  · rintro h ⟨hfails, hmoved⟩
    exact hmoved (h hfails).1
  · intro h hfails
    have hsame : (call.run codecs c).2 = c := by
      by_contra hmoved
      exact h ⟨hfails, hmoved⟩
    exact ⟨hsame, fun next message hnext => by rwa [hsame] at hnext⟩

theorem nodeE2e_late (payload : List Byte) (dataId : BitVec 16) (outBufSize : Nat) (c : Counters) :
    ((Call.nodeE2e payload dataId outBufSize : Call Value).run codecs c).1 = none ∧
        ((Call.nodeE2e payload dataId outBufSize : Call Value).run codecs c).2 ≠ c ↔
      11 + payload.length ≤ outBufSize ∧ 512 < payload.length := by
  simp only [Call.run]
  by_cases hout : 11 + payload.length ≤ outBufSize
  · by_cases hlong : 512 < payload.length
    · rw [E2EInterop.firmware_encode_long payload dataId c.node outBufSize hout hlong]
      have hmoved : ({ c with node := ⟨c.node.seq + 1, c.node.alive + 1⟩ } : Counters) ≠ c := by
        intro h
        exact succ_ne c.node (congrArg Counters.node h)
      exact iff_of_true ⟨rfl, hmoved⟩ ⟨hout, hlong⟩
    · rw [E2EInterop.firmware_encode payload dataId c.node outBufSize (by omega) hout]
      simp [hlong]
  · rw [E2EInterop.firmware_encode_small payload dataId c.node outBufSize (by omega)]
    simp [hout]

theorem nodeSecoc_late (e2eMsg : List Byte) (key : FirmwareSecOC.Key) (tickCount : BitVec 32)
    (outBufSize : Nat) (c : Counters) :
    ((Call.nodeSecoc e2eMsg key tickCount outBufSize : Call Value).run codecs c).1 = none ∧
        ((Call.nodeSecoc e2eMsg key tickCount outBufSize : Call Value).run codecs c).2 ≠ c ↔
      e2eMsg.length + 24 ≤ outBufSize ∧ 592 < e2eMsg.length := by
  simp only [Call.run, FirmwareSecOC.secocEncode]
  by_cases hout : e2eMsg.length + 24 ≤ outBufSize
  · by_cases hlong : 592 < e2eMsg.length
    · rw [SecOCInterop.firmware_encode_long key e2eMsg c.freshness _ outBufSize hout hlong]
      have hmoved : ({ c with freshness := ⟨c.freshness.counter + 1⟩ } : Counters) ≠ c := by
        intro h
        exact freshness_succ_ne c.freshness (congrArg Counters.freshness h)
      exact iff_of_true ⟨rfl, hmoved⟩ ⟨hout, hlong⟩
    · rw [SecOCInterop.firmware_encode key e2eMsg c.freshness _ outBufSize (by omega) hout]
      simp [hlong]
  · rw [SecOCInterop.firmware_encode_small key e2eMsg c.freshness _ outBufSize (by omega)]
    simp [hout]

theorem toOption_none {ε α : Type} (r : Except ε α) : r.toOption = none ↔ ∀ a, r ≠ .ok a := by
  cases r with
  | error e => simp [Except.toOption]
  | ok a => simp [Except.toOption]

theorem toOption_mapError {ε ε' α : Type} (f : ε → ε') (r : Except ε α) :
    (r.mapError f).toOption = r.toOption := by
  cases r <;> rfl

/-- The counters of `e2e_encode` move on every path. -/
theorem moved_ne (c : Counters) : ({ c with master := c.master.next.2 } : Counters) ≠ c := by
  intro h
  exact next_ne c.master (congrArg Counters.master h)

theorem e2eEncode_none_iff (dataId : Nat) (payload : List Byte) (counter : SequenceCounterState) :
    (e2eEncode dataId payload counter).1.toOption = none ↔ ¬ Fits dataId payload counter := by
  rw [toOption_none]
  simp only [ne_eq, e2eEncode_ok_iff, not_and]
  constructor
  · intro h hfits
    exact h _ hfits rfl
  · intro h message hfits
    exact absurd hfits h

theorem e2e_late (dataId : Nat) (payload : List Byte) (c : Counters) :
    ((Call.e2e dataId payload : Call Value).run codecs c).1 = none ∧
        ((Call.e2e dataId payload : Call Value).run codecs c).2 ≠ c ↔
      ¬ Fits dataId payload c.master := by
  have hmoved : ((Call.e2e dataId payload : Call Value).run codecs c).2 ≠ c := moved_ne c
  rw [and_iff_left hmoved]
  exact e2eEncode_none_iff dataId payload c.master

/-- The payload and the data id, when both are found. -/
theorem encodeE2e_late (data : Value) (keyExpr encoding : String) (c : Counters) :
    ((Call.encodeE2e data keyExpr encoding).run codecs c).1 = none ∧
        ((Call.encodeE2e data keyExpr encoding).run codecs c).2 ≠ c ↔
      ∃ payload dataId, encode codecs data encoding = .ok payload ∧
        resolveDataId keyExpr = .ok dataId ∧ ¬ Fits dataId payload c.master := by
  cases hencode : encode codecs data encoding with
  | error error => simp [Call.run, MasterPayloads.encodeE2e, hencode]
  | ok payload =>
    cases hid : resolveDataId keyExpr with
    | error error => simp [Call.run, MasterPayloads.encodeE2e, hencode, hid]
    | ok dataId =>
      have hmoved := moved_ne c
      have hnone := e2eEncode_none_iff dataId payload c.master
      have hrun : (Call.encodeE2e data keyExpr encoding).run codecs c =
          ((e2eEncode dataId payload c.master).1.toOption, { c with master := c.master.next.2 }) := by
        simp only [Call.run, MasterPayloads.encodeE2e, hencode, hid, toOption_mapError]
        rfl
      simp [hrun, hmoved, hnone]

theorem encodeSecoc_late (data : Value) (keyExpr : String) (secocKey : List Byte)
    (encoding : String) (nowMs : Nat) (c : Counters) :
    ((Call.encodeSecoc data keyExpr secocKey encoding nowMs).run codecs c).1 = none ∧
        ((Call.encodeSecoc data keyExpr secocKey encoding nowMs).run codecs c).2 ≠ c ↔
      ∃ payload dataId, encode codecs data encoding = .ok payload ∧
        resolveDataId keyExpr = .ok dataId ∧ ¬ (Fits dataId payload c.master ∧ nowMs < 256 ^ 6) := by
  have hnone : ((Call.encodeSecoc data keyExpr secocKey encoding nowMs).run codecs c).1 = none ↔
      ∀ wire, (MasterPayloads.encodeSecoc codecs data keyExpr c.master secocKey encoding nowMs).1 ≠
        .ok wire := toOption_none _
  cases hencode : encode codecs data encoding with
  | error error => simp [Call.run, MasterPayloads.encodeSecoc, MasterPayloads.encodeE2e, hencode]
  | ok payload =>
    cases hid : resolveDataId keyExpr with
    | error error =>
      simp [Call.run, MasterPayloads.encodeSecoc, MasterPayloads.encodeE2e, hencode, hid]
    | ok dataId =>
      have hmoved : ((Call.encodeSecoc data keyExpr secocKey encoding nowMs).run codecs c).2 ≠ c := by
        have hafter : (MasterPayloads.encodeSecoc codecs data keyExpr c.master secocKey encoding
            nowMs).2 = c.master.next.2 := by
          simp only [MasterPayloads.encodeSecoc, MasterPayloads.encodeE2e, hencode, hid]
          cases (e2eEncode dataId payload c.master).1 <;> rfl
        intro h
        have hmaster := congrArg Counters.master h
        exact next_ne c.master (hafter.symm.trans hmaster)
      rw [and_iff_left hmoved, hnone]
      simp only [ne_eq, encodeSecoc_ok_iff, hencode, hid, Except.ok.injEq]
      constructor
      · intro h
        refine ⟨payload, dataId, rfl, rfl, ?_⟩
        rintro ⟨hfits, hnow⟩
        exact h _ ⟨payload, dataId, rfl, rfl, hfits, hnow, rfl⟩
      · rintro ⟨_, _, rfl, rfl, hlate⟩ wire ⟨_, _, rfl, rfl, hfits, hnow, -⟩
        exact hlate ⟨hfits, hnow⟩

/-- Over every call of any encoder and all counters, a failing call leaves them as they were unless it
fails behind the update. -/
theorem burnsNothing_iff_not_late (call : Call Value) (c : Counters) :
    BurnsNothing codecs call c ↔ ¬ FailsLate codecs c call := by
  rw [burnsNothing_iff, not_iff_not]
  cases call with
  | nodeE2e payload dataId outBufSize => exact nodeE2e_late codecs payload dataId outBufSize c
  | nodeSecoc e2eMsg key tickCount outBufSize =>
    exact nodeSecoc_late codecs e2eMsg key tickCount outBufSize c
  | e2e dataId payload => exact e2e_late codecs dataId payload c
  | encodeE2e data keyExpr encoding => exact encodeE2e_late codecs data keyExpr encoding c
  | encodeSecoc data keyExpr secocKey encoding nowMs =>
    exact encodeSecoc_late codecs data keyExpr secocKey encoding nowMs c

/-- A payload of 513 bytes with a buffer of 600: `e2e_encode` returns 0 and the sequence goes
from 7 to 8. -/
theorem long_payload_burns : ¬ BurnsNothing emptyDict
    (.nodeE2e (List.replicate 513 0) 0x1010 600) ⟨⟨7, 7⟩, ⟨0⟩, ⟨0, 0⟩⟩ := by
  intro h
  have hrun := E2EInterop.firmware_encode_long (List.replicate 513 0) 0x1010 ⟨7, 7⟩ 600
    (by rw [List.length_replicate]; decide) (by rw [List.length_replicate]; decide)
  have hsame := congrArg (fun c => c.node.seq) (h (by simp only [Call.run, hrun])).1
  simp only [Call.run, hrun] at hsame
  exact absurd hsame (by decide)

end Genoh.EncoderCounters
