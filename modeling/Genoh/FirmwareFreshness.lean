import Genoh.FirmwareClock
import Genoh.MasterReplay
import Mathlib.Data.List.Chain

/-!
# Freshness values of the node

`secoc_encode` stamps with the 32-bit tick count and a counter that never starts again, and
`secoc_decode_ex` compares the tick count with a 48-bit timestamp. What the values do when the tick
count comes round, at a receiver that remembers the last one and at the node itself.
-/
namespace Genoh.FirmwareFreshness

open Genoh.Bytes Genoh.Run Genoh.ReplayGuard Genoh.SecOCWire Genoh.FirmwareClock
open Genoh.FirmwareSecOC
open Genoh.MasterSecOC (FreshnessValue)

/-! ## Calls of the encoder -/

structure Call where
  e2eMsg : List Byte
  key : Key
  outBufSize : Nat
  time : Nat

/-- The node with the messages it has emitted, oldest first. -/
structure Node where
  freshness : SecocFreshness
  emitted : List (List Byte)

def step (node : Node) (call : Call) : Node :=
  let result := secocEncode call.e2eMsg call.key node.freshness (tickAt call.time) call.outBufSize
  ⟨result.2, node.emitted ++ result.1.toList⟩

/-- At boot the counter is zero. -/
def boot : Node := ⟨⟨0⟩, []⟩

/-- The freshness value that the master parses from a message. -/
def freshnessOf (message : List Byte) : FreshnessValue := ⟨timestamp message, counter message⟩

/-! ## Values in order -/

/-- The first check of the master's `secoc_decode`. -/
def rejects (last : Option FreshnessValue) (fv : FreshnessValue) : Bool :=
  last.any fun last => fv.le last

/-- A receiver that keeps the last value it has not rejected. -/
def track (last : Option FreshnessValue) (fv : FreshnessValue) : Option FreshnessValue :=
  if rejects last fv then last else some fv

/-- Every value is above all values before it, and the receiver rejects none. -/
def Increasing (values : List FreshnessValue) : Prop :=
  values.Pairwise (fun a b => a.le b = true ∧ b.le a = false) ∧
    Always track none (fun last fv => rejects last fv = false) values

theorem rejects_iff (last : Option FreshnessValue) (fv : FreshnessValue) :
    rejects last fv = true ↔ ¬ Passes last fv := by
  cases last with
  | none => simp [rejects]
  | some last => rw [rejects, Option.any_some, MasterReplay.le_iff, passes_some, not_lt]

theorem track_eq_remember : track = remember := by
  funext last fv
  rw [track, remember]
  by_cases h : Passes last fv
  · rw [if_pos h, if_neg (fun hrejects => (rejects_iff last fv).mp hrejects h)]
  · rw [if_neg h, if_pos ((rejects_iff last fv).mpr h)]

/-- The receiver adds nothing to the order of the values. -/
theorem increasing_iff (values : List FreshnessValue) :
    Increasing values ↔ values.Pairwise (· < ·) := by
  have hpasses : (fun last fv => rejects last fv = false) = Passes := by
    funext last fv
    rw [← Bool.not_eq_true, rejects_iff, not_not]
  have hlt : ∀ a b : FreshnessValue, a.le b = true ∧ b.le a = false ↔ a < b := by
    intro a b
    rw [← Bool.not_eq_true, MasterReplay.le_iff, MasterReplay.le_iff, lt_iff_le_not_ge]
  rw [Increasing, track_eq_remember, hpasses, always_passes_iff]
  simp only [hlt, passes_none, implies_true, true_and, and_self]

/-! ## Stamps -/

/-- The call draws a value: its message fits the caller's buffer with the trailer. -/
def Call.draws (call : Call) : Bool := call.e2eMsg.length + 24 ≤ call.outBufSize

/-- The call emits a message: it draws, and the message fits the MAC buffer. -/
def Call.emits (call : Call) : Bool := call.draws ∧ call.e2eMsg.length ≤ 592

/-- When a message was emitted, and how many values had been drawn before. -/
structure Stamp where
  time : Nat
  drawn : Nat
  deriving DecidableEq, Repr

/-- The stamps of the emitted messages, after so many draws. -/
def stampsFrom (drawn : Nat) : List Call → List Stamp
  | [] => []
  | call :: calls =>
    let later := stampsFrom (if call.draws then drawn + 1 else drawn) calls
    if call.emits then ⟨call.time, drawn⟩ :: later else later

def stamps (calls : List Call) : List Stamp := stampsFrom 0 calls

/-- Tick count and counter. -/
def Stamp.value (s : Stamp) : FreshnessValue := ⟨s.time % 4294967296, s.drawn % 65536⟩

theorem getTickMs_tickAt (time : Nat) : (getTickMs (tickAt time)).toNat = time % 4294967296 := by
  rw [getTickMs, tickAt, BitVec.toNat_setWidth, BitVec.toNat_ofNat,
    Nat.mod_eq_of_lt (by omega)]

/-- One call: what it emits carries its stamp, and the counter counts the draws. -/
theorem step_stamp (drawn : Nat) (emitted : List (List Byte)) (call : Call) :
    (step ⟨⟨BitVec.ofNat 16 drawn⟩, emitted⟩ call).freshness =
        ⟨BitVec.ofNat 16 (if call.draws then drawn + 1 else drawn)⟩ ∧
      (step ⟨⟨BitVec.ofNat 16 drawn⟩, emitted⟩ call).emitted.map freshnessOf =
        emitted.map freshnessOf ++
          if call.emits then [(⟨call.time, drawn⟩ : Stamp).value] else [] := by
  have hnext : (⟨BitVec.ofNat 16 drawn + 1⟩ : SecocFreshness) = ⟨BitVec.ofNat 16 (drawn + 1)⟩ := by
    rw [BitVec.ofNat_add]
    rfl
  rw [step, secocEncode]
  by_cases hroom : call.e2eMsg.length + 24 ≤ call.outBufSize
  · have hdraws : call.draws = true := decide_eq_true hroom
    by_cases hshort : call.e2eMsg.length ≤ 592
    · have hemits : call.emits = true := decide_eq_true ⟨hdraws, hshort⟩
      have hts : call.time % 4294967296 < 256 ^ 6 := by omega
      have hctr : (BitVec.ofNat 16 drawn).toNat < 256 ^ 2 := (BitVec.ofNat 16 drawn).isLt
      rw [SecOCInterop.firmware_encode _ _ _ _ _ hshort hroom, if_pos hdraws, if_pos hemits,
        getTickMs_tickAt, hnext]
      dsimp only
      rw [Option.toList_some, List.map_append, List.map_singleton, freshnessOf,
        secured_timestamp _ _ _ _ hts, secured_counter _ _ _ _ hctr, BitVec.toNat_ofNat]
      exact ⟨rfl, rfl⟩
    · have hemits : ¬ call.emits = true := fun h => hshort (of_decide_eq_true h).2
      rw [SecOCInterop.firmware_encode_long _ _ _ _ _ hroom (by omega), if_pos hdraws,
        if_neg hemits, hnext]
      simp
  · have hdraws : ¬ call.draws = true := fun h => hroom (of_decide_eq_true h)
    have hemits : ¬ call.emits = true := fun h => hdraws (of_decide_eq_true h).1
    rw [SecOCInterop.firmware_encode_small _ _ _ _ _ (by omega), if_neg hdraws, if_neg hemits]
    simp

/-- What a run emits are its stamps. -/
theorem run_stamps (drawn : Nat) (emitted : List (List Byte)) (calls : List Call) :
    (run step ⟨⟨BitVec.ofNat 16 drawn⟩, emitted⟩ calls).emitted.map freshnessOf =
      emitted.map freshnessOf ++ (stampsFrom drawn calls).map Stamp.value := by
  induction calls generalizing drawn emitted with
  | nil => exact (List.append_nil _).symm
  | cons call calls ih =>
    obtain ⟨hfreshness, hemitted⟩ := step_stamp drawn emitted call
    have hnode : step ⟨⟨BitVec.ofNat 16 drawn⟩, emitted⟩ call =
        ⟨⟨BitVec.ofNat 16 (if call.draws then drawn + 1 else drawn)⟩,
          (step ⟨⟨BitVec.ofNat 16 drawn⟩, emitted⟩ call).emitted⟩ := by rw [← hfreshness]
    rw [run_cons, hnode, ih, hemitted, List.append_assoc, stampsFrom]
    by_cases hemits : call.emits = true
    · rw [if_pos hemits, if_pos hemits, List.map_cons, List.singleton_append]
    · rw [if_neg hemits, if_neg hemits, List.nil_append]

/-- The stamps are in the order of the calls. -/
theorem stampsFrom_times (drawn : Nat) (calls : List Call) :
    ((stampsFrom drawn calls).map Stamp.time).Sublist (calls.map Call.time) := by
  induction calls generalizing drawn with
  | nil => exact List.Sublist.refl _
  | cons call calls ih =>
    rw [stampsFrom, List.map_cons]
    by_cases hemits : call.emits = true
    · rw [if_pos hemits, List.map_cons]
      exact (ih _).cons_cons call.time
    · rw [if_neg hemits]
      exact (ih _).cons call.time

/-! ## When the tick count comes round -/

/-- Between two emissions the tick count does not come round, or it has passed the earlier tick
again, or stands on it with the counter not come round. -/
def Follows (a b : Stamp) : Prop :=
  a.time / 4294967296 = b.time / 4294967296 ∨ a.time % 4294967296 < b.time % 4294967296 ∨
    a.time % 4294967296 = b.time % 4294967296 ∧ a.drawn % 65536 < b.drawn % 65536

instance (a b : Stamp) : Decidable (Follows a b) :=
  inferInstanceAs (Decidable (_ ∨ _ ∨ _ ∧ _))

theorem value_lt_iff {a b : Stamp} (h : a.time < b.time) : a.value < b.value ↔ Follows a b := by
  have hvalue : a.value < b.value ↔ a.time % 4294967296 < b.time % 4294967296 ∨
      a.time % 4294967296 = b.time % 4294967296 ∧ a.drawn % 65536 < b.drawn % 65536 :=
    MasterReplay.lt_iff _ _
  rw [hvalue, Follows]
  constructor
  · exact fun hlt => .inr hlt
  · rintro (hround | hlt)
    · omega
    · exact hlt

/-- Along a chain, relations that agree on its links hold together. -/
theorem isChain_congr {α : Type} {R S T : α → α → Prop} (agree : ∀ a b, T a b → (R a b ↔ S a b))
    {l : List α} (h : l.IsChain T) : l.IsChain R ↔ l.IsChain S := by
  induction l with
  | nil => simp
  | cons a l ih =>
    cases l with
    | nil => simp
    | cons b l =>
      rw [List.isChain_cons_cons] at h
      rw [List.isChain_cons_cons, List.isChain_cons_cons, agree a b h.1, ih h.2]

/-- The values increase when each emission is above the one before it. -/
theorem increasing_stamps_iff (calls : List Call) :
    Increasing ((run step boot calls).emitted.map freshnessOf) ↔
      (stamps calls).IsChain fun a b => a.value < b.value := by
  have hstamps : (run step boot calls).emitted.map freshnessOf =
      (stamps calls).map Stamp.value := run_stamps 0 [] calls
  rw [hstamps, increasing_iff, ← List.isChain_iff_pairwise, List.isChain_map]

theorem stamps_times {calls : List Call} (h : (calls.map Call.time).Pairwise (· < ·)) :
    (stamps calls).IsChain fun a b => a.time < b.time := by
  have hpairwise := List.Pairwise.sublist (stampsFrom_times 0 calls) h
  exact (List.pairwise_map.mp hpairwise).isChain

/-- Freshness values increase along a run just when no emission comes behind a wrap of the tick count
while the tick count has not passed the emission before it again. -/
theorem freshness_increases_iff (calls : List Call)
    (h : (calls.map Call.time).Pairwise (· < ·)) :
    Increasing ((run step boot calls).emitted.map freshnessOf) ↔ (stamps calls).IsChain Follows := by
  rw [increasing_stamps_iff]
  exact isChain_congr (fun a b hab => value_lt_iff hab) (stamps_times h)

/-- An empty message at this time. -/
def emptyAt (time : Nat) : Call := ⟨[], secocTestKey, 24, time⟩

theorem freshness_increases_first_and_last :
    Increasing ((run step boot [emptyAt 0, emptyAt 4294967295]).emitted.map freshnessOf) :=
  (freshness_increases_iff [emptyAt 0, emptyAt 4294967295] (by decide)).mpr (by decide)

/-- The last millisecond before the wrap of the tick count and the first one behind it. -/
theorem freshness_falls_at_wrap :
    ¬ ∀ calls : List Call, (calls.map Call.time).Pairwise (· < ·) →
      Increasing ((run step boot calls).emitted.map freshnessOf) := by
  intro hall
  have hchain := (increasing_stamps_iff _).mp
    (hall [emptyAt 4294967295, emptyAt 4294967296] (by decide))
  have hstamps : stamps [emptyAt 4294967295, emptyAt 4294967296] =
      [⟨4294967295, 0⟩, ⟨4294967296, 1⟩] := rfl
  rw [hstamps, List.isChain_pair, value_lt_iff (by decide)] at hchain
  revert hchain
  decide

/-! ## The window of the node -/

/-- What `secoc_decode_ex` says of the freshness of a message. -/
def freshnessValid (key : Key) (raw : List Byte) (tick : BitVec 32) : Bool :=
  (secocDecodeEx raw key tick).2.2.freshnessValid

/-- The reading of the tick count so many milliseconds before. -/
def readingBefore (tick : BitVec 32) (d : Nat) : Nat := (tick - BitVec.ofNat 32 d).toNat

/-- A timestamp read up to 5000 milliseconds before is valid, and one that is further from the tick
count than that in either direction, the tick count taken round its 2^32 values, is not. -/
def WindowExact (key : Key) (raw : List Byte) (tick : BitVec 32) : Prop :=
  (∀ d ≤ 5000, timestamp raw = readingBefore tick d → freshnessValid key raw tick = true) ∧
    ((∀ d : Int, d.natAbs ≤ 5000 → ¬ (4294967296 : Int) ∣ timestamp raw - (tick.toNat + d)) →
      freshnessValid key raw tick = false)

theorem readingBefore_eq (tick : BitVec 32) {d : Nat} (h : d ≤ 5000) :
    readingBefore tick d =
      if d ≤ tick.toNat then tick.toNat - d else 4294967296 + tick.toNat - d := by
  have htick := tick.isLt
  rw [readingBefore, BitVec.toNat_sub, BitVec.toNat_ofNat]
  split <;> omega

/-- The MAC buffer does not take the message. -/
theorem freshnessValid_long (key : Key) {raw : List Byte} (tick : BitVec 32)
    (h : 616 < raw.length) : freshnessValid key raw tick = false := by
  have hmin : ¬ raw.length < secocOverhead := by
    rw [show secocOverhead = 24 from rfl]
    omega
  have hinput : raw.length - secocOverhead + secocFreshnessSize > hmacInputSize := by
    rw [show secocOverhead = 24 from rfl, show secocFreshnessSize = 8 from rfl,
      show hmacInputSize = 600 from rfl]
    omega
  rw [freshnessValid, secocDecodeEx, if_neg hmin]
  dsimp only
  rw [if_pos hinput]

theorem freshnessValid_iff (key : Key) {raw : List Byte} (tick : BitVec 32)
    (hmin : 24 ≤ raw.length) (hmac : MacHolds key.val raw) :
    freshnessValid key raw tick = true ↔
      raw.length ≤ 616 ∧ ((timestamp raw : Int) - tick.toNat).natAbs ≤ 5000 := by
  by_cases hmax : raw.length ≤ 616
  · rw [freshnessValid, SecOCInterop.firmware_decode key raw tick hmin hmax, if_pos hmac]
    rw [decide_eq_true_iff, SecOCInterop.InWindow]
    exact (and_iff_right hmax).symm
  · rw [freshnessValid_long key tick (by omega)]
    exact iff_of_false Bool.false_ne_true fun h => hmax h.1

/-- The window is exact just when the tick count has not come round since the timestamp was read, and
the message is one that the decoder has room for. -/
theorem window_exact_iff (key : Key) (raw : List Byte) (tick : BitVec 32)
    (hmin : 24 ≤ raw.length) (hmac : MacHolds key.val raw) :
    WindowExact key raw tick ↔
      ∀ d ≤ 5000, timestamp raw = readingBefore tick d → d ≤ tick.toNat ∧ raw.length ≤ 616 := by
  have hvalid := freshnessValid_iff key tick hmin hmac
  have htick := tick.isLt
  constructor
  · rintro ⟨hrecent, -⟩ d hd hts
    obtain ⟨hmax, hwindow⟩ := hvalid.mp (hrecent d hd hts)
    rw [readingBefore_eq tick hd] at hts
    split at hts
    · rename_i hle
      exact ⟨hle, hmax⟩
    · omega
  · intro hno
    constructor
    · intro d hd hts
      obtain ⟨hle, hmax⟩ := hno d hd hts
      rw [readingBefore_eq tick hd, if_pos hle] at hts
      exact hvalid.mpr ⟨hmax, by omega⟩
    · intro hfar
      rw [← Bool.not_eq_true, hvalid]
      rintro ⟨-, hwindow⟩
      refine hfar (timestamp raw - tick.toNat) hwindow ?_
      rw [show (timestamp raw : Int) - (tick.toNat + (timestamp raw - tick.toNat)) = 0 by omega]
      exact Int.dvd_zero _

/-- The empty message with this timestamp under the test key. -/
def emptyStamped (ts : Nat) : List Byte := secured secocTestKey.val [] ts 0

theorem emptyStamped_authentic {ts : Nat} (h : ts < 256 ^ 6) :
    24 ≤ (emptyStamped ts).length ∧ MacHolds secocTestKey.val (emptyStamped ts) ∧
      timestamp (emptyStamped ts) = ts := by
  constructor
  · rw [emptyStamped, secured_length]
    exact Nat.le_refl 24
  · exact ⟨secured_macHolds _ _ _ _ h (by decide), secured_timestamp _ _ _ _ h⟩

theorem window_exact_at_boot : WindowExact secocTestKey (emptyStamped 0) 0 := by
  obtain ⟨hmin, hmac, hts⟩ := emptyStamped_authentic (show 0 < 256 ^ 6 by decide)
  refine (window_exact_iff secocTestKey (emptyStamped 0) 0 hmin hmac).mpr ?_
  intro d hd hread
  rw [hts, readingBefore_eq 0 hd] at hread
  rw [emptyStamped, secured_length]
  have hzero : (0 : BitVec 32).toNat = 0 := rfl
  split at hread <;> simp only [List.length_nil] <;> omega

/-- A message read one millisecond before the tick count wrapped. -/
theorem window_misses_wrap :
    ¬ ∀ (key : Key) (raw : List Byte) (tick : BitVec 32), 24 ≤ raw.length →
      MacHolds key.val raw → WindowExact key raw tick := by
  intro hall
  obtain ⟨hmin, hmac, hts⟩ := emptyStamped_authentic (show 4294967295 < 256 ^ 6 by decide)
  have hvalid := (hall secocTestKey (emptyStamped 4294967295) 0 hmin hmac).1 1 (by decide) (by
    rw [hts]
    rfl)
  have hwindow := ((freshnessValid_iff secocTestKey 0 hmin hmac).mp hvalid).2
  rw [hts] at hwindow
  revert hwindow
  decide

end Genoh.FirmwareFreshness
