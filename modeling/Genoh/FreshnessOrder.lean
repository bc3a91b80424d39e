import Genoh.MasterReplay

/-!
# The order of freshness values on the wire

`FreshnessValue.__le__` and `__gt__` of the master against the eight bytes that carry a value. The
timestamp comes first and every field is big-endian, so that the bytes of two values are in
lexicographic order just when the values are in order.
-/
namespace Genoh.FreshnessOrder

open Genoh.Bytes Genoh.SecOCWire Genoh.MasterE2E Genoh.MasterSecOC
open Genoh.MasterReplay (le_iff)

/-- `FreshnessValue.__gt__`. -/
def gt (a b : FreshnessValue) : Bool := !a.le b

/-- A timestamp of 48 bits and a counter of 16. -/
structure Packs (fv : FreshnessValue) : Prop where
  timestampMs : fv.timestampMs < 2 ^ 48
  counter : fv.counter < 2 ^ 16

/-! ## Round trips -/

theorem toBytes_ok {fv : FreshnessValue} (h : Packs fv) :
    fv.toBytes = .ok (freshness fv.timestampMs fv.counter) := by
  have hts : fv.timestampMs < 256 ^ 6 := h.timestampMs
  have hctr : fv.counter < 256 ^ 2 := h.counter
  exact SecOCInterop.toBytes_eq fv.timestampMs fv.counter hts hctr

theorem fromBytes_ok (raw : List Byte) (h : raw.length = freshnessSize) :
    FreshnessValue.fromBytes raw = .ok ⟨field raw 0 6, field raw 6 2⟩ := by
  rw [FreshnessValue.fromBytes, if_neg (by omega)]

/-- What is read from eight bytes fits eight bytes. -/
theorem fromBytes_packs (raw : List Byte) : Packs ⟨field raw 0 6, field raw 6 2⟩ :=
  ⟨field_lt raw 0 6, field_lt raw 6 2⟩

theorem freshness_field_ts (ts ctr : Nat) (h : ts < 256 ^ 6) : field (freshness ts ctr) 0 6 = ts :=
  field_head 6 ts _ h

theorem freshness_field_ctr (ts ctr : Nat) (h : ctr < 256 ^ 2) :
    field (freshness ts ctr) 6 2 = ctr := by
  have hhead := field_head 2 ctr [] h
  rw [List.append_nil] at hhead
  rw [freshness, field_skip 6 _ _ _ _ (by decide)]
  exact hhead

theorem fromBytes_toBytes {fv : FreshnessValue} (h : Packs fv) :
    (fv.toBytes >>= FreshnessValue.fromBytes) = .ok fv := by
  have hread := fromBytes_ok (freshness fv.timestampMs fv.counter) (freshness_length _ _)
  rw [freshness_field_ts _ _ h.timestampMs, freshness_field_ctr _ _ h.counter] at hread
  rw [toBytes_ok h]
  exact hread

theorem toBytes_fromBytes (raw : List Byte) (h : raw.length = freshnessSize) :
    (FreshnessValue.fromBytes raw >>= FreshnessValue.toBytes) = .ok raw := by
  have hlen : raw.length = 8 := h
  have hparts : freshness (field raw 0 6) (field raw 6 2) = raw := by
    rw [freshness, beBytes_field _ _ _ (by omega), beBytes_field _ _ _ (by omega), List.drop_zero,
      List.take_of_length_le (i := 2) (by rw [List.length_drop]; omega), List.take_append_drop]
  have hwrite := toBytes_ok (fromBytes_packs raw)
  rw [hparts] at hwrite
  rw [fromBytes_ok raw h]
  exact hwrite

/-! ## Order -/

/-- The eight bytes spell one number, with the timestamp above the counter. -/
theorem freshness_spells {ts ctr : Nat} (hts : ts < 256 ^ 6) (hctr : ctr < 256 ^ 2) :
    ofBeBytes (freshness ts ctr) = ts * 65536 + ctr := by
  rw [freshness, ofBeBytes_append, ofBeBytes_beBytes_of_lt 6 ts hts,
    ofBeBytes_beBytes_of_lt 2 ctr hctr, beBytes_length]
  rfl

theorem le_iff_packed {a b : FreshnessValue} (ha : a.counter < 65536) (hb : b.counter < 65536) :
    a.le b = true ↔ a.timestampMs * 65536 + a.counter ≤ b.timestampMs * 65536 + b.counter := by
  rw [FreshnessValue.le]
  split_ifs with hlt heq
  · simp only [true_iff]
    omega
  · rw [decide_eq_true_iff]
    omega
  · simp only [false_iff]
    omega

theorem le_iff_bytes {a b : FreshnessValue} (ha : Packs a) (hb : Packs b) :
    a.le b = true ↔ freshness a.timestampMs a.counter ≤ freshness b.timestampMs b.counter := by
  have hlen : (freshness a.timestampMs a.counter).length =
      (freshness b.timestampMs b.counter).length := by rw [freshness_length, freshness_length]
  rw [le_iff_packed ha.counter hb.counter, le_iff_ofBeBytes_le hlen,
    freshness_spells ha.timestampMs ha.counter, freshness_spells hb.timestampMs hb.counter]

theorem gt_iff (a b : FreshnessValue) : gt a b = true ↔ b.le a = true ∧ a ≠ b := by
  rw [gt, Bool.not_eq_true', Bool.eq_false_iff, Ne, le_iff, not_le, le_iff, lt_iff_le_and_ne, ne_comm]

/-- A comparison that is a total order, and another that is its strict converse. -/
structure TotalOrder {α : Type} (le gt : α → α → Bool) : Prop where
  refl : ∀ a, le a a = true
  antisymm : ∀ a b, le a b = true → le b a = true → a = b
  trans : ∀ a b c, le a b = true → le b c = true → le a c = true
  total : ∀ a b, le a b = true ∨ le b a = true
  converse : ∀ a b, gt a b = true ↔ le b a = true ∧ a ≠ b

theorem totalOrder : TotalOrder FreshnessValue.le gt where
  refl a := (le_iff a a).mpr le_rfl
  antisymm a b hab hba := le_antisymm ((le_iff a b).mp hab) ((le_iff b a).mp hba)
  trans a b c hab hbc := (le_iff a c).mpr (((le_iff a b).mp hab).trans ((le_iff b c).mp hbc))
  total a b := (le_total a b).imp (le_iff a b).mpr (le_iff b a).mpr
  converse := gt_iff

/-- Values and bytes make both round trips, and the order of the values is total and the lexicographic
one of the bytes. -/
theorem order_matches_wire (a b : FreshnessValue) (ha : Packs a) (hb : Packs b) (raw : List Byte)
    (hraw : raw.length = 8) :
    (a.toBytes >>= FreshnessValue.fromBytes) = .ok a ∧
      (FreshnessValue.fromBytes raw >>= FreshnessValue.toBytes) = .ok raw ∧
      TotalOrder FreshnessValue.le gt ∧
      ∃ wa wb, a.toBytes = .ok wa ∧ b.toBytes = .ok wb ∧ (a.le b = true ↔ wa ≤ wb) :=
  ⟨fromBytes_toBytes ha, toBytes_fromBytes raw hraw, totalOrder, _, _, toBytes_ok ha, toBytes_ok hb,
    le_iff_bytes ha hb⟩

/-- The last value of one timestamp, the first of the next, and eight bytes of ones. -/
theorem order_matches_wire_boundary :
    Packs ⟨0xFF, 0xFFFF⟩ ∧ Packs ⟨0x100, 0⟩ ∧ (List.replicate 8 (255 : Byte)).length = 8 ∧
      ((⟨0xFF, 0xFFFF⟩ : FreshnessValue).toBytes >>= FreshnessValue.fromBytes) =
        .ok ⟨0xFF, 0xFFFF⟩ ∧
      (⟨0xFF, 0xFFFF⟩ : FreshnessValue).le ⟨0x100, 0⟩ = true ∧
      ∃ wa wb, (⟨0xFF, 0xFFFF⟩ : FreshnessValue).toBytes = .ok wa ∧
        (⟨0x100, 0⟩ : FreshnessValue).toBytes = .ok wb ∧ wa ≤ wb := by
  have hlow : Packs ⟨0xFF, 0xFFFF⟩ := ⟨by decide, by decide⟩
  have hhigh : Packs ⟨0x100, 0⟩ := ⟨by decide, by decide⟩
  have hle : (⟨0xFF, 0xFFFF⟩ : FreshnessValue).le ⟨0x100, 0⟩ = true := by decide
  obtain ⟨hround, -, -, wa, wb, hwa, hwb, hiff⟩ :=
    order_matches_wire ⟨0xFF, 0xFFFF⟩ ⟨0x100, 0⟩ hlow hhigh (List.replicate 8 255) rfl
  exact ⟨hlow, hhigh, rfl, hround, hle, wa, wb, hwa, hwb, hiff.mp hle⟩

end Genoh.FreshnessOrder
