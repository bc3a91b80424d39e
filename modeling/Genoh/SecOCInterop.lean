import Mathlib.Data.List.Induction
import Mathlib.Data.Rat.Floor
import Mathlib.Tactic.Linarith
import Genoh.FirmwareHash
import Genoh.MasterSecOC
import Genoh.SecOCWire

/-!
# Interoperation of the two SecOC layers

Framing and MAC are the same on both sides. The timestamps are not: the firmware
writes and expects its tick count since boot, the master the time since the epoch.
-/
namespace Genoh.SecOCInterop

open Genoh.Bytes
open Genoh.SecOCWire
open Genoh.FirmwareSecOC (Key)

/-! ## Firmware against the wire format -/

theorem putBe48_eq (v : BitVec 64) : FirmwareSecOC.putBe48 v = beBytes 6 v.toNat := by
  simp only [FirmwareSecOC.putBe48, beBytes, FirmwareE2E.setWidth_ushiftRight_eq,
    List.nil_append, List.cons_append, Nat.div_div_eq_div_mul]
  rfl

/-- Shifting in up to eight bytes reads a big-endian number. -/
theorem shiftIn_eq (bs : List Byte) (h : bs.length ≤ 8) :
    (bs.foldl (fun (ts : BitVec 64) b => (ts <<< 8) ||| b.setWidth 64) 0).toNat = ofBeBytes bs := by
  induction bs using List.reverseRecOn with
  | nil => rfl
  | append_singleton bs b ih =>
    rw [List.length_append, List.length_singleton] at h
    have hprev := ih (by omega)
    have hlt := ofBeBytes_lt bs
    have hpow : 256 ^ bs.length ≤ 256 ^ 7 := Nat.pow_le_pow_right (by decide) (by omega)
    have hb : b.toNat < 256 := b.isLt
    rw [List.foldl_append, List.foldl_cons, List.foldl_nil, ofBeBytes_concat,
      FirmwareE2E.shiftLeft_or_byte _ b (by rw [hprev]; omega), hprev]

theorem getFreshnessTs_eq (fv : List Byte) :
    (FirmwareSecOC.getFreshnessTs fv).toNat = ofBeBytes (fv.take 6) :=
  shiftIn_eq _ (by rw [List.length_take]; omega)

theorem getFreshnessCounter_eq (fv : List Byte) (h : fv.length = 8) :
    (FirmwareSecOC.getFreshnessCounter fv).toNat = field fv 6 2 := by
  have hget : FirmwareSecOC.getFreshnessCounter fv = FirmwareE2E.getBe16 (fv.drop 6) := by
    simp [FirmwareSecOC.getFreshnessCounter, FirmwareE2E.getBe16, List.getD_eq_getElem?_getD,
      List.getElem?_drop]
  rw [hget, FirmwareE2E.getBe16_eq _ (by rw [List.length_drop]; omega)]
  rfl

theorem foldl_or_eq_zero (l : List Byte) (a : Byte) :
    l.foldl (· ||| ·) a = 0 ↔ a = 0 ∧ ∀ x ∈ l, x = 0 := by
  induction l generalizing a with
  | nil => simp
  | cons b l ih =>
    rw [List.foldl_cons, ih, show (0 : Byte) = 0#8 by rfl, BitVec.or_eq_zero_iff]
    simp [and_assoc]

/-- No difference accumulates exactly when the first sixteen bytes are equal. -/
theorem macDiff_eq_zero (computed received : List Byte) (hc : 16 ≤ computed.length)
    (hr : received.length = 16) :
    FirmwareSecOC.macDiff computed received = 0 ↔ received = computed.take 16 := by
  have hzero : ∀ x y : Byte, x ^^^ y = 0 ↔ x = y := fun x y => BitVec.xor_eq_zero_iff
  rw [FirmwareSecOC.macDiff, foldl_or_eq_zero]
  simp only [List.mem_map, List.mem_range, FirmwareSecOC.secocMacSize, true_and]
  constructor
  · intro h
    apply List.ext_getElem (by rw [hr, List.length_take, Nat.min_eq_left hc])
    intro i hi _
    have hi' : i < 16 := by omega
    have hx := h _ ⟨i, hi', rfl⟩
    rw [hzero, List.getD_eq_getElem _ _ (by omega), List.getD_eq_getElem _ _ (by omega)] at hx
    rw [List.getElem_take, ← hx]
  · rintro rfl _ ⟨i, hi, rfl⟩
    rw [hzero, List.getD_eq_getElem _ _ (by omega), List.getD_eq_getElem _ _ (by
      rw [List.length_take]; omega), List.getElem_take]

theorem firmware_encode (key : Key) (data : List Byte) (c : FirmwareSecOC.SecocFreshness)
    (ts : BitVec 64) (outBufSize : Nat) (hdata : data.length ≤ 592)
    (hout : data.length + 24 ≤ outBufSize) :
    FirmwareSecOC.secocEncodeAt data key c ts outBufSize =
      (some (secured key.val data ts.toNat c.counter.toNat), ⟨c.counter + 1⟩) := by
  have htotal : ¬ outBufSize < data.length + FirmwareSecOC.secocOverhead := Nat.not_lt.mpr hout
  have hinput : ¬ data.length + FirmwareSecOC.secocFreshnessSize > FirmwareSecOC.hmacInputSize :=
    Nat.not_lt.mpr (Nat.add_le_add_right hdata 8)
  simp only [FirmwareSecOC.secocEncodeAt, if_neg htotal, if_neg hinput, putBe48_eq,
    FirmwareE2E.putBe16_eq, FirmwareHash.hmacSha256_eq, secured, mac, freshness, List.append_assoc]
  rfl

/-- No room in the caller's buffer: nothing has happened yet. -/
theorem firmware_encode_small (key : Key) (data : List Byte) (c : FirmwareSecOC.SecocFreshness)
    (ts : BitVec 64) (outBufSize : Nat) (hout : outBufSize < data.length + 24) :
    FirmwareSecOC.secocEncodeAt data key c ts outBufSize = (none, c) := by
  have htotal : outBufSize < data.length + FirmwareSecOC.secocOverhead := hout
  simp only [FirmwareSecOC.secocEncodeAt, if_pos htotal]

/-- No room in the MAC buffer: the counter has moved. -/
theorem firmware_encode_long (key : Key) (data : List Byte) (c : FirmwareSecOC.SecocFreshness)
    (ts : BitVec 64) (outBufSize : Nat) (hout : data.length + 24 ≤ outBufSize)
    (hlong : 592 < data.length) :
    FirmwareSecOC.secocEncodeAt data key c ts outBufSize = (none, ⟨c.counter + 1⟩) := by
  have htotal : ¬ outBufSize < data.length + FirmwareSecOC.secocOverhead := Nat.not_lt.mpr hout
  have hinput : data.length + FirmwareSecOC.secocFreshnessSize > FirmwareSecOC.hmacInputSize :=
    Nat.add_lt_add_right hlong 8
  simp only [FirmwareSecOC.secocEncodeAt, if_neg htotal, if_pos hinput]

/-- The window check, as it comes out for a 48-bit timestamp and a 32-bit tick. -/
def InWindow (raw : List Byte) (tick : BitVec 32) : Prop :=
  ((timestamp raw : Int) - tick.toNat).natAbs ≤ 5000

instance (raw : List Byte) (tick : BitVec 32) : Decidable (InWindow raw tick) :=
  inferInstanceAs (Decidable (_ ≤ _))

section Decode

variable (key : Key) (raw : List Byte) (tick : BitVec 32)

/-- The freshness bytes as the firmware addresses them. -/
def freshnessBytes : List Byte :=
  (raw.drop (raw.length - FirmwareSecOC.secocOverhead)).take FirmwareSecOC.secocFreshnessSize

theorem freshnessBytes_ts (h : 24 ≤ raw.length) :
    FirmwareSecOC.getFreshnessTs (freshnessBytes raw) = BitVec.ofNat 64 (timestamp raw) := by
  have hfv : freshnessBytes raw = freshness (timestamp raw) (counter raw) := freshness_bytes raw h
  have hlt := timestamp_lt raw
  apply BitVec.eq_of_toNat_eq
  rw [getFreshnessTs_eq, hfv, freshness, List.take_left' (beBytes_length _ _),
    ofBeBytes_beBytes_of_lt _ _ hlt, BitVec.toNat_ofNat, Nat.mod_eq_of_lt (by omega)]

theorem freshnessBytes_counter (h : 24 ≤ raw.length) :
    FirmwareSecOC.getFreshnessCounter (freshnessBytes raw) = BitVec.ofNat 16 (counter raw) := by
  have hfv : freshnessBytes raw = freshness (timestamp raw) (counter raw) := freshness_bytes raw h
  have hlt := counter_lt raw
  have hhead := field_head 2 (counter raw) [] hlt
  apply BitVec.eq_of_toNat_eq
  rw [getFreshnessCounter_eq _ (by rw [hfv, freshness_length]), hfv, freshness,
    field_skip 6 _ _ _ _ (by decide), BitVec.toNat_ofNat, Nat.mod_eq_of_lt (by omega)]
  rwa [List.append_nil] at hhead

theorem computedMac_iff (h : 24 ≤ raw.length) :
    FirmwareSecOC.macDiff (FirmwareSecOC.hmacSha256 key.val
      (raw.take (raw.length - FirmwareSecOC.secocOverhead) ++ freshnessBytes raw))
      (raw.drop (raw.length - FirmwareSecOC.secocOverhead + FirmwareSecOC.secocFreshnessSize)) = 0 ↔
      MacHolds key.val raw := by
  have hfv : freshnessBytes raw = freshness (timestamp raw) (counter raw) := freshness_bytes raw h
  have hmacpos : raw.length - FirmwareSecOC.secocOverhead + FirmwareSecOC.secocFreshnessSize =
      raw.length - 16 := by
    simp only [FirmwareSecOC.secocOverhead, FirmwareSecOC.secocFreshnessSize,
      FirmwareSecOC.secocMacSize]
    omega
  rw [hmacpos, macDiff_eq_zero _ _ (by rw [FirmwareHash.hmacSha256_eq, Hmac.hmacSha256_length]; decide)
    (by rw [List.length_drop]; omega), FirmwareHash.hmacSha256_eq, hfv]
  rfl

/-- Neither operand is large enough for the 64-bit subtraction to matter. -/
theorem window_iff :
    (if (BitVec.ofNat 64 (timestamp raw)).toInt - (FirmwareSecOC.getTickMs tick).toInt < 0 then
      -((BitVec.ofNat 64 (timestamp raw)).toInt - (FirmwareSecOC.getTickMs tick).toInt)
      else (BitVec.ofNat 64 (timestamp raw)).toInt - (FirmwareSecOC.getTickMs tick).toInt) ≤
      FirmwareSecOC.secocReplayWindowMs ↔ InWindow raw tick := by
  have hts := timestamp_lt raw
  have htick := tick.isLt
  have hleft : (BitVec.ofNat 64 (timestamp raw)).toInt = timestamp raw := by
    rw [BitVec.toInt_eq_toNat_of_lt (by rw [BitVec.toNat_ofNat]; omega), BitVec.toNat_ofNat,
      Nat.mod_eq_of_lt (by omega)]
  have hright : (FirmwareSecOC.getTickMs tick).toInt = tick.toNat := by
    have hnat : (FirmwareSecOC.getTickMs tick).toNat = tick.toNat := by
      rw [FirmwareSecOC.getTickMs, BitVec.toNat_setWidth, Nat.mod_eq_of_lt (by omega)]
    rw [BitVec.toInt_eq_toNat_of_lt (by omega), hnat]
  rw [hleft, hright, InWindow, FirmwareSecOC.secocReplayWindowMs]
  split <;> omega

/-- A message of legal length, decoded: the trailer is parsed either way, the rest depends
on the MAC. -/
theorem firmware_decode (hmin : 24 ≤ raw.length) (hmax : raw.length ≤ 616) :
    FirmwareSecOC.secocDecodeEx raw key tick =
      if MacHolds key.val raw then
        (true, some (raw.length - 24), ⟨true, decide (InWindow raw tick),
          BitVec.ofNat 64 (timestamp raw), BitVec.ofNat 16 (counter raw)⟩)
      else
        (false, none, ⟨false, false,
          BitVec.ofNat 64 (timestamp raw), BitVec.ofNat 16 (counter raw)⟩) := by
  have hlong : ¬ raw.length < FirmwareSecOC.secocOverhead := Nat.not_lt.mpr hmin
  have hinput : ¬ raw.length - FirmwareSecOC.secocOverhead + FirmwareSecOC.secocFreshnessSize >
      FirmwareSecOC.hmacInputSize := by
    simp only [FirmwareSecOC.secocOverhead, FirmwareSecOC.secocFreshnessSize,
      FirmwareSecOC.secocMacSize, FirmwareSecOC.hmacInputSize]
    omega
  have hts := freshnessBytes_ts raw hmin
  have hctr := freshnessBytes_counter raw hmin
  have hmac := computedMac_iff key raw hmin
  simp only [freshnessBytes] at hts hctr hmac
  simp only [FirmwareSecOC.secocDecodeEx, if_neg hlong, if_neg hinput, hts, hctr, window_iff]
  by_cases hholds : MacHolds key.val raw
  · rw [if_pos hholds, hmac.mpr hholds]
    rfl
  · rw [if_neg hholds, beq_false_of_ne (fun h => hholds (hmac.mp h))]
    rfl

end Decode

/-! ## Master against the wire format -/

theorem toBytes_eq (ts ctr : Nat) (ht : ts < 256 ^ 6) (hc : ctr < 256 ^ 2) :
    (⟨ts, ctr⟩ : MasterSecOC.FreshnessValue).toBytes = .ok (freshness ts ctr) := by
  simp only [MasterSecOC.FreshnessValue.toBytes, MasterSecOC.intToBytes, if_pos ht, if_pos hc]
  rfl

theorem computeMac_eq (key data : List Byte) (ts ctr : Nat) (ht : ts < 256 ^ 6)
    (hc : ctr < 256 ^ 2) :
    MasterSecOC.computeMac key data ⟨ts, ctr⟩ = .ok (mac key data ts ctr) := by
  simp only [MasterSecOC.computeMac, toBytes_eq ts ctr ht hc]
  rfl

theorem master_seal (key data : List Byte) (ts ctr : Nat) (ht : ts < 256 ^ 6) (hc : ctr < 256 ^ 2) :
    MasterSecOC.secocSeal key data ⟨ts, ctr⟩ = .ok (secured key data ts ctr) := by
  simp only [MasterSecOC.secocSeal, computeMac_eq key data ts ctr ht hc, toBytes_eq ts ctr ht hc,
    secured, ← List.append_assoc]
  rfl

/-- A drawn counter always fits, a timestamp only until the year 10889. -/
theorem next_fits (fc : MasterSecOC.FreshnessCounter) (nowMs : Nat) :
    ∃ ctr, ctr < 256 ^ 2 ∧ (fc.next nowMs).1 = ⟨nowMs, ctr⟩ := by
  simp only [MasterSecOC.FreshnessCounter.next]
  split
  · exact ⟨_, Nat.mod_lt _ (by decide), rfl⟩
  · exact ⟨0, by decide, rfl⟩

theorem master_encode (key data : List Byte) (fc : MasterSecOC.FreshnessCounter) (nowMs : Nat) :
    ∃ ctr, ctr < 256 ^ 2 ∧ (MasterSecOC.secocEncode key data fc nowMs).1 =
      MasterSecOC.secocSeal key data ⟨nowMs, ctr⟩ := by
  obtain ⟨ctr, hlt, hnext⟩ := next_fits fc nowMs
  exact ⟨ctr, hlt, by simp only [MasterSecOC.secocEncode, hnext]⟩

theorem master_compare (key raw : List Byte) (h : 24 ≤ raw.length) :
    MasterSecOC.compareMac key raw =
      .ok (⟨timestamp raw, counter raw⟩, decide (MacHolds key raw)) := by
  have hfv : MasterSecOC.freshnessPart raw = freshness (timestamp raw) (counter raw) :=
    freshness_bytes raw h
  have hhead := field_head 2 (counter raw) [] (counter_lt raw)
  rw [List.append_nil] at hhead
  have hparse : MasterSecOC.FreshnessValue.fromBytes (MasterSecOC.freshnessPart raw) =
      .ok ⟨timestamp raw, counter raw⟩ := by
    have hlen : ¬ (freshness (timestamp raw) (counter raw)).length < MasterSecOC.freshnessSize := by
      rw [freshness_length, MasterSecOC.freshnessSize]
      omega
    rw [hfv, MasterSecOC.FreshnessValue.fromBytes, if_neg hlen, freshness,
      field_head 6 _ _ (timestamp_lt raw), field_skip 6 _ _ _ _ (by decide), hhead]
  simp only [MasterSecOC.compareMac, hparse, bind, Except.bind,
    computeMac_eq _ _ _ _ (timestamp_lt raw) (counter_lt raw), Bool.beq_eq_decide_eq]
  rfl

/-- Without a remembered freshness value, a message with a right MAC is accepted exactly
inside the window. -/
theorem master_decode (key raw : List Byte) (windowMs nowMs : Nat) (h : 24 ≤ raw.length)
    (hmac : MacHolds key raw) :
    MasterSecOC.secocDecode key raw none windowMs nowMs =
      .ok (body raw, ⟨timestamp raw, counter raw⟩,
        decide (((timestamp raw : Int) - nowMs).natAbs ≤ windowMs)) := by
  have hlong : ¬ raw.length < MasterSecOC.secocOverhead := Nat.not_lt.mpr h
  simp only [MasterSecOC.secocDecode, if_neg hlong, master_compare key raw h, decide_eq_true hmac]
  by_cases hwin : ((timestamp raw : Int) - nowMs).natAbs ≤ windowMs
  · simp [bind, Except.bind, pure, Except.pure, hwin, Nat.not_lt.mpr hwin]
    rfl
  · simp [bind, Except.bind, pure, Except.pure, hwin, Nat.not_le.mp hwin]
    rfl

/-! ## Framing and MAC -/

/-- For one freshness value both encoders assemble the same bytes, and both decoders parse the same
trailer and reach the same verdict on its MAC. -/
theorem framing_and_mac_agree (key : Key) :
    (∀ (data : List Byte) (ts : BitVec 64) (c : FirmwareSecOC.SecocFreshness) (outBufSize : Nat)
      (fc : MasterSecOC.FreshnessCounter) (nowMs : Nat), data.length ≤ 592 →
      data.length + 24 ≤ outBufSize → ts.toNat < 2 ^ 48 →
      (fc.next nowMs).1 = ⟨ts.toNat, c.counter.toNat⟩ →
      ∃ msg, (FirmwareSecOC.secocEncodeAt data key c ts outBufSize).1 = some msg ∧
        (MasterSecOC.secocEncode key.val data fc nowMs).1 = .ok msg) ∧
    (∀ (raw : List Byte) (tick : BitVec 32), 24 ≤ raw.length → raw.length ≤ 616 →
      ∃ fv ok, MasterSecOC.compareMac key.val raw = .ok (fv, ok) ∧
        (FirmwareSecOC.secocDecodeEx raw key tick).2.2.macValid = ok ∧
        (FirmwareSecOC.secocDecodeEx raw key tick).2.2.freshnessTs.toNat = fv.timestampMs ∧
        (FirmwareSecOC.secocDecodeEx raw key tick).2.2.freshnessCounter.toNat = fv.counter ∧
        (ok = true → (FirmwareSecOC.secocDecodeEx raw key tick).2.1 =
          some (MasterSecOC.dataPart raw).length)) := by
  constructor
  · intro data ts c outBufSize fc nowMs hdata hout hts hfv
    refine ⟨secured key.val data ts.toNat c.counter.toNat, ?_, ?_⟩
    · rw [firmware_encode key data c ts outBufSize hdata hout]
    · simp only [MasterSecOC.secocEncode, hfv]
      exact master_seal _ _ _ _ hts c.counter.isLt
  · intro raw tick hmin hmax
    have hts := timestamp_lt raw
    have hctr := counter_lt raw
    have hdata : (MasterSecOC.dataPart raw).length = raw.length - 24 := by
      simp only [MasterSecOC.dataPart, List.length_take]
      exact Nat.min_eq_left (Nat.sub_le _ _)
    refine ⟨_, _, master_compare key.val raw hmin, ?_⟩
    rw [firmware_decode key raw tick hmin hmax, hdata]
    by_cases hholds : MacHolds key.val raw
    · rw [if_pos hholds, decide_eq_true hholds]
      exact ⟨rfl, Nat.mod_eq_of_lt (by omega), Nat.mod_eq_of_lt (by omega), fun _ => rfl⟩
    · rw [if_neg hholds, decide_eq_false hholds]
      exact ⟨rfl, Nat.mod_eq_of_lt (by omega), Nat.mod_eq_of_lt (by omega), fun h => absurd h Bool.false_ne_true⟩

theorem framing_and_mac_agree_test_key :
    (∃ msg, (FirmwareSecOC.secocEncodeAt [1, 2] FirmwareSecOC.secocTestKey ⟨3⟩ 7 26).1 = some msg ∧
      (MasterSecOC.secocEncode FirmwareSecOC.secocTestKey.val [1, 2] ⟨7, 2⟩ 7).1 = .ok msg) ∧
    ∃ fv ok, MasterSecOC.compareMac FirmwareSecOC.secocTestKey.val (List.replicate 30 0) =
        .ok (fv, ok) ∧
      (FirmwareSecOC.secocDecodeEx (List.replicate 30 0) FirmwareSecOC.secocTestKey 0).2.2.macValid =
        ok ∧
      (FirmwareSecOC.secocDecodeEx (List.replicate 30 0)
        FirmwareSecOC.secocTestKey 0).2.2.freshnessTs.toNat = fv.timestampMs ∧
      (FirmwareSecOC.secocDecodeEx (List.replicate 30 0)
        FirmwareSecOC.secocTestKey 0).2.2.freshnessCounter.toNat = fv.counter ∧
      (ok = true → (FirmwareSecOC.secocDecodeEx (List.replicate 30 0)
        FirmwareSecOC.secocTestKey 0).2.1 = some (MasterSecOC.dataPart (List.replicate 30 0)).length) :=
  ⟨(framing_and_mac_agree FirmwareSecOC.secocTestKey).1 [1, 2] 7 ⟨3⟩ 26 ⟨7, 2⟩ 7 (by decide)
      (by decide) (by decide) (by decide),
    (framing_and_mac_agree FirmwareSecOC.secocTestKey).2 (List.replicate 30 0) 0 (by decide)
      (by decide)⟩

/-! ## The two clocks -/

/-- `int(time.time() * 1000)` at an instant counted in seconds since the epoch. -/
def epochMs (t : ℚ) : Nat := ⌊1000 * t⌋₊

/-- The 32-bit tick counter of a node booted at `boot`. -/
def tickAt (boot t : ℚ) : BitVec 32 := BitVec.ofNat 32 ⌊1000 * (t - boot)⌋₊

/-- At the instant `send`, each side accepts what the other one makes, whatever the counters. -/
def Interoperable (key : Key) (data : List Byte) (boot send : ℚ) : Prop :=
  (∀ (c : FirmwareSecOC.SecocFreshness) (outBufSize : Nat), data.length + 24 ≤ outBufSize →
    ∃ msg fv, (FirmwareSecOC.secocEncode data key c (tickAt boot send) outBufSize).1 = some msg ∧
      MasterSecOC.secocDecode key.val msg none MasterSecOC.freshnessWindowMs (epochMs send) =
        .ok (data, fv, true)) ∧
  (∀ fc : MasterSecOC.FreshnessCounter,
    ∃ msg, (MasterSecOC.secocEncode key.val data fc (epochMs send)).1 = .ok msg ∧
      (FirmwareSecOC.secocDecodeEx msg key (tickAt boot send)).1 = true ∧
      (FirmwareSecOC.secocDecodeEx msg key (tickAt boot send)).2.2.freshnessValid = true)

/-- The node's clock never runs ahead of the epoch clock. -/
theorem tickAt_le_epochMs (boot t : ℚ) (h : 0 ≤ boot) : (tickAt boot t).toNat ≤ epochMs t := by
  have hle : ⌊1000 * (t - boot)⌋₊ ≤ ⌊1000 * t⌋₊ := Nat.floor_le_floor (by linarith)
  rw [tickAt, BitVec.toNat_ofNat, epochMs]
  exact Nat.le_trans (Nat.mod_le _ _) hle

/-- A message from the firmware is inside the master's window only if the clocks are close. -/
theorem interoperable_clocks (key : Key) (data : List Byte) (boot send : ℚ)
    (hdata : data.length ≤ 592) (h : Interoperable key data boot send) :
    epochMs send ≤ (tickAt boot send).toNat + 5000 := by
  obtain ⟨msg, fv, henc, hdec⟩ := h.1 ⟨0⟩ (data.length + 24) (Nat.le_refl _)
  have htick : (FirmwareSecOC.getTickMs (tickAt boot send)).toNat = (tickAt boot send).toNat := by
    have hlt := (tickAt boot send).isLt
    rw [FirmwareSecOC.getTickMs, BitVec.toNat_setWidth, Nat.mod_eq_of_lt (by omega)]
  have hts : (tickAt boot send).toNat < 256 ^ 6 := by
    have hlt := (tickAt boot send).isLt
    omega
  rw [FirmwareSecOC.secocEncode, firmware_encode key data _ _ _ hdata (Nat.le_refl _), htick] at henc
  obtain rfl : secured key.val data (tickAt boot send).toNat _ = msg := by simpa using henc
  rw [master_decode _ _ _ _ (by simp) (secured_macHolds _ _ _ _ hts (by decide)),
    secured_timestamp _ _ _ _ hts] at hdec
  have hwin : ((tickAt boot send).toNat - (epochMs send : Int)).natAbs ≤
      MasterSecOC.freshnessWindowMs := by simpa using (Prod.ext_iff.mp (Prod.ext_iff.mp
        (Except.ok.inj hdec)).2).2
  rw [MasterSecOC.freshnessWindowMs] at hwin
  omega

/-- The two sides accept each other's messages exactly while the epoch clock is at most five seconds
ahead of the tick count. -/
theorem interoperable_iff_clocks_close (key : Key) (data : List Byte) (boot send : ℚ)
    (hdata : data.length ≤ 592) (hboot : 0 ≤ boot) :
    Interoperable key data boot send ↔ epochMs send ≤ (tickAt boot send).toNat + 5000 := by
  constructor
  · exact interoperable_clocks key data boot send hdata
  intro hclose
  have hle := tickAt_le_epochMs boot send hboot
  have htlt := (tickAt boot send).isLt
  have htick : (FirmwareSecOC.getTickMs (tickAt boot send)).toNat = (tickAt boot send).toNat := by
    rw [FirmwareSecOC.getTickMs, BitVec.toNat_setWidth, Nat.mod_eq_of_lt (by omega)]
  constructor
  · intro c outBufSize hout
    have hmac := secured_macHolds key.val data (tickAt boot send).toNat c.counter.toNat (by omega)
      c.counter.isLt
    have hwin : (((tickAt boot send).toNat : Int) - epochMs send).natAbs ≤
        MasterSecOC.freshnessWindowMs := by
      rw [MasterSecOC.freshnessWindowMs]
      omega
    have hdec := master_decode key.val _ MasterSecOC.freshnessWindowMs (epochMs send) (by simp) hmac
    rw [secured_body, secured_timestamp _ _ _ _ (by omega), decide_eq_true hwin] at hdec
    refine ⟨_, _, ?_, hdec⟩
    rw [FirmwareSecOC.secocEncode, firmware_encode key data c _ outBufSize hdata hout, htick]
  · intro fc
    obtain ⟨ctr, hctr, henc⟩ := master_encode key.val data fc (epochMs send)
    have hmac := secured_macHolds key.val data (epochMs send) ctr (by omega) hctr
    refine ⟨secured key.val data (epochMs send) ctr, ?_, ?_⟩
    · rw [henc, master_seal _ _ _ _ (by omega) hctr]
    · rw [firmware_decode key _ _ (by simp) (by simp; omega), if_pos hmac]
      refine ⟨rfl, decide_eq_true ?_⟩
      rw [InWindow, secured_timestamp _ _ _ _ (by omega)]
      omega

theorem interoperable_iff_clocks_close_at_epoch :
    Interoperable FirmwareSecOC.secocTestKey [] 0 1 ↔ epochMs 1 ≤ (tickAt 0 1).toNat + 5000 :=
  interoperable_iff_clocks_close _ _ 0 1 (by decide) (by decide)

/-- A node that boots six seconds or more after the epoch is out of the window for good. -/
theorem late_boot (boot send : ℚ) (h : 6 ≤ boot) (hsend : boot ≤ send) :
    (tickAt boot send).toNat + 5000 < epochMs send := by
  have hfloor : (⌊1000 * (send - boot)⌋₊ : ℚ) ≤ 1000 * (send - boot) :=
    Nat.floor_le (by linarith)
  have hepoch : 1000 * send < (epochMs send : ℚ) + 1 := Nat.lt_floor_add_one _
  have htick : (tickAt boot send).toNat ≤ ⌊1000 * (send - boot)⌋₊ := by
    rw [tickAt, BitVec.toNat_ofNat]
    exact Nat.mod_le _ _
  have hcast : (⌊1000 * (send - boot)⌋₊ : ℚ) + 5000 < epochMs send := by linarith
  have hnat : ⌊1000 * (send - boot)⌋₊ + 5000 < epochMs send := by exact_mod_cast hcast
  omega

/-- A node booted in November 2023, ten seconds up. -/
theorem not_interoperable_today :
    ¬ Interoperable FirmwareSecOC.secocTestKey [] 1700000000 1700000010 := by
  intro h
  have hclose := interoperable_clocks _ _ _ _ (by decide) h
  have hlate := late_boot 1700000000 1700000010 (by norm_num) (by norm_num)
  omega

end Genoh.SecOCInterop
