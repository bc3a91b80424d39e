import Mathlib.Data.List.Chain
import Mathlib.Data.List.Induction
import Mathlib.Data.Rat.Defs

/-!
# The analog-digital converter of the thumbstick

`drv_mcp3204.c`: the serial bus that the driver plays on four pins, and the chip at its other end.
The bus is the list of the levels that the pins went through, oldest first. The chip is what the
level of MISO depends on.
-/
namespace Genoh.Mcp3204

/-- The levels of the three pins that the driver drives. -/
structure Pins where
  cs : Bool
  sck : Bool
  mosi : Bool
  deriving DecidableEq, Repr

abbrev Bus := List Pins

/-- The level of MISO behind all that the pins went through. -/
abbrev Device := Bus → Bool

/-! ## Driver -/

/-- The levels that `MCP3204_Initialize` leaves. -/
def idlePins : Pins := ⟨true, false, false⟩

def pins (b : Bus) : Pins := b.getLastD idlePins

def drive (b : Bus) (p : Pins) : Bus := b ++ [p]

def csLow (b : Bus) : Bus := drive b { pins b with cs := false }
def csHigh (b : Bus) : Bus := drive b { pins b with cs := true }
def sckLow (b : Bus) : Bus := drive b { pins b with sck := false }
def sckHigh (b : Bus) : Bus := drive b { pins b with sck := true }
def mosiLow (b : Bus) : Bus := drive b { pins b with mosi := false }
def mosiHigh (b : Bus) : Bus := drive b { pins b with mosi := true }

def misoRead (device : Device) (b : Bus) : Bool := device b

/-- `spi_xfer_bit` -/
def spiXferBit (device : Device) (b : Bus) (mosiVal : Bool) : Bus × Bool :=
  let b := if mosiVal then mosiHigh b else mosiLow b
  let b := sckHigh b
  let misoVal := misoRead device b
  (sckLow b, misoVal)

/-- The inner loop of `MCP3204_ReadChannel` with so many bits still to come. -/
def xferBits (device : Device) (tx : BitVec 8) : Nat → Bus → BitVec 8 → Bus × BitVec 8
  | 0, b, rx => (b, rx)
  | bit + 1, b, rx =>
    let mosiVal := tx >>> bit &&& 1 == 1
    let (b, misoVal) := spiXferBit device b mosiVal
    xferBits device tx bit b (if misoVal then rx ||| 1#8 <<< bit else rx)

/-- The outer loop. -/
def xferBytes (device : Device) : List (BitVec 8) → Bus → Bus × List (BitVec 8)
  | [], b => (b, [])
  | tx :: txs, b =>
    let (b, rx) := xferBits device tx 8 b 0
    let (b, rxs) := xferBytes device txs b
    (b, rx :: rxs)

def txFrame (channel : BitVec 8) : List (BitVec 8) := [0x06, (channel &&& 0x03) <<< 6, 0x00]

/-- `MCP3204_ReadChannel` -/
def readChannel (device : Device) (b : Bus) (channel : BitVec 8) : Bus × BitVec 16 :=
  let channel := channel &&& 0x03
  let (b, rx) := xferBytes device (txFrame channel) (csLow b)
  (csHigh b, (rx.getD 1 0 &&& 0x0F).setWidth 16 <<< 8 ||| (rx.getD 2 0).setWidth 16)

/-- `MCP3204_CalcAngle`. No step rounds: the quotient is a division by a power of two, and the
product has at most 23 bits. -/
def calcAngle (x : BitVec 16) : ℚ := ((x.toNat : ℚ) - 2048) / 2048 * 90

def chX : BitVec 8 := 0
def chY : BitVec 8 := 1

/-- `thumbstick_data_t` -/
structure ThumbstickData where
  x : BitVec 16
  y : BitVec 16
  btn : BitVec 8
  angle : ℚ
  seq : BitVec 32

/-- `MCP3204_ReadThumbstick`. The button is a pin of its own, read as a level. -/
def readThumbstick (device : Device) (b : Bus) (button : Bool) (seqCounter : BitVec 32) :
    Bus × ThumbstickData × BitVec 32 :=
  let (b, x) := readChannel device b chX
  let (b, y) := readChannel device b chY
  (b, ⟨x, y, if button = false then 1 else 0, calcAngle x, seqCounter⟩, seqCounter + 1)

/-! ## Chip -/

/-- What a chip sees of the bus: the levels before, how often it was selected, and the bits that it
latched since then, one at each rising edge of the clock. -/
structure Watch where
  last : Pins
  frames : Nat
  bits : List Bool
  deriving DecidableEq, Repr

def Watch.step (w : Watch) (p : Pins) : Watch where
  last := p
  frames := if w.last.cs && !p.cs then w.frames + 1 else w.frames
  bits :=
    if p.cs || w.last.cs then []
    else if !w.last.sck && p.sck then w.bits ++ [p.mosi] else w.bits

def watch (b : Bus) : Watch := b.foldl Watch.step ⟨idlePins, 0, []⟩

theorem channel_lt (d1 d0 : Bool) : 2 * d1.toNat + d0.toNat < 4 := by
  cases d1 <;> cases d0 <;> decide

/-- The channel of a command for a single-ended conversion, and how many clocks came behind it.
Zeros come before the start bit. -/
def command (bits : List Bool) : Option (Fin 4 × Nat) :=
  match bits.dropWhile (!·) with
  | _ :: true :: _ :: d1 :: d0 :: rest =>
    some (⟨2 * d1.toNat + d0.toNat, channel_lt d1 d0⟩, rest.length)
  | _ => none

/-- A chip that converts the voltage of a channel in the `n`-th frame to `analog n`: one clock for
the sample and one for a null bit, then twelve bits, most significant first. A bit is on the line
while its clock is up; what is on it behind the falling edge is not asked. -/
def Converts (device : Device) (analog : Nat → Fin 4 → BitVec 12) : Prop :=
  ∀ b channel k, (pins b).sck = true → command (watch b).bits = some (channel, k) → 3 ≤ k →
    k ≤ 14 → device b = (analog (watch b).frames channel).getLsbD (14 - k)

/-- A chip that shifts the next bit out at each falling edge. -/
def chip (analog : Nat → Fin 4 → BitVec 12) : Device := fun b =>
  match command (watch b).bits with
  | some (channel, k) =>
    (analog (watch b).frames channel).getLsbD (14 - if (pins b).sck then k else k + 1)
  | none => false

theorem chip_converts (analog : Nat → Fin 4 → BitVec 12) : Converts (chip analog) analog := by
  intro b channel k hsck hcommand _ _
  rw [chip, hcommand]
  dsimp only
  rw [if_pos hsck]

/-! ## The bus under the driver -/

@[simp] theorem pins_drive (b : Bus) (p : Pins) : pins (drive b p) = p := by simp [pins, drive]

@[simp] theorem watch_drive (b : Bus) (p : Pins) : watch (drive b p) = (watch b).step p := by
  simp [watch, drive]

@[simp] theorem watch_last (b : Bus) : (watch b).last = pins b := by
  induction b using List.reverseRecOn with
  | nil => rfl
  | append_singleton b p _ => exact (congrArg Watch.last (watch_drive b p)).trans (pins_drive b p).symm

/-- Between two reads. -/
structure Idle (b : Bus) : Prop where
  cs : (pins b).cs = true
  sck : (pins b).sck = false

/-- Within a read, between two bits. -/
structure Selected (b : Bus) (frames : Nat) (bits : List Bool) : Prop where
  cs : (pins b).cs = false
  sck : (pins b).sck = false
  frames : (watch b).frames = frames
  bits : (watch b).bits = bits

/-- Within a read, while the clock of the last bit is up. -/
structure Clocked (b : Bus) (frames : Nat) (bits : List Bool) : Prop where
  sck : (pins b).sck = true
  frames : (watch b).frames = frames
  bits : (watch b).bits = bits

theorem selected_csLow {b : Bus} (h : Idle b) : Selected (csLow b) ((watch b).frames + 1) [] where
  cs := by simp [csLow]
  sck := by simp [csLow, h.sck]
  frames := by simp [csLow, Watch.step, h.cs]
  bits := by simp [csLow, Watch.step, h.cs]

theorem idle_csHigh {b : Bus} {n : Nat} {bits : List Bool} (h : Selected b n bits) :
    Idle (csHigh b) ∧ (watch (csHigh b)).frames = n := by
  refine ⟨⟨by simp [csHigh], by simp [csHigh, h.sck]⟩, ?_⟩
  simp [csHigh, Watch.step, h.cs, h.frames]

section Transfer

variable (device : Device) {b : Bus} {n : Nat} {bits : List Bool}

theorem selected_mosi (h : Selected b n bits) (v : Bool) :
    Selected (if v then mosiHigh b else mosiLow b) n bits ∧
      (pins (if v then mosiHigh b else mosiLow b)).mosi = v := by
  cases v with
  | true =>
    refine ⟨⟨by simp [mosiHigh, h.cs], by simp [mosiHigh, h.sck], ?_, ?_⟩, by simp [mosiHigh]⟩
    · simp [mosiHigh, Watch.step, h.cs, h.frames]
    · simp [mosiHigh, Watch.step, h.cs, h.sck, h.bits]
  | false =>
    refine ⟨⟨by simp [mosiLow, h.cs], by simp [mosiLow, h.sck], ?_, ?_⟩, by simp [mosiLow]⟩
    · simp [mosiLow, Watch.step, h.cs, h.frames]
    · simp [mosiLow, Watch.step, h.cs, h.sck, h.bits]

/-- One bit out and one bit in: the chip has latched the bit when it is asked, and the clock is
still up. -/
theorem spiXferBit_selected (h : Selected b n bits) (v : Bool) :
    Selected (spiXferBit device b v).1 n (bits ++ [v]) ∧
      ∃ b', Clocked b' n (bits ++ [v]) ∧ (spiXferBit device b v).2 = device b' := by
  obtain ⟨hsel, hv⟩ := selected_mosi h v
  rw [spiXferBit]
  generalize (if v then mosiHigh b else mosiLow b) = b' at hsel hv
  have hframes : (watch (sckHigh b')).frames = n := by
    simp [sckHigh, Watch.step, hsel.cs, hsel.frames]
  have hbits : (watch (sckHigh b')).bits = bits ++ [v] := by
    simp [sckHigh, Watch.step, hsel.cs, hsel.sck, hsel.bits, hv]
  have hsck : (pins (sckHigh b')).sck = true := by simp [sckHigh]
  refine ⟨⟨by simp [sckLow, sckHigh, hsel.cs], by simp [sckLow], ?_, ?_⟩,
    _, ⟨hsck, hframes, hbits⟩, rfl⟩
  · rw [← hframes]
    simp [sckLow, sckHigh, Watch.step, hsel.cs]
  · rw [← hbits]
    simp [sckLow, sckHigh, Watch.step, hsel.cs]

/-- The bits of a byte from the `k`-th one down, as far as the `i`-th one. -/
def sent (tx : BitVec 8) (k i : Nat) : List Bool := ((List.range k).drop i).reverse.map tx.getLsbD

theorem sent_self (tx : BitVec 8) (k : Nat) : sent tx k k = [] := by simp [sent]

theorem sent_succ (tx : BitVec 8) (k i : Nat) (h : i ≤ k) :
    sent tx (k + 1) i = tx.getLsbD k :: sent tx k i := by
  rw [sent, List.range_succ, List.drop_append_of_le_length (by simpa using h)]
  simp [sent]

theorem mosi_eq (tx : BitVec 8) (k : Nat) : (tx >>> k &&& 1 == 1) = tx.getLsbD k := by
  rw [Bool.eq_iff_iff, beq_iff_eq]
  constructor
  · intro h
    simpa using congrArg (fun v => BitVec.getLsbD v 0) h
  · intro h
    apply BitVec.eq_of_getLsbD_eq
    intro i hi
    obtain rfl | hpos := Nat.eq_zero_or_pos i
    · simpa using h
    · simp [BitVec.getLsbD_one, Nat.pos_iff_ne_zero.mp hpos]

theorem getLsbD_one_shift (k i : Nat) (hk : k < 8) :
    (1#8 <<< k).getLsbD i = decide (i = k) := by
  rw [BitVec.getLsbD_shiftLeft, BitVec.getLsbD_one, Bool.eq_iff_iff]
  simp
  omega

/-- A byte out and a byte in. Every bit that comes in is the chip's answer to the bits before. -/
theorem xferBits_selected (tx : BitVec 8) (k : Nat) (hk : k ≤ 8) (h : Selected b n bits)
    (rx : BitVec 8) :
    Selected (xferBits device tx k b rx).1 n (bits ++ sent tx k 0) ∧
      (∀ i < k, rx.getLsbD i = false → ∃ b', Clocked b' n (bits ++ sent tx k i) ∧
        (xferBits device tx k b rx).2.getLsbD i = device b') ∧
      ∀ i, k ≤ i → (xferBits device tx k b rx).2.getLsbD i = rx.getLsbD i := by
  induction k generalizing b bits rx with
  | zero => exact ⟨by simpa [xferBits, sent_self] using h, by simp, fun i _ => rfl⟩
  | succ k ih =>
    obtain ⟨hsel, b', hclocked, hvalue⟩ := spiXferBit_selected device h (tx.getLsbD k)
    rw [xferBits, mosi_eq]
    simp only [hvalue]
    set rx' := if device b' then rx ||| 1#8 <<< k else rx with hrx
    have hbit : ∀ i, rx'.getLsbD i = if i = k then rx.getLsbD k || device b' else rx.getLsbD i := by
      intro i
      rw [hrx]
      split
      · rename_i hone
        rw [BitVec.getLsbD_or, getLsbD_one_shift k i (by omega), hone]
        split
        · next heq => simp [heq]
        · next hne => simp [hne]
      · rename_i hzero
        rw [Bool.not_eq_true] at hzero
        split
        · next heq => simp [heq, hzero]
        · rfl
    obtain ⟨hdone, hlow, hhigh⟩ := ih (by omega) hsel rx'
    refine ⟨?_, fun i hi hfalse => ?_, fun i hi => ?_⟩
    · rw [sent_succ tx k 0 (Nat.zero_le k), List.append_cons]
      exact hdone
    · obtain rfl | hlt := Nat.eq_or_lt_of_le (Nat.le_of_lt_succ hi)
      · refine ⟨b', by rwa [sent_succ tx i i le_rfl, sent_self], ?_⟩
        rw [hhigh i le_rfl, hbit, if_pos rfl, hfalse, Bool.false_or]
      · obtain ⟨b'', hc, hv⟩ := hlow i hlt (by rwa [hbit, if_neg (Nat.ne_of_lt hlt)])
        exact ⟨b'', by rwa [sent_succ tx k i hlt.le, List.append_cons], hv⟩
    · rw [hhigh i (by omega), hbit, if_neg (by omega)]

end Transfer

/-! ## Reads -/

/-- The bits of the two command bytes, and those of the empty byte down to the `i`-th one. -/
def frameBits (channel : BitVec 8) : List Bool :=
  sent 0x06 8 0 ++ sent ((channel &&& 0x03) <<< 6) 8 0

/-- The bytes that come in with the channel number and behind it. -/
theorem xferBytes_selected (device : Device) {b : Bus} {n : Nat} (h : Selected b n [])
    (channel : BitVec 8) :
    Selected (xferBytes device (txFrame channel) b).1 n (frameBits channel ++ sent 0 8 0) ∧
      ∃ rx₀ rx₁ rx₂, (xferBytes device (txFrame channel) b).2 = [rx₀, rx₁, rx₂] ∧
        (∀ i < 8, ∃ b', Clocked b' n (sent 0x06 8 0 ++ sent ((channel &&& 0x03) <<< 6) 8 i) ∧
          rx₁.getLsbD i = device b') ∧
        ∀ i < 8, ∃ b', Clocked b' n (frameBits channel ++ sent 0 8 i) ∧
          rx₂.getLsbD i = device b' := by
  obtain ⟨h₀, -, -⟩ := xferBits_selected device 0x06 8 le_rfl h 0
  obtain ⟨h₁, hrx₁, -⟩ :=
    xferBits_selected device ((channel &&& 0x03) <<< 6) 8 le_rfl h₀ 0
  obtain ⟨h₂, hrx₂, -⟩ := xferBits_selected device 0x00 8 le_rfl h₁ 0
  refine ⟨?_, _, _, _, rfl, fun i hi => hrx₁ i hi (by simp), fun i hi => ?_⟩
  · exact h₂
  · exact hrx₂ i hi (by simp)

theorem channel_cases (channel : BitVec 8) :
    ∃ c : Fin 4, channel &&& 0x03 = BitVec.ofNat 8 c.val ∧ c.val = channel.toNat % 4 := by
  have hmod : (channel &&& 0x03).toNat = channel.toNat % 4 := by
    rw [BitVec.toNat_and]
    exact Nat.and_two_pow_sub_one_eq_mod channel.toNat 2
  refine ⟨⟨channel.toNat % 4, Nat.mod_lt _ (by decide)⟩, ?_, rfl⟩
  apply BitVec.eq_of_toNat_eq
  rw [hmod, BitVec.toNat_ofNat]
  exact (Nat.mod_eq_of_lt ((Nat.mod_lt _ (by decide)).trans (by decide))).symm

/-- The clocks behind the channel number, counted through the second byte and the third. -/
theorem command_second : ∀ c : Fin 4, ∀ i < 4,
    command (sent 0x06 8 0 ++ sent (BitVec.ofNat 8 c.val <<< 6) 8 i) = some (c, 6 - i) := by
  decide

theorem command_third : ∀ c : Fin 4, ∀ i < 8,
    command (sent 0x06 8 0 ++ sent (BitVec.ofNat 8 c.val <<< 6) 8 0 ++ sent 0 8 i) =
      some (c, 14 - i) := by
  decide

section Values

variable (device : Device) {b : Bus}

/-- The twelve bits that a read puts together. -/
theorem result_eq (rx₁ rx₂ : BitVec 8) (v : BitVec 12) (hhigh : ∀ i < 4, rx₁.getLsbD i = v.getLsbD (8 + i))
    (hlow : ∀ i < 8, rx₂.getLsbD i = v.getLsbD i) :
    (rx₁ &&& 0x0F).setWidth 16 <<< 8 ||| rx₂.setWidth 16 = v.setWidth 16 := by
  have hmask : ∀ i, (0x0F : BitVec 8).getLsbD i = decide (i < 4) := by
    intro i
    by_cases h : i < 8
    · exact (by decide : ∀ i < 8, (0x0F : BitVec 8).getLsbD i = decide (i < 4)) i h
    · rw [BitVec.getLsbD_of_ge _ _ (by omega), eq_comm, decide_eq_false_iff_not]
      omega
  apply BitVec.eq_of_getLsbD_eq
  intro i hi
  rw [BitVec.getLsbD_or, BitVec.getLsbD_shiftLeft, BitVec.getLsbD_setWidth, BitVec.getLsbD_setWidth,
    BitVec.getLsbD_setWidth, BitVec.getLsbD_and, hmask]
  by_cases h8 : i < 8
  · rw [hlow i h8]
    simp [h8, hi]
  · by_cases h12 : i - 8 < 4
    · rw [hhigh _ h12, BitVec.getLsbD_of_ge rx₂ i (by omega), Nat.add_sub_cancel' (by omega)]
      simp [hi, h8, h12]
      omega
    · rw [BitVec.getLsbD_of_ge rx₂ i (by omega), BitVec.getLsbD_of_ge v i (by omega)]
      simp [h12]

theorem readChannel_idle (hidle : Idle b) (channel : BitVec 8) :
    Idle (readChannel device b channel).1 ∧
      (watch (readChannel device b channel).1).frames = (watch b).frames + 1 := by
  obtain ⟨hsel, -⟩ := xferBytes_selected device (selected_csLow hidle) (channel &&& 0x03)
  exact idle_csHigh hsel

/-- A read returns what the chip made of the channel in this frame. -/
theorem readChannel_value {analog : Nat → Fin 4 → BitVec 12} (hchip : Converts device analog)
    (hidle : Idle b) (channel : BitVec 8) :
    (readChannel device b channel).2 =
      (analog ((watch b).frames + 1)
        ⟨channel.toNat % 4, Nat.mod_lt _ (by decide)⟩).setWidth 16 := by
  obtain ⟨-, rx₀, rx₁, rx₂, hrx, hsecond, hthird⟩ :=
    xferBytes_selected device (selected_csLow hidle) (channel &&& 0x03)
  obtain ⟨c, hc, hmod⟩ := channel_cases channel
  have hagain : channel &&& 0x03 &&& 0x03 = BitVec.ofNat 8 c.val := by
    rw [BitVec.and_assoc, BitVec.and_self, hc]
  have hchannel : (⟨channel.toNat % 4, Nat.mod_lt _ (by decide)⟩ : Fin 4) = c := Fin.ext hmod.symm
  rw [readChannel]
  simp only [hrx, List.getD_cons_succ, List.getD_cons_zero]
  rw [hchannel]
  refine result_eq rx₁ rx₂ _ (fun i hi => ?_) fun i hi => ?_
  · obtain ⟨b', ⟨hsck, hframes, hbits⟩, hvalue⟩ := hsecond i (by omega)
    rw [hagain] at hbits
    have hcommand : command (watch b').bits = some (c, 6 - i) := by rw [hbits, command_second c i hi]
    rw [hvalue, hchip b' c (6 - i) hsck hcommand (by omega) (by omega), hframes]
    congr 1
    omega
  · obtain ⟨b', ⟨hsck, hframes, hbits⟩, hvalue⟩ := hthird i hi
    rw [frameBits, hagain] at hbits
    have hcommand : command (watch b').bits = some (c, 14 - i) := by rw [hbits, command_third c i hi]
    have hnull : 3 ≤ 14 - i := by omega
    rw [hvalue, hchip b' c (14 - i) hsck hcommand hnull (by omega), hframes]
    congr 1
    omega

/-- One read after the other. -/
def readChannels (device : Device) : List (BitVec 8) → Bus → Bus × List (BitVec 16)
  | [], b => (b, [])
  | channel :: channels, b =>
    let (b, value) := readChannel device b channel
    let (b, values) := readChannels device channels b
    (b, value :: values)

theorem readChannels_idle (hidle : Idle b) (channels : List (BitVec 8)) :
    Idle (readChannels device channels b).1 := by
  induction channels generalizing b with
  | nil => exact hidle
  | cons channel channels ih => exact ih (readChannel_idle device hidle channel).1

/-- Reads in any number return the conversions of their channels, each that of its own frame. -/
theorem readings_are_conversions {analog : Nat → Fin 4 → BitVec 12} (hchip : Converts device analog)
    (hidle : Idle b) (channels : List (BitVec 8)) :
    (readChannels device channels b).2 = channels.mapIdx fun i channel =>
      (analog ((watch b).frames + i + 1)
        ⟨channel.toNat % 4, Nat.mod_lt _ (by decide)⟩).setWidth 16 := by
  induction channels generalizing b with
  | nil => rfl
  | cons channel channels ih =>
    obtain ⟨hidle', hframes⟩ := readChannel_idle device hidle channel
    rw [readChannels, List.mapIdx_cons]
    simp only
    rw [ih hidle', hframes, readChannel_value device hchip hidle]
    simp only [Nat.add_zero, Nat.add_assoc, Nat.add_comm 1]

theorem readings_of_two_channels :
    (readChannels (chip fun n c => BitVec.ofNat 12 (1000 * c.val + n)) [chX, chY] []).2 = [1, 1002] :=
  readings_are_conversions (b := []) _ (chip_converts _) ⟨rfl, rfl⟩ [chX, chY]

end Values

/-! ## The wire -/

/-- One pin moves at a time: the select line while the clock is low, the data line while the clock
is low, the clock while a chip is selected. -/
def Legal (p q : Pins) : Prop :=
  (p.sck = false ∧ p.sck = q.sck ∧ (p.cs = q.cs ∨ p.mosi = q.mosi)) ∨
    (p.cs = false ∧ p.cs = q.cs ∧ p.mosi = q.mosi)

/-- A bus that has been legal since it went through `front`. -/
def LegalSince (front b : Bus) : Prop :=
  ∃ later, b = front ++ later ∧ List.IsChain Legal (pins front :: later)

theorem legalSince_self (b : Bus) : LegalSince b b := ⟨[], by simp, by simp⟩

theorem LegalSince.drive {front b : Bus} (h : LegalSince front b) {p : Pins} (hp : Legal (pins b) p) :
    LegalSince front (drive b p) := by
  obtain ⟨later, rfl, hchain⟩ := h
  refine ⟨later ++ [p], List.append_assoc _ _ _, ?_⟩
  rw [← List.cons_append]
  refine hchain.append (by simp) ?_
  intro x hx y hy
  obtain rfl : p = y := by simpa using hy
  have hlast : (pins front :: later).getLast? = some (pins (front ++ later)) := by
    cases later using List.reverseRecOn with
    | nil => simp
    | append_singleton later q => rw [← List.cons_append, List.getLast?_concat]; simp [pins]
  obtain rfl : pins (front ++ later) = x := by simpa [hlast] using hx
  exact hp

theorem spiXferBit_legal (device : Device) {front b : Bus} {n : Nat} {bits : List Bool}
    (h : LegalSince front b) (hsel : Selected b n bits) (v : Bool) :
    LegalSince front (spiXferBit device b v).1 := by
  have hmosi : LegalSince front (if v then mosiHigh b else mosiLow b) := by
    cases v with
    | true => exact h.drive (.inl ⟨hsel.sck, rfl, .inl rfl⟩)
    | false => exact h.drive (.inl ⟨hsel.sck, rfl, .inl rfl⟩)
  obtain ⟨hsel', -⟩ := selected_mosi hsel v
  have hrise := hmosi.drive (p := { pins (if v then mosiHigh b else mosiLow b) with sck := true })
    (.inr ⟨hsel'.cs, rfl, rfl⟩)
  exact hrise.drive (.inr ⟨by simp [hsel'.cs], rfl, rfl⟩)

theorem xferBits_legal (device : Device) {front b : Bus} {n : Nat} {bits : List Bool}
    (tx : BitVec 8) (k : Nat) (h : LegalSince front b) (hsel : Selected b n bits) (rx : BitVec 8) :
    LegalSince front (xferBits device tx k b rx).1 := by
  induction k generalizing b bits rx with
  | zero => exact h
  | succ k ih =>
    exact ih (spiXferBit_legal device h hsel _) (spiXferBit_selected device hsel _).1 _

theorem xferBytes_legal (device : Device) {front b : Bus} {n : Nat} {bits : List Bool}
    (txs : List (BitVec 8)) (h : LegalSince front b) (hsel : Selected b n bits) :
    LegalSince front (xferBytes device txs b).1 := by
  induction txs generalizing b bits with
  | nil => exact h
  | cons tx txs ih =>
    exact ih (xferBits_legal device tx 8 h hsel 0)
      (xferBits_selected device tx 8 le_rfl hsel 0).1

theorem readChannel_legal (device : Device) {front b : Bus} (h : LegalSince front b) (hidle : Idle b)
    (channel : BitVec 8) : LegalSince front (readChannel device b channel).1 := by
  have hcs : LegalSince front (csLow b) := h.drive (.inl ⟨hidle.sck, rfl, .inr rfl⟩)
  have hbytes := xferBytes_legal device (txFrame (channel &&& 0x03)) hcs
    (selected_csLow hidle)
  obtain ⟨hsel, -⟩ := xferBytes_selected device (selected_csLow hidle) (channel &&& 0x03)
  rw [readChannel]
  simp only
  generalize (xferBytes device (txFrame (channel &&& 0x03)) (csLow b)).1 = b' at hbytes hsel
  exact hbytes.drive (.inl ⟨hsel.sck, rfl, .inr rfl⟩)

/-- Twelve bits, whatever came in. -/
theorem readChannel_lt (device : Device) (b : Bus) (channel : BitVec 8) :
    (readChannel device b channel).2.toNat < 4096 := by
  have hbits : ∀ i, 12 ≤ i → (readChannel device b channel).2.getLsbD i = false := by
    intro i hi
    rw [readChannel, BitVec.getLsbD_or, BitVec.getLsbD_shiftLeft, BitVec.getLsbD_setWidth,
      BitVec.getLsbD_setWidth, BitVec.getLsbD_and, BitVec.getLsbD_of_ge _ i (by omega)]
    have hmask : (0x0F : BitVec 8).getLsbD (i - 8) = false := by
      by_cases h : i - 8 < 8
      · exact (by decide : ∀ j < 8, 4 ≤ j → (0x0F : BitVec 8).getLsbD j = false) _ h (by omega)
      · exact BitVec.getLsbD_of_ge _ _ (by omega)
    rw [hmask]
    simp
  exact Nat.lt_pow_two_of_testBit _ fun i hi => hbits i hi

/-- Whatever the line in does, also with no chip at the other end: the reads keep the protocol of the
bus, every one of them is a number of twelve bits, and the chip is deselected behind them. -/
theorem reads_on_any_line (device : Device) (b : Bus) (hidle : Idle b) (channels : List (BitVec 8)) :
    LegalSince b (readChannels device channels b).1 ∧ Idle (readChannels device channels b).1 ∧
      ∀ value ∈ (readChannels device channels b).2, value.toNat < 4096 := by
  have hlegal : ∀ (channels : List (BitVec 8)) (b' : Bus), Idle b' → LegalSince b b' →
      LegalSince b (readChannels device channels b').1 ∧
        ∀ value ∈ (readChannels device channels b').2, value.toNat < 4096 := by
    intro channels
    induction channels with
    | nil => exact fun b' _ h => ⟨h, by simp [readChannels]⟩
    | cons channel channels ih =>
      intro b' hidle' h
      obtain ⟨hrest, hvalues⟩ := ih _ (readChannel_idle device hidle' channel).1
        (readChannel_legal device h hidle' channel)
      refine ⟨hrest, fun value hvalue => ?_⟩
      obtain rfl | hvalue := List.mem_cons.mp hvalue
      · exact readChannel_lt device b' channel
      · exact hvalues value hvalue
  obtain ⟨hdone, hvalues⟩ := hlegal channels b hidle (legalSince_self b)
  exact ⟨hdone, readChannels_idle device hidle channels, hvalues⟩

theorem reads_on_a_dead_line : LegalSince [] (readChannels (fun _ => true) [chX, chY] []).1 ∧
    Idle (readChannels (fun _ => true) [chX, chY] []).1 ∧
      ∀ value ∈ (readChannels (fun _ => true) [chX, chY] []).2, value.toNat < 4096 :=
  reads_on_any_line (fun _ => true) [] ⟨rfl, rfl⟩ [chX, chY]

end Genoh.Mcp3204
