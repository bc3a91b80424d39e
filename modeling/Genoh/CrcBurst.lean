import Genoh.Crc

/-!
# Bursts under a cyclic redundancy check

The check register read one message bit at a time, least significant bit of each
byte first. When the generator has its top bit, a shift loses nothing, so after
any message the register still determines where it started; and a window no
longer than the register can be read back out of it. Two messages that differ
inside such a window only have different check values.
-/
namespace Genoh.Crc

open Genoh.Bytes

variable {w : Nat}

/-! ## The register determines its past -/

/-- The bit that falls out of a shift is found again at the top. -/
theorem shift_top (poly c : BitVec w) (htop : poly.getLsbD (w - 1) = true) :
    (shift poly c).getLsbD (w - 1) = c.getLsbD 0 := by
  have hw : 0 < w := by
    have hlt := BitVec.lt_of_getLsbD htop
    omega
  have hmoved : (c >>> 1).getLsbD (w - 1) = false := by
    rw [BitVec.getLsbD_ushiftRight]
    exact BitVec.getLsbD_of_ge c _ (by omega)
  cases hlow : c.getLsbD 0 with
  | true => simp only [shift, hlow, if_true, BitVec.getLsbD_xor, hmoved, htop, Bool.false_xor]
  | false => simp only [shift, hlow, Bool.false_eq_true, if_false, hmoved]

theorem shift_injective (poly : BitVec w) (htop : poly.getLsbD (w - 1) = true) :
    Function.Injective (shift poly) := by
  intro x y hxy
  have hlow : x.getLsbD 0 = y.getLsbD 0 := by
    rw [← shift_top poly x htop, ← shift_top poly y htop, hxy]
  have hmoved : x >>> 1 = y >>> 1 := by
    simp only [shift, hlow] at hxy
    split at hxy
    · exact (BitVec.xor_left_inj _).mp hxy
    · exact hxy
  apply BitVec.eq_of_getLsbD_eq
  intro i _
  cases i with
  | zero => exact hlow
  | succ i =>
    have hbit : (x >>> 1).getLsbD i = (y >>> 1).getLsbD i := by rw [hmoved]
    rw [BitVec.getLsbD_ushiftRight, BitVec.getLsbD_ushiftRight] at hbit
    rwa [Nat.add_comm i 1]

theorem shifts_injective (poly : BitVec w) (htop : poly.getLsbD (w - 1) = true) (n : Nat) :
    Function.Injective (shift poly)^[n] :=
  (shift_injective poly htop).iterate n

/-! ## One bit at a time -/

/-- The remainder after one more message bit. -/
def crcBit (poly c : BitVec w) (b : Bool) : BitVec w :=
  shift poly (c ^^^ (BitVec.ofBool b).setWidth w)

/-- The bits of a message, those of each byte least significant first. -/
def bits (msg : List Byte) : List Bool := msg.flatMap fun b => (List.range 8).map b.getLsbD

/-- A list of bits as a register, first bit lowest. -/
def word (w : Nat) (bs : List Bool) : BitVec w := (BitVec.ofBoolListLE bs).setWidth w

theorem word_getLsbD (bs : List Bool) (h : bs.length ≤ w) (i : Nat) :
    (word w bs).getLsbD i = bs.getD i false := by
  rw [word, BitVec.getLsbD_setWidth, BitVec.getLsbD_ofBoolListLE]
  by_cases hi : i < w
  · rw [decide_eq_true hi, Bool.true_and]
  · rw [decide_eq_false hi, Bool.false_and, List.getD_eq_getElem?_getD,
      List.getElem?_eq_none (by omega), Option.getD_none]

theorem word_cons (b : Bool) (bs : List Bool) (h : bs.length < w) :
    word w (b :: bs) = (BitVec.ofBool b).setWidth w ^^^ (word w bs <<< 1) := by
  apply BitVec.eq_of_getLsbD_eq
  intro i hi
  rw [word_getLsbD _ (by rw [List.length_cons]; omega), BitVec.getLsbD_xor, BitVec.getLsbD_setWidth,
    BitVec.getLsbD_shiftLeft, word_getLsbD _ (by omega)]
  cases i with
  | zero => simp [hi]
  | succ i => simp [hi]

/-- The bits that are still to come only move down. -/
theorem shift_word (poly : BitVec w) (bs : List Bool) (h : bs.length < w) :
    shift poly (word w bs <<< 1) = word w bs := by
  have hlow : (word w bs <<< 1).getLsbD 0 = false := by simp
  rw [shift, hlow, if_neg (by simp)]
  apply BitVec.eq_of_getLsbD_eq
  intro i hi
  rw [BitVec.getLsbD_ushiftRight, BitVec.getLsbD_shiftLeft, word_getLsbD _ (by omega),
    word_getLsbD _ (by omega)]
  by_cases hlast : 1 + i < w
  · simp [hlast]
  · rw [decide_eq_false hlast, Bool.false_and, Bool.false_and, List.getD_eq_getElem?_getD,
      List.getElem?_eq_none (by omega), Option.getD_none]

/-- Up to `w` bits can be added all at once, ahead of the shifts. -/
theorem crcBits_window (poly c : BitVec w) (bs : List Bool) (h : bs.length ≤ w) :
    bs.foldl (crcBit poly) c = (shift poly)^[bs.length] (c ^^^ word w bs) := by
  induction bs generalizing c with
  | nil =>
    have hnone : word w [] = 0#w := by simp [word, BitVec.ofBoolListLE]
    simp [hnone]
  | cons b bs ih =>
    have hlt : bs.length < w := by
      rw [List.length_cons] at h
      omega
    have hstep : shift poly (c ^^^ word w (b :: bs)) = crcBit poly c b ^^^ word w bs := by
      rw [word_cons b bs hlt, ← BitVec.xor_assoc, shift_xor, shift_word poly bs hlt]
      rfl
    rw [List.foldl_cons, ih _ (by omega), List.length_cons, Function.iterate_succ_apply, hstep]

theorem word_injective {xs ys : List Bool} (hx : xs.length ≤ w) (hlen : xs.length = ys.length)
    (h : word w xs = word w ys) : xs = ys := by
  apply List.ext_getElem hlen
  intro i hi hi'
  have hbit : (word w xs).getLsbD i = (word w ys).getLsbD i := by rw [h]
  rw [word_getLsbD _ hx, word_getLsbD _ (by omega)] at hbit
  simpa [List.getD_eq_getElem?_getD, List.getElem?_eq_getElem, hi, hi'] using hbit

section Bijective

variable (poly : BitVec w) (htop : poly.getLsbD (w - 1) = true)
include htop

theorem crcBits_injective (bs : List Bool) :
    Function.Injective fun c => bs.foldl (crcBit poly) c := by
  induction bs with
  | nil => exact fun _ _ h => h
  | cons b bs ih =>
    intro x y h
    have hstep : crcBit poly x b = crcBit poly y b := ih h
    exact (BitVec.xor_left_inj _).mp (shift_injective poly htop hstep)

/-- Different windows leave different registers. -/
theorem crcBits_window_ne (c : BitVec w) {xs ys : List Bool} (hx : xs.length ≤ w)
    (hlen : xs.length = ys.length) (hne : xs ≠ ys) :
    xs.foldl (crcBit poly) c ≠ ys.foldl (crcBit poly) c := by
  intro h
  rw [crcBits_window poly c xs hx, crcBits_window poly c ys (by omega), ← hlen] at h
  have hword := (BitVec.xor_right_inj _).mp (shifts_injective poly htop _ h)
  exact hne (word_injective hx hlen hword)

end Bijective

/-! ## Bursts -/

/-- The two messages differ at most at the bits `p` to `p + k - 1`. -/
def Confined (p k : Nat) (xs ys : List Bool) : Prop :=
  xs.length = ys.length ∧ ∀ i, xs[i]? ≠ ys[i]? → p ≤ i ∧ i < p + k

/-- They are equal in front of the window and behind it. -/
theorem confined_iff (p k : Nat) (xs ys : List Bool) :
    Confined p k xs ys ↔ xs.length = ys.length ∧ xs.take p = ys.take p ∧
      xs.drop (p + k) = ys.drop (p + k) := by
  constructor
  · rintro ⟨hlen, hwindow⟩
    refine ⟨hlen, ?_, ?_⟩
    · apply List.ext_getElem?
      intro i
      rw [List.getElem?_take, List.getElem?_take]
      by_cases hi : i < p
      · rw [if_pos hi, if_pos hi]
        by_contra hne
        have hin := hwindow i hne
        omega
      · rw [if_neg hi, if_neg hi]
    · apply List.ext_getElem?
      intro i
      rw [List.getElem?_drop, List.getElem?_drop]
      by_contra hne
      have hin := hwindow _ hne
      omega
  · rintro ⟨hlen, hfront, hback⟩
    refine ⟨hlen, fun i hne => ?_⟩
    by_contra hout
    apply hne
    by_cases hi : i < p
    · have htake : (xs.take p)[i]? = (ys.take p)[i]? := by rw [hfront]
      rwa [List.getElem?_take, List.getElem?_take, if_pos hi, if_pos hi] at htake
    · have hdrop : (xs.drop (p + k))[i - (p + k)]? = (ys.drop (p + k))[i - (p + k)]? := by
        rw [hback]
      rwa [List.getElem?_drop, List.getElem?_drop,
        show p + k + (i - (p + k)) = i by omega] at hdrop

instance (p k : Nat) (xs ys : List Bool) : Decidable (Confined p k xs ys) :=
  decidable_of_iff _ (confined_iff p k xs ys).symm

theorem cut (p k : Nat) (xs : List Bool) :
    xs = xs.take p ++ ((xs.drop p).take k ++ xs.drop (p + k)) := by
  rw [← List.drop_drop, List.take_append_drop, List.take_append_drop]

/-- A nonzero change within as many bits as the register has changes what the register ends with. -/
theorem burst_detected (poly : BitVec w) (htop : poly.getLsbD (w - 1) = true) (start : BitVec w)
    {p : Nat} {xs ys : List Bool} (h : Confined p w xs ys) (hne : xs ≠ ys) :
    xs.foldl (crcBit poly) start ≠ ys.foldl (crcBit poly) start := by
  obtain ⟨hlen, hfront, hback⟩ := (confined_iff p w xs ys).mp h
  have hwindow : (xs.drop p).take w ≠ (ys.drop p).take w := by
    intro heq
    apply hne
    rw [cut p w xs, cut p w ys, hfront, heq, hback]
  have hsize : ((xs.drop p).take w).length = ((ys.drop p).take w).length := by simp [hlen]
  rw [cut p w xs, cut p w ys, hfront, hback]
  simp only [List.foldl_append]
  intro hsame
  have hmiddle := crcBits_injective poly htop _ hsame
  exact crcBits_window_ne poly htop _ (by simp) hsize hwindow hmiddle

/-! ## Messages of bytes -/

theorem octet_length (b : Byte) : ((List.range 8).map b.getLsbD).length = 8 := by simp

theorem bits_cons (b : Byte) (msg : List Byte) :
    bits (b :: msg) = (List.range 8).map b.getLsbD ++ bits msg := rfl

theorem word_octet (b : Byte) (hw : 8 ≤ w) :
    word w ((List.range 8).map b.getLsbD) = b.setWidth w := by
  apply BitVec.eq_of_getLsbD_eq
  intro i hi
  rw [word_getLsbD _ (by simpa using hw), BitVec.getLsbD_setWidth, decide_eq_true hi, Bool.true_and]
  by_cases hlow : i < 8
  · simp [List.getD_eq_getElem?_getD, hlow]
  · rw [List.getD_eq_getElem?_getD, List.getElem?_eq_none (by simpa using hlow),
      BitVec.getLsbD_of_ge b i (by omega)]
    rfl

/-- Byte by byte and bit by bit, the register goes the same way. -/
theorem crcBytes_eq_bits (poly c : BitVec w) (msg : List Byte) (hw : 8 ≤ w) :
    msg.foldl (crcByte poly) c = (bits msg).foldl (crcBit poly) c := by
  induction msg generalizing c with
  | nil => rfl
  | cons b msg ih =>
    rw [List.foldl_cons, ih, bits_cons, List.foldl_append,
      crcBits_window poly c _ (by simpa using hw), octet_length, word_octet b hw, crcByte]

theorem bits_injective : Function.Injective bits := by
  intro xs
  induction xs with
  | nil =>
    intro ys h
    cases ys with
    | nil => rfl
    | cons y ys => simp [bits] at h
  | cons x xs ih =>
    intro ys h
    cases ys with
    | nil => simp [bits] at h
    | cons y ys =>
      rw [bits_cons, bits_cons] at h
      obtain ⟨hhead, htail⟩ := List.append_inj h (by simp)
      have hbyte : x = y := by
        have hword : word 8 ((List.range 8).map x.getLsbD) = word 8 ((List.range 8).map y.getLsbD) := by
          rw [hhead]
        simpa [word_octet] using hword
      rw [hbyte, ih htail]

/-- Messages that differ in one burst only have different check values. -/
theorem crc_burst_ne (poly start final : BitVec w) (htop : poly.getLsbD (w - 1) = true)
    (hw : 8 ≤ w) {p : Nat} {xs ys : List Byte} (h : Confined p w (bits xs) (bits ys))
    (hne : xs ≠ ys) : crc poly start final xs ≠ crc poly start final ys := by
  intro hsame
  have hregister := (BitVec.xor_left_inj _).mp hsame
  rw [crcBytes_eq_bits poly start xs hw, crcBytes_eq_bits poly start ys hw] at hregister
  exact burst_detected poly htop start h (fun heq => hne (bits_injective heq)) hregister

theorem crc32_burst_ne {p : Nat} {xs ys : List Byte} (h : Confined p 32 (bits xs) (bits ys))
    (hne : xs ≠ ys) : crc32 xs ≠ crc32 ys :=
  crc_burst_ne 0xEDB88320 0xFFFFFFFF 0xFFFFFFFF (by decide) (by decide) h hne

end Genoh.Crc
