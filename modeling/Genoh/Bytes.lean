import Mathlib.Data.List.Induction
import Mathlib.Tactic.Ring

/-!
# Bytes and big-endian numbers

Byte strings are lists of 8-bit vectors. A number is written in a fixed number of
base-256 digits, most significant first, and read back from any byte string.
-/
namespace Genoh.Bytes

abbrev Byte := BitVec 8

/-- The codes of ASCII white space. -/
def isAsciiSpace (code : Nat) : Bool := code == 0x20 || (0x09 ≤ code && code ≤ 0x0d)

/-- The `n` low base-256 digits of `v`, most significant first. -/
def beBytes : Nat → Nat → List Byte
  | 0, _ => []
  | n + 1, v => beBytes n (v / 256) ++ [BitVec.ofNat 8 v]

/-- The number a byte string spells in base 256. -/
def ofBeBytes (bs : List Byte) : Nat := bs.foldl (fun v b => 256 * v + b.toNat) 0

/-- The unsigned field of `n` bytes at offset `i`. -/
def field (data : List Byte) (i n : Nat) : Nat := ofBeBytes ((data.drop i).take n)

@[simp] theorem beBytes_zero (v : Nat) : beBytes 0 v = [] := rfl
@[simp] theorem ofBeBytes_nil : ofBeBytes [] = 0 := rfl

@[simp] theorem beBytes_length (n v : Nat) : (beBytes n v).length = n := by
  induction n generalizing v with
  | zero => rfl
  | succ n ih => simp [beBytes, ih]

theorem ofBeBytes_concat (bs : List Byte) (b : Byte) :
    ofBeBytes (bs ++ [b]) = 256 * ofBeBytes bs + b.toNat := by
  simp [ofBeBytes]

theorem ofBeBytes_lt (bs : List Byte) : ofBeBytes bs < 256 ^ bs.length := by
  induction bs using List.reverseRecOn with
  | nil => simp
  | append_singleton bs b ih =>
    have hb : b.toNat < 256 := b.isLt
    rw [ofBeBytes_concat, List.length_append, List.length_singleton, pow_succ]
    omega

/-- Reading back the digits loses only what does not fit into them. -/
theorem ofBeBytes_beBytes (n v : Nat) : ofBeBytes (beBytes n v) = v % 256 ^ n := by
  induction n generalizing v with
  | zero => simp [Nat.mod_one]
  | succ n ih =>
    rw [beBytes, ofBeBytes_concat, ih, pow_succ', Nat.mod_mul]
    simp only [BitVec.toNat_ofNat]
    omega

theorem ofBeBytes_beBytes_of_lt (n v : Nat) (h : v < 256 ^ n) : ofBeBytes (beBytes n v) = v := by
  rw [ofBeBytes_beBytes, Nat.mod_eq_of_lt h]

/-- Every byte string is the digits of the number it spells. -/
theorem beBytes_ofBeBytes (bs : List Byte) : beBytes bs.length (ofBeBytes bs) = bs := by
  induction bs using List.reverseRecOn with
  | nil => rfl
  | append_singleton bs b ih =>
    have hb : b.toNat < 256 := b.isLt
    have hdiv : (256 * ofBeBytes bs + b.toNat) / 256 = ofBeBytes bs := by omega
    have hlast : BitVec.ofNat 8 (256 * ofBeBytes bs + b.toNat) = b := by
      apply BitVec.eq_of_toNat_eq
      simp only [BitVec.toNat_ofNat]
      omega
    rw [ofBeBytes_concat, List.length_append, List.length_singleton, beBytes, hdiv, ih, hlast]

/-- Only the low digits of a number are written. -/
theorem beBytes_mod (n v : Nat) : beBytes n (v % 256 ^ n) = beBytes n v := by
  have h := beBytes_ofBeBytes (beBytes n v)
  rwa [beBytes_length, ofBeBytes_beBytes] at h

/-! ## Fields -/

theorem field_lt (data : List Byte) (i n : Nat) : field data i n < 256 ^ n := by
  refine Nat.lt_of_lt_of_le (ofBeBytes_lt _) (Nat.pow_le_pow_right (by decide) ?_)
  rw [List.length_take]
  omega

theorem beBytes_field (data : List Byte) (i n : Nat) (h : i + n ≤ data.length) :
    beBytes n (field data i n) = (data.drop i).take n := by
  have hlen : ((data.drop i).take n).length = n := by
    rw [List.length_take, List.length_drop]
    omega
  have hall := beBytes_ofBeBytes ((data.drop i).take n)
  rwa [hlen] at hall

/-- The number written first is the field at the front. -/
theorem field_head (n v : Nat) (rest : List Byte) (h : v < 256 ^ n) :
    field (beBytes n v ++ rest) 0 n = v := by
  rw [field, List.drop_zero, List.take_left' (beBytes_length n v), ofBeBytes_beBytes_of_lt n v h]

/-- Fields behind a number are those of what follows it. -/
theorem field_skip (m v i n : Nat) (rest : List Byte) (h : m ≤ i) :
    field (beBytes m v ++ rest) i n = field rest (i - m) n := by
  have hi : i = (beBytes m v).length + (i - m) := by
    rw [beBytes_length]
    omega
  conv => lhs; rw [hi]
  rw [field, field, List.drop_append, List.drop_of_length_le (by omega)]
  simp

/-- A field inside a prefix does not see what follows the prefix. -/
theorem field_take (data : List Byte) (k i n : Nat) (h : i + n ≤ k) :
    field (data.take k) i n = field data i n := by
  rw [field, field, List.drop_take, List.take_take, Nat.min_eq_left (by omega)]

/-! ## Order -/

theorem ofBeBytes_append (xs ys : List Byte) :
    ofBeBytes (xs ++ ys) = ofBeBytes xs * 256 ^ ys.length + ofBeBytes ys := by
  induction ys using List.reverseRecOn with
  | nil => simp
  | append_singleton ys b ih =>
    rw [← List.append_assoc, ofBeBytes_concat, ih, ofBeBytes_concat, List.length_append,
      List.length_singleton, pow_succ]
    ring

theorem ofBeBytes_cons (b : Byte) (bs : List Byte) :
    ofBeBytes (b :: bs) = b.toNat * 256 ^ bs.length + ofBeBytes bs := by
  rw [← List.singleton_append, ofBeBytes_append]
  simp [ofBeBytes]

/-- Byte strings of one length are in the lexicographic order of the numbers they spell. -/
theorem lt_iff_ofBeBytes_lt {xs ys : List Byte} (h : xs.length = ys.length) :
    xs < ys ↔ ofBeBytes xs < ofBeBytes ys := by
  induction xs generalizing ys with
  | nil =>
    obtain rfl := List.length_eq_zero_iff.mp h.symm
    simp
  | cons x xs ih =>
    cases ys with
    | nil => cases h
    | cons y ys =>
      have hlen : xs.length = ys.length := Nat.succ.inj h
      have hxs := ofBeBytes_lt xs
      have hys := ofBeBytes_lt ys
      rw [List.cons_lt_cons_iff, ih hlen, ofBeBytes_cons, ofBeBytes_cons, hlen, BitVec.lt_def,
        ← BitVec.toNat_inj]
      rw [hlen] at hxs
      generalize 256 ^ ys.length = base at hxs hys ⊢
      -- A larger first byte outweighs all that follows.
      rcases Nat.lt_trichotomy x.toNat y.toNat with hlt | heq | hgt
      · have hmul : (x.toNat + 1) * base ≤ y.toNat * base := Nat.mul_le_mul_right base hlt
        rw [Nat.succ_mul] at hmul
        omega
      · rw [heq]
        omega
      · have hmul : (y.toNat + 1) * base ≤ x.toNat * base := Nat.mul_le_mul_right base hgt
        rw [Nat.succ_mul] at hmul
        omega

theorem le_iff_ofBeBytes_le {xs ys : List Byte} (h : xs.length = ys.length) :
    xs ≤ ys ↔ ofBeBytes xs ≤ ofBeBytes ys := by
  rw [← List.not_lt, lt_iff_ofBeBytes_lt h.symm, not_lt]

end Genoh.Bytes
