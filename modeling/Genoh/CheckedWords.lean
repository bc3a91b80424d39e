import Genoh.Checked

/-!
# Checked words

Unsigned arithmetic of 32 bits as a computation that stops where a sum or a product wraps or a
divisor is zero.
-/
namespace Genoh.CheckedWords

open Genoh.Checked

abbrev Word := BitVec 32

inductive Fault where
  | wraps | divisionByZero
  deriving DecidableEq, Repr

def add (a b : Word) : Checked Fault Word :=
  if a.toNat + b.toNat < 4294967296 then .ok (a + b) else .error .wraps

def mul (a b : Word) : Checked Fault Word :=
  if a.toNat * b.toNat < 4294967296 then .ok (a * b) else .error .wraps

def div (a b : Word) : Checked Fault Word := if b = 0 then .error .divisionByZero else .ok (a / b)

section Bounds

variable {a b : Word}

theorem add_ok (h : a.toNat + b.toNat < 4294967296) : add a b = .ok (a + b) := if_pos h

theorem mul_ok (h : a.toNat * b.toNat < 4294967296) : mul a b = .ok (a * b) := if_pos h

theorem div_ok (h : b ≠ 0) : div a b = .ok (a / b) := if_neg h

theorem div_zero (a : Word) : div a 0 = .error .divisionByZero := if_pos rfl

theorem toNat_add (h : a.toNat + b.toNat < 4294967296) : (a + b).toNat = a.toNat + b.toNat :=
  BitVec.toNat_add_of_lt h

theorem toNat_mul (h : a.toNat * b.toNat < 4294967296) : (a * b).toNat = a.toNat * b.toNat :=
  BitVec.toNat_mul_of_lt h

/-- A computation that comes to a division by zero has no value. -/
theorem bind_div_zero {α : Type} (x : Checked Fault Word) (f : Word → Checked Fault α) :
    ∃ fault, (x >>= fun a => div a 0 >>= f) = .error fault := by
  cases x with
  | error fault => exact ⟨fault, rfl⟩
  | ok a => exact ⟨.divisionByZero, by rw [ok_bind, div_zero, error_bind]⟩

end Bounds

end Genoh.CheckedWords
