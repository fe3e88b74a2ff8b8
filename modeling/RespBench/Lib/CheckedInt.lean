import Mathlib

/-!
# 64-bit integers that refuse to overflow

Arithmetic on 64-bit signed integers for languages where an overflowing sum or product is not a
machine integer any more: the operations are those of the unbounded integers, checked to stay in
range. The shifts do not check: a left shift drops the high bits, a right shift is arithmetic.
-/

namespace RespBench.Lib.CheckedInt

/-- The 64-bit signed integers. -/
def InRange (a : ℤ) : Prop := -2 ^ 63 ≤ a ∧ a < 2 ^ 63

instance (a : ℤ) : Decidable (InRange a) := by unfold InRange; infer_instance

/-- A result, when it is a 64-bit signed integer. -/
def check (a : ℤ) : Option ℤ := if InRange a then some a else none

/-- Checked sum. -/
def add (a b : ℤ) : Option ℤ := check (a + b)

/-- Checked difference. -/
def sub (a b : ℤ) : Option ℤ := check (a - b)

/-- Checked product. -/
def mul (a b : ℤ) : Option ℤ := check (a * b)

/-- Left shift: the low 64 bits, read as a signed integer. -/
def shl (a : ℤ) (n : ℕ) : ℤ := (a * 2 ^ n).bmod (2 ^ 64)

/-- A result in range passes the check. -/
lemma check_eq {a : ℤ} (h : InRange a) : check a = some a := if_pos h

/-- A left shift that stays in range is a product. -/
lemma shl_eq {a : ℤ} {n : ℕ} (h : InRange (a * 2 ^ n)) : shl a n = a * 2 ^ n := by
  obtain ⟨h1, h2⟩ := h
  exact Int.bmod_eq_of_le (by omega) (by omega)

end RespBench.Lib.CheckedInt
