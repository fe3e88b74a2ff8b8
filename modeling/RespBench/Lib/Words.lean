import Mathlib

/-!
# Machine words that hold small naturals

Two's complement words built from natural numbers below half the word size: the signed
operations (remainder, arithmetic shift, sign extension, comparison with zero) are those of
the naturals, and `b & -b` only looks at the low bits (`and_neg_small`), so that words of
different widths agree on it.
-/

namespace RespBench.Lib.Words

variable {w : ℕ}

/-- A number that fits is not reduced. -/
lemma toNat_small {n : ℕ} (h : n < 2 ^ w) : (BitVec.ofNat w n).toNat = n := by
  rw [BitVec.toNat_ofNat, Nat.mod_eq_of_lt h]

/-- Half a word fits. -/
lemma lt_of_lt_half {n : ℕ} (h : n < 2 ^ (w - 1)) : n < 2 ^ w :=
  h.trans_le (Nat.pow_le_pow_right (by norm_num) (by omega))

/-- The sign bit compares with half the word size. -/
lemma msb_ofNat {n : ℕ} (h : n < 2 ^ w) : (BitVec.ofNat w n).msb = decide (2 ^ (w - 1) ≤ n) := by
  rw [BitVec.msb_eq_decide, toNat_small h]

/-- A small number has no sign. -/
lemma msb_small {n : ℕ} (h : n < 2 ^ (w - 1)) : (BitVec.ofNat w n).msb = false := by
  rw [msb_ofNat (lt_of_lt_half h)]
  exact decide_eq_false (by omega)

/-- A small number is read as it is. -/
lemma toInt_small {n : ℕ} (h : n < 2 ^ (w - 1)) : (BitVec.ofNat w n).toInt = n := by
  rw [BitVec.toInt_eq_toNat_of_msb (msb_small h), toNat_small (lt_of_lt_half h)]

/-- The remainder of small numbers. -/
lemma srem_small {a b : ℕ} (ha : a < 2 ^ (w - 1)) (hb : b < 2 ^ (w - 1)) :
    (BitVec.ofNat w a).srem (BitVec.ofNat w b) = BitVec.ofNat w (a % b) := by
  rw [BitVec.srem_eq, msb_small ha, msb_small hb]
  apply BitVec.eq_of_toNat_eq
  simp only [BitVec.toNat_umod]
  rw [toNat_small (lt_of_lt_half ha), toNat_small (lt_of_lt_half hb),
    toNat_small ((Nat.mod_le a b).trans_lt (lt_of_lt_half ha))]

/-- A shift to the right divides. -/
lemma ushiftRight_ofNat {n : ℕ} (h : n < 2 ^ w) (k : ℕ) :
    BitVec.ofNat w n >>> k = BitVec.ofNat w (n / 2 ^ k) := by
  apply BitVec.eq_of_toNat_eq
  rw [BitVec.toNat_ushiftRight, toNat_small h, Nat.shiftRight_eq_div_pow,
    toNat_small ((Nat.div_le_self _ _).trans_lt h)]

/-- A signed shift of a small number divides. -/
lemma sshiftRight_small {n : ℕ} (h : n < 2 ^ (w - 1)) (k : ℕ) :
    (BitVec.ofNat w n).sshiftRight k = BitVec.ofNat w (n / 2 ^ k) := by
  rw [BitVec.sshiftRight_eq_of_msb_false (msb_small h), ushiftRight_ofNat (lt_of_lt_half h)]

/-- A small number is extended with zeros. -/
lemma signExtend_small {v n : ℕ} (h : n < 2 ^ (w - 1)) :
    (BitVec.ofNat w n).signExtend v = BitVec.ofNat v n := by
  rw [BitVec.signExtend_eq_setWidth_of_msb_false (msb_small h)]
  apply BitVec.eq_of_toNat_eq
  rw [BitVec.toNat_setWidth, toNat_small (lt_of_lt_half h), BitVec.toNat_ofNat]

/-- The difference of numbers that does not go below zero. -/
lemma ofNat_sub {a b : ℕ} (h : b ≤ a) :
    BitVec.ofNat w a - BitVec.ofNat w b = BitVec.ofNat w (a - b) := by
  rw [BitVec.sub_eq_iff_eq_add, ← BitVec.ofNat_add, Nat.sub_add_cancel h]

/-- A word is negative when its number reaches half the word size. -/
lemma slt_zero_ofNat {n : ℕ} (h : n < 2 ^ w) :
    (BitVec.ofNat w n).slt 0#w = decide (2 ^ (w - 1) ≤ n) := by
  rw [BitVec.slt_zero_eq_msb, msb_ofNat h]

/-- A word is non-negative when its number is below half the word size. -/
lemma zero_sle_ofNat {n : ℕ} (h : n < 2 ^ w) :
    (0#w).sle (BitVec.ofNat w n) = decide (n < 2 ^ (w - 1)) := by
  rw [BitVec.zero_sle_eq_not_msb, msb_ofNat h, ← decide_not]
  simp

/-- A small positive number is above zero. -/
lemma not_sle_zero {n : ℕ} (hpos : 0 < n) (h : n < 2 ^ (w - 1)) :
    (BitVec.ofNat w n).sle 0#w = false := by
  rw [BitVec.sle_eq_decide, toInt_small h, BitVec.toInt_zero]
  exact decide_eq_false (by omega)

/-- Masking a word with `2 ^ k - 1` reduces its number modulo `2 ^ k`. -/
lemma and_mask {n k : ℕ} (hk : k < w) (h : n < 2 ^ w) :
    BitVec.ofNat w n &&& ((1#w <<< k) - 1#w) = BitVec.ofNat w (n % 2 ^ k) := by
  have hpow : (2 : ℕ) ^ k < 2 ^ w := Nat.pow_lt_pow_right (by norm_num) hk
  have hone : 1 ≤ 2 ^ k := Nat.one_le_two_pow
  have hmask : (1#w <<< k) - 1#w = BitVec.ofNat w (2 ^ k - 1) := by
    rw [show 1#w <<< k = BitVec.ofNat w (2 ^ k) from by
      apply BitVec.eq_of_toNat_eq
      rw [BitVec.toNat_shiftLeft, toNat_small (by omega), Nat.shiftLeft_eq, one_mul,
        BitVec.toNat_ofNat], ofNat_sub hone]
  apply BitVec.eq_of_toNat_eq
  rw [hmask, BitVec.toNat_and, toNat_small h, toNat_small (by omega),
    Nat.and_two_pow_sub_one_eq_mod, toNat_small ((Nat.mod_le _ _).trans_lt h)]

/-- On a number below `2 ^ k` a conjunction only sees the low `k` bits. -/
lemma land_mod {a b k : ℕ} (ha : a < 2 ^ k) : a &&& b = a &&& (b % 2 ^ k) := by
  apply Nat.eq_of_testBit_eq
  intro i
  rw [Nat.testBit_and, Nat.testBit_and, Nat.testBit_mod_two_pow]
  by_cases hi : i < k
  · simp [hi]
  · rw [Nat.testBit_lt_two_pow (ha.trans_le (Nat.pow_le_pow_right (by norm_num) (by omega)))]
    simp

/-- `b & -b` on the low `k` bits, for `b` below `2 ^ k`. -/
lemma and_neg_small {b k : ℕ} (hpos : 0 < b) (hb : b < 2 ^ k) (hk : k ≤ w) :
    BitVec.ofNat w b &&& -BitVec.ofNat w b = BitVec.ofNat w (b &&& (2 ^ k - b)) := by
  have hpow : (2 : ℕ) ^ k ≤ 2 ^ w := Nat.pow_le_pow_right (by norm_num) hk
  apply BitVec.eq_of_toNat_eq
  rw [BitVec.toNat_and, BitVec.toNat_neg, toNat_small (by omega), Nat.mod_eq_of_lt (by omega),
    toNat_small (Nat.and_le_left.trans_lt (by omega)), land_mod hb]
  congr 1
  obtain ⟨d, hd⟩ := Nat.pow_dvd_pow 2 hk
  rw [hd] at hpow ⊢
  obtain ⟨e, rfl⟩ : ∃ e, d = e + 1 :=
    ⟨d - 1, by rcases d with _ | d <;> simp_all⟩
  rw [show 2 ^ k * (e + 1) - b = 2 ^ k - b + 2 ^ k * e from by rw [mul_add]; omega,
    Nat.add_mul_mod_self_left, Nat.mod_eq_of_lt (by omega)]

/-- Numbers that fit are equal when their words are. -/
lemma ofNat_inj {a b : ℕ} (ha : a < 2 ^ w) (hb : b < 2 ^ w) :
    BitVec.ofNat w a = BitVec.ofNat w b ↔ a = b := by
  refine ⟨fun h => ?_, fun h => by rw [h]⟩
  rw [← toNat_small ha, h, toNat_small hb]

/-- The difference of words is the word of the difference. -/
lemma ofInt_sub (x y : ℤ) : BitVec.ofInt w x - BitVec.ofInt w y = BitVec.ofInt w (x - y) := by
  rw [BitVec.sub_eq_iff_eq_add, ← BitVec.ofInt_add, sub_add_cancel]

/-- An integer that fits is read as it is. -/
lemma toInt_ofInt (hw : 0 < w) {z : ℤ} (hlow : -2 ^ (w - 1) ≤ z) (hhigh : z < 2 ^ (w - 1)) :
    (BitVec.ofInt w z).toInt = z :=
  BitVec.toInt_ofInt_eq_self hw hlow hhigh

end RespBench.Lib.Words
