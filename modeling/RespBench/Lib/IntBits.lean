import Mathlib

/-!
# Bitwise operations on unbounded integers

Conjunction and exclusive or of integers in two's complement (`Int.land`, `Int.xor`) commute with
the reduction modulo a power of two: the low `n` bits of the result are those of the operands'
residues (`land_emod`, `xor_emod`). Masking with `2 ^ n - 1` is that reduction (`land_mask`), and `b
& -b` can be computed on the low bits alone (`land_neg`), so that languages with unbounded, 64-bit
and 32-bit integers can be compared on natural numbers.
-/

namespace RespBench.Lib.IntBits

/-- Reduction modulo `2 ^ (n + 1)` keeps the lowest bit and reduces the rest modulo `2 ^ n`. -/
lemma emod_two_pow_succ (a : ℤ) (n : ℕ) :
    a % 2 ^ (n + 1) = Int.bit a.bodd (a.div2 % 2 ^ n) := by
  conv_lhs => rw [← Int.bit_decomp a]
  rw [Int.bit_val, Int.bit_val, pow_succ']
  have hb : (cond a.bodd 1 0 : ℤ) = 0 ∨ (cond a.bodd 1 0 : ℤ) = 1 := by cases a.bodd <;> simp
  generalize (cond a.bodd 1 0 : ℤ) = b at hb
  have hpos : (0 : ℤ) < 2 ^ n := by positivity
  have h1 := Int.emod_nonneg a.div2 hpos.ne'
  have h2 := Int.emod_lt_of_pos a.div2 hpos
  have h3 := Int.mul_ediv_add_emod a.div2 (2 ^ n)
  rw [show 2 * a.div2 + b = 2 * (a.div2 % 2 ^ n) + b + 2 * 2 ^ n * (a.div2 / 2 ^ n) from by
    linear_combination -2 * h3, Int.add_mul_emod_self_left]
  exact Int.emod_eq_of_lt (by omega) (by omega)

/-- A bit in front of an integer that is not negative is one in front of the natural number. -/
lemma toNat_bit (b : Bool) {a : ℤ} (ha : 0 ≤ a) : (Int.bit b a).toNat = Nat.bit b a.toNat := by
  obtain ⟨k, rfl⟩ := Int.eq_ofNat_of_zero_le ha
  simp

/-- The low bits of a bitwise operation are the operation on the low bits. -/
lemma bitwise_emod {f : Bool → Bool → Bool} (hf : f false false = false) (a b : ℤ) (n : ℕ) :
    (Int.bitwise f a b % 2 ^ n).toNat = Nat.bitwise f (a % 2 ^ n).toNat (b % 2 ^ n).toNat := by
  induction n generalizing a b with
  | zero => simp
  | succ n ih =>
    have hpos : (0 : ℤ) < 2 ^ n := by positivity
    have hab := Int.bitwise_bit f a.bodd a.div2 b.bodd b.div2
    rw [Int.bit_decomp, Int.bit_decomp] at hab
    have hodd : (Int.bitwise f a b).bodd = f a.bodd b.bodd := by rw [hab, Int.bodd_bit]
    have hdiv : (Int.bitwise f a b).div2 = Int.bitwise f a.div2 b.div2 := by
      have h := Int.bit_decomp (Int.bitwise f a b)
      rw [hodd] at h
      nth_rewrite 2 [hab] at h
      rw [Int.bit_val, Int.bit_val] at h
      omega
    rw [emod_two_pow_succ, emod_two_pow_succ a, emod_two_pow_succ b,
      toNat_bit _ (Int.emod_nonneg _ hpos.ne'), toNat_bit _ (Int.emod_nonneg _ hpos.ne'),
      toNat_bit _ (Int.emod_nonneg _ hpos.ne'), Nat.bitwise_bit hf, hodd, hdiv, ih]

/-- The low bits of a conjunction. -/
theorem land_emod (a b : ℤ) (n : ℕ) :
    Int.land a b % 2 ^ n = ((a % 2 ^ n).toNat &&& (b % 2 ^ n).toNat : ℕ) := by
  have h := bitwise_emod (f := and) rfl a b n
  rw [Int.bitwise_and] at h
  rw [← Int.toNat_of_nonneg (Int.emod_nonneg (Int.land a b) (by positivity)), h]
  rfl

/-- The low bits of an exclusive or. -/
theorem xor_emod (a b : ℤ) (n : ℕ) :
    Int.xor a b % 2 ^ n = ((a % 2 ^ n).toNat ^^^ (b % 2 ^ n).toNat : ℕ) := by
  have h := bitwise_emod (f := xor) rfl a b n
  rw [Int.bitwise_xor] at h
  rw [← Int.toNat_of_nonneg (Int.emod_nonneg (Int.xor a b) (by positivity)), h]
  rfl

/-- A conjunction with a non-negative integer lies between `0` and that integer. -/
lemma land_natCast_nonneg (a : ℤ) (m : ℕ) : 0 ≤ Int.land a m ∧ Int.land a m ≤ m := by
  cases a with
  | ofNat k =>
    have h : Int.land (Int.ofNat k) m = ((k &&& m : ℕ) : ℤ) := rfl
    rw [h]
    exact ⟨Int.natCast_nonneg _, Int.ofNat_le.mpr Nat.and_le_right⟩
  | negSucc k =>
    have h : Int.land (Int.negSucc k) m = ((Nat.ldiff m k : ℕ) : ℤ) := rfl
    rw [h]
    refine ⟨Int.natCast_nonneg _, Int.ofNat_le.mpr ?_⟩
    apply Nat.le_of_testBit
    intro i hi
    rw [Nat.testBit_ldiff] at hi
    simp_all

/-- The bitwise conjunction commutes. -/
lemma land_comm (a b : ℤ) : Int.land a b = Int.land b a := by
  cases a <;> cases b <;> simp only [Int.land, Nat.land_comm, Nat.lor_comm]

/-- Masking with `2 ^ n - 1` is reduction modulo `2 ^ n`. -/
theorem land_mask (a : ℤ) (n : ℕ) : Int.land a (2 ^ n - 1) = a % 2 ^ n := by
  have hpos : (0 : ℤ) < 2 ^ n := by positivity
  have hmask : ((2 ^ n - 1 : ℕ) : ℤ) = 2 ^ n - 1 := by
    rw [Nat.cast_sub Nat.one_le_two_pow]
    simp
  have hle := land_natCast_nonneg a (2 ^ n - 1)
  rw [hmask] at hle
  rw [← Int.emod_eq_of_lt hle.1 (by omega : Int.land a (2 ^ n - 1) < 2 ^ n), land_emod,
    Int.emod_eq_of_lt (by omega) (by omega : (2 ^ n - 1 : ℤ) < 2 ^ n), ← hmask, Int.toNat_natCast,
    Nat.and_two_pow_sub_one_eq_mod]
  have hr := Int.emod_lt_of_pos a hpos
  have hr0 := Int.emod_nonneg a hpos.ne'
  rw [Nat.mod_eq_of_lt (by zify; rw [Int.toNat_of_nonneg hr0]; exact hr), Int.toNat_of_nonneg hr0]

/-- `b & -b` on the low `n` bits, for `b` below `2 ^ n`. -/
theorem land_neg {b n : ℕ} (hpos : 0 < b) (hb : b < 2 ^ n) :
    Int.land b (-b) = (b &&& (2 ^ n - b) : ℕ) := by
  have hle := land_natCast_nonneg (-b) b
  rw [land_comm] at hle
  have hbn : (b : ℤ) < 2 ^ n := by exact_mod_cast hb
  rw [← Int.emod_eq_of_lt hle.1 (by omega : Int.land b (-b) < 2 ^ n), land_emod,
    Int.emod_eq_of_lt (by omega) hbn, Int.toNat_natCast]
  have hneg : (-(b : ℤ)) % 2 ^ n = ((2 ^ n - b : ℕ) : ℤ) := by
    rw [Nat.cast_sub hb.le, ← Int.add_emod_right, Int.emod_eq_of_lt (by omega) (by omega)]
    push_cast
    ring
  rw [hneg, Int.toNat_natCast]

/-- A number equals `b & -b`, on so many bits, exactly when it is a power of two. -/
theorem and_two_pow_sub {b n : ℕ} (hpos : 0 < b) (hb : b < 2 ^ n) :
    b &&& (2 ^ n - b) = b ↔ b.isPowerOfTwo := by
  have hbit : ∀ i, (b &&& (2 ^ n - b)).testBit i = (b.testBit i && !(b - 1).testBit i) := by
    intro i
    rw [Nat.testBit_and, show 2 ^ n - b = 2 ^ n - (b - 1 + 1) by omega,
      Nat.testBit_two_pow_sub_succ (by omega)]
    by_cases hi : i < n
    · rw [decide_eq_true hi, Bool.true_and]
    · rw [Nat.testBit_lt_two_pow (hb.trans_le (Nat.pow_le_pow_right (by norm_num) (by omega))),
        Bool.false_and, Bool.false_and]
  rw [← Nat.and_sub_one_eq_zero_iff_isPowerOfTwo hpos.ne']
  refine ⟨fun h => ?_, fun h => ?_⟩
  · apply Nat.eq_of_testBit_eq
    intro i
    have hi := hbit i
    rw [h] at hi
    rw [Nat.testBit_and, Nat.zero_testBit]
    cases hx : b.testBit i <;> simp_all
  · apply Nat.eq_of_testBit_eq
    intro i
    have hi := congrArg (fun m => m.testBit i) h
    simp only [Nat.testBit_and, Nat.zero_testBit] at hi
    rw [hbit]
    cases hx : b.testBit i <;> simp_all

/-- `b & -b = b` on integers, for the powers of two. -/
lemma land_neg_eq_iff {b : ℕ} (hpos : 0 < b) : Int.land b (-b) = b ↔ b.isPowerOfTwo := by
  have hb : b < 2 ^ b := Nat.lt_two_pow_self
  rw [land_neg hpos hb, Nat.cast_inj, and_two_pow_sub hpos hb]

end RespBench.Lib.IntBits
