import RespBench.Lib.IntBits
import RespBench.Lib.Words
import RespBench.Random.Ports

/-!
# Parity of the ports with `java.util.Random`

Every port refines the 48-bit generator of `RespBench.Random.Basic` (`javaPort_refines`,
`goPort_refines`, `rustPort_refines`, `phpPort_refines`, `pythonPort_refines`, `nodePort_refines`):
its constructor stores the scrambled seed and its `nextInt` is `draw`, whatever the number of
rounds. The arithmetic differs in three places, each with its lemma: the state step (`word_step` for
the wrapping words, `php_nextBits` for PHP's split product, `int_step` for the unbounded integers),
the power-of-two test (`word_pow2`, `int_pow2`) and the rejection test (`word_sum` with the sign of
a word, the comparison with `2147483647`, `to_int32_nonneg_iff`, `toInt32_nonneg_iff`).

The headline `parity` puts the ports side by side. The number of rounds of the rejection loop is
`2 ^ 48` or anything above, which `drawsFrom_ok` shows to be enough.
-/

namespace RespBench.Random
open RespBench.Lib RespBench.Lib.Runs

/-! ## Facts about the draw -/

/-- The sum of the test stays in a word of 32 bits. -/
lemma sum_lt {bits b : ℕ} (hbits : bits < 2 ^ 31) (hb : b < 2 ^ 31) :
    bits - bits % b + (b - 1) < 2 ^ 32 := by omega

/-- The product stays in a word of 64 bits. -/
lemma product_lt {bits b : ℕ} (hbits : bits < 2 ^ 31) (hb : b < 2 ^ 31) :
    b * bits < 2 ^ 31 * 2 ^ 31 :=
  Nat.mul_lt_mul'' hb hbits

/-- The quotient has 31 bits. -/
lemma quotient_lt {bits b : ℕ} (hbits : bits < 2 ^ 31) (hb : b < 2 ^ 31) :
    b * bits / 2 ^ 31 < 2 ^ 31 :=
  Nat.div_lt_of_lt_mul (product_lt hbits hb)

/-- A drawn value is below the bound. -/
lemma drawLoop_val_lt {b : ℕ} (hb : 0 < b) {fuel s v s' : ℕ}
    (h : drawLoop b fuel s = .ok (v, s')) : v < b := by
  induction fuel generalizing s with
  | zero => cases h
  | succ fuel ih =>
    simp only [drawLoop] at h
    split at h
    · cases h
      exact Nat.mod_lt _ hb
    · exact ih h

/-! ## Words -/

/-- A word only depends on its number modulo the word size. -/
lemma ofNat_mod (n : ℕ) : BitVec.ofNat 64 n = BitVec.ofNat 64 (n % 2 ^ 64) := by
  apply BitVec.eq_of_toNat_eq
  simp

/-- A step of the generator in a word of 64 bits. -/
lemma word_step (s : ℕ) :
    (BitVec.ofNat 64 s * 0x5DEECE66D#64 + 0xB#64) &&& ((1#64 <<< 48) - 1#64)
      = BitVec.ofNat 64 (lcg s) := by
  rw [show (0x5DEECE66D#64 : BitVec 64) = BitVec.ofNat 64 0x5DEECE66D from rfl,
    show (0xB#64 : BitVec 64) = BitVec.ofNat 64 0xB from rfl, ← BitVec.ofNat_mul,
    ← BitVec.ofNat_add, ofNat_mod, Words.and_mask (by norm_num) (Nat.mod_lt _ (by norm_num)),
    Nat.mod_mod_of_dvd _ (by norm_num), mul_comm]
  rfl

/-- A scrambled seed in a word of 64 bits. -/
lemma word_scramble (seed : BitVec 64) :
    (seed ^^^ 0x5DEECE66D#64) &&& ((1#64 <<< 48) - 1#64) = BitVec.ofNat 64 (scramble seed) := by
  have hx : seed ^^^ 0x5DEECE66D#64 = BitVec.ofNat 64 (seed.toNat ^^^ 0x5DEECE66D) := by
    apply BitVec.eq_of_toNat_eq
    rw [BitVec.toNat_xor, Words.toNat_small (Nat.xor_lt_two_pow seed.isLt (by norm_num))]
    rfl
  rw [hx, Words.and_mask (by norm_num) (Nat.xor_lt_two_pow seed.isLt (by norm_num))]
  rfl

/-- The high bits by a logical shift. -/
lemma high_bits {s : ℕ} (h : s < 2 ^ 48) :
    (BitVec.ofNat 64 s >>> 17).setWidth 32 = BitVec.ofNat 32 (top31 s) := by
  rw [Words.ushiftRight_ofNat (by omega), BitVec.setWidth_ofNat_of_le (by norm_num)]
  rfl

/-- The high bits by a signed shift. -/
lemma high_bits_arith {s : ℕ} (h : s < 2 ^ 48) :
    ((BitVec.ofNat 64 s).sshiftRight 17).setWidth 32 = BitVec.ofNat 32 (top31 s) := by
  rw [Words.sshiftRight_small (by norm_num; omega), BitVec.setWidth_ofNat_of_le (by norm_num)]
  rfl

/-- The remainder in a word of 32 bits. -/
lemma word_rem {bits b : ℕ} (hbits : bits < 2 ^ 31) (hb : b < 2 ^ 31) :
    (BitVec.ofNat 32 bits).srem (BitVec.ofNat 32 b) = BitVec.ofNat 32 (bits % b) :=
  Words.srem_small hbits hb

/-- The sum of the test in a word of 32 bits. -/
lemma word_sum {bits b : ℕ} (hb : 0 < b) :
    BitVec.ofNat 32 bits - BitVec.ofNat 32 (bits % b) + (BitVec.ofNat 32 b - 1#32)
      = BitVec.ofNat 32 (bits - bits % b + (b - 1)) := by
  rw [Words.ofNat_sub (Nat.mod_le _ _), show (1#32 : BitVec 32) = BitVec.ofNat 32 1 from rfl,
    Words.ofNat_sub hb, ← BitVec.ofNat_add]

/-- The sum is negative exactly when the bits are rejected. -/
lemma word_reject {bits b : ℕ} (hbits : bits < 2 ^ 31) (hb : b < 2 ^ 31) :
    (BitVec.ofNat 32 (bits - bits % b + (b - 1))).slt 0#32 = !decide (Accepts b bits) := by
  rw [Words.slt_zero_ofNat (sum_lt hbits hb), ← decide_not]
  simp only [Accepts, not_lt]

/-- The sum is non-negative exactly when the bits are accepted. -/
lemma word_accept {bits b : ℕ} (hbits : bits < 2 ^ 31) (hb : b < 2 ^ 31) :
    (0#32).sle (BitVec.ofNat 32 (bits - bits % b + (b - 1))) = decide (Accepts b bits) :=
  Words.zero_sle_ofNat (sum_lt hbits hb)

/-- The power-of-two test, in words of any width from 31 bits on. -/
lemma word_pow2 {w b : ℕ} (hw : 31 ≤ w) (hb : 0 < b ∧ b < 2 ^ 31) :
    BitVec.ofNat w b &&& -BitVec.ofNat w b = BitVec.ofNat w b ↔ IsPow2 b := by
  have hpow : (2 : ℕ) ^ 31 ≤ 2 ^ w := Nat.pow_le_pow_right (by norm_num) hw
  rw [Words.and_neg_small hb.1 hb.2 hw,
    Words.ofNat_inj (Nat.and_le_left.trans_lt (by omega)) (by omega)]
  rfl

/-- The quotient in a word of 64 bits. -/
lemma word_product {bits b : ℕ} (hbits : bits < 2 ^ 31) (hb : b < 2 ^ 31) :
    (BitVec.ofNat 64 b * BitVec.ofNat 64 bits).sshiftRight 31
      = BitVec.ofNat 64 (b * bits / 2 ^ 31) := by
  rw [← BitVec.ofNat_mul, Words.sshiftRight_small ((product_lt hbits hb).trans (by norm_num))]

/-- The product of the power-of-two path, narrowed to an `int`. -/
lemma word_product_int {bits b : ℕ} (hbits : bits < 2 ^ 31) (hb : b < 2 ^ 31) :
    (((BitVec.ofNat 32 b).signExtend 64 * (BitVec.ofNat 32 bits).signExtend 64).sshiftRight
      31).setWidth 32 = BitVec.ofNat 32 (b * bits / 2 ^ 31) := by
  rw [Words.signExtend_small hb, Words.signExtend_small hbits, word_product hbits hb,
    BitVec.setWidth_ofNat_of_le (by norm_num)]

/-! ## Java -/

/-- The representation of a state in the Java class. -/
def javaRep (s : ℕ) : Java.JavaRandom := ⟨BitVec.ofNat 64 s⟩

/-- The next bits in Java. -/
lemma java_next (s : ℕ) :
    (javaRep s).next 31 = (BitVec.ofNat 32 (top31 (lcg s)), javaRep (lcg s)) := by
  simp only [Java.JavaRandom.next, javaRep, Java.multiplier, Java.addend, Java.mask]
  rw [word_step, high_bits (lcg_lt s)]

/-- The loop in Java is that of the draw. -/
lemma java_loop {b : ℕ} (hb : 0 < b ∧ b < 2 ^ 31) (fuel s : ℕ) :
    Java.JavaRandom.rejectionLoop (BitVec.ofNat 32 b) fuel (javaRep s)
      = (drawLoop b fuel s).map fun r => (BitVec.ofNat 32 r.1, javaRep r.2) := by
  induction fuel generalizing s with
  | zero => rfl
  | succ fuel ih =>
    have hbits := top31_lcg_lt s
    simp only [Java.JavaRandom.rejectionLoop, drawLoop, java_next]
    rw [word_rem hbits hb.2, word_sum hb.1, word_reject hbits hb.2, ih]
    by_cases h : Accepts b (top31 (lcg s))
    · simp only [h, decide_true, Bool.not_true, Bool.false_eq_true, if_false, if_true, Except.map]
    · simp only [h, decide_false, Bool.not_false, if_true, if_false]

/-- `java.util.Random` is the 48-bit generator. -/
theorem javaPort_refines : javaPort.Refines javaRep where
  new_eq seed := congrArg Java.JavaRandom.mk (word_scramble seed)
  nextInt_eq fuel b s hs := by
    have hbits := top31_lcg_lt s
    simp only [javaPort, Java.JavaRandom.nextInt, draw, word_pow2 (w := 32) (by norm_num) b.2,
      Words.not_sle_zero (w := 32) b.2.1 b.2.2, Bool.false_eq_true, if_false, java_next]
    split
    · simp only [Except.map, word_product_int hbits b.2.2]
      rw [Words.toInt_small (quotient_lt hbits b.2.2)]
    · rw [java_loop b.2]
      cases e : drawLoop b.1 fuel s with
      | error err => rfl
      | ok r =>
        have hv := drawLoop_val_lt b.2.1 e
        simp only [Except.map]
        rw [Words.toInt_small (hv.trans b.2.2)]

/-! ## Go -/

/-- The representation of a state in the Go class. -/
def goRep (s : ℕ) : Go.JavaRandom := ⟨BitVec.ofNat 64 s⟩

/-- The next bits in Go. -/
lemma go_next (s : ℕ) :
    (goRep s).next 31 = (BitVec.ofNat 32 (top31 (lcg s)), goRep (lcg s)) := by
  simp only [Go.JavaRandom.next, goRep, Go.jrMultiplier, Go.jrAddend, Go.jrMask]
  rw [word_step, high_bits_arith (lcg_lt s)]

/-- The loop in Go is that of the draw. -/
lemma go_loop {b : ℕ} (hb : 0 < b ∧ b < 2 ^ 31) (fuel s : ℕ) :
    Go.JavaRandom.rejectionLoop (BitVec.ofNat 64 b) fuel (goRep s)
      = (drawLoop b fuel s).map fun r => (BitVec.ofNat 64 r.1, goRep r.2) := by
  induction fuel generalizing s with
  | zero => rfl
  | succ fuel ih =>
    have hbits := top31_lcg_lt s
    have hlast : (BitVec.ofNat 64 b - 1#64).setWidth 32 = BitVec.ofNat 32 b - 1#32 := by
      rw [show (1#64 : BitVec 64) = BitVec.ofNat 64 1 from rfl, Words.ofNat_sub hb.1,
        BitVec.setWidth_ofNat_of_le (by norm_num),
        show (1#32 : BitVec 32) = BitVec.ofNat 32 1 from rfl, Words.ofNat_sub hb.1]
    have hne : BitVec.ofNat 32 b ≠ 0#32 := by
      intro h0
      have := congrArg BitVec.toNat h0
      rw [Words.toNat_small (hb.2.trans (by norm_num))] at this
      exact hb.1.ne' this
    simp only [Go.JavaRandom.rejectionLoop, drawLoop, go_next]
    rw [BitVec.setWidth_ofNat_of_le (by norm_num), if_neg hne, hlast, word_rem hbits hb.2,
      word_sum hb.1, word_accept hbits hb.2, ih]
    by_cases h : Accepts b (top31 (lcg s))
    · simp only [h, decide_true, if_true, Except.map]
      rw [Words.signExtend_small ((Nat.mod_lt _ hb.1).trans hb.2)]
    · simp only [h, decide_false, Bool.false_eq_true, if_false]

/-- The Go port is the 48-bit generator. -/
theorem goPort_refines : goPort.Refines goRep where
  new_eq seed := congrArg Go.JavaRandom.mk (word_scramble seed)
  nextInt_eq fuel b s hs := by
    have hbits := top31_lcg_lt s
    simp only [goPort, Go.JavaRandom.NextInt, draw, word_pow2 (w := 64) (by norm_num) b.2,
      Words.not_sle_zero (w := 64) b.2.1 (b.2.2.trans (by norm_num)), Bool.false_eq_true, if_false,
      go_next]
    split
    · simp only [Except.map]
      rw [Words.signExtend_small hbits, word_product hbits b.2.2,
        Words.toInt_small ((quotient_lt hbits b.2.2).trans (by norm_num))]
    · rw [go_loop b.2]
      cases e : drawLoop b.1 fuel s with
      | error err => rfl
      | ok r =>
        have hv := drawLoop_val_lt b.2.1 e
        simp only [Except.map]
        rw [Words.toInt_small ((hv.trans b.2.2).trans (by norm_num))]

/-! ## Rust -/

/-- The representation of a state in the Rust class. -/
def rustRep (s : ℕ) : Rust.JavaRandom := ⟨BitVec.ofNat 64 s⟩

/-- The next bits in Rust. -/
lemma rust_nextBits (s : ℕ) :
    (rustRep s).nextBits 31 = (BitVec.ofNat 32 (top31 (lcg s)), rustRep (lcg s)) := by
  simp only [Rust.JavaRandom.nextBits, rustRep, Rust.MULTIPLIER, Rust.ADDEND, Rust.MASK]
  rw [word_step, high_bits_arith (lcg_lt s)]

/-- The loop in Rust is that of the draw. -/
lemma rust_loop {b : ℕ} (hb : 0 < b ∧ b < 2 ^ 31) (fuel s : ℕ) :
    Rust.JavaRandom.rejectionLoop (BitVec.ofNat 32 b) fuel (rustRep s)
      = (drawLoop b fuel s).map fun r => (BitVec.ofNat 32 r.1, rustRep r.2) := by
  induction fuel generalizing s with
  | zero => rfl
  | succ fuel ih =>
    have hbits := top31_lcg_lt s
    simp only [Rust.JavaRandom.rejectionLoop, drawLoop, rust_nextBits]
    rw [word_rem hbits hb.2, word_sum hb.1, word_accept hbits hb.2, ih]
    by_cases h : Accepts b (top31 (lcg s))
    · simp only [h, decide_true, if_true, Except.map]
    · simp only [h, decide_false, Bool.false_eq_true, if_false]

/-- The Rust port is the 48-bit generator. -/
theorem rustPort_refines : rustPort.Refines rustRep where
  new_eq seed := congrArg Rust.JavaRandom.mk (word_scramble seed)
  nextInt_eq fuel b s hs := by
    have hbits := top31_lcg_lt s
    simp only [rustPort, Rust.JavaRandom.nextInt, draw, word_pow2 (w := 32) (by norm_num) b.2,
      Words.not_sle_zero (w := 32) b.2.1 b.2.2, Bool.false_eq_true, if_false, rust_nextBits]
    split
    · simp only [Except.map, word_product_int hbits b.2.2]
      rw [Words.toInt_small (quotient_lt hbits b.2.2)]
    · rw [rust_loop b.2]
      cases e : drawLoop b.1 fuel s with
      | error err => rfl
      | ok r =>
        have hv := drawLoop_val_lt b.2.1 e
        simp only [Except.map]
        rw [Words.toInt_small (hv.trans b.2.2)]

/-! ## Unbounded and checked integers -/

/-- A step of the generator in unbounded integers. -/
lemma int_step (s : ℕ) :
    Int.land ((s : ℤ) * 0x5DEECE66D + 0xB) (2 ^ 48 - 1) = (lcg s : ℕ) := by
  rw [IntBits.land_mask, mul_comm]
  rfl

/-- The constructor on an integer only looks at its low bits. -/
lemma int_scramble_ofInt (z : ℤ) :
    Int.land (Int.xor z 0x5DEECE66D) (2 ^ 48 - 1) = (scramble (BitVec.ofInt 64 z) : ℕ) := by
  have hlow : (z % 2 ^ 48).toNat = (BitVec.ofInt 64 z).toNat % 2 ^ 48 := by
    rw [BitVec.toNat_ofInt]
    omega
  rw [IntBits.land_mask, IntBits.xor_emod, hlow, scramble, Nat.xor_mod_two_pow]
  rfl

/-- A scrambled seed in unbounded integers. -/
lemma int_scramble (seed : BitVec 64) :
    Int.land (Int.xor seed.toInt 0x5DEECE66D) (2 ^ 48 - 1) = (scramble seed : ℕ) := by
  rw [int_scramble_ofInt, BitVec.ofInt_toInt]

/-- The high bits of an integer. -/
lemma int_high_bits (s : ℕ) : (s : ℤ) >>> (17 : ℕ) = (top31 s : ℕ) := by
  rw [Int.shiftRight_eq_div_pow]
  rfl

/-- The bitwise test of an integer finds the powers of two. -/
lemma int_pow2 {b : ℕ} (hb : 0 < b ∧ b < 2 ^ 31) : Int.land b (-b) = b ↔ IsPow2 b := by
  rw [IntBits.land_neg hb.1 hb.2]
  exact Nat.cast_inj

/-- The quotient of integers. -/
lemma int_product (b bits : ℕ) : ((b : ℤ) * bits) >>> (31 : ℕ) = (b * bits / 2 ^ 31 : ℕ) := by
  rw [Int.shiftRight_eq_div_pow]
  push_cast
  rfl

/-- The sum of the test in unbounded integers. -/
lemma int_sum {bits b : ℕ} (hb : 0 < b) :
    (bits : ℤ) - ((bits % b : ℕ) : ℤ) + ((b : ℤ) - 1) = (bits - bits % b + (b - 1) : ℕ) := by
  have h := Nat.mod_le bits b
  omega

/-! ## PHP -/

/-- The representation of a state in the PHP class. -/
def phpRep (s : ℕ) : Php.JavaRandom := ⟨(s : ℤ)⟩

/-- The split multiplication is the product modulo `2 ^ 48`. -/
lemma split_product {s : ℕ} (a : ℕ) :
    (s % 2 ^ 24 * a + s / 2 ^ 24 * a % 2 ^ 24 * 2 ^ 24) % 2 ^ 48 = s * a % 2 ^ 48 := by
  have hmod : s / 2 ^ 24 * a % 2 ^ 24 * 2 ^ 24 = s / 2 ^ 24 * a * 2 ^ 24 % 2 ^ 48 := by
    rw [show (2 : ℕ) ^ 48 = 2 ^ 24 * 2 ^ 24 from by norm_num, Nat.mul_mod_mul_right]
  have hs : s * a = s % 2 ^ 24 * a + s / 2 ^ 24 * a * 2 ^ 24 := by
    nth_rewrite 1 [← Nat.mod_add_div s (2 ^ 24)]
    ring
  rw [hmod, Nat.add_mod_mod, hs]

/-- A checked operation whose result is a small natural number succeeds. -/
lemma php_int {a : ℤ} {n : ℕ} (h : a = n) (hn : n < 2 ^ 63) :
    Php.int (CheckedInt.check a) = .ok (n : ℤ) := by
  rw [h, CheckedInt.check_eq ⟨by omega, by omega⟩]
  rfl

/-- The product of a half stays in the integers of PHP. -/
lemma php_mul {a : ℕ} (ha : a < 2 ^ 24) :
    Php.int (CheckedInt.mul a 0x5DEECE66D) = .ok ((a * 0x5DEECE66D : ℕ) : ℤ) :=
  php_int (by push_cast; ring) (by omega)

/-- The shifted half stays in the integers of PHP. -/
lemma php_shl {a : ℕ} (ha : a < 2 ^ 24) : CheckedInt.shl a 24 = ((a * 2 ^ 24 : ℕ) : ℤ) := by
  rw [CheckedInt.shl_eq ⟨by omega, by omega⟩]
  push_cast
  ring

/-- A sum that stays in the integers of PHP. -/
lemma php_add {a b : ℕ} (h : a + b < 2 ^ 63) :
    Php.int (CheckedInt.add a b) = .ok ((a + b : ℕ) : ℤ) :=
  php_int (by push_cast; ring) h

/-- The low 24 bits. -/
lemma land_24 (n : ℕ) : Int.land (n : ℤ) 0xFFFFFF = ((n % 2 ^ 24 : ℕ) : ℤ) := by
  rw [show (0xFFFFFF : ℤ) = 2 ^ 24 - 1 from by norm_num, IntBits.land_mask]
  push_cast
  ring

/-- The low 48 bits. -/
lemma land_48 (n : ℕ) : Int.land (n : ℤ) (2 ^ 48 - 1) = ((n % 2 ^ 48 : ℕ) : ℤ) := by
  rw [IntBits.land_mask]
  push_cast
  ring

/-- Both halves together stay in the integers of PHP. -/
lemma split_lt {lo hi : ℕ} (hlo : lo < 2 ^ 24) (hhi : hi < 2 ^ 24) :
    lo * 0x5DEECE66D + hi * 2 ^ 24 < 2 ^ 63 := by omega

/-- A draw of bits in PHP: no partial result leaves the 64-bit integers. -/
lemma php_nextBits {s : ℕ} (hs : s < 2 ^ 48) :
    (phpRep s).nextBits 31 = .ok ((top31 (lcg s) : ℕ), phpRep (lcg s)) := by
  have hlo : s % 2 ^ 24 < 2 ^ 24 := Nat.mod_lt _ (by norm_num)
  have hhi : s / 2 ^ 24 < 2 ^ 24 := Nat.div_lt_of_lt_mul (by rw [← pow_add]; exact hs)
  have hr : s / 2 ^ 24 * 0x5DEECE66D % 2 ^ 24 < 2 ^ 24 := Nat.mod_lt _ (by norm_num)
  have hp : s * 0x5DEECE66D % 2 ^ 48 < 2 ^ 48 := Nat.mod_lt _ (by norm_num)
  have hshr : (s : ℤ) >>> (24 : ℕ) = ((s / 2 ^ 24 : ℕ) : ℤ) := by
    rw [Int.shiftRight_eq_div_pow]
    push_cast
    rfl
  have hstep : (s * 0x5DEECE66D % 2 ^ 48 + 0xB) % 2 ^ 48 = lcg s := by
    rw [Nat.mod_add_mod, mul_comm]
    rfl
  unfold Php.JavaRandom.nextBits
  simp only [phpRep, Php.MULTIPLIER, Php.MASK, hshr, land_24, Nat.mod_eq_of_lt hhi]
  rw [php_mul hlo, ok_bind, php_mul hhi, ok_bind, land_24, php_shl hr, php_add (split_lt hlo hr),
    ok_bind, land_48, split_product, show Php.ADDEND = ((0xB : ℕ) : ℤ) from rfl,
    php_add ((Nat.add_lt_add_right hp 0xB).trans (by norm_num)), ok_bind, land_48, hstep,
    int_high_bits]
  rfl

/-- The comparison with `2147483647` is the rejection test. -/
lemma le_maxInt_iff {b bits : ℕ} :
    ((bits - bits % b + (b - 1) : ℕ) : ℤ) ≤ 2147483647 ↔ Accepts b bits := by
  unfold Accepts
  omega

/-- The loop in PHP is that of the draw. -/
lemma php_loop {b : ℕ} (hb : 0 < b ∧ b < 2 ^ 31) (fuel : ℕ) {s : ℕ} (hs : s < 2 ^ 48) :
    Php.JavaRandom.rejectionLoop (b : ℤ) fuel (phpRep s)
      = (drawLoop b fuel s).map fun r => ((r.1 : ℤ), phpRep r.2) := by
  induction fuel generalizing s with
  | zero => rfl
  | succ fuel ih =>
    have hbits := top31_lcg_lt s
    have hle := Nat.mod_le (top31 (lcg s)) b
    have hrem : ((top31 (lcg s) : ℕ) : ℤ).tmod (b : ℤ) = (top31 (lcg s) % b : ℕ) :=
      Int.ofNat_tmod _ _
    have hdiff : Php.int (CheckedInt.sub (top31 (lcg s) : ℕ) (top31 (lcg s) % b : ℕ))
        = .ok ((top31 (lcg s) - top31 (lcg s) % b : ℕ) : ℤ) := php_int (by omega) (by omega)
    have hlast : Php.int (CheckedInt.sub b 1) = .ok ((b - 1 : ℕ) : ℤ) :=
      php_int (by omega) (by omega)
    rw [Php.JavaRandom.rejectionLoop, drawLoop, php_nextBits hs, ok_bind]
    dsimp only
    rw [hrem, hdiff, ok_bind, hlast, ok_bind,
      php_add ((sum_lt hbits hb.2).trans (by norm_num)), ok_bind, ih (lcg_lt s)]
    simp only [le_maxInt_iff]
    split <;> rfl

/-- The PHP port is the 48-bit generator. -/
theorem phpPort_refines : phpPort.Refines phpRep where
  new_eq seed := congrArg Php.JavaRandom.mk (int_scramble seed)
  nextInt_eq fuel b s hs := by
    have hb := b.2
    have hprod := product_lt (top31_lcg_lt s) hb.2
    have hneg : Php.int (CheckedInt.sub 0 (b.1 : ℤ)) = .ok (-(b.1 : ℤ)) := by
      rw [CheckedInt.sub, CheckedInt.check_eq ⟨by omega, by omega⟩, zero_sub]
      rfl
    have hmul : Php.int (CheckedInt.mul b.1 (top31 (lcg s) : ℕ))
        = .ok ((b.1 * top31 (lcg s) : ℕ) : ℤ) := php_int (by push_cast; rfl) (by omega)
    simp only [phpPort, Php.JavaRandom.nextInt, draw]
    rw [if_neg (by omega), hneg, ok_bind]
    simp only [int_pow2 hb]
    split
    · rw [php_nextBits hs, ok_bind]
      dsimp only
      rw [hmul, ok_bind, Nat.cast_mul, int_product]
      rfl
    · exact php_loop hb fuel hs

/-! ## Python -/

/-- The representation of a state in the Python class. -/
def pythonRep (s : ℕ) : Python.JavaRandom := ⟨(s : ℤ)⟩

/-- The next bits in Python. -/
lemma python_next_bits (s : ℕ) :
    (pythonRep s).next_bits 31 = ((top31 (lcg s) : ℤ), pythonRep (lcg s)) := by
  simp only [Python.JavaRandom.next_bits, pythonRep, Python.MULTIPLIER, Python.ADDEND, Python.MASK]
  rw [int_step, int_high_bits]

/-- The sign of the emulated 32-bit sum is the rejection test. -/
lemma to_int32_nonneg_iff {bits b : ℕ} (hbits : bits < 2 ^ 31) (hb : b < 2 ^ 31) :
    Python.to_int32 (bits - bits % b + (b - 1) : ℕ) ≥ 0 ↔ Accepts b bits := by
  have h := sum_lt hbits hb
  unfold Accepts
  generalize bits - bits % b + (b - 1) = n at h ⊢
  have hmask : Int.land (n : ℤ) 0xFFFFFFFF = n := by
    rw [show (0xFFFFFFFF : ℤ) = 2 ^ 32 - 1 from by norm_num, IntBits.land_mask]
    exact Int.emod_eq_of_lt (by omega) (by omega)
  simp only [Python.to_int32, hmask]
  split <;> omega

/-- The loop in Python is that of the draw. -/
lemma python_loop {b : ℕ} (hb : 0 < b ∧ b < 2 ^ 31) (fuel s : ℕ) :
    Python.JavaRandom.rejectionLoop (b : ℤ) fuel (pythonRep s)
      = (drawLoop b fuel s).map fun r => ((r.1 : ℤ), pythonRep r.2) := by
  induction fuel generalizing s with
  | zero => rfl
  | succ fuel ih =>
    have hbits := top31_lcg_lt s
    have hrem : ((top31 (lcg s) : ℕ) : ℤ) % (b : ℤ) = (top31 (lcg s) % b : ℕ) :=
      (Int.natCast_mod _ _).symm
    simp only [Python.JavaRandom.rejectionLoop, drawLoop, python_next_bits, hrem, int_sum hb.1,
      to_int32_nonneg_iff hbits hb.2, ih]
    split <;> rfl

/-- The Python port is the 48-bit generator. -/
theorem pythonPort_refines : pythonPort.Refines pythonRep where
  new_eq seed := congrArg Python.JavaRandom.mk (int_scramble seed)
  nextInt_eq fuel b s hs := by
    have hb := b.2
    simp only [pythonPort, Python.JavaRandom.next_int, draw, int_pow2 hb,
      python_next_bits, int_product, python_loop hb]
    rw [if_neg (by omega)]
    split <;> rfl

/-! ## Node -/

/-- The representation of a state in the Node class. -/
def nodeRep (s : ℕ) : Node.JavaRandom := ⟨(s : ℤ)⟩

/-- The next bits in Node. -/
lemma node_next (s : ℕ) : (nodeRep s).next 31 = ((top31 (lcg s) : ℤ), nodeRep (lcg s)) := by
  simp only [Node.JavaRandom.next, nodeRep, Node.MULTIPLIER, Node.ADDEND, Node.MASK]
  rw [int_step, int_high_bits]

/-- The sign of the converted sum is the rejection test. -/
lemma toInt32_nonneg_iff {bits b : ℕ} (hbits : bits < 2 ^ 31) (hb : b < 2 ^ 31) :
    Node.toInt32 (bits - bits % b + (b - 1) : ℕ) ≥ 0 ↔ Accepts b bits := by
  have h := sum_lt hbits hb
  unfold Accepts Node.toInt32
  generalize bits - bits % b + (b - 1) = n at h ⊢
  rcases lt_or_ge n (2 ^ 31) with hn | hn
  · rw [Int.bmod_eq_of_le (by omega) (by omega)]
    omega
  · have : (n : ℤ).bmod (2 ^ 32) = n - 2 ^ 32 := by
      rw [← Int.bmod_eq_of_le (n := (n : ℤ) - 2 ^ 32) (m := 2 ^ 32) (by omega) (by omega)]
      exact (Int.sub_bmod_right (n : ℤ) (2 ^ 32)).symm
    rw [this]
    omega

/-- The loop in Node is that of the draw. -/
lemma node_loop {b : ℕ} (hb : 0 < b ∧ b < 2 ^ 31) (fuel s : ℕ) :
    Node.JavaRandom.rejectionLoop (b : ℤ) fuel (nodeRep s)
      = (drawLoop b fuel s).map fun r => ((r.1 : ℤ), nodeRep r.2) := by
  induction fuel generalizing s with
  | zero => rfl
  | succ fuel ih =>
    have hbits := top31_lcg_lt s
    have hrem : ((top31 (lcg s) : ℕ) : ℤ).tmod (b : ℤ) = (top31 (lcg s) % b : ℕ) :=
      Int.ofNat_tmod _ _
    simp only [Node.JavaRandom.rejectionLoop, drawLoop, node_next, hrem, int_sum hb.1,
      toInt32_nonneg_iff hbits hb.2, ih]
    split <;> rfl

/-- The Node port is the 48-bit generator. -/
theorem nodePort_refines : nodePort.Refines nodeRep where
  new_eq seed := congrArg Node.JavaRandom.mk (int_scramble seed)
  nextInt_eq fuel b s hs := by
    have hb := b.2
    have hbound : Node.toInt32 (b.1 : ℤ) = b.1 := Int.bmod_eq_of_le (by omega) (by omega)
    have hneg : Node.toInt32 (-(b.1 : ℤ)) = -b.1 := Int.bmod_eq_of_le (by omega) (by omega)
    simp only [nodePort, Node.JavaRandom.nextInt, draw, hbound, hneg, int_pow2 hb, node_next,
      int_product, node_loop hb]
    rw [if_neg (by omega)]
    split <;> rfl

/-! ## Parity -/

/-- For every seed and every list of bounds the five ports draw the values that `java.util.Random`
draws: with `2 ^ 48` rounds of the rejection loop, or any larger number, all of them return the same
list. -/
theorem parity (seed : BitVec 64) (bounds : List Bound) :
    ∃ vs : List ℤ, ∀ extra,
      javaPort.draws (2 ^ 48 + extra) seed bounds = .ok vs ∧
      goPort.draws (2 ^ 48 + extra) seed bounds = .ok vs ∧
      phpPort.draws (2 ^ 48 + extra) seed bounds = .ok vs ∧
      pythonPort.draws (2 ^ 48 + extra) seed bounds = .ok vs ∧
      rustPort.draws (2 ^ 48 + extra) seed bounds = .ok vs ∧
      nodePort.draws (2 ^ 48 + extra) seed bounds = .ok vs := by
  obtain ⟨vs, hvs⟩ := drawsFrom_ok bounds (scramble seed)
  refine ⟨vs, fun extra => ?_⟩
  rw [javaPort_refines.draws_eq, goPort_refines.draws_eq, phpPort_refines.draws_eq,
    pythonPort_refines.draws_eq, rustPort_refines.draws_eq, nodePort_refines.draws_eq]
  exact ⟨hvs extra, hvs extra, hvs extra, hvs extra, hvs extra, hvs extra⟩

end RespBench.Random
