import RespBench.Keys.Uniform

/-!
# Numbers of keys with safe random keys

`safe_iff` says for which numbers of keys the random keys of an engine are safe. Below `2 ^ 31`
all engines do what Java does. From there on they part: Rust narrows the number to 32 bits, Go
narrows it in the general case only, PHP accepts no bits in the general case, and Python accepts
by the low 32 bits of the number.
-/

namespace RespBench.Keys.Uniform
open RespBench.Lib
open RespBench.Random (Accepts)

/-- The numbers of keys that are safe. -/
def Engine.SafeFor : Engine → ℕ → Prop
  | .rust, keysCount => keysCount < 2 ^ 31
  | .python, keysCount => keysCount.isPowerOfTwo ∨ (keysCount - 1) % 2 ^ 32 < 2 ^ 31
  | .php, keysCount => keysCount ≤ 2 ^ 31 ∨ keysCount = 2 ^ 32
  | .go, keysCount => keysCount < 2 ^ 31 ∨ keysCount = 2 ^ 32 ∨ keysCount % 2 ^ 32 = 2 ^ 31

section General
variable {engine : Engine} {k bits : ℕ}

/-! ## The indices of a bound -/

/-- For a power of two the index is taken from the high bits. -/
lemma boundedIndex_of_pow2 (hk : k.isPowerOfTwo) (bits : ℕ) :
    boundedIndex k bits = k * bits / 2 ^ 31 := if_pos hk

/-- Otherwise it is the remainder. -/
lemma boundedIndex_of_not_pow2 (hk : ¬ k.isPowerOfTwo) (bits : ℕ) :
    boundedIndex k bits = bits % k := if_neg hk

/-- A bounded index is below the bound. -/
lemma boundedIndex_lt (hpos : 0 < k) (hbits : bits < 2 ^ 31) : boundedIndex k bits < k := by
  unfold boundedIndex
  split
  · apply Nat.div_lt_of_lt_mul
    rw [mul_comm]
    exact Nat.mul_lt_mul_of_pos_right hbits hpos
  · exact Nat.mod_lt _ hpos

/-- A bound up to `2 ^ 31` produces all of them. -/
theorem producible_iff (hpos : 0 < k) (hk : k ≤ 2 ^ 31) (index : ℤ) :
    Producible k index ↔ 0 ≤ index ∧ index < k := by
  refine ⟨?_, fun h => ?_⟩
  · rintro ⟨bits, hbits, rfl⟩
    have hlt := boundedIndex_lt hpos hbits
    omega
  · obtain ⟨n, rfl⟩ := Int.eq_ofNat_of_zero_le h.1
    have hn : n < k := Int.ofNat_lt.mp h.2
    by_cases hpow : k.isPowerOfTwo
    · obtain ⟨j, rfl⟩ := hpow
      have hj : j ≤ 31 := (Nat.pow_le_pow_iff_right (by norm_num)).mp hk
      have hsplit : 2 ^ 31 = 2 ^ j * 2 ^ (31 - j) := by rw [← pow_add, Nat.add_sub_cancel' hj]
      refine ⟨n * 2 ^ (31 - j), ?_, ?_⟩
      · rw [hsplit]
        exact Nat.mul_lt_mul_of_pos_right hn (by positivity)
      · rw [boundedIndex_of_pow2 ⟨j, rfl⟩,
          show 2 ^ j * (n * 2 ^ (31 - j)) = n * 2 ^ 31 by rw [hsplit]; ring,
          Nat.mul_div_cancel _ (by norm_num)]
    · exact ⟨n, by omega, by rw [boundedIndex_of_not_pow2 hpow, Nat.mod_eq_of_lt hn]⟩

/-- A bound above that is no power of two takes the bits as they are. -/
lemma boundedIndex_of_large (hpow : ¬ k.isPowerOfTwo) (hk : 2 ^ 31 ≤ k) (hbits : bits < 2 ^ 31) :
    boundedIndex k bits = bits := by
  rw [boundedIndex_of_not_pow2 hpow, Nat.mod_eq_of_lt (by omega)]

/-- Between two powers of two there is none. -/
lemma le_of_pow2_lt (hk : k.isPowerOfTwo) {m : ℕ} (h : k < 2 ^ (m + 1)) : k ≤ 2 ^ m := by
  obtain ⟨j, rfl⟩ := hk
  have hj : j < m + 1 := (Nat.pow_lt_pow_iff_right (by norm_num)).mp h
  exact Nat.pow_le_pow_right (by norm_num) (Nat.le_of_lt_succ hj)

/-! ## Criteria -/

/-- An engine that makes of all bits what the bound makes of them is safe. -/
lemma judged_of_forall (h : ∀ bits < 2 ^ 31, engine.judge k bits
      = some (some ((boundedIndex k bits : ℕ) : ℤ))) :
    Judged engine k := by
  refine ⟨fun bits hbits hfault => ?_, fun bits hbits index hindex => ?_, ?_⟩
  · rw [h bits hbits] at hfault
    cases hfault
  · rw [h bits hbits] at hindex
    cases hindex
    exact ⟨bits, hbits, rfl⟩
  · rintro index ⟨bits, hbits, rfl⟩
    exact ⟨bits, hbits, h bits hbits⟩

/-- So is one that rejects what Java rejects. -/
lemma judged_of_accepts (hpos : 0 < k) (hk : k < 2 ^ 31) (hpow : ¬ k.isPowerOfTwo)
    (h : ∀ bits < 2 ^ 31,
      engine.judge k bits = some (if Accepts k bits then some ((bits % k : ℕ) : ℤ) else none)) :
    Judged engine k := by
  refine ⟨fun bits hbits hfault => ?_, fun bits hbits index hindex => ?_, ?_⟩
  · rw [h bits hbits] at hfault
    cases hfault
  · rw [h bits hbits] at hindex
    split at hindex
    · cases hindex
      exact ⟨bits, hbits, by rw [boundedIndex_of_not_pow2 hpow]⟩
    · cases hindex
  · rintro index ⟨bits, hbits, rfl⟩
    have hlt := boundedIndex_lt hpos hbits
    refine ⟨boundedIndex k bits, by omega, ?_⟩
    rw [h _ (by omega), if_pos (Random.accepts_of_lt hk hlt), Nat.mod_eq_of_lt hlt]

/-- An engine that accepts no bits is not safe. -/
lemma not_judged_of_rejects (h : ∀ bits < 2 ^ 31, ∀ index,
      engine.judge k bits ≠ some (some index)) :
    ¬ Judged engine k := by
  intro hjudged
  obtain ⟨bits, hbits, hjudge⟩ := hjudged.all _ ⟨0, by norm_num, rfl⟩
  exact h bits hbits _ hjudge

/-- An engine that never comes to the last bits is not safe for a large number. -/
lemma not_judged_of_lt (hpow : ¬ k.isPowerOfTwo) (hk : 2 ^ 31 ≤ k)
    (h : ∀ bits < 2 ^ 31, ∀ index, engine.judge k bits = some (some index) → index < 2 ^ 31 - 1) :
    ¬ Judged engine k := by
  intro hjudged
  have hlast : Producible k (2 ^ 31 - 1) :=
    ⟨2 ^ 31 - 1, by norm_num, by rw [boundedIndex_of_large hpow hk (by norm_num)]; norm_num⟩
  obtain ⟨bits, hbits, hjudge⟩ := hjudged.all _ hlast
  exact absurd (h bits hbits _ hjudge) (lt_irrefl _)

end General

section Engines
variable {k bits : ℕ}

/-! ## Python -/

/-- The sign of an emulated word is its bit 31. -/
lemma to_int32_nonneg (n : ℕ) : Random.Python.to_int32 n ≥ 0 ↔ n % 2 ^ 32 < 2 ^ 31 := by
  have hmask : Int.land (n : ℤ) 0xFFFFFFFF = ((n % 2 ^ 32 : ℕ) : ℤ) := by
    rw [show (0xFFFFFFFF : ℤ) = 2 ^ 32 - 1 by norm_num, IntBits.land_mask]
    push_cast
    rfl
  simp only [Random.Python.to_int32, hmask]
  split <;> omega

/-- Python takes the high bits for a power of two. -/
lemma python_pow2 (hpos : 0 < k) (hpow : k.isPowerOfTwo) (hbits : bits < 2 ^ 31) :
    Engine.python.judge k bits = some (some ((boundedIndex k bits : ℕ) : ℤ)) := by
  have hlt := boundedIndex_lt hpos hbits
  rw [boundedIndex_of_pow2 hpow] at hlt ⊢
  rw [Engine.judge, Random.Python.judge, if_neg (by omega),
    if_pos ((IntBits.land_neg_eq_iff hpos).mpr hpow), Random.int_product, Option.map_some,
      Option.map_some, ← Int.natCast_mod, Nat.mod_eq_of_lt hlt]

/-- Python accepts by the low 32 bits otherwise. -/
lemma python_general (hpos : 0 < k) (hpow : ¬ k.isPowerOfTwo) (bits : ℕ) :
    Engine.python.judge k bits
      = some (if (bits - bits % k + (k - 1)) % 2 ^ 32 < 2 ^ 31 then some ((bits % k : ℕ) : ℤ)
        else none) := by
  have hrem : (bits : ℤ) % (k : ℤ) = ((bits % k : ℕ) : ℤ) := (Int.natCast_mod _ _).symm
  rw [Engine.judge, Random.Python.judge, if_neg (by omega),
    if_neg (fun h => hpow ((IntBits.land_neg_eq_iff hpos).mp h)), hrem, Random.int_sum hpos]
  simp only [to_int32_nonneg]
  split
  · rw [Option.map_some, Option.map_some, ← Int.natCast_mod, Nat.mod_mod]
  · rfl

/-- What Python judges is what the condition says. -/
lemma python_judged_iff (hpos : 0 < k) : Judged .python k ↔ Engine.python.SafeFor k := by
  by_cases hpow : k.isPowerOfTwo
  · exact iff_of_true (judged_of_forall fun bits hbits => python_pow2 hpos hpow hbits) (.inl hpow)
  · rcases lt_or_ge k (2 ^ 31) with hk | hk
    · refine iff_of_true (judged_of_accepts hpos hk hpow fun bits hbits => ?_) (.inr (by omega))
      have hsum := Random.sum_lt hbits hk
      rw [python_general hpos hpow, Nat.mod_eq_of_lt hsum]
      rfl
    · have hbig : ∀ bits < 2 ^ 31, Engine.python.judge k bits
          = some (if (k - 1) % 2 ^ 32 < 2 ^ 31 then some (bits : ℤ) else none) := by
        intro bits hbits
        rw [python_general hpos hpow, Nat.mod_eq_of_lt (show bits < k by omega),
          Nat.sub_self, zero_add]
      by_cases hlow : (k - 1) % 2 ^ 32 < 2 ^ 31
      · refine iff_of_true (judged_of_forall fun bits hbits => ?_) (.inr hlow)
        rw [hbig bits hbits, if_pos hlow, boundedIndex_of_large hpow hk hbits]
      · refine iff_of_false (not_judged_of_rejects fun bits hbits index => ?_) ?_
        · rw [hbig bits hbits, if_neg hlow]
          exact nofun
        · rintro (h | h)
          · exact hpow h
          · exact hlow h

/-! ## PHP -/

/-- PHP negates the number of keys without overflow. -/
lemma php_neg (hpos : 0 < k) (hk : k < 2 ^ 63) : CheckedInt.sub 0 (k : ℤ) = some (-(k : ℤ)) := by
  rw [CheckedInt.sub, CheckedInt.check_eq ⟨by omega, by omega⟩, zero_sub]

/-- PHP multiplies for a power of two, and faults when the product overflows. -/
lemma php_pow2 (hpos : 0 < k) (hk : k < 2 ^ 63) (hpow : k.isPowerOfTwo) (hbits : bits < 2 ^ 31) :
    Engine.php.judge k bits
      = if k * bits < 2 ^ 63 then some (some ((boundedIndex k bits : ℕ) : ℤ)) else none := by
  have hlt := boundedIndex_lt hpos hbits
  rw [boundedIndex_of_pow2 hpow] at hlt ⊢
  rw [Engine.judge, Random.Php.judge, if_neg (by omega), php_neg hpos hk, Option.bind_some,
    if_pos ((IntBits.land_neg_eq_iff hpos).mpr hpow), CheckedInt.mul]
  split
  · next hfits =>
    have hnonneg : (0 : ℤ) ≤ (k : ℤ) * bits := by positivity
    rw [CheckedInt.check_eq ⟨by omega, by exact_mod_cast hfits⟩, Option.bind_some,
      Random.int_product, Option.map_some, Option.map_some, ← Int.ofNat_tmod, Nat.mod_eq_of_lt hlt]
  · next hlarge =>
    have hout : ¬ CheckedInt.InRange ((k : ℤ) * bits) := fun h => hlarge (by exact_mod_cast h.2)
    rw [CheckedInt.check, if_neg hout, Option.bind_none, Option.map_none]

/-- PHP accepts by the sum otherwise, and faults when it overflows. -/
lemma php_general (hpos : 0 < k) (hk : k < 2 ^ 63) (hpow : ¬ k.isPowerOfTwo)
    (hbits : bits < 2 ^ 31) :
    Engine.php.judge k bits
      = (if bits - bits % k + (k - 1) < 2 ^ 63 then
          some (if Accepts k bits then some ((bits % k : ℕ) : ℤ) else none)
        else none) := by
  have hle := Nat.mod_le bits k
  have hrem : (bits : ℤ).tmod k = ((bits % k : ℕ) : ℤ) := (Int.ofNat_tmod _ _).symm
  have hdiff : CheckedInt.sub (bits : ℤ) ((bits % k : ℕ) : ℤ)
    = some ((bits - bits % k : ℕ) : ℤ) := by
    rw [CheckedInt.sub, CheckedInt.check_eq ⟨by omega, by omega⟩]
    congr 1
    omega
  have hlast : CheckedInt.sub (k : ℤ) 1 = some ((k - 1 : ℕ) : ℤ) := by
    rw [CheckedInt.sub, CheckedInt.check_eq ⟨by omega, by omega⟩]
    congr 1
    omega
  rw [Engine.judge, Random.Php.judge, if_neg (by omega), php_neg hpos hk, Option.bind_some,
    if_neg (fun h => hpow ((IntBits.land_neg_eq_iff hpos).mp h)), hrem, hdiff,
    Option.bind_some, hlast, Option.bind_some, CheckedInt.add]
  split
  · next hfits =>
    rw [CheckedInt.check_eq ⟨by omega, by omega⟩, Option.bind_some, Option.map_some]
    simp only [← Nat.cast_add, Random.le_maxInt_iff]
    split
    · rw [Option.map_some, ← Int.ofNat_tmod, Nat.mod_mod]
    · rfl
  · next hlarge =>
    rw [CheckedInt.check, if_neg (fun h => hlarge (by have := h.2; omega)), Option.bind_none,
      Option.map_none]

/-- What PHP judges is what the condition says. -/
lemma php_judged_iff (hpos : 0 < k) (hk : k < 2 ^ 63) : Judged .php k ↔ Engine.php.SafeFor k := by
  by_cases hpow : k.isPowerOfTwo
  · by_cases hsmall : k ≤ 2 ^ 32
    · have hsafe : Engine.php.SafeFor k := hsmall.lt_or_eq.imp_left (le_of_pow2_lt hpow)
      refine iff_of_true (judged_of_forall fun bits hbits => ?_) hsafe
      have hprod : k * bits ≤ 2 ^ 32 * bits := Nat.mul_le_mul_right _ hsmall
      rw [php_pow2 hpos hk hpow hbits, if_pos (by omega)]
    · refine iff_of_false (fun h => h.noFault (2 ^ 31 - 1) (by norm_num) ?_) ?_
      · have hlarge : 2 ^ 33 ≤ k := not_lt.mp fun h => hsmall (le_of_pow2_lt hpow h)
        have hprod : 2 ^ 33 * (2 ^ 31 - 1) ≤ k * (2 ^ 31 - 1) := Nat.mul_le_mul_right _ hlarge
        rw [php_pow2 hpos hk hpow (by norm_num), if_neg (by omega)]
      · rintro (h | h) <;> omega
  · rcases lt_or_ge k (2 ^ 31) with hlt | hge
    · refine iff_of_true (judged_of_accepts hpos hlt hpow fun bits hbits => ?_) (.inl hlt.le)
      have hsum := Random.sum_lt hbits hlt
      rw [php_general hpos hk hpow hbits, if_pos (by omega)]
    · refine iff_of_false (not_judged_of_rejects fun bits hbits index => ?_) ?_
      · have hrejects : ¬ Accepts k bits := by
          unfold Accepts
          rw [Nat.mod_eq_of_lt (by omega)]
          have hne : k ≠ 2 ^ 31 := fun h => hpow ⟨31, h⟩
          omega
        rw [php_general hpos hk hpow hbits, if_neg hrejects]
        split <;> exact nofun
      · rintro (h | h)
        · exact hpow ⟨31, le_antisymm h hge⟩
        · exact hpow ⟨32, h⟩

/-! ## Rust -/

/-- The bitwise test finds the powers of two. -/
lemma isPow2_iff (hpos : 0 < k) (hk : k < 2 ^ 31) : Random.IsPow2 k ↔ k.isPowerOfTwo :=
  IntBits.and_two_pow_sub hpos hk

/-- A narrowed number is read modulo `2 ^ 32`. -/
lemma setWidth_eq (k : ℕ) : (BitVec.ofNat 64 k).setWidth 32 = BitVec.ofNat 32 (k % 2 ^ 32) := by
  rw [BitVec.setWidth_ofNat_of_le (by norm_num)]
  apply BitVec.eq_of_toNat_eq
  rw [BitVec.toNat_ofNat, BitVec.toNat_ofNat, Nat.mod_mod]

/-- Rust judges small bounds as Java does. -/
lemma rust_judge_small {b : ℕ} (hpos : 0 < b) (hb : b < 2 ^ 31) (hbits : bits < 2 ^ 31) :
    Random.Rust.judge (BitVec.ofNat 32 b) (BitVec.ofNat 32 bits)
      = some (if b.isPowerOfTwo then some (BitVec.ofNat 32 (b * bits / 2 ^ 31))
          else if Accepts b bits then some (BitVec.ofNat 32 (bits % b)) else none) := by
  rw [Random.Rust.judge, Words.not_sle_zero (w := 32) hpos hb, if_neg Bool.false_ne_true,
    Random.word_product_int hbits hb, Random.word_rem hbits hb, Random.word_sum hpos,
      Random.word_accept hbits hb]
  simp only [Random.word_pow2 (w := 32) (by norm_num) ⟨hpos, hb⟩, isPow2_iff hpos hb,
    decide_eq_true_eq]
  split
  · rfl
  · split <;> rfl

/-- What the narrowed number makes of the bits, when it is positive. -/
lemma rust_narrow (hk : k < 2 ^ 64) (hpos : 0 < k % 2 ^ 32) (hlt : k % 2 ^ 32 < 2 ^ 31)
    (hbits : bits < 2 ^ 31) :
    Engine.rust.judge k bits
      = some (if (k % 2 ^ 32).isPowerOfTwo ∨ Accepts (k % 2 ^ 32) bits
          then some ((boundedIndex (k % 2 ^ 32) bits : ℕ) : ℤ) else none) := by
  have hle : k % 2 ^ 32 ≤ k := Nat.mod_le _ _
  have hindex := boundedIndex_lt hpos hbits
  rw [Engine.judge, rustJudge, setWidth_eq, rust_judge_small hpos hlt hbits]
  by_cases hpow : (k % 2 ^ 32).isPowerOfTwo
  · rw [boundedIndex_of_pow2 hpow] at hindex ⊢
    rw [if_pos hpow, if_pos (Or.inl hpow), Option.map_some, Option.map_some, Option.map_some,
      Option.map_some, Budget.rust_index (hindex.trans hlt) (hindex.trans_le hle) hk]
  · rw [boundedIndex_of_not_pow2 hpow] at hindex ⊢
    rw [if_neg hpow]
    by_cases haccept : Accepts (k % 2 ^ 32) bits
    · rw [if_pos haccept, if_pos (Or.inr haccept), Option.map_some, Option.map_some,
        Option.map_some, Option.map_some,
          Budget.rust_index (hindex.trans hlt) (hindex.trans_le hle) hk]
    · rw [if_neg haccept, if_neg (not_or_intro hpow haccept)]
      rfl

/-- A narrowed number that is zero or negative makes the draw panic. -/
lemma rust_fault (h : k % 2 ^ 32 = 0 ∨ 2 ^ 31 ≤ k % 2 ^ 32) (bits : ℕ) :
    Engine.rust.judge k bits = none := by
  have hsle : (BitVec.ofNat 32 (k % 2 ^ 32)).sle 0#32 = true := by
    have hlt : k % 2 ^ 32 < 2 ^ 32 := Nat.mod_lt _ (by norm_num)
    rw [BitVec.sle_eq_decide, BitVec.toInt_zero, decide_eq_true_iff, BitVec.toInt_eq_toNat_cond,
      Words.toNat_small hlt]
    split <;> omega
  rw [Engine.judge, rustJudge, setWidth_eq, Random.Rust.judge, if_pos hsle]
  rfl

/-- What Rust judges is what the condition says. -/
lemma rust_judged_iff (hpos : 0 < k) (hk : k < 2 ^ 64) :
    Judged .rust k ↔ Engine.rust.SafeFor k := by
  rcases lt_or_ge k (2 ^ 31) with hlt | hge
  · have hmod : k % 2 ^ 32 = k := Nat.mod_eq_of_lt (by omega)
    refine iff_of_true ?_ hlt
    by_cases hpow : k.isPowerOfTwo
    · refine judged_of_forall fun bits hbits => ?_
      rw [rust_narrow hk (by omega) (by omega) hbits, hmod, if_pos (Or.inl hpow)]
    · refine judged_of_accepts hpos hlt hpow fun bits hbits => ?_
      rw [rust_narrow hk (by omega) (by omega) hbits, hmod, boundedIndex_of_not_pow2 hpow]
      simp only [hpow, false_or]
  · refine iff_of_false ?_ (not_lt_of_ge hge)
    by_cases hfault : k % 2 ^ 32 = 0 ∨ 2 ^ 31 ≤ k % 2 ^ 32
    · exact fun h => h.noFault 0 (by norm_num) (rust_fault hfault 0)
    · have hpow : ¬ k.isPowerOfTwo := by
        rintro ⟨j, rfl⟩
        have hj : 31 ≤ j := (Nat.pow_le_pow_iff_right (by norm_num)).mp hge
        rcases hj.lt_or_eq with hj | rfl
        · exact hfault (.inl (Nat.mod_eq_zero_of_dvd (Nat.pow_dvd_pow 2 hj)))
        · exact hfault (.inr (by norm_num))
      refine not_judged_of_lt hpow hge fun bits hbits index hindex => ?_
      have hlt := boundedIndex_lt (k := k % 2 ^ 32) (by omega) hbits
      rw [rust_narrow hk (by omega) (by omega) hbits] at hindex
      split at hindex
      · cases hindex
        omega
      · cases hindex

/-! ## Go -/

/-- The sign of a 32-bit word is its highest bit. -/
lemma zero_sle (n : ℕ) : (0#32).sle (BitVec.ofNat 32 n) = decide (n % 2 ^ 32 < 2 ^ 31) := by
  have hword : BitVec.ofNat 32 n = BitVec.ofNat 32 (n % 2 ^ 32) := by
    apply BitVec.eq_of_toNat_eq
    rw [BitVec.toNat_ofNat, BitVec.toNat_ofNat, Nat.mod_mod]
  rw [hword]
  exact Words.zero_sle_ofNat (w := 32) (Nat.mod_lt _ (by norm_num))

/-- The magnitude of a narrowed number. -/
def magnitude (k : ℕ) : ℕ := if k % 2 ^ 32 < 2 ^ 31 then k % 2 ^ 32 else 2 ^ 32 - k % 2 ^ 32

/-- The remainder by a narrowed number only depends on its magnitude. -/
lemma srem_narrow (k : ℕ) (hbits : bits < 2 ^ 31) :
    (BitVec.ofNat 32 bits).srem (BitVec.ofNat 32 (k % 2 ^ 32))
      = BitVec.ofNat 32 (bits % magnitude k) := by
  have hlt : k % 2 ^ 32 < 2 ^ 32 := Nat.mod_lt _ (by norm_num)
  unfold magnitude
  split
  · next hsmall => exact Words.srem_small hbits hsmall
  · next hlarge =>
    rw [BitVec.srem_eq, Words.msb_small (w := 32) hbits, Words.msb_ofNat hlt,
      decide_eq_true (not_lt.mp hlarge)]
    apply BitVec.eq_of_toNat_eq
    dsimp only
    rw [BitVec.toNat_umod, BitVec.toNat_neg, Words.toNat_small hlt,
      Words.toNat_small (hbits.trans (by norm_num)),
      Nat.mod_eq_of_lt (by omega : 2 ^ 32 - k % 2 ^ 32 < 2 ^ 32),
        Words.toNat_small ((Nat.mod_le _ _).trans_lt (hbits.trans (by norm_num)))]

/-- A positive number of keys is used as it is. -/
lemma keysCountOrOne_eq (hpos : 0 < k) (hk : k < 2 ^ 63) :
    Budget.keysCountOrOne (BitVec.ofNat 64 k) = BitVec.ofNat 64 k := by
  rw [Budget.keysCountOrOne, Words.not_sle_zero (w := 64) hpos hk, if_neg Bool.false_ne_true]

/-- The bitwise test finds the powers of two. -/
lemma go_pow2_iff (hpos : 0 < k) (hk : k < 2 ^ 63) :
    BitVec.ofNat 64 k &&& -BitVec.ofNat 64 k = BitVec.ofNat 64 k ↔ k.isPowerOfTwo := by
  rw [Words.and_neg_small (w := 64) hpos hk (by norm_num),
    Words.ofNat_inj (Nat.and_le_left.trans_lt (by omega)) (by omega),
      IntBits.and_two_pow_sub hpos hk]

/-- Go takes the high bits for a power of two. -/
lemma go_pow2 (hpos : 0 < k) (hk : k < 2 ^ 63) (hpow : k.isPowerOfTwo) (hbits : bits < 2 ^ 31) :
    Engine.go.judge k bits = some (some ((BitVec.ofNat 64 (k * bits)).sshiftRight 31).toInt) := by
  rw [Engine.judge, keysCountOrOne_eq hpos hk, Random.Go.judge,
    Words.not_sle_zero (w := 64) hpos hk, if_neg Bool.false_ne_true,
      if_pos ((go_pow2_iff hpos hk).mpr hpow), Words.signExtend_small (w := 32) hbits,
    ← BitVec.ofNat_mul, Option.map_some, Option.map_some]

/-- A number that is a multiple of `2 ^ 32` panics in the general case. -/
lemma go_fault (hpos : 0 < k) (hk : k < 2 ^ 63) (hpow : ¬ k.isPowerOfTwo)
    (hzero : k % 2 ^ 32 = 0) (bits : ℕ) :
    Engine.go.judge k bits = none := by
  rw [Engine.judge, keysCountOrOne_eq hpos hk, Random.Go.judge,
    Words.not_sle_zero (w := 64) hpos hk, if_neg Bool.false_ne_true,
      if_neg (fun h => hpow ((go_pow2_iff hpos hk).mp h)), setWidth_eq, hzero, if_pos rfl]
  rfl

/-- Go narrows the number of keys otherwise. -/
lemma go_general (hpos : 0 < k) (hk : k < 2 ^ 63) (hpow : ¬ k.isPowerOfTwo) (hne : k % 2 ^ 32 ≠ 0)
    (hbits : bits < 2 ^ 31) :
    Engine.go.judge k bits
      = some (if (bits - bits % magnitude k + (k - 1)) % 2 ^ 32 < 2 ^ 31
          then some ((bits % magnitude k : ℕ) : ℤ) else none) := by
  have hlt : k % 2 ^ 32 < 2 ^ 32 := Nat.mod_lt _ (by norm_num)
  have hrem : bits % magnitude k < 2 ^ 31 := (Nat.mod_le _ _).trans_lt hbits
  have hnarrow : BitVec.ofNat 32 (k % 2 ^ 32) ≠ 0#32 := by
    intro h
    exact hne ((Words.ofNat_inj (w := 32) hlt (by norm_num)).mp h)
  have hlast : (BitVec.ofNat 64 k - 1#64).setWidth 32 = BitVec.ofNat 32 (k - 1) := by
    rw [show (1#64 : BitVec 64) = BitVec.ofNat 64 1 from rfl, Words.ofNat_sub hpos,
      BitVec.setWidth_ofNat_of_le (by norm_num)]
  rw [Engine.judge, keysCountOrOne_eq hpos hk, Random.Go.judge,
    Words.not_sle_zero (w := 64) hpos hk, if_neg Bool.false_ne_true,
      if_neg (fun h => hpow ((go_pow2_iff hpos hk).mp h)), setWidth_eq, if_neg hnarrow,
    srem_narrow k hbits, hlast, Words.ofNat_sub (Nat.mod_le _ _), ← BitVec.ofNat_add, zero_sle]
  simp only [decide_eq_true_eq]
  split
  · rw [Option.map_some, Option.map_some, Words.signExtend_small (w := 32) hrem,
      Words.toInt_small (w := 64) (hrem.trans (by norm_num))]
  · rfl

/-- A power of two is safe up to `2 ^ 32`. -/
lemma go_judged_iff_pow2 (hpos : 0 < k) (hk : k < 2 ^ 63) (hpow : k.isPowerOfTwo) :
    Judged .go k ↔ Engine.go.SafeFor k := by
  by_cases hsmall : k ≤ 2 ^ 32
  · have hsafe : Engine.go.SafeFor k := by
      rcases hsmall.lt_or_eq with hlt | heq
      · rcases (le_of_pow2_lt hpow hlt).lt_or_eq with hlt | heq
        · exact .inl hlt
        · exact .inr (.inr (by omega))
      · exact .inr (.inl heq)
    refine iff_of_true (judged_of_forall fun bits hbits => ?_) hsafe
    have hprod : k * bits ≤ 2 ^ 32 * bits := Nat.mul_le_mul_right _ hsmall
    rw [go_pow2 hpos hk hpow hbits, Words.sshiftRight_small (w := 64) (by norm_num; omega),
      Words.toInt_small (w := 64) (by norm_num; omega), boundedIndex_of_pow2 hpow]
  · obtain ⟨j, rfl⟩ := hpow
    have hj : 33 ≤ j := (Nat.pow_lt_pow_iff_right (by norm_num)).mp (Nat.lt_of_not_le hsmall)
    have hj' : j < 63 := (Nat.pow_lt_pow_iff_right (by norm_num)).mp hk
    refine iff_of_false (fun h => ?_) ?_
    · -- these bits make the product the smallest 64-bit integer
      have hbits : 2 ^ (63 - j) < 2 ^ 31 := Nat.pow_lt_pow_right (by norm_num) (by omega)
      have hjudge := go_pow2 hpos hk ⟨j, rfl⟩ hbits
      rw [← pow_add, Nat.add_sub_cancel' hj'.le] at hjudge
      obtain ⟨bits, -, hindex⟩ := h.inside _ hbits _ hjudge
      have hneg : ((BitVec.ofNat 64 (2 ^ 63)).sshiftRight 31).toInt = -2 ^ 32 := by decide
      omega
    · have hmod : 2 ^ j % 2 ^ 32 = 0 := Nat.mod_eq_zero_of_dvd (Nat.pow_dvd_pow 2 (by omega))
      rintro (h | h | h) <;> omega

/-- From `2 ^ 31` on, any other number is safe if its lower half is `2 ^ 31`. -/
lemma go_judged_iff_large (hk : k < 2 ^ 63) (hpow : ¬ k.isPowerOfTwo) (hge : 2 ^ 31 ≤ k) :
    Judged .go k ↔ k % 2 ^ 32 = 2 ^ 31 := by
  have hpos : 0 < k := by omega
  by_cases hzero : k % 2 ^ 32 = 0
  · exact iff_of_false (fun h => h.noFault 0 (by norm_num) (go_fault hpos hk hpow hzero 0))
      (by omega)
  · by_cases hhalf : k % 2 ^ 32 = 2 ^ 31
    · have hmag : magnitude k = 2 ^ 31 := by
        rw [magnitude, hhalf]
        norm_num
      refine iff_of_true (judged_of_forall fun bits hbits => ?_) hhalf
      rw [go_general hpos hk hpow hzero hbits, hmag, boundedIndex_of_large hpow hge hbits,
        Nat.mod_eq_of_lt hbits, if_pos (by omega)]
    · refine iff_of_false (not_judged_of_lt hpow hge fun bits hbits index hindex => ?_) hhalf
      have hmag : 0 < magnitude k ∧ magnitude k < 2 ^ 31 := by
        have hlt : k % 2 ^ 32 < 2 ^ 32 := Nat.mod_lt _ (by norm_num)
        unfold magnitude
        split <;> omega
      have hrem := Nat.mod_lt bits hmag.1
      rw [go_general hpos hk hpow hzero hbits] at hindex
      split at hindex
      · cases hindex
        omega
      · cases hindex

/-- What Go judges is what the condition says. -/
lemma go_judged_iff (hpos : 0 < k) (hk : k < 2 ^ 63) : Judged .go k ↔ Engine.go.SafeFor k := by
  by_cases hpow : k.isPowerOfTwo
  · exact go_judged_iff_pow2 hpos hk hpow
  · rcases lt_or_ge k (2 ^ 31) with hlt | hge
    · have hmod : k % 2 ^ 32 = k := Nat.mod_eq_of_lt (by omega)
      have hmag : magnitude k = k := by rw [magnitude, hmod, if_pos hlt]
      refine iff_of_true (judged_of_accepts hpos hlt hpow fun bits hbits => ?_) (.inl hlt)
      have hsum := Random.sum_lt hbits hlt
      rw [go_general hpos hk hpow (by omega) hbits, hmag, Nat.mod_eq_of_lt hsum]
      rfl
    · have hne : k ≠ 2 ^ 32 := fun h => hpow ⟨32, h⟩
      rw [go_judged_iff_large hk hpow hge, Engine.SafeFor]
      omega

/-! ## All engines -/

/-- The random keys of an engine are safe for exactly these of the numbers of keys that it loads. -/
theorem safe_iff (engine : Engine) (keysCount : ℕ) (hpos : 1 ≤ keysCount)
    (h : engine.accepts keysCount) :
    Safe engine keysCount ↔ engine.SafeFor keysCount := by
  rw [safe_iff_judged]
  cases engine with
  | rust => exact rust_judged_iff hpos h.2
  | python => exact python_judged_iff hpos
  | php => exact php_judged_iff hpos h
  | go => exact go_judged_iff hpos h

end Engines

/-- A thousand keys are safe in Go, and `2 ^ 32 + 1` of them in Python. -/
theorem thousand_safe : Safe .go 1000 ∧ Safe .python (2 ^ 32 + 1) :=
  ⟨(safe_iff .go 1000 (by norm_num) (by unfold Engine.accepts; norm_num)).mpr (.inl (by norm_num)),
    (safe_iff .python (2 ^ 32 + 1) (by norm_num) (by unfold Engine.accepts; norm_num)).mpr
      (.inr (by norm_num))⟩

/-- Numbers of keys that are loaded and not safe: Rust panics on `2 ^ 31`, Python and PHP reject all
bits for `2 ^ 31 + 1`, and Go divides by zero for `3 * 2 ^ 32`. -/
theorem large_not_safe :
    (Engine.rust.accepts (2 ^ 31) ∧ ¬ Safe .rust (2 ^ 31)) ∧
      (Engine.python.accepts (2 ^ 31 + 1) ∧ ¬ Safe .python (2 ^ 31 + 1)) ∧
      (Engine.php.accepts (2 ^ 31 + 1) ∧ ¬ Safe .php (2 ^ 31 + 1)) ∧
      (Engine.go.accepts (3 * 2 ^ 32) ∧ ¬ Safe .go (3 * 2 ^ 32)) := by
  have hodd : ¬ (2 ^ 31 + 1).isPowerOfTwo := by decide
  refine ⟨⟨by unfold Engine.accepts; norm_num, fun h => ?_⟩,
    ⟨by unfold Engine.accepts; norm_num, fun h => ?_⟩,
      ⟨by unfold Engine.accepts; norm_num, fun h => ?_⟩,
      ⟨by unfold Engine.accepts; norm_num, fun h => ?_⟩⟩
  · exact absurd ((rust_judged_iff (by norm_num) (by norm_num)).mp (safe_iff_judged.mp h))
      (lt_irrefl _)
  · rcases (python_judged_iff (by norm_num)).mp (safe_iff_judged.mp h) with hpow | hlow
    · exact hodd hpow
    · norm_num at hlow
  · rcases (php_judged_iff (by norm_num) (by norm_num)).mp (safe_iff_judged.mp h) with hle | heq
    · norm_num at hle
    · norm_num at heq
  · rcases (go_judged_iff (by norm_num) (by norm_num)).mp (safe_iff_judged.mp h)
      with hlt | heq | hhalf
    · norm_num at hlt
    · norm_num at heq
    · norm_num at hhalf

end RespBench.Keys.Uniform
