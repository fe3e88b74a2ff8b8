import Mathlib

/-!
# Non-negative binary64 numbers

The non-negative doubles as rationals: `round` delivers the double nearest to a non-negative
rational, ties to even, and nothing when the result overflows to infinity. A double operation is the
exact one followed by `round`.

`ceil_round_div` is what callers use: the quotient of two integers below `2 ^ 53`, rounded to a
double, rounds up to the same integer as the exact quotient; `round_mono`, by which doubles keep the
order; and `round_sub_one`, by which a double of at most `2 ^ 53` can be lowered by one.
-/

namespace RespBench.Lib.Binary64

/-- The nearest integer, ties to even. -/
def roundHalfEven (x : ℚ) : ℤ :=
  if x - ⌊x⌋ < 1 / 2 then ⌊x⌋
  else if 1 / 2 < x - ⌊x⌋ then ⌊x⌋ + 1
  else if Even ⌊x⌋ then ⌊x⌋ else ⌊x⌋ + 1

/-- The exponent of the last place of a double near a rational, at least that of a subnormal. -/
def exponent (x : ℚ) : ℤ := max (Int.log 2 x - 52) (-1074)

/-- The nearest double, `none` when it is infinite. -/
def round (x : ℚ) : Option ℚ :=
  let y : ℚ := roundHalfEven (x / 2 ^ exponent x) * 2 ^ exponent x
  if y < 2 ^ 1024 then some y else none

/-- The nearest double of a rational of any sign. -/
def roundSigned (x : ℚ) : Option ℚ := if x < 0 then (round (-x)).map (- ·) else round x

/-- Whole numbers of 53 bits are finite doubles. -/
private lemma two_pow_lt : (2 : ℚ) ^ 53 < 2 ^ 1024 :=
  pow_lt_pow_right₀ (by norm_num) (by norm_num)

/-- Rounding does not pass an integer from below. -/
lemma roundHalfEven_le {x : ℚ} {z : ℤ} (h : x ≤ z) : roundHalfEven x ≤ z := by
  have hfloor : ⌊x⌋ ≤ z := Int.floor_le_iff.mpr (by linarith)
  have hup : ¬ x - ⌊x⌋ < 1 / 2 → ⌊x⌋ + 1 ≤ z := by
    intro hfrac
    rcases hfloor.lt_or_eq with hlt | heq
    · exact hlt
    · rw [heq] at hfrac
      exact absurd (by linarith) hfrac
  unfold roundHalfEven
  split_ifs with h1
  · exact hfloor
  · exact hup h1
  · exact hfloor
  · exact hup h1

/-- Rounding goes down by one half at most. -/
lemma sub_half_le (x : ℚ) : x - 1 / 2 ≤ roundHalfEven x := by
  have hfloor := Int.lt_floor_add_one x
  unfold roundHalfEven
  split_ifs <;> push_cast <;> linarith

/-- An integer is rounded to itself. -/
lemma roundHalfEven_intCast (z : ℤ) : roundHalfEven z = z := by
  unfold roundHalfEven
  rw [Int.floor_intCast, sub_self, if_pos (by norm_num)]

section Small
variable {x : ℚ} (hpos : 0 < x) (hx : x < 2 ^ 53)
include hpos hx

/-- The last place of a double below `2 ^ 53` is no more than one. -/
lemma exponent_nonpos : exponent x ≤ 0 := by
  have hlog : Int.log 2 x < 53 := (Int.lt_zpow_iff_log_lt (by norm_num) hpos).mp (by
    push_cast
    exact_mod_cast hx)
  unfold exponent
  omega

/-- An integer is a multiple of the last place. -/
lemma div_last_place (z : ℤ) :
    ((z * 2 ^ (-exponent x).toNat : ℤ) : ℚ) = z / 2 ^ exponent x := by
  have h := exponent_nonpos hpos hx
  rw [div_eq_mul_inv, ← zpow_neg, show -exponent x = ((-exponent x).toNat : ℤ) from by omega,
    zpow_natCast]
  push_cast
  rfl

/-- Rounding does not pass an integer from below. -/
lemma round_le {z : ℤ} (h : x ≤ z) :
    (roundHalfEven (x / 2 ^ exponent x) : ℚ) * 2 ^ exponent x ≤ z := by
  have hu : (0 : ℚ) < 2 ^ exponent x := by positivity
  have hle : roundHalfEven (x / 2 ^ exponent x) ≤ z * 2 ^ (-exponent x).toNat := by
    apply roundHalfEven_le
    rw [div_last_place hpos hx]
    exact (div_le_div_iff_of_pos_right hu).mpr h
  rw [← le_div_iff₀ hu, ← div_last_place hpos hx]
  exact_mod_cast hle

end Small

/-- Rounding does not pass the double of a larger number. -/
lemma round_le_round {x z y w : ℚ} (hpos : 0 < x) (hxz : x ≤ z) (hxy : x ≤ y)
    (hz : round z = some y) (hx : round x = some w) : w ≤ y := by
  have hexp : exponent x ≤ exponent z := by
    have := Int.log_mono_right (b := 2) hpos hxz
    unfold exponent
    omega
  unfold round at hz hx
  dsimp only at hz hx
  split at hz <;> cases hz
  split at hx <;> cases hx
  have hu : (0 : ℚ) < 2 ^ exponent x := by positivity
  have hy : ((roundHalfEven (z / 2 ^ exponent z) * 2 ^ (exponent z - exponent x).toNat : ℤ) : ℚ)
      * 2 ^ exponent x = roundHalfEven (z / 2 ^ exponent z) * 2 ^ exponent z := by
    push_cast
    rw [mul_assoc, ← zpow_natCast, ← zpow_add₀ (by norm_num)]
    congr 2
    omega
  rw [← hy] at hxy ⊢
  have hle := roundHalfEven_le ((div_le_iff₀ hu).mpr hxy)
  gcongr

/-- An integer below `2 ^ 53` is a double. -/
lemma round_natCast {n : ℕ} (hn : n < 2 ^ 53) : round n = some (n : ℚ) := by
  rcases Nat.eq_zero_or_pos n with rfl | hpos
  · have h := roundHalfEven_intCast 0
    unfold round
    dsimp only
    rw [Nat.cast_zero, zero_div, ← Int.cast_zero, h, Int.cast_zero, zero_mul,
      if_pos (by positivity)]
  · have hx : (n : ℚ) < 2 ^ 53 := by exact_mod_cast hn
    have hpos' : (0 : ℚ) < n := by exact_mod_cast hpos
    have h := div_last_place hpos' hx n
    unfold round
    dsimp only
    rw [show (n : ℚ) / 2 ^ exponent n = ((n * 2 ^ (-exponent n).toNat : ℤ) : ℚ) from h.symm,
      roundHalfEven_intCast, h, div_mul_cancel₀ _ (by positivity), Int.cast_natCast,
      if_pos (hx.trans two_pow_lt)]

section Quotient
variable {n k : ℕ}

/-- The last place of a quotient of integers below `2 ^ 53` is finer than twice the distance from
the next smaller integer. -/
lemma last_place_div_lt (hn : 0 < n) (hn' : n < 2 ^ 53) (hk : 0 < k) (hk' : k < 2 ^ 53) :
    (2 : ℚ) ^ exponent ((n : ℚ) / k) < 2 / k := by
  have hkpos : (0 : ℚ) < k := by exact_mod_cast hk
  have hkbig : (k : ℚ) < 2 ^ 53 := by exact_mod_cast hk'
  have hnbig : (n : ℚ) < 2 ^ 53 := by exact_mod_cast hn'
  rw [lt_div_iff₀ hkpos]
  rcases le_total (Int.log 2 ((n : ℚ) / k) - 52) (-1074) with h | h
  · rw [exponent, max_eq_right h]
    calc (2 : ℚ) ^ (-1074 : ℤ) * k ≤ 2 ^ (-53 : ℤ) * 2 ^ 53 := by
          gcongr <;> norm_num
      _ < 2 := by norm_num
  · have hpos : (0 : ℚ) < n / k := by positivity
    have hlog : (2 : ℚ) ^ Int.log 2 ((n : ℚ) / k) ≤ n / k := by
      exact_mod_cast Int.zpow_log_le_self (b := 2) (by norm_num) hpos
    rw [exponent, max_eq_left h, zpow_sub₀ (by norm_num)]
    calc (2 : ℚ) ^ Int.log 2 ((n : ℚ) / k) / 2 ^ (52 : ℤ) * k ≤ n / k / 2 ^ (52 : ℤ)
      * k := by gcongr
      _ = n / 2 ^ 52 := by field_simp
      _ < 2 := by
        rw [div_lt_iff₀ (by norm_num)]
        linarith

/-- A quotient exceeds the next smaller integer by a whole unit of its denominator. -/
lemma ceil_div_sub_one_le (hk : 0 < k) : (⌈(n : ℚ) / k⌉ : ℚ) - 1 ≤ n / k - 1 / k := by
  have hkpos : (0 : ℚ) < k := by exact_mod_cast hk
  have hceil : (⌈(n : ℚ) / k⌉ : ℚ) * k < n + k := by
    have h := Int.ceil_lt_add_one ((n : ℚ) / k)
    calc (⌈(n : ℚ) / k⌉ : ℚ) * k < (n / k + 1) * k := by gcongr
      _ = n + k := by field_simp
  have hint : (⌈(n : ℚ) / k⌉ : ℚ) * k ≤ n + k - 1 := by
    have : ⌈(n : ℚ) / k⌉ * (k : ℤ) < n + k := by exact_mod_cast hceil
    have h' : ⌈(n : ℚ) / k⌉ * (k : ℤ) ≤ n + k - 1 := by omega
    exact_mod_cast h'
  rw [← sub_div, le_div_iff₀ hkpos]
  linarith

/-- Rounding a quotient of integers below `2 ^ 53` does not change its ceiling. -/
theorem ceil_round_div (hn : 0 < n) (hn' : n < 2 ^ 53) (hk : 0 < k) (hk' : k < 2 ^ 53) :
    ∃ q, round ((n : ℚ) / k) = some q ∧ ⌈q⌉ = ⌈(n : ℚ) / k⌉ := by
  have hkpos : (0 : ℚ) < k := by exact_mod_cast hk
  have hk1 : (1 : ℚ) ≤ k := by exact_mod_cast hk
  have hnbig : (n : ℚ) < 2 ^ 53 := by exact_mod_cast hn'
  have hfine := last_place_div_lt hn hn' hk hk'
  have hgap := ceil_div_sub_one_le (n := n) hk
  set x : ℚ := (n : ℚ) / k
  have hpos : 0 < x := by positivity
  have hx : x < 2 ^ 53 := (div_le_self (by positivity) hk1).trans_lt hnbig
  set u : ℚ := 2 ^ exponent x
  have hupos : 0 < u := by positivity
  set q : ℚ := roundHalfEven (x / u) * u with hq
  have hupper : q ≤ ⌈x⌉ := round_le hpos hx (Int.le_ceil x)
  have hnear : x - u / 2 ≤ q := by
    have h := sub_half_le (x / u)
    calc x - u / 2 = (x / u - 1 / 2) * u := by field_simp
      _ ≤ q := by rw [hq]; gcongr
  have hlower : (⌈x⌉ : ℚ) - 1 < q := by
    have hhalf : u / 2 < 1 / k := by
      rw [div_lt_div_iff₀ (by norm_num) hkpos]
      rw [lt_div_iff₀ hkpos] at hfine
      linarith
    linarith
  refine ⟨q, ?_, ?_⟩
  · have hsmall : (⌈x⌉ : ℚ) ≤ 2 ^ 53 := by
      have : ⌈x⌉ ≤ 2 ^ 53 := Int.ceil_le.mpr (by exact_mod_cast hx.le)
      exact_mod_cast this
    unfold round
    exact if_pos (by
      calc q ≤ 2 ^ 53 := hupper.trans hsmall
        _ < 2 ^ 1024 := two_pow_lt)
  · exact Int.ceil_eq_iff.mpr ⟨hlower, hupper⟩

end Quotient

/-- A rational below a power of two up to `2 ^ 1023` has a finite double. -/
lemma round_isSome {x : ℚ} (hpos : 0 < x) {b : ℕ} (hb : b ≤ 1023) (hx : x < 2 ^ b) :
    (round x).isSome := by
  have hlog : Int.log 2 x < b := (Int.lt_zpow_iff_log_lt (by norm_num) hpos).mp (by
    push_cast
    exact_mod_cast hx)
  have he : exponent x ≤ b := by
    unfold exponent
    omega
  have hu : (0 : ℚ) < 2 ^ exponent x := by positivity
  have hmul : ((2 ^ (b - exponent x).toNat : ℤ) : ℚ) * 2 ^ exponent x = 2 ^ b := by
    push_cast
    rw [← zpow_natCast, ← zpow_add₀ (by norm_num), ← zpow_natCast]
    congr 1
    omega
  have hle : roundHalfEven (x / 2 ^ exponent x) ≤ 2 ^ (b - exponent x).toNat := by
    apply roundHalfEven_le
    rw [div_le_iff₀ hu, hmul]
    exact hx.le
  have hy : (roundHalfEven (x / 2 ^ exponent x) : ℚ) * 2 ^ exponent x ≤ 2 ^ b := by
    rw [← hmul]
    gcongr
  have hlast : (2 : ℚ) ^ b < 2 ^ 1024 := pow_lt_pow_right₀ (by norm_num) (by omega)
  unfold round
  dsimp only
  rw [if_pos (hy.trans_lt hlast)]
  rfl

/-- A double is finite. -/
lemma round_lt {x y : ℚ} (h : round x = some y) : y < 2 ^ 1024 := by
  unfold round at h
  dsimp only at h
  split at h
  · next hlt =>
    cases h
    exact hlt
  · cases h

/-- A number that is not negative is not rounded below zero. -/
lemma round_nonneg {x y : ℚ} (hx : 0 ≤ x) (h : round x = some y) : 0 ≤ y := by
  have hz : (0 : ℤ) ≤ roundHalfEven (x / 2 ^ exponent x) := by
    have hdiv : 0 ≤ x / 2 ^ exponent x := by positivity
    have hhalf := sub_half_le (x / 2 ^ exponent x)
    by_contra hneg
    have : roundHalfEven (x / 2 ^ exponent x) ≤ -1 := by omega
    have : (roundHalfEven (x / 2 ^ exponent x) : ℚ) ≤ -1 := by exact_mod_cast this
    linarith
  unfold round at h
  dsimp only at h
  split at h
  · cases h
    have : (0 : ℚ) ≤ roundHalfEven (x / 2 ^ exponent x) := by exact_mod_cast hz
    positivity
  · cases h

/-- Half of a finite double, or less, has a finite double. -/
lemma round_div_isSome {x y k : ℚ} (hx : 0 ≤ x) (h : round x = some y) (hk : 2 ≤ k) :
    (round (y / k)).isSome := by
  have hy := round_nonneg hx h
  rcases hy.eq_or_lt with rfl | hpos
  · rw [zero_div, ← Nat.cast_zero, round_natCast (by norm_num)]
    rfl
  · apply round_isSome (b := 1023) (by positivity) le_rfl
    rw [div_lt_iff₀ (by linarith)]
    calc y < 2 ^ 1024 := round_lt h
      _ = 2 ^ 1023 * 2 := pow_succ _ _
      _ ≤ 2 ^ 1023 * k := by gcongr

/-! ## Monotonicity -/

/-- Rounding does not go below the integer part. -/
lemma floor_le_roundHalfEven (x : ℚ) : ⌊x⌋ ≤ roundHalfEven x := by
  unfold roundHalfEven
  split_ifs <;> omega

/-- Rounding keeps the order. -/
lemma roundHalfEven_mono {x z : ℚ} (hxz : x ≤ z) : roundHalfEven x ≤ roundHalfEven z := by
  rcases (Int.floor_mono hxz).lt_or_eq with hlt | heq
  · have hup : roundHalfEven x ≤ ⌊x⌋ + 1 := by
      unfold roundHalfEven
      split_ifs <;> omega
    have hlow := floor_le_roundHalfEven z
    omega
  · -- with the same integer part the fractions decide
    unfold roundHalfEven
    rw [← heq]
    split_ifs <;> first | omega | linarith

/-- A power of two, when it is a multiple of the last place, is not passed from above. -/
lemma two_pow_log_le_round {z y : ℚ} (hpos : 0 < z) (hlast : exponent z = Int.log 2 z - 52)
    (hz : round z = some y) :
    (2 : ℚ) ^ Int.log 2 z ≤ y := by
  unfold round at hz
  dsimp only at hz
  split at hz <;> cases hz
  have hpower : (2 : ℚ) ^ Int.log 2 z = (2 ^ 52 : ℤ) * 2 ^ exponent z := by
    rw [hlast, zpow_sub₀ (by norm_num)]
    norm_num
    ring
  have hlog : (2 : ℚ) ^ Int.log 2 z ≤ z :=
    by exact_mod_cast Int.zpow_log_le_self (b := 2) (by norm_num) hpos
  have hfloor : (2 ^ 52 : ℤ) ≤ ⌊z / 2 ^ exponent z⌋ := by
    rw [Int.le_floor, le_div_iff₀ (by positivity), ← hpower]
    exact hlog
  have hle := hfloor.trans (floor_le_roundHalfEven _)
  rw [hpower]
  gcongr

/-- Rounding keeps the order of positive numbers. -/
lemma round_mono_pos {x z w y : ℚ} (hpos : 0 < x) (hxz : x ≤ z) (hx : round x = some w)
    (hz : round z = some y) :
    w ≤ y := by
  by_cases hxy : x ≤ y
  · exact round_le_round hpos hxz hxy hz hx
  -- otherwise the larger number is rounded below the smaller one, and both have the same last place
  have hexp : exponent x = exponent z := by
    have hlog := Int.log_mono_right (b := 2) hpos hxz
    by_contra hne
    have hlt : Int.log 2 x < Int.log 2 z := by
      unfold exponent at hne
      omega
    have hlast : exponent z = Int.log 2 z - 52 := by
      unfold exponent at hne ⊢
      omega
    have hbelow : x < 2 ^ Int.log 2 z :=
      by exact_mod_cast (Int.lt_zpow_iff_log_lt (by norm_num) hpos).mpr hlt
    exact hxy (hbelow.le.trans (two_pow_log_le_round (hpos.trans_le hxz) hlast hz))
  unfold round at hz hx
  dsimp only at hz hx
  split at hz <;> cases hz
  split at hx <;> cases hx
  have hu : (0 : ℚ) < 2 ^ exponent z := by positivity
  rw [hexp]
  have hmono := roundHalfEven_mono ((div_le_div_iff_of_pos_right hu).mpr hxz)
  gcongr

/-- Zero is a double. -/
lemma round_zero : round 0 = some 0 := by exact_mod_cast round_natCast (n := 0) (by norm_num)

/-- Rounding is monotone. -/
theorem round_mono {x z w y : ℚ} (h0 : 0 ≤ x) (hxz : x ≤ z) (hx : round x = some w)
    (hz : round z = some y) :
    w ≤ y := by
  rcases h0.eq_or_lt with rfl | hpos
  · rw [round_zero] at hx
    cases hx
    exact round_nonneg hxz hz
  · exact round_mono_pos hpos hxz hx hz

/-- A number that is not too large has a double. -/
lemma exists_round {x : ℚ} (h0 : 0 ≤ x) {b : ℕ} (hb : b ≤ 1023) (hx : x < 2 ^ b) :
    ∃ w, round x = some w := by
  rcases h0.eq_or_lt with rfl | hpos
  · exact ⟨0, round_zero⟩
  · exact Option.isSome_iff_exists.mp (round_isSome hpos hb hx)

/-! ## Subtracting one -/

/-- A multiple of a last place that is no finer than its own is a double. -/
lemma round_of_multiple {y : ℚ} (hlt : y < 2 ^ 1024) {e k : ℤ} (he : exponent y ≤ e)
    (h : y = k * 2 ^ e) : round y = some y := by
  have hplace : (0 : ℚ) < 2 ^ exponent y := by positivity
  have hsplit : (2 : ℚ) ^ e = 2 ^ (e - exponent y).toNat * 2 ^ exponent y := by
    rw [← zpow_natCast, ← zpow_add₀ (by norm_num)]
    congr 1
    omega
  have hscaled : y / 2 ^ exponent y = ((k * 2 ^ (e - exponent y).toNat : ℤ) : ℚ) := by
    rw [div_eq_iff hplace.ne']
    push_cast
    rw [mul_assoc, ← hsplit]
    exact h
  unfold round
  dsimp only
  rw [hscaled, roundHalfEven_intCast, ← hscaled, div_mul_cancel₀ _ hplace.ne', if_pos hlt]

/-- A double is a multiple of its last place. -/
lemma exists_multiple {x : ℚ} (hx : round x = some x) : ∃ k : ℤ, x = k * 2 ^ exponent x := by
  unfold round at hx
  dsimp only at hx
  split at hx
  · exact ⟨_, (Option.some.inj hx).symm⟩
  · cases hx

/-- One can be taken from a double of at most `2 ^ 53` without rounding. -/
theorem round_sub_one {x : ℚ} (hx : round x = some x) (h1 : 1 ≤ x) (hle : x ≤ 2 ^ 53) :
    round (x - 1) = some (x - 1) := by
  rcases hle.eq_or_lt with rfl | hlt
  · have hnat : (2 : ℚ) ^ 53 - 1 = ((2 ^ 53 - 1 : ℕ) : ℚ) := by norm_num
    rw [hnat]
    exact round_natCast (by norm_num)
  rcases h1.eq_or_lt with rfl | h1
  · rw [sub_self]
    exact round_zero
  obtain ⟨k, hk⟩ := exists_multiple hx
  have hlog := Int.log_mono_right (b := 2) (show 0 < x - 1 by linarith) (show x - 1 ≤ x by linarith)
  have hone : (1 : ℚ) = ((2 ^ (-exponent x).toNat : ℤ) : ℚ) * 2 ^ exponent x := by
    have h := div_last_place (by linarith) hlt 1
    rw [one_mul, Int.cast_one] at h
    rw [h, div_mul_cancel₀ _ (by positivity)]
  refine round_of_multiple (e := exponent x) (k := k - 2 ^ (-exponent x).toNat)
    ((by linarith : x - 1 < 2 ^ 53).trans two_pow_lt) ?_ ?_
  · unfold exponent
    omega
  · rw [Int.cast_sub, sub_mul, ← hk, ← hone]

/-- A negative number is not rounded to a positive one. -/
lemma roundSigned_nonpos {x y : ℚ} (hx : x < 0) (h : roundSigned x = some y) : y ≤ 0 := by
  rw [roundSigned, if_pos hx] at h
  obtain ⟨z, hz, rfl⟩ := Option.map_eq_some_iff.mp h
  exact neg_nonpos.mpr (round_nonneg (by linarith) hz)

end RespBench.Lib.Binary64
