import RespBench.Hdr.Histogram
import RespBench.Lib.IntBits
import RespBench.Lib.LogLinear

/-!
# The buckets of a histogram

The index arithmetic of a histogram is that of log-linear buckets: `countsIndexFor_eq` and
`valueFromIndex_eq`, for every layout whose constructor did not overflow (`Layout.Regular`). The
default layout is one (`defaultLayout_regular`), and its counts hold every trackable value
(`index_lt_countsLen`). The equivalent values of the code are the ends of the buckets
(`isLeast_lowest`, `isGreatest_highest`).
-/

namespace RespBench.Hdr
open RespBench.Lib
open RespBench.Lib.CheckedInt (shl shl_eq InRange)

/-! ## Bit lengths -/

/-- Halving takes a bit away. -/
lemma size_half {n : ℕ} (hn : n ≠ 0) : n.size = (n / 2).size + 1 := by
  have hbit := Nat.bit_bodd_div2 n
  rw [Nat.div2_val] at hbit
  conv_lhs => rw [← hbit]
  exact Nat.size_bit (by rwa [hbit])

/-- The loop counts the bits of what is left. -/
lemma bitLengthLoop_eq {fuel n : ℕ} (hn : n < 2 ^ fuel) (length : ℕ) :
    bitLengthLoop fuel n length = length + n.size := by
  induction fuel generalizing n length with
  | zero =>
    obtain rfl : n = 0 := by omega
    rfl
  | succ fuel ih =>
    rw [bitLengthLoop]
    by_cases h : n = 0
    · subst h
      rfl
    · have hhalf : (n : ℤ) >>> (1 : ℕ) = (n / 2 : ℕ) := by
        rw [Int.shiftRight_eq_div_pow]
        rfl
      rw [if_pos (by omega), hhalf, ih (by rw [pow_succ] at hn; omega), size_half h]
      omega

/-- `bitLength` is the number of binary digits. -/
lemma bitLength_eq {n : ℕ} (hn : n < 2 ^ 64) : bitLength n = n.size := by
  rw [bitLength, bitLengthLoop_eq hn, zero_add]

/-- A disjunction is as long as the longer operand. -/
lemma size_or (a b : ℕ) : (a ||| b).size = max a.size b.size := by
  apply le_antisymm
  · refine Nat.size_le.mpr (Nat.or_lt_two_pow ?_ ?_) <;> refine Nat.size_le.mp ?_
    · exact le_max_left _ _
    · exact le_max_right _ _
  · exact max_le (Nat.size_le_size Nat.left_le_or) (Nat.size_le_size Nat.right_le_or)

/-- A shift to the left that stays in the word multiplies by a power of two. -/
lemma shl_natCast {a n : ℕ} (h : a * 2 ^ n < 2 ^ 63) : shl a n = (a * 2 ^ n : ℕ) := by
  push_cast
  refine shl_eq ⟨?_, by exact_mod_cast h⟩
  exact le_trans (by norm_num) (by positivity : (0 : ℤ) ≤ a * 2 ^ n)

/-- Powers of two below the sign bit are shifted without overflow. -/
lemma shl_two_pow {a n : ℕ} (h : a + n ≤ 62) : shl (2 ^ a) n = 2 ^ (a + n) := by
  have hpow : 2 ^ a * 2 ^ n < 2 ^ 63 := by
    rw [← pow_add]
    exact Nat.pow_lt_pow_right (by norm_num) (Nat.lt_succ_of_le h)
  have hshl := shl_natCast hpow
  rw [← pow_add] at hshl
  exact_mod_cast hshl

/-! ## Layouts without overflow -/

/-- A layout whose constructor did not overflow. -/
structure Layout.Regular (L : Layout) : Prop where
  halfCount : L.subBucketHalfCount = 2 ^ L.subBucketHalfCountMagnitude
  mask : L.subBucketMask = ((2 ^ (L.subBucketHalfCountMagnitude + 1) - 1) * 2 ^ L.unitMagnitude : ℕ)
  countsLen : L.countsLen = ((L.bucketCount + 1) * 2 ^ L.subBucketHalfCountMagnitude : ℕ)
  some : 0 < L.bucketCount
  small : L.unitMagnitude + L.subBucketHalfCountMagnitude + L.bucketCount ≤ 62
  covers : L.highestTrackableValue
    < (2 ^ (L.unitMagnitude + L.subBucketHalfCountMagnitude + L.bucketCount) : ℕ)

/-- The fields of the default layout. -/
lemma defaultLayout_eq : defaultLayout = ⟨1, 600000000, 3, 10, 1024, 2048, 2047, 0, 20, 21504⟩ := by
  decide +kernel

/-- The default layout is regular. -/
lemma defaultLayout_regular : defaultLayout.Regular := by
  rw [defaultLayout_eq]
  constructor <;> norm_num

/-- A layout is regular when it is the default one. -/
lemma regular_of_eq {L : Layout} (hL : L = defaultLayout) : L.Regular := by
  rw [hL]
  exact defaultLayout_regular

/-- The bucket index of a value, in terms of the layout. -/
abbrev Layout.index (L : Layout) (n : ℕ) : ℕ :=
  LogLinear.index L.unitMagnitude L.subBucketHalfCountMagnitude n

/-- The smallest value of an index, in terms of the layout. -/
abbrev Layout.floor (L : Layout) (i : ℕ) : ℕ :=
  LogLinear.floor L.unitMagnitude L.subBucketHalfCountMagnitude i

/-- How many values have an index, in terms of the layout. -/
abbrev Layout.width (L : Layout) (i : ℕ) : ℕ :=
  LogLinear.width L.unitMagnitude L.subBucketHalfCountMagnitude i

/-- How often the width has doubled, in terms of the layout. -/
abbrev Layout.doublings (L : Layout) (n : ℕ) : ℕ :=
  LogLinear.doublings L.unitMagnitude L.subBucketHalfCountMagnitude n

/-- The floor of a bucket cuts off the low bits of its values. -/
lemma Layout.floor_index (L : Layout) (n : ℕ) : L.floor (L.index n)
    = n / 2 ^ (L.doublings n + L.unitMagnitude) * 2 ^ (L.doublings n + L.unitMagnitude) :=
  LogLinear.floor_index _ _ _

/-- A bucket is as wide as the bits that it cuts off. -/
lemma Layout.width_index (L : Layout) (n : ℕ) :
    L.width (L.index n) = 2 ^ (L.doublings n + L.unitMagnitude) :=
  LogLinear.width_index _ _ _

/-- A value is not below the floor of its bucket. -/
lemma Layout.floor_index_le (L : Layout) (n : ℕ) : L.floor (L.index n) ≤ n :=
  LogLinear.floor_index_le _ _ _

/-- No bucket is empty. -/
lemma Layout.width_pos (L : Layout) (i : ℕ) : 0 < L.width i := LogLinear.width_pos _ _ _

/-- The 64-bit values that are counted where a value is. -/
def Layout.Equivalent (L : Layout) (value : ℤ) : Set ℤ :=
  {w | 0 ≤ w ∧ w < 2 ^ 63 ∧ L.countsIndexFor w = L.countsIndexFor value}

section Regular
variable {L : Layout} (hL : L.Regular)
include hL

/-- The bucket index counts the doublings of the width. -/
lemma bucketIndexFor_eq {n : ℕ} (hn : n < 2 ^ 63) : L.bucketIndexFor n
    = (LogLinear.doublings L.unitMagnitude L.subBucketHalfCountMagnitude n : ℕ) := by
  have hsmall := hL.small
  unfold Layout.bucketIndexFor LogLinear.doublings
  dsimp only
  rw [hL.mask]
  generalize L.unitMagnitude = u, L.subBucketHalfCountMagnitude = m at hsmall
  have hmask : ((2 ^ (m + 1) - 1) * 2 ^ u).size = u + m + 1 := by
    have hpos : 0 < 2 ^ u := by positivity
    have hone : 1 ≤ 2 ^ m := Nat.one_le_two_pow
    rw [pow_succ]
    apply LogLinear.size_eq
    · rw [add_comm u m, pow_add]
      exact Nat.mul_le_mul_right _ (by omega)
    · rw [show u + m + 1 = (m + 1) + u from by omega, pow_add 2 (m + 1), pow_succ]
      exact Nat.mul_lt_mul_of_pos_right (by omega) hpos
  have hor : Int.lor n ((2 ^ (m + 1) - 1) * 2 ^ u : ℕ) = (n ||| (2 ^ (m + 1) - 1) * 2 ^ u : ℕ) :=
    rfl
  have hsize : (n ||| (2 ^ (m + 1) - 1) * 2 ^ u).size ≤ 63 := by
    rw [size_or, hmask]
    exact max_le (Nat.size_le.mpr hn) (by omega)
  rw [hor, bitLength_eq ((Nat.size_le.mp hsize).trans (by norm_num)), size_or, hmask]
  omega

/-- The index of a value is its log-linear bucket. -/
theorem countsIndexFor_eq {n : ℕ} (hn : n < 2 ^ 63) : L.countsIndexFor n = L.index n := by
  have hsmall := hL.small
  have hsize : n.size ≤ 63 := Nat.size_le.mpr hn
  unfold Layout.countsIndexFor Layout.countsIndex Layout.subBucketIndexFor Layout.index
    LogLinear.index
  dsimp only
  rw [bucketIndexFor_eq hL hn, hL.halfCount]
  have hdoublings : LogLinear.doublings L.unitMagnitude L.subBucketHalfCountMagnitude n + 1
      ≤ 63 - L.subBucketHalfCountMagnitude := by
    unfold LogLinear.doublings
    omega
  generalize L.subBucketHalfCountMagnitude = m, L.unitMagnitude = u at *
  generalize LogLinear.doublings u m n = b at *
  have hrange : (b + 1) * 2 ^ m ≤ 2 ^ 62 := by
    have hb : b + 1 ≤ 2 ^ (62 - m) := by
      have := Nat.lt_two_pow_self (n := 62 - m)
      omega
    calc (b + 1) * 2 ^ m ≤ 2 ^ (62 - m) * 2 ^ m := by gcongr
      _ = 2 ^ 62 := by rw [← pow_add]; congr 1; omega
  have hshl : shl ((b : ℤ) + 1) m = ((b + 1) * 2 ^ m : ℕ) :=
    shl_natCast (hrange.trans_lt (by norm_num))
  have hplace : (n : ℤ) >>> ((b : ℤ) + u).toNat = (n / 2 ^ (b + u) : ℕ) := by
    rw [Int.shiftRight_eq_div_pow]
    push_cast
    rfl
  rw [hshl, hplace]
  push_cast
  ring

/-- The floors of the buckets stay within a word. -/
lemma floor_lt {i : ℕ} (hi : i < L.countsLen) : L.floor i < 2 ^ 62 := by
  have hsmall := hL.small
  have hsome := hL.some
  rw [hL.countsLen, Nat.cast_lt, show L.bucketCount + 1 = L.bucketCount - 1 + 2 from by omega] at hi
  exact (LogLinear.floor_lt L.unitMagnitude hi).trans_le
    (Nat.pow_le_pow_right (by norm_num) (by omega))

/-- The value of an index is the smallest value of its bucket. -/
theorem valueFromIndex_eq {i : ℕ} (hi : i < L.countsLen) : L.valueFromIndex i = L.floor i := by
  have hfloor := floor_lt hL hi
  unfold Layout.valueFromIndex Layout.floor LogLinear.floor at *
  rw [hL.halfCount]
  generalize L.subBucketHalfCountMagnitude = m, L.unitMagnitude = u at *
  have hbucket : (i : ℤ) >>> m = (i / 2 ^ m : ℕ) := by
    rw [Int.shiftRight_eq_div_pow]
    push_cast
    rfl
  have hland : Int.land i (2 ^ m - 1) = (i % 2 ^ m : ℕ) := by
    rw [IntBits.land_mask]
    push_cast
    rfl
  have hdiv := Nat.div_add_mod' i (2 ^ m)
  dsimp only
  rw [hbucket, hland]
  rcases Nat.eq_zero_or_pos (i / 2 ^ m) with h | h
  · have hmod : i % 2 ^ m = i := by rw [h, zero_mul, zero_add] at hdiv; exact hdiv
    rw [h, Nat.zero_sub, zero_mul, Nat.sub_zero, zero_add] at hfloor ⊢
    rw [if_pos (by omega), add_sub_cancel_right, hmod, shl_natCast (hfloor.trans (by norm_num))]
  · have hplace : i - (i / 2 ^ m - 1) * 2 ^ m = i % 2 ^ m + 2 ^ m := by
      obtain ⟨q, hq⟩ : ∃ q, i / 2 ^ m = q + 1 := ⟨i / 2 ^ m - 1, by omega⟩
      rw [hq, add_one_mul] at hdiv
      rw [hq, Nat.add_sub_cancel]
      omega
    have hshift : (((i / 2 ^ m : ℕ) : ℤ) - 1 + u).toNat = i / 2 ^ m - 1 + u := by omega
    rw [hplace] at hfloor ⊢
    rw [if_neg (by omega), hshift, ← shl_natCast (hfloor.trans (by norm_num))]
    push_cast
    rfl

/-- The smallest value of an index has this index. -/
theorem countsIndexFor_valueFromIndex {i : ℕ} (hi : i < L.countsLen) :
    L.countsIndexFor (L.valueFromIndex i) = i := by
  rw [valueFromIndex_eq hL hi, countsIndexFor_eq hL ((floor_lt hL hi).trans (by norm_num))]
  exact congrArg Nat.cast (LogLinear.index_floor _ _ _)

/-- The counts hold every trackable value. -/
theorem index_lt_countsLen {n : ℕ} (hn : n ≤ L.highestTrackableValue) :
    (L.index n : ℤ) < L.countsLen := by
  have hsome := hL.some
  have hcovers := hL.covers
  rw [hL.countsLen, Nat.cast_lt, show L.bucketCount + 1 = L.bucketCount - 1 + 2 from by omega]
  apply LogLinear.index_lt_iff.mpr
  rw [show L.unitMagnitude + L.subBucketHalfCountMagnitude + 1 + (L.bucketCount - 1)
    = L.unitMagnitude + L.subBucketHalfCountMagnitude + L.bucketCount from by omega]
  exact_mod_cast hn.trans_lt hcovers

/-- A bucket cuts off at most so many bits. -/
lemma doublings_add_le {n : ℕ} (hn : n < 2 ^ 62) :
    L.doublings n + L.unitMagnitude ≤ 62 := by
  have hsmall := hL.small
  have hsize : n.size ≤ 62 := Nat.size_le.mpr hn
  unfold Layout.doublings LogLinear.doublings
  omega

/-- `lowestEquivalentValue` is the smallest value of the bucket. -/
lemma lowestEquivalentValue_eq {n : ℕ} (hn : n < 2 ^ 62) :
    L.lowestEquivalentValue n = L.floor (L.index n) := by
  have hle := L.floor_index_le n
  have hbucket : L.bucketIndexFor n = (L.doublings n : ℕ) :=
    bucketIndexFor_eq hL (hn.trans (by norm_num))
  unfold Layout.lowestEquivalentValue Layout.subBucketIndexFor
  dsimp only
  rw [hbucket, L.floor_index]
  rw [L.floor_index] at hle
  generalize L.doublings n = b at *
  have hplace : (n : ℤ) >>> (b + L.unitMagnitude) = (n / 2 ^ (b + L.unitMagnitude) : ℕ) := by
    rw [Int.shiftRight_eq_div_pow]
    push_cast
    rfl
  rw [← Nat.cast_add, Int.toNat_natCast, hplace,
    shl_natCast (hle.trans_lt (hn.trans (by norm_num)))]

/-- `sizeOfEquivalentValueRange` is the width of the bucket. -/
lemma sizeOfEquivalentValueRange_eq {n : ℕ} (hn : n < 2 ^ 62) :
    L.sizeOfEquivalentValueRange n = L.width (L.index n) := by
  have hle := doublings_add_le hL hn
  have hbucket : L.bucketIndexFor n = (L.doublings n : ℕ) :=
    bucketIndexFor_eq hL (hn.trans (by norm_num))
  unfold Layout.sizeOfEquivalentValueRange
  rw [hbucket, L.width_index, add_comm, ← Nat.cast_add,
    Int.toNat_natCast]
  generalize L.doublings n + L.unitMagnitude = b at *
  have hshl := shl_two_pow (a := 0) (by omega : 0 + b ≤ 62)
  rw [pow_zero, zero_add] at hshl
  exact_mod_cast hshl

/-- `highestEquivalentValue` is the largest value of the bucket. -/
lemma highestEquivalentValue_eq {n : ℕ} (hn : n < 2 ^ 62) :
    L.highestEquivalentValue n = L.floor (L.index n) + L.width (L.index n) - 1 := by
  rw [Layout.highestEquivalentValue, Layout.nextNonEquivalentValue, lowestEquivalentValue_eq hL hn,
    sizeOfEquivalentValueRange_eq hL hn]

/-- The highest equivalent value increases with the value. -/
lemma highestEquivalentValue_mono {n m : ℕ} (hnm : n ≤ m) (hm : m < 2 ^ 62) :
    L.highestEquivalentValue n ≤ L.highestEquivalentValue m := by
  have hle : L.floor (L.index n + 1) ≤ L.floor (L.index m + 1) :=
    (LogLinear.floor_strictMono _ _).monotone (Nat.succ_le_succ (LogLinear.index_mono _ _ hnm))
  rw [highestEquivalentValue_eq hL (hnm.trans_lt hm), highestEquivalentValue_eq hL hm]
  rw [Layout.floor, LogLinear.floor_succ, Layout.floor, LogLinear.floor_succ] at hle
  unfold Layout.floor Layout.width
  omega

/-- The equivalent values are those of the bucket. -/
lemma mem_equivalent {n : ℕ} (hn : n < 2 ^ 62) {w : ℤ} : w ∈ L.Equivalent n ↔
    L.floor (L.index n) ≤ w ∧ w < L.floor (L.index n) + L.width (L.index n) := by
  have hle := L.floor_index_le n
  have hwidth : L.width (L.index n) ≤ 2 ^ 62 := by
    rw [L.width_index]
    exact Nat.pow_le_pow_right (by norm_num) (doublings_add_le hL hn)
  have hindex : ∀ v : ℕ, v < 2 ^ 63 →
    (L.countsIndexFor v = L.countsIndexFor n ↔ L.index v = L.index n) := by
    intro v hv
    rw [countsIndexFor_eq hL hv, countsIndexFor_eq hL (hn.trans (by norm_num)), Nat.cast_inj]
  constructor
  · rintro ⟨h0, hw, heq⟩
    obtain ⟨v, rfl⟩ := Int.eq_ofNat_of_zero_le h0
    have hplace := LogLinear.index_eq_iff.mp ((hindex v (by exact_mod_cast hw)).mp heq)
    exact_mod_cast hplace
  · rintro ⟨hlow, hhigh⟩
    obtain ⟨v, rfl⟩ := Int.eq_ofNat_of_zero_le ((Int.natCast_nonneg _).trans hlow)
    have hv : v < 2 ^ 63 := by omega
    refine ⟨Int.natCast_nonneg v, by exact_mod_cast hv,
      (hindex v hv).mpr (LogLinear.index_eq_iff.mpr ?_)⟩
    exact ⟨by exact_mod_cast hlow, by exact_mod_cast hhigh⟩

/-- The lowest equivalent value is the least of them. -/
theorem isLeast_lowest {n : ℕ} (hn : n < 2 ^ 62) :
    IsLeast (L.Equivalent n) (L.lowestEquivalentValue n) := by
  have hpos := L.width_pos (L.index n)
  rw [lowestEquivalentValue_eq hL hn]
  refine ⟨(mem_equivalent hL hn).mpr ⟨le_rfl, by omega⟩,
    fun w hw => ((mem_equivalent hL hn).mp hw).1⟩

/-- The highest equivalent value is the greatest of them. -/
theorem isGreatest_highest {n : ℕ} (hn : n < 2 ^ 62) :
    IsGreatest (L.Equivalent n) (L.highestEquivalentValue n) := by
  have hpos := L.width_pos (L.index n)
  rw [highestEquivalentValue_eq hL hn]
  refine ⟨(mem_equivalent hL hn).mpr ⟨by omega, by omega⟩, fun w hw => ?_⟩
  have := ((mem_equivalent hL hn).mp hw).2
  omega

end Regular

end RespBench.Hdr
