import RespBench.Hdr.Buckets

/-!
# The partition into buckets

The indices of a regular layout cut its values into intervals that follow each other without gaps
(`highestEquivalentValue_add_one`), and every value lies in the interval of its own index
(`le_highest`). `default_partition` puts the laws together for the default layout, where three
significant digits mean that a bucket is narrow in proportion to its values.
-/

namespace RespBench.Hdr
open RespBench.Lib

section Regular
variable {L : Layout} (hL : L.Regular)
include hL

/-- The values of the indices increase. -/
lemma valueFromIndex_strictMono {i j : ℕ} (hij : i < j) (hj : j < L.countsLen) :
    L.valueFromIndex i < L.valueFromIndex j := by
  rw [valueFromIndex_eq hL hj, valueFromIndex_eq hL (by omega), Nat.cast_lt]
  exact LogLinear.floor_strictMono _ _ hij

/-- Behind the last value of an index the next index begins. -/
theorem highestEquivalentValue_add_one {i : ℕ} (hi : (i + 1 : ℕ) < L.countsLen) :
    L.highestEquivalentValue (L.valueFromIndex i) + 1 = L.valueFromIndex (i + 1 : ℕ) := by
  have hi' : (i : ℤ) < L.countsLen := by omega
  have hindex : L.index (L.floor i) = i := LogLinear.index_floor _ _ _
  have hnext : L.floor (i + 1) = L.floor i + L.width i := LogLinear.floor_succ _ _ _
  rw [valueFromIndex_eq hL hi', valueFromIndex_eq hL hi,
    highestEquivalentValue_eq hL (floor_lt hL hi'), hindex, hnext]
  push_cast
  ring

/-- A value is not above its highest equivalent value. -/
lemma le_highest {n : ℕ} (hn : n < 2 ^ 62) : (n : ℤ) ≤ L.highestEquivalentValue n := by
  have hlt : n < L.floor (L.index n) + L.width (L.index n) := LogLinear.lt_floor_add_width _ _ _
  rw [highestEquivalentValue_eq hL hn]
  omega

/-- A value is not below its lowest equivalent value. -/
lemma lowest_le {n : ℕ} (hn : n < 2 ^ 62) : L.lowestEquivalentValue n ≤ n := by
  rw [lowestEquivalentValue_eq hL hn, Nat.cast_le]
  exact L.floor_index_le n

end Regular

/-- The laws of the buckets of a layout whose highest trackable value and precision are given. -/
structure Partition (L : Layout) (highest precision : ℤ) : Prop where
  index_value : ∀ i, 0 ≤ i → i < L.countsLen → L.countsIndexFor (L.valueFromIndex i) = i
  increasing : ∀ i j, 0 ≤ i → i < j → j < L.countsLen → L.valueFromIndex i < L.valueFromIndex j
  abut : ∀ i, 0 ≤ i → i + 1 < L.countsLen →
    L.highestEquivalentValue (L.valueFromIndex i) + 1 = L.valueFromIndex (i + 1)
  inRange : ∀ v, 0 ≤ v → v ≤ highest → 0 ≤ L.countsIndexFor v ∧ L.countsIndexFor v < L.countsLen
  monotone : ∀ v w, 0 ≤ v → v ≤ w → w ≤ highest → L.countsIndexFor v ≤ L.countsIndexFor w
  contains : ∀ v, 0 ≤ v → v ≤ highest → L.lowestEquivalentValue v ≤ v ∧
    v ≤ L.highestEquivalentValue v
  precise : ∀ v, 0 ≤ v → v ≤ highest → ((L.sizeOfEquivalentValueRange v - 1 : ℤ) : ℚ)
    ≤ v / precision

/-- The indices of the default histogram partition its values, with three significant digits. -/
theorem default_partition : Partition defaultLayout 600000000 1000 := by
  have hL := defaultLayout_regular
  have hhighest : defaultLayout.highestTrackableValue = 600000000 := by rw [defaultLayout_eq]
  have hhalf : defaultLayout.subBucketHalfCountMagnitude = 10 ∧
    defaultLayout.unitMagnitude = 0 := by
    rw [defaultLayout_eq]
    exact ⟨rfl, rfl⟩
  constructor
  case index_value =>
    intro i h0 hi
    obtain ⟨i, rfl⟩ := Int.eq_ofNat_of_zero_le h0
    exact countsIndexFor_valueFromIndex hL hi
  case increasing =>
    intro i j h0 hij hj
    obtain ⟨i, rfl⟩ := Int.eq_ofNat_of_zero_le h0
    obtain ⟨j, rfl⟩ := Int.eq_ofNat_of_zero_le (h0.trans hij.le)
    exact valueFromIndex_strictMono hL (by omega) hj
  case abut =>
    intro i h0 hi
    obtain ⟨i, rfl⟩ := Int.eq_ofNat_of_zero_le h0
    exact highestEquivalentValue_add_one hL hi
  case inRange =>
    intro v h0 hv
    obtain ⟨n, rfl⟩ := Int.eq_ofNat_of_zero_le h0
    rw [countsIndexFor_eq hL (by omega)]
    exact ⟨Int.natCast_nonneg _, index_lt_countsLen hL (hv.trans hhighest.ge)⟩
  case monotone =>
    intro v w h0 hvw hw
    obtain ⟨n, rfl⟩ := Int.eq_ofNat_of_zero_le h0
    obtain ⟨m, rfl⟩ := Int.eq_ofNat_of_zero_le (h0.trans hvw)
    rw [countsIndexFor_eq hL (by omega), countsIndexFor_eq hL (by omega), Nat.cast_le]
    exact LogLinear.index_mono _ _ (by omega)
  case contains =>
    intro v h0 hv
    obtain ⟨n, rfl⟩ := Int.eq_ofNat_of_zero_le h0
    exact ⟨lowest_le hL (by omega), le_highest hL (by omega)⟩
  case precise =>
    intro v h0 hv
    obtain ⟨n, rfl⟩ := Int.eq_ofNat_of_zero_le h0
    have hwidth : (defaultLayout.width (defaultLayout.index n) - 2 ^ defaultLayout.unitMagnitude)
        * 2 ^ defaultLayout.subBucketHalfCountMagnitude ≤ n := LogLinear.width_index_le _ _ _
    have hpos := defaultLayout.width_pos (defaultLayout.index n)
    rw [sizeOfEquivalentValueRange_eq hL (by omega), le_div_iff₀ (by norm_num)]
    rw [hhalf.1, hhalf.2] at hwidth
    generalize defaultLayout.width (defaultLayout.index n) = width at *
    have hle : ((width : ℤ) - 1) * 1000 ≤ n := by omega
    exact_mod_cast hle

end RespBench.Hdr
