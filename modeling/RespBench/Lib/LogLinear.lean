import Mathlib

/-!
# Log-linear buckets

Numbers in buckets of bounded relative width. The numbers below `2 ^ (unit + half + 1)` are cut into
`2 ^ (half + 1)` buckets of width `2 ^ unit`; every further power of two is cut into `2 ^ half`
buckets, which are twice as wide as those before. `index` numbers the buckets through, `floor` is
the smallest number of a bucket and `width` is how many numbers it has.

`index_floor` says that the two agree, `index_lt_iff` and `floor_lt` which buckets the numbers below
a power of two need. The buckets follow each other without gaps (`floor_succ`), so that `floor` and
`index` are adjoint (`floor_le_iff`) and a bucket is an interval (`index_eq_iff`).
-/

namespace RespBench.Lib.LogLinear

/-- How often the width has doubled where a number lies. -/
def doublings (unit half n : ℕ) : ℕ := n.size - (unit + half + 1)

/-- The bucket of a number. -/
def index (unit half n : ℕ) : ℕ :=
  doublings unit half n * 2 ^ half + n / 2 ^ (doublings unit half n + unit)

/-- The smallest number of a bucket. -/
def floor (unit half i : ℕ) : ℕ :=
  (i - (i / 2 ^ half - 1) * 2 ^ half) * 2 ^ (i / 2 ^ half - 1 + unit)

/-- How many numbers a bucket has. -/
def width (unit half i : ℕ) : ℕ := 2 ^ (i / 2 ^ half - 1 + unit)

variable {unit half : ℕ}

/-- The size of a number between two powers of two. -/
lemma size_eq {n k : ℕ} (hlow : 2 ^ k ≤ n) (hhigh : n < 2 ^ (k + 1)) : n.size = k + 1 :=
  le_antisymm (Nat.size_le.mpr hhigh) (Nat.lt_size.mpr hlow)

/-- A bucket is its first half of buckets of equal width, and its place behind them. -/
lemma exists_place (half i : ℕ) : ∃ place, i = (i / 2 ^ half - 1) * 2 ^ half + place ∧
    place < 2 ^ (half + 1) ∧ (0 < i / 2 ^ half - 1 → 2 ^ half ≤ place) := by
  have hpos : 0 < 2 ^ half := by positivity
  have hdiv := Nat.div_add_mod i (2 ^ half)
  have hmod := Nat.mod_lt i hpos
  rw [pow_succ]
  rcases Nat.eq_zero_or_pos (i / 2 ^ half) with h | h
  · rw [h, mul_zero] at hdiv
    exact ⟨i, by simp [h], by omega, by simp [h]⟩
  · obtain ⟨q, hq⟩ : ∃ q, i / 2 ^ half = q + 1 := ⟨i / 2 ^ half - 1, by omega⟩
    rw [hq, mul_comm, add_one_mul] at hdiv
    exact ⟨2 ^ half + i % 2 ^ half, by rw [hq, Nat.add_sub_cancel]; omega, by omega, by omega⟩

/-- The smallest number of a bucket lies in it. -/
theorem index_floor (unit half i : ℕ) : index unit half (floor unit half i) = i := by
  obtain ⟨place, hi, hplace, hlow⟩ := exists_place half i
  have hsub : i - (i / 2 ^ half - 1) * 2 ^ half = place := by omega
  unfold floor
  rw [hsub]
  generalize i / 2 ^ half - 1 = b at hi hlow
  have hdoublings : doublings unit half (place * 2 ^ (b + unit)) = b := by
    unfold doublings
    rcases Nat.eq_zero_or_pos b with rfl | hb
    · have hle : (place * 2 ^ (0 + unit)).size ≤ unit + half + 1 := by
        refine Nat.size_le.mpr ?_
        calc place * 2 ^ (0 + unit) < 2 ^ (half + 1) * 2 ^ (0 + unit) := by gcongr
          _ = 2 ^ (unit + half + 1) := by rw [← pow_add]; congr 1; omega
      omega
    · rw [size_eq (k := half + (b + unit))]
      · omega
      · rw [pow_add]
        exact Nat.mul_le_mul_right _ (hlow hb)
      · rw [show half + (b + unit) + 1 = (half + 1) + (b + unit) from by omega,
          pow_add 2 (half + 1)]
        gcongr
  rw [index, hdoublings, Nat.mul_div_cancel _ (by positivity), ← hi]

/-- The smallest numbers of the buckets below a power of two. -/
theorem floor_lt (unit : ℕ) {i doubled : ℕ} (h : i < (doubled + 2) * 2 ^ half) :
    floor unit half i < 2 ^ (unit + half + 1 + doubled) := by
  obtain ⟨place, hi, hplace, -⟩ := exists_place half i
  have hsub : i - (i / 2 ^ half - 1) * 2 ^ half = place := by omega
  have hdoublings : i / 2 ^ half - 1 ≤ doubled := by
    have := (Nat.div_lt_iff_lt_mul (by positivity)).mpr h
    omega
  unfold floor
  rw [hsub]
  calc place * 2 ^ (i / 2 ^ half - 1 + unit) < 2 ^ (half + 1)
    * 2 ^ (i / 2 ^ half - 1 + unit) := by gcongr
    _ = 2 ^ (half + 1 + (i / 2 ^ half - 1 + unit)) := (pow_add _ _ _).symm
    _ ≤ 2 ^ (unit + half + 1 + doubled) := Nat.pow_le_pow_right (by norm_num) (by omega)

/-! ## Buckets as intervals -/

/-- No bucket is empty. -/
lemma width_pos (unit half i : ℕ) : 0 < width unit half i := by
  unfold width
  positivity

/-- The width of a bucket has doubled as often as that of its numbers. -/
lemma index_div (unit half n : ℕ) : index unit half n / 2 ^ half - 1 = doublings unit half n := by
  have hsize := Nat.lt_size_self n
  have hpos : 0 < 2 ^ half := by positivity
  rw [index, Nat.mul_comm, Nat.mul_add_div hpos]
  generalize hd : doublings unit half n = d
  unfold doublings at hd
  have hplace : n / 2 ^ (d + unit) / 2 ^ half = n / 2 ^ (d + unit + half) := by
    rw [Nat.div_div_eq_div_mul, ← pow_add]
  rw [hplace]
  have hhigh : n / 2 ^ (d + unit + half) < 2 := by
    rw [Nat.div_lt_iff_lt_mul (by positivity), ← pow_succ']
    exact hsize.trans_le (Nat.pow_le_pow_right (by norm_num) (by omega))
  rcases Nat.eq_zero_or_pos d with rfl | h
  · omega
  · have hlow : 2 ^ (d + unit + half) ≤ n := Nat.lt_size.mp (by omega)
    have := Nat.div_pos hlow (by positivity)
    omega

/-- The floor of a bucket cuts off the low bits. -/
lemma floor_index (unit half n : ℕ) : floor unit half (index unit half n)
    = n / 2 ^ (doublings unit half n + unit) * 2 ^ (doublings unit half n + unit) := by
  rw [floor, index_div, index, Nat.add_sub_cancel_left]

/-- The width of a bucket is a power of two. -/
lemma width_index (unit half n : ℕ) :
    width unit half (index unit half n) = 2 ^ (doublings unit half n + unit) := by
  rw [width, index_div]

/-- How much wider a bucket is than the narrowest, in proportion to its numbers. -/
lemma width_index_le (unit half n : ℕ) : (width unit half (index unit half n) - 2 ^ unit)
    * 2 ^ half ≤ n := by
  rw [width_index]
  rcases Nat.eq_zero_or_pos (doublings unit half n) with hzero | hpos
  · rw [hzero, zero_add, Nat.sub_self, zero_mul]
    exact Nat.zero_le n
  · have hlow : 2 ^ (doublings unit half n + unit + half) ≤ n := by
      refine Nat.lt_size.mp ?_
      unfold doublings at hpos ⊢
      omega
    calc (2 ^ (doublings unit half n + unit) - 2 ^ unit) * 2 ^ half
        ≤ 2 ^ (doublings unit half n + unit) * 2 ^ half := Nat.mul_le_mul_right _ (Nat.sub_le _ _)
      _ = 2 ^ (doublings unit half n + unit + half) := (pow_add _ _ _).symm
      _ ≤ n := hlow

/-- A number is not below its bucket. -/
lemma floor_index_le (unit half n : ℕ) : floor unit half (index unit half n) ≤ n := by
  rw [floor_index]
  exact Nat.div_mul_le_self _ _

/-- A number is not above its bucket. -/
lemma lt_floor_add_width (unit half n : ℕ) :
    n < floor unit half (index unit half n) + width unit half (index unit half n) := by
  rw [floor_index, width_index]
  exact Nat.lt_div_mul_add (by positivity)

/-- A bucket ends where the next one begins. -/
theorem floor_succ (unit half i : ℕ) :
    floor unit half (i + 1) = floor unit half i + width unit half i := by
  have hpos : 0 < 2 ^ half := by positivity
  have hdiv := Nat.div_add_mod' i (2 ^ half)
  have hmod := Nat.mod_lt i hpos
  unfold floor width
  generalize 2 ^ half = m at *
  obtain ⟨q, hq⟩ : ∃ q, i / m = q := ⟨_, rfl⟩
  obtain ⟨r, hr⟩ : ∃ r, i % m = r := ⟨_, rfl⟩
  rw [hq, hr] at hdiv
  rw [hr] at hmod
  rw [hq]
  by_cases hlast : r + 1 = m
  · -- The next bucket opens a new half, whose width doubles unless it is the second half.
    have hnext : i + 1 = (q + 1) * m := by rw [add_one_mul]; omega
    rw [hnext, Nat.mul_div_cancel _ hpos, Nat.add_sub_cancel]
    rcases Nat.eq_zero_or_pos q with rfl | hq0
    · rw [zero_mul] at hdiv
      rw [← add_one_mul]
      congr 1
      omega
    · obtain ⟨t, rfl⟩ : ∃ t, q = t + 1 := ⟨q - 1, by omega⟩
      have hplace : i - t * m + 1 = 2 * m := by rw [add_one_mul] at hdiv; omega
      rw [Nat.add_sub_cancel, ← add_one_mul, hplace, ← Nat.sub_mul,
        show t + 1 + 1 - (t + 1) = 1 from by omega]
      ring
  · have hnext : (i + 1) / m = q := by
      rw [← hdiv, add_assoc, Nat.mul_comm, Nat.mul_add_div hpos,
        Nat.div_eq_of_lt (by omega), add_zero]
    have hle : (q - 1) * m ≤ i := by
      calc (q - 1) * m ≤ q * m := Nat.mul_le_mul_right _ (Nat.sub_le _ _)
        _ ≤ i := by omega
    rw [hnext, Nat.sub_add_comm hle, add_one_mul]

/-- The floors increase. -/
lemma floor_strictMono (unit half : ℕ) : StrictMono (floor unit half) :=
  strictMono_nat_of_lt_succ fun i => by
    rw [floor_succ]
    exact Nat.lt_add_of_pos_right (width_pos unit half i)

/-- A bucket begins no later than a number when it is not behind that of the number. -/
theorem floor_le_iff {i n : ℕ} : floor unit half i ≤ n ↔ i ≤ index unit half n := by
  constructor
  · intro h
    by_contra hlt
    have hnext := (floor_strictMono unit half).monotone (Nat.succ_le_of_lt (not_le.mp hlt))
    rw [Nat.succ_eq_add_one, floor_succ] at hnext
    have := lt_floor_add_width unit half n
    omega
  · intro h
    exact ((floor_strictMono unit half).monotone h).trans (floor_index_le unit half n)

/-- The index does not decrease. -/
lemma index_mono (unit half : ℕ) : Monotone (index unit half) := fun n _ h =>
  floor_le_iff.mp ((floor_index_le unit half n).trans h)

/-- The numbers of a bucket. -/
theorem index_eq_iff {i n : ℕ} :
    index unit half n = i ↔ floor unit half i ≤ n ∧ n < floor unit half i + width unit half i := by
  rw [← floor_succ, floor_le_iff, ← not_le, floor_le_iff]
  omega

/-- The bucket that begins with a power of two. -/
lemma floor_two_pow (unit half doubled : ℕ) :
    floor unit half ((doubled + 2) * 2 ^ half) = 2 ^ (unit + half + 1 + doubled) := by
  rw [floor, Nat.mul_div_cancel _ (by positivity), ← Nat.sub_mul,
    show doubled + 2 - (doubled + 2 - 1) = 1 from by omega, one_mul, ← pow_add]
  congr 1
  omega

/-- The buckets of the numbers below a power of two. -/
theorem index_lt_iff {n doubled : ℕ} :
    index unit half n < (doubled + 2) * 2 ^ half ↔ n < 2 ^ (unit + half + 1 + doubled) := by
  rw [← not_le, ← floor_le_iff, floor_two_pow, not_le]

end RespBench.Lib.LogLinear
