import RespBench.Hdr.Buckets

/-!
# The range of a histogram

The constructor doubles the first untrackable value until it is not below the highest trackable
value, and the two can be equal: then the highest value has the first index behind the counts. The
first untrackable value of a single bucket is `2 ^ firstUntrackable`; when this does not fit the
word the shift yields a value that never grows and the loop does not end.

`covers_iff` says for which parameters the counts hold every value up to the highest one.
-/

namespace RespBench.Hdr
open RespBench.Lib
open RespBench.Lib.CheckedInt (shl)

variable {lowest highest : ℤ} {sigFigs : ℕ}

/-! ## The loop -/

/-- The binary logarithm of the first value behind a single bucket. -/
def firstUntrackable (lowest : ℤ) (sigFigs : ℕ) : ℕ :=
  Nat.clog 2 (2 * 10 ^ sigFigs) + Nat.log 2 lowest.toNat

/-- The power of two at which the loop ends when it starts from `2 ^ k`. -/
def Reaches (highest : ℤ) (k doubled : ℕ) : Prop :=
  k + doubled ≤ 62 ∧ highest ≤ 2 ^ (k + doubled) ∧ ∀ c < doubled, (2 : ℤ) ^ (k + c) < highest

/-- A power of two below the highest value has a small exponent. -/
lemma two_pow_lt {k : ℕ} (hhighest : highest < 2 ^ 62) (h : (2 : ℤ) ^ k < highest) : k < 62 :=
  (pow_lt_pow_iff_right₀ (by norm_num : (1 : ℤ) < 2)).mp (h.trans hhighest)

/-- The bound at which the code stops doubling. -/
lemma half_word : (((2 ^ 63 - 1) >>> 1 : ℕ) : ℤ) = 2 ^ 62 - 1 :=
  by norm_num [Nat.shiftRight_eq_div_pow]

/-- A round of the loop from a power of two. -/
lemma bucketsNeeded_succ (hhighest : highest < 2 ^ 62) (fuel k needed : ℕ) :
    bucketsNeeded highest (fuel + 1) (2 ^ k) needed
      = if (2 : ℤ) ^ k < highest then bucketsNeeded highest fuel (2 ^ (k + 1)) (needed + 1)
        else some needed := by
  rw [bucketsNeeded]
  by_cases hlt : (2 : ℤ) ^ k < highest
  · have hk := two_pow_lt hhighest hlt
    have hsmall : ¬ (2 : ℤ) ^ k > (2 ^ 63 - 1) >>> (1 : ℕ) := by
      have hle : (2 : ℤ) ^ k ≤ 2 ^ 61 := pow_le_pow_right₀ (by norm_num) (by omega)
      rw [half_word]
      exact not_lt.mpr (hle.trans (by norm_num))
    rw [if_pos hlt, if_pos hlt, if_neg hsmall, shl_two_pow hk]
  · rw [if_neg hlt, if_neg hlt]

/-- What the loop counts. -/
lemma bucketsNeeded_eq_some (hhighest : highest < 2 ^ 62) {fuel k needed buckets : ℕ} (hk : k ≤ 62)
    (h : bucketsNeeded highest fuel (2 ^ k) needed = some buckets) :
    ∃ doubled, buckets = needed + doubled ∧ Reaches highest k doubled := by
  induction fuel generalizing k needed with
  | zero => cases h
  | succ fuel ih =>
    rw [bucketsNeeded_succ hhighest] at h
    by_cases hlt : (2 : ℤ) ^ k < highest
    · rw [if_pos hlt] at h
      obtain ⟨doubled, rfl, hle, hreached, hbefore⟩ := ih (k := k + 1) (two_pow_lt hhighest hlt) h
      rw [add_assoc k, add_comm 1] at hle hreached
      refine ⟨doubled + 1, by omega, hle, hreached, fun c hc => ?_⟩
      rcases Nat.eq_zero_or_pos c with rfl | hpos
      · exact hlt
      · have := hbefore (c - 1) (by omega)
        rwa [add_assoc, Nat.add_sub_cancel' hpos] at this
    · rw [if_neg hlt] at h
      cases h
      exact ⟨0, rfl, hk, not_lt.mp hlt, fun c hc => absurd hc (Nat.not_lt_zero c)⟩

/-- The loop ends when it starts inside the word. -/
lemma bucketsNeeded_isSome (hhighest : highest < 2 ^ 62) {fuel k : ℕ} (hk : k ≤ 62)
    (hfuel : 62 < k + fuel) (needed : ℕ) : (bucketsNeeded highest fuel (2 ^ k) needed).isSome := by
  induction fuel generalizing k needed with
  | zero => omega
  | succ fuel ih =>
    rw [bucketsNeeded_succ hhighest]
    by_cases hlt : (2 : ℤ) ^ k < highest
    · rw [if_pos hlt]
      exact ih (two_pow_lt hhighest hlt) (by omega) _
    · rw [if_neg hlt]
      rfl

/-- The loop does not end when the start left the word. -/
lemma bucketsNeeded_zero (hpos : 0 < highest) (fuel needed : ℕ) :
    bucketsNeeded highest fuel 0 needed = none := by
  induction fuel generalizing needed with
  | zero => rfl
  | succ fuel ih =>
    rw [bucketsNeeded, if_pos hpos, half_word, if_neg (by norm_num)]
    exact ih _

/-- Nor when it is the smallest number of the word. -/
lemma bucketsNeeded_min (hpos : 0 < highest) (fuel needed : ℕ) :
    bucketsNeeded highest fuel (-2 ^ 63) needed = none := by
  cases fuel with
  | zero => rfl
  | succ fuel =>
    have hshl : shl (-2 ^ 63) 1 = 0 := by decide +kernel
    rw [bucketsNeeded, if_pos (by omega), half_word, if_neg (by norm_num), hshl]
    exact bucketsNeeded_zero hpos _ _

/-- A shift out of the word. -/
lemma shl_of_lt {m u : ℕ} (h : 62 < m + u) : shl (2 ^ m) u = 0 ∨ shl (2 ^ m) u = -2 ^ 63 := by
  rw [shl, ← pow_add]
  rcases (Nat.succ_le_of_lt h).eq_or_lt with heq | hlt
  · rw [← heq]
    exact .inr (by decide +kernel)
  · left
    obtain ⟨c, hc⟩ := Nat.exists_eq_add_of_le (Nat.succ_le_of_lt hlt)
    rw [show m + u = 64 + c from hc, pow_add]
    exact Int.bmod_eq_zero_of_dvd (dvd_mul_right _ _)

/-! ## The constructor -/

/-- The sub-buckets of up to five figures. -/
lemma clog_bounds (hone : 1 ≤ sigFigs) (hfive : sigFigs ≤ 5) :
    1 ≤ Nat.clog 2 (2 * 10 ^ sigFigs) ∧ Nat.clog 2 (2 * 10 ^ sigFigs) ≤ 18 := by
  have hlow : 10 ^ 1 ≤ 10 ^ sigFigs := Nat.pow_le_pow_right (by norm_num) hone
  have hhigh : 10 ^ sigFigs ≤ 10 ^ 5 := Nat.pow_le_pow_right (by norm_num) hfive
  exact ⟨Nat.clog_pos (by norm_num) (by omega), Nat.clog_le_of_le_pow (by omega)⟩

/-- The constructor, for sub-buckets that fit the word. -/
lemma new_eq (hone : 1 ≤ sigFigs) (hfive : sigFigs ≤ 5) (fuel : ℕ) :
    Layout.new fuel lowest highest sigFigs
    = (bucketsNeeded highest fuel (shl (2 ^ Nat.clog 2 (2 * 10 ^ sigFigs)) (Nat.log 2 lowest.toNat))
      1).map
      fun bucketCount =>
        ⟨lowest, highest, sigFigs, Nat.clog 2 (2 * 10 ^ sigFigs) - 1,
          2 ^ (Nat.clog 2 (2 * 10 ^ sigFigs) - 1), 2 ^ Nat.clog 2 (2 * 10 ^ sigFigs),
          shl (2 ^ Nat.clog 2 (2 * 10 ^ sigFigs) - 1) (Nat.log 2 lowest.toNat),
          Nat.log 2 lowest.toNat, bucketCount,
          (bucketCount + 1) * 2 ^ (Nat.clog 2 (2 * 10 ^ sigFigs) - 1)⟩ := by
  obtain ⟨hlow, hhigh⟩ := clog_bounds hone hfive
  unfold Layout.new
  dsimp only
  rw [max_eq_left hlow]
  generalize Nat.clog 2 (2 * 10 ^ sigFigs) = m at *
  obtain ⟨half, rfl⟩ : ∃ half, m = half + 1 := ⟨m - 1, by omega⟩
  rw [Nat.add_sub_cancel]
  have hshl : shl 1 (half + 1) = 2 ^ (half + 1) := by
    have h := shl_two_pow (a := 0) (by omega : 0 + (half + 1) ≤ 62)
    rwa [pow_zero, zero_add] at h
  have hshift : (2 : ℤ) ^ (half + 1) >>> (1 : ℕ) = 2 ^ half := by
    rw [Int.shiftRight_eq_div_pow, pow_succ]
    norm_num
  rw [hshl, hshift]

/-- A constructor whose first untrackable value leaves the word does not return. -/
lemma new_eq_none (hpos : 0 < highest) (hone : 1 ≤ sigFigs) (hfive : sigFigs ≤ 5)
    (hk : 62 < firstUntrackable lowest sigFigs) (fuel : ℕ) :
    Layout.new fuel lowest highest sigFigs = none := by
  rw [new_eq hone hfive]
  rcases shl_of_lt hk with hshl | hshl
  · rw [hshl, bucketsNeeded_zero hpos, Option.map_none]
  · rw [hshl, bucketsNeeded_min hpos, Option.map_none]

/-- The constructor returns otherwise. -/
lemma new_isSome (hhighest : highest < 2 ^ 62) (hone : 1 ≤ sigFigs) (hfive : sigFigs ≤ 5)
    (hk : firstUntrackable lowest sigFigs ≤ 62) :
    (Layout.new 63 lowest highest sigFigs).isSome := by
  rw [new_eq hone hfive, shl_two_pow hk, ← firstUntrackable, Option.isSome_map]
  exact bucketsNeeded_isSome hhighest hk (by omega) 1

/-- What it returns: the layout is regular for every value below the power of two at
which the loop ended. -/
lemma regular_of_new (hhighest : highest < 2 ^ 62) (hone : 1 ≤ sigFigs) (hfive : sigFigs ≤ 5)
    (hk : firstUntrackable lowest sigFigs ≤ 62) {fuel : ℕ} {L : Layout}
    (hnew : Layout.new fuel lowest highest sigFigs = some L) :
    ∃ doubled, Reaches highest (firstUntrackable lowest sigFigs) doubled ∧
    L.bucketCount = doubled + 1 ∧
      L.unitMagnitude + L.subBucketHalfCountMagnitude + 1 = firstUntrackable lowest sigFigs ∧
      ({ L with highestTrackableValue := highest - 1 } : Layout).Regular := by
  obtain ⟨hlow, hhigh⟩ := clog_bounds hone hfive
  rw [new_eq hone hfive, shl_two_pow hk, ← firstUntrackable] at hnew
  obtain ⟨buckets, hbuckets, rfl⟩ := Option.map_eq_some_iff.mp hnew
  obtain ⟨doubled, rfl, hreaches⟩ := bucketsNeeded_eq_some hhighest hk hbuckets
  refine ⟨doubled, hreaches, add_comm _ _, ?_, ?_⟩
  · unfold firstUntrackable
    dsimp only
    omega
  · obtain ⟨hle, hreached, -⟩ := hreaches
    unfold firstUntrackable at hk hle hreached
    generalize Nat.clog 2 (2 * 10 ^ sigFigs) = m, Nat.log 2 lowest.toNat = u at *
    obtain ⟨half, rfl⟩ : ∃ half, m = half + 1 := ⟨m - 1, by omega⟩
    have hmask : (2 ^ (half + 1) - 1) * 2 ^ u < 2 ^ 63 :=
      calc (2 ^ (half + 1) - 1) * 2 ^ u ≤ 2 ^ (half + 1) * 2 ^ u :=
        Nat.mul_le_mul_right _ (Nat.sub_le _ _)
        _ = 2 ^ (half + 1 + u) := (pow_add _ _ _).symm
        _ < 2 ^ 63 := Nat.pow_lt_pow_right (by norm_num) (by omega)
    constructor
    · rfl
    · have hshl := shl_natCast hmask
      rw [Nat.cast_sub Nat.one_le_two_pow] at hshl
      exact_mod_cast hshl
    · dsimp only
      push_cast
      rfl
    · dsimp only
      omega
    · dsimp only
      omega
    · dsimp only
      rw [show u + (half + 1 - 1) + (1 + doubled) = half + 1 + u + doubled from by omega]
      push_cast
      omega

/-- The counts hold the values below the power of two at which the loop ended. -/
lemma countsIndexFor_lt_iff {L : Layout} {k doubled : ℕ} (hbuckets : L.bucketCount = doubled + 1)
    (hk : L.unitMagnitude + L.subBucketHalfCountMagnitude + 1 = k)
    (hL : ({ L with highestTrackableValue := highest - 1 } : Layout).Regular) {n : ℕ}
    (hn : n < 2 ^ 63) :
    L.countsIndexFor n < L.countsLen ↔ n < 2 ^ (k + doubled) := by
  have hindex : L.countsIndexFor n = L.index n := countsIndexFor_eq hL hn
  have hlen : L.countsLen = _ := hL.countsLen
  rw [hindex, hlen, Nat.cast_lt, hbuckets, ← hk]
  exact LogLinear.index_lt_iff

/-! ## The range -/

/-- The constructor returns a histogram whose counts hold every value up to the
highest trackable one. -/
def Covers (lowest highest : ℤ) (sigFigs : ℕ) : Prop :=
  ∃ fuel L, Layout.new fuel lowest highest sigFigs = some L ∧
    ∀ v, 0 ≤ v → v ≤ highest → 0 ≤ L.countsIndexFor v ∧ L.countsIndexFor v < L.countsLen

/-- The counts do not hold the highest trackable value when the loop ends at it. -/
lemma Covers.ne_two_pow (hhighest : highest < 2 ^ 62) (hone : 1 ≤ sigFigs) (hfive : sigFigs ≤ 5)
    (hk : firstUntrackable lowest sigFigs ≤ 62) (h : Covers lowest highest sigFigs) {j : ℕ}
    (hj : firstUntrackable lowest sigFigs ≤ j) : highest ≠ 2 ^ j := by
  rintro rfl
  obtain ⟨fuel, L, hnew, hcovers⟩ := h
  obtain ⟨doubled, ⟨-, -, hbefore⟩, hbuckets, hfirst, hL⟩ :=
    regular_of_new hhighest hone hfive hk hnew
  have hlt := (hcovers (2 ^ j : ℕ) (by positivity) (by push_cast; rfl)).2
  have hword : 2 ^ j < 2 ^ 63 := (by exact_mod_cast hhighest : 2 ^ j < 2 ^ 62).trans (by norm_num)
  have hless := (countsIndexFor_lt_iff hbuckets hfirst hL hword).mp hlt
  have hj' : j < firstUntrackable lowest sigFigs + doubled :=
    (Nat.pow_lt_pow_iff_right (by norm_num)).mp hless
  -- The loop passed this power of two, so that it is below the highest value.
  have hpassed := hbefore (j - firstUntrackable lowest sigFigs) (by omega)
  rw [Nat.add_sub_cancel' hj] at hpassed
  exact lt_irrefl _ hpassed

/-- They hold it otherwise. -/
lemma covers_of_ne_two_pow (hhighest : highest < 2 ^ 62) (hone : 1 ≤ sigFigs) (hfive : sigFigs ≤ 5)
    (hk : firstUntrackable lowest sigFigs ≤ 62)
    (hne : ∀ j ≥ firstUntrackable lowest sigFigs, highest ≠ 2 ^ j) :
    Covers lowest highest sigFigs := by
  obtain ⟨L, hnew⟩ := Option.isSome_iff_exists.mp (new_isSome hhighest hone hfive hk)
  obtain ⟨doubled, ⟨-, hreached, -⟩, hbuckets, hfirst, hL⟩ :=
    regular_of_new hhighest hone hfive hk hnew
  refine ⟨63, L, hnew, fun v h0 hv => ?_⟩
  obtain ⟨n, rfl⟩ := Int.eq_ofNat_of_zero_le h0
  have hn : n < 2 ^ 63 := by omega
  have hbelow : (n : ℤ) < 2 ^ (firstUntrackable lowest sigFigs + doubled) :=
    hv.trans_lt (lt_of_le_of_ne hreached (hne _ (Nat.le_add_right _ _)))
  have hindex : L.countsIndexFor n = L.index n := countsIndexFor_eq hL hn
  refine ⟨?_, (countsIndexFor_lt_iff hbuckets hfirst hL hn).mpr (by exact_mod_cast hbelow)⟩
  rw [hindex]
  exact Int.natCast_nonneg _

/-- The constructor covers the range exactly when its loop can begin and does not end at the highest
trackable value. -/
theorem covers_iff (hlowest : 1 ≤ lowest) (hranges : 2 * lowest ≤ highest)
    (hhighest : highest < 2 ^ 62) (hone : 1 ≤ sigFigs) (hfive : sigFigs ≤ 5) :
    Covers lowest highest sigFigs ↔
      firstUntrackable lowest sigFigs ≤ 62 ∧ ∀ j ≥ firstUntrackable lowest sigFigs,
      highest ≠ 2 ^ j := by
  constructor
  · intro h
    have hk : firstUntrackable lowest sigFigs ≤ 62 := by
      by_contra hlt
      obtain ⟨fuel, L, hnew, -⟩ := h
      rw [new_eq_none (by omega) hone hfive (not_le.mp hlt)] at hnew
      cases hnew
    exact ⟨hk, fun j hj => h.ne_two_pow hhighest hone hfive hk hj⟩
  · rintro ⟨hk, hne⟩
    exact covers_of_ne_two_pow hhighest hone hfive hk hne

/-- The first value that is not tracked, as a power of two. -/
lemma firstUntrackable_eq : firstUntrackable 1 3 = 11 := by decide +kernel

/-- The parameters of the engines. -/
theorem default_covers : Covers 1 600000000 3 := by
  refine (covers_iff (by norm_num) (by norm_num) (by norm_num) (by norm_num) (by norm_num)).mpr ⟨?_,
    ?_⟩
  · rw [firstUntrackable_eq]
    norm_num
  · intro j _ heq
    have heq' : 600000000 = 2 ^ j := by exact_mod_cast heq
    rcases Nat.lt_or_ge j 30 with hlt | hge
    · have : 2 ^ j ≤ 2 ^ 29 := Nat.pow_le_pow_right (by norm_num) (by omega)
      omega
    · have : 2 ^ 30 ≤ 2 ^ j := Nat.pow_le_pow_right (by norm_num) hge
      omega

/-- With 2048 as the highest trackable value the counts end before it. -/
theorem twoThousand_not_covers : ¬ Covers 1 2048 3 ∧
    (Layout.new 63 1 2048 3).map (fun L => (L.countsIndexFor 2048, L.countsLen))
      = some (2048, 2048) := by
  constructor
  · intro h
    have hk : firstUntrackable 1 3 ≤ 62 := by
      rw [firstUntrackable_eq]
      norm_num
    exact h.ne_two_pow (by norm_num) (by norm_num) (by norm_num) hk
      firstUntrackable_eq.le (by norm_num)
  · decide +kernel

end RespBench.Hdr
