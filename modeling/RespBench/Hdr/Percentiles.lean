import RespBench.Hdr.Merge
import RespBench.Lib.Ranks

/-!
# The rank law of percentiles

The buckets keep the order of the samples, so that the scan of a percentile stops at the bucket of
the sample with the rank asked for (`scan_eq_some`). In exact arithmetic a percentile is therefore
the largest value that is counted together with this sample (`rankLaw`), for every histogram that
was built by recording and merging (`Built`).
-/

namespace RespBench.Hdr
open RespBench.Lib

/-! ## Histograms built from samples -/

/-- A default histogram, and the samples that were recorded in it or merged into it. -/
inductive Built (engine : Engine) : HdrHistogram → List ℤ → Prop
  | new : Built engine newDefaultHdrHistogram []
  | record {h xs x} : Built engine h xs → 0 ≤ x → x ≤ 600000000 →
    Built engine (engine.record h x) (xs ++ [x])
  | merge {h k xs ys} : Built engine h xs → Built engine k ys → Built engine (h.merge k) (xs ++ ys)

variable {engine : Engine} {h : HdrHistogram} {M : Multiset ℕ} {xs : List ℤ}

/-- What a built histogram recorded is trackable. -/
lemma Built.trackable (hb : Built engine h xs) : Trackable xs := by
  induction hb with
  | new => exact fun _ hx => nomatch hx
  | record _ h0 hle ih =>
    intro x hx
    rcases List.mem_append.mp hx with hx | hx
    · exact ih x hx
    · rw [List.mem_singleton.mp hx]
      exact ⟨h0, hle⟩
  | merge _ _ ih ihk =>
    intro x hx
    rcases List.mem_append.mp hx with hx | hx
    · exact ih x hx
    · exact ihk x hx

/-- A built histogram holds the buckets of its samples. -/
theorem Built.holds (hb : Built engine h xs) : h.layout = defaultLayout ∧ Holds h (buckets xs) := by
  induction hb with
  | new => exact ⟨newDefault_layout, .empty _⟩
  | @record h xs x _ h0 hle ih =>
    obtain ⟨hl, hh⟩ := ih
    have hL := regular_of_eq hl
    have hx : ∀ y ∈ [x], 0 ≤ y ∧ y < 2 ^ 63 := by
      intro y hy
      rw [List.mem_singleton.mp hy]
      exact ⟨h0, hle.trans_lt (by norm_num)⟩
    obtain ⟨hlayout, hrecord⟩ := hh.foldl_record engine hx hL
    rw [hl] at hrecord
    rw [buckets_append]
    exact ⟨hlayout.trans hl, hrecord⟩
  | @merge h k xs ys _ hk ih ihk =>
    obtain ⟨hl, hh⟩ := ih
    obtain ⟨hlk, hhk⟩ := ihk
    have hL := regular_of_eq hl
    obtain ⟨hlayout, hmerge⟩ := hh.merge hL (hlk.trans hl.symm) hhk (by
      rw [hl]
      exact fun i => lt_countsLen hk.trackable)
    rw [buckets_append]
    exact ⟨hlayout.trans hl, hmerge⟩

/-! ## The scan -/

/-- One more bucket is counted. -/
lemma countP_lt_succ (M : Multiset ℕ) (n : ℕ) :
    M.countP (· < n + 1) = M.countP (· < n) + M.count n := by
  rw [Multiset.countP_eq_card_filter, filter_lt_succ, Multiset.card_add, Multiset.card_replicate,
    Multiset.countP_eq_card_filter]

/-- From a bucket on, the scan finds the bucket of a rank that is not before it. -/
lemma scan_range' (hh : Holds h M) {i rank : ℕ} (hrank : IsRank M rank i) {start len : ℕ}
    (hstart : start ≤ i) (hi : i < start + len) : h.scan rank (List.range' start len)
    (M.countP (· < start))
      = some (h.layout.highestEquivalentValue (h.layout.valueFromIndex i)) := by
  induction len generalizing start with
  | zero => omega
  | succ len ih =>
    have hsum : (M.countP (· < start) + h.rawCountAt start : ℤ) = M.countP (· < start + 1) := by
      rw [hh.count, countP_lt_succ]
      push_cast
      rfl
    rw [List.range'_succ, HdrHistogram.scan, hsum]
    rcases hstart.eq_or_lt with rfl | hlt
    · have hreached : M.countP (· < start + 1) = M.countP (· ≤ start) :=
        Multiset.countP_congr rfl fun x _ => propext Nat.lt_succ_iff
      rw [if_pos (by have := hrank.2; omega)]
    · have hbefore : M.countP (· < start + 1) ≤ M.countP (· < i) :=
        countP_mono fun x _ hx => by omega
      rw [if_neg (by have := hrank.1; omega)]
      exact ih hlt (by omega)

/-- The scan stops at the bucket with the rank asked for. -/
theorem scan_eq_some (hh : Holds h M) {i rank n : ℕ} (hrank : IsRank M rank i) (hi : i < n) :
    h.scan rank (List.range n) 0
      = some (h.layout.highestEquivalentValue (h.layout.valueFromIndex i)) := by
  have hscan := scan_range' hh hrank (Nat.zero_le i) (by omega : i < 0 + n)
  have hzero : M.countP (· < 0) = 0 := Multiset.countP_eq_zero.mpr fun x _ => Nat.not_lt_zero x
  rwa [hzero, ← List.range_eq_range'] at hscan

/-! ## Samples by their rank -/

/-- The samples in sorted order. -/
def sorted (xs : List ℤ) : List ℤ := xs.insertionSort (· ≤ ·)

/-- The sorted samples are the samples. -/
lemma sorted_perm (xs : List ℤ) : (sorted xs).Perm xs := List.perm_insertionSort _ xs

/-- There are as many sorted samples as samples. -/
lemma length_sorted (xs : List ℤ) : (sorted xs).length = xs.length := (sorted_perm xs).length_eq

/-- A sample has its rank in the sorted ones. -/
lemma isRank_sorted {r : ℕ} (hr : r < (sorted xs).length) : IsRank (xs : Multiset ℤ) (r + 1)
    (sorted xs)[r] := by
  rw [← Multiset.coe_eq_coe.mpr (sorted_perm xs)]
  exact isRank_getElem (List.pairwise_insertionSort _ xs) hr

/-- The bucket of a sample has the rank of the sample. -/
lemma isRank_buckets {r : ℕ} {x : ℤ} (hx : IsRank (xs : Multiset ℤ) r x) :
    IsRank (buckets xs) r (defaultLayout.index x.toNat) :=
  hx.map fun _ _ hle => LogLinear.index_mono _ _ (Int.toNat_le_toNat hle)

/-- A percentile whose rank is that of a sample is the largest value of the bucket of the sample. -/
lemma Built.valueAtPercentile_eq (hb : Built engine h xs) {round : ℚ → Option ℚ} {p : ℚ}
    {rank : ℕ} {x : ℤ}
    (hcount : HdrHistogram.countAtPercentile round (min (max p 0) 100) xs.length = some (rank : ℤ))
    (hx : IsRank (xs : Multiset ℤ) rank x) :
    h.valueAtPercentile round p = some (defaultLayout.highestEquivalentValue x) := by
  obtain ⟨hl, hh⟩ := hb.holds
  have hmem : x ∈ xs := Multiset.mem_coe.mp hx.mem
  have hpos := hx.pos
  have hcard := hx.le_card
  obtain ⟨h0, hle⟩ := hb.trackable x hmem
  obtain ⟨v, rfl⟩ := Int.eq_ofNat_of_zero_le h0
  have hbucket := isRank_buckets hx
  rw [Int.toNat_natCast] at hbucket
  have hi := lt_countsLen hb.trackable hbucket.mem
  have hscan := scan_eq_some hh hbucket (by omega : _ < defaultLayout.countsLen.toNat)
  rw [Multiset.coe_card] at hcard
  have hfloor := floor_lt defaultLayout_regular hi
  have hv : v < 2 ^ 62 := by omega
  have hindex : defaultLayout.index (defaultLayout.floor (defaultLayout.index v))
    = defaultLayout.index v :=
    LogLinear.index_floor _ _ _
  rw [hl, valueFromIndex_eq defaultLayout_regular hi,
    highestEquivalentValue_eq defaultLayout_regular hfloor, hindex,
      ← highestEquivalentValue_eq defaultLayout_regular hv] at hscan
  rw [HdrHistogram.valueAtPercentile, hh.total, card_buckets, if_neg (by omega), hcount,
    Option.map_some, hl, hscan, Option.getD_some]

/-! ## The rank law -/

/-- The rank of a percentile. -/
def rankOf (p : ℚ) (n : ℕ) : ℕ := max 1 ⌈p * n / 100⌉.toNat

/-- In exact arithmetic the code computes the rank. -/
lemma countAtPercentile_exact {p : ℚ} (h0 : 0 ≤ p) (h100 : p ≤ 100) (n : ℕ) :
    HdrHistogram.countAtPercentile some (min (max p 0) 100) n = some (rankOf p n : ℤ) := by
  have hceil : 0 ≤ ⌈p * n / 100⌉ := Int.ceil_nonneg (by positivity)
  have hrank : max ⌈p / 100 * ((n : ℤ) : ℚ)⌉ 1 = (rankOf p n : ℤ) := by
    rw [Int.cast_natCast, div_mul_eq_mul_div, rankOf, Nat.cast_max,
      Int.toNat_of_nonneg hceil, max_comm, Nat.cast_one]
  rw [max_eq_left h0, min_eq_left h100, ← hrank]
  rfl

/-- A larger percentile has no smaller rank. -/
lemma rankOf_mono {p q : ℚ} (hpq : p ≤ q) (n : ℕ) : rankOf p n ≤ rankOf q n := by
  refine max_le_max le_rfl (Int.toNat_le_toNat (Int.ceil_le_ceil ?_))
  gcongr

/-- The percentile 100 has the last rank. -/
lemma rankOf_hundred {n : ℕ} (hn : 0 < n) : rankOf 100 n = n := by
  rw [rankOf, mul_div_cancel_left₀ _ (by norm_num), Int.ceil_natCast, Int.toNat_natCast]
  exact max_eq_right hn

/-- A rank is that of a sample. -/
lemma exists_sample {p : ℚ} (h100 : p ≤ 100) (hxs : xs ≠ []) :
    ∃ x, (sorted xs)[rankOf p xs.length - 1]? = some x ∧ IsRank (xs : Multiset ℤ)
    (rankOf p xs.length) x := by
  have hpos := List.length_pos_iff.mpr hxs
  have hone : 1 ≤ rankOf p xs.length := le_max_left _ _
  have hle : rankOf p xs.length ≤ xs.length := by
    refine max_le hpos (Int.toNat_le.mpr (Int.ceil_le.mpr ?_))
    rw [Int.cast_natCast, div_le_iff₀ (by norm_num), mul_comm]
    gcongr
  have hlt : rankOf p xs.length - 1 < (sorted xs).length := by
    rw [length_sorted]
    omega
  have hrank := isRank_sorted hlt
  rw [Nat.sub_add_cancel hone] at hrank
  exact ⟨_, List.getElem?_eq_getElem hlt, hrank⟩

/-- In exact arithmetic a percentile is the largest value of the bucket of the sample of its
rank. -/
lemma Built.percentile (hb : Built engine h xs) (hxs : xs ≠ []) {p : ℚ} (h0 : 0 ≤ p)
    (h100 : p ≤ 100) :
    ∃ v : ℕ, v ≤ 600000000 ∧ (sorted xs)[rankOf p xs.length - 1]? = some (v : ℤ) ∧
      IsRank (xs : Multiset ℤ) (rankOf p xs.length) v ∧
      h.valueAtPercentile some p = some (defaultLayout.highestEquivalentValue v) := by
  obtain ⟨x, hx, hrank⟩ := exists_sample h100 hxs
  have hvalue := hb.valueAtPercentile_eq (countAtPercentile_exact h0 h100 xs.length) hrank
  obtain ⟨hpos, hle⟩ := hb.trackable x (Multiset.mem_coe.mp hrank.mem)
  obtain ⟨v, rfl⟩ := Int.eq_ofNat_of_zero_le hpos
  exact ⟨v, by exact_mod_cast hle, hx, hrank, hvalue⟩

/-- Percentiles are ordered. -/
lemma Built.percentile_mono (hb : Built engine h xs) (hxs : xs ≠ []) {p q : ℚ}
    {v w : ℤ} (h0 : 0 ≤ p) (hpq : p ≤ q) (h100 : q ≤ 100) (hv : h.valueAtPercentile some p = some v)
    (hw : h.valueAtPercentile some q = some w) : v ≤ w := by
  obtain ⟨x, -, -, hx, hpx⟩ := hb.percentile hxs h0 (hpq.trans h100)
  obtain ⟨y, hy, -, hy', hqy⟩ := hb.percentile hxs (h0.trans hpq) h100
  have hle := hx.le_of_le hy' (rankOf_mono hpq _)
  rw [Option.some_inj.mp (hv.symm.trans hpx), Option.some_inj.mp (hw.symm.trans hqy)]
  exact highestEquivalentValue_mono defaultLayout_regular (by exact_mod_cast hle) (by omega)

/-- A trackable value is not above its highest equivalent value. -/
lemma le_highestEquivalentValue {v : ℕ} (hv : v ≤ 600000000) :
    (v : ℤ) ≤ defaultLayout.highestEquivalentValue v := by
  have hsmall : v < 2 ^ 62 := by omega
  exact (isGreatest_highest defaultLayout_regular hsmall).2
    ⟨Int.natCast_nonneg v, by omega, rfl⟩

/-- The last percentile is no smaller than a sample. -/
lemma Built.le_max (hb : Built engine h xs) (hxs : xs ≠ []) {v : ℤ}
    (hv : h.valueAtPercentile some 100 = some v) : ∀ x ∈ xs, x ≤ v := by
  intro x hx
  obtain ⟨y, hy, -, hrank, hvalue⟩ := hb.percentile hxs (by norm_num : (0 : ℚ) ≤ 100) le_rfl
  rw [rankOf_hundred (List.length_pos_iff.mpr hxs)] at hrank
  rw [Option.some_inj.mp (hv.symm.trans hvalue)]
  exact (hrank.ge_of_mem (Multiset.mem_coe.mpr hx)).trans (le_highestEquivalentValue hy)

/-- The rank law of a histogram and its samples. -/
structure RankLaw (h : HdrHistogram) (xs : List ℤ) : Prop where
  /-- A percentile is the largest value of the bucket that holds the sample of its rank. -/
  highest : ∀ p, 0 ≤ p → p ≤ 100 → ∃ x v, (sorted xs)[rankOf p xs.length - 1]? = some x ∧
    h.valueAtPercentile some p = some v ∧ IsGreatest (h.layout.Equivalent x) v
  /-- As many samples as the rank do not exceed it. -/
  enough : ∀ p v, 0 ≤ p → p ≤ 100 → h.valueAtPercentile some p = some v →
    rankOf p xs.length ≤ xs.countP (· ≤ v)
  monotone : ∀ p q v w, 0 ≤ p → p ≤ q → q ≤ 100 → h.valueAtPercentile some p = some v →
    h.valueAtPercentile some q = some w → v ≤ w
  /-- The percentiles of the reports are ordered, and the maximum is no smaller than a sample. -/
  reported : ∃ p50 p95 p99 p999 max, h.valueAtPercentile some 50 = some p50 ∧
    h.valueAtPercentile some 95 = some p95 ∧ h.valueAtPercentile some 99 = some p99 ∧
    h.valueAtPercentile some (999 / 10) = some p999 ∧ h.max some = some max ∧
    p50 ≤ p95 ∧ p95 ≤ p99 ∧ p99 ≤ p999 ∧ p999 ≤ max ∧ ∀ x ∈ xs, x ≤ max
  /-- The loop does not run through. -/
  found : ∀ p countAt, 0 ≤ p → p ≤ 100 → HdrHistogram.countAtPercentile some p h.total
    = some countAt →
    (h.scan countAt (List.range h.layout.countsLen.toNat) 0).isSome

/-- Every histogram built from samples obeys the rank law. -/
theorem rankLaw (hb : Built engine h xs) (hxs : xs ≠ []) : RankLaw h xs := by
  have hpos := List.length_pos_iff.mpr hxs
  obtain ⟨hl, hh⟩ := hb.holds
  constructor
  · intro p h0 h100
    obtain ⟨v, hv, hsample, -, hvalue⟩ := hb.percentile hxs h0 h100
    rw [hl]
    exact ⟨v, _, hsample, hvalue, isGreatest_highest defaultLayout_regular (by omega)⟩
  · intro p w h0 h100 hw
    obtain ⟨v, hv, -, hrank, hvalue⟩ := hb.percentile hxs h0 h100
    have hle := le_highestEquivalentValue hv
    rw [← Option.some_inj.mp (hw.symm.trans hvalue)] at hle
    refine hrank.2.trans ?_
    rw [← Multiset.coe_countP]
    exact countP_mono fun x _ hx => hx.trans hle
  · intro p q v w h0 hpq h100 hv hw
    exact hb.percentile_mono hxs h0 hpq h100 hv hw
  · obtain ⟨v50, -, -, -, h50⟩ := hb.percentile hxs (by norm_num : (0 : ℚ) ≤ 50) (by norm_num)
    obtain ⟨v95, -, -, -, h95⟩ := hb.percentile hxs (by norm_num : (0 : ℚ) ≤ 95) (by norm_num)
    obtain ⟨v99, -, -, -, h99⟩ := hb.percentile hxs (by norm_num : (0 : ℚ) ≤ 99) (by norm_num)
    obtain ⟨v999, -, -, -, h999⟩ :=
      hb.percentile hxs (by norm_num : (0 : ℚ) ≤ 999 / 10) (by norm_num)
    obtain ⟨v100, -, -, -, h100⟩ := hb.percentile hxs (by norm_num : (0 : ℚ) ≤ 100) le_rfl
    have hmax : h.max some = some (defaultLayout.highestEquivalentValue v100) := by
      rw [HdrHistogram.max, hh.total, card_buckets, if_neg (by omega)]
      exact h100
    refine ⟨_, _, _, _, _, h50, h95, h99, h999, hmax, ?_, ?_, ?_, ?_, hb.le_max hxs h100⟩
    · exact hb.percentile_mono hxs (by norm_num) (by norm_num) (by norm_num) h50 h95
    · exact hb.percentile_mono hxs (by norm_num) (by norm_num) (by norm_num) h95 h99
    · exact hb.percentile_mono hxs (by norm_num) (by norm_num) (by norm_num) h99 h999
    · exact hb.percentile_mono hxs (by norm_num) (by norm_num) le_rfl h999 h100
  · intro p countAt _ h100 hcount
    rw [hh.total, card_buckets] at hcount
    obtain ⟨hone, hle⟩ := exact_rank_le hpos h100 hcount
    rw [scan_isSome_iff (by omega) hh, hl, sum_counts fun i hi => ?_, card_buckets, zero_add]
    · exact hle
    · have := lt_countsLen hb.trackable hi
      omega

/-- A histogram of two samples, merged into an empty one. -/
theorem merged_rankLaw :
    RankLaw (newDefaultHdrHistogram.merge (Go.record (Go.record newDefaultHdrHistogram 3000) 5))
    [3000, 5] := by
  have hfirst : Built .go (Go.record newDefaultHdrHistogram 3000) [3000] :=
    .record .new (by norm_num) (by norm_num)
  have hboth : Built .go (Go.record (Go.record newDefaultHdrHistogram 3000) 5) [3000, 5] :=
    .record hfirst (by norm_num) (by norm_num)
  exact rankLaw (.merge .new hboth) (List.cons_ne_nil _ _)

end RespBench.Hdr
