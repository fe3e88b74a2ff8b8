import RespBench.Hdr.Percentiles

/-!
# The minimum

The minimum of a histogram is meant to be the lowest value of the first bucket with samples,
as in Java. The code asks for the percentile 0, which is the highest value of this bucket
(`Built.min_eq`). The two agree exactly in the buckets of one value, which are those below
2048 (`minimumLaw_iff`).
-/

namespace RespBench.Hdr
open RespBench.Lib

variable {engine : Engine} {h : HdrHistogram} {xs : List ℤ}

/-- The values below 2048 are alone in their buckets. -/
lemma width_eq_one_iff {n : ℕ} : defaultLayout.width (defaultLayout.index n) = 1 ↔ n < 2048 := by
  have hsize : n.size ≤ 11 ↔ n < 2 ^ 11 := Nat.size_le
  have hdoublings : defaultLayout.doublings n = n.size - 11 := by
    rw [defaultLayout_eq]
    rfl
  have hunit : defaultLayout.unitMagnitude = 0 := by rw [defaultLayout_eq]
  rw [Layout.width_index, hdoublings, hunit, add_zero, Nat.pow_eq_one]
  omega

/-- The rank of the percentile 0 is one. -/
lemma countAtPercentile_zero {n : ℕ} (h0 : 0 < n) (hn : n < 2 ^ 63) :
    HdrHistogram.countAtPercentile Binary64.round (min (max 0 0) 100) n = some 1 := by
  have hzero : Binary64.round 0 = some 0 := by
    exact_mod_cast Binary64.round_natCast (n := 0) (by norm_num)
  obtain ⟨samples, hsamples⟩ := Option.isSome_iff_exists.mp
    (Binary64.round_isSome (x := n) (by positivity) (by norm_num : 63 ≤ 1023)
      (by exact_mod_cast hn))
  rw [max_self, min_eq_left (by norm_num), HdrHistogram.countAtPercentile, zero_div, hzero,
    Int.cast_natCast, hsamples]
  dsimp only [Option.bind_eq_bind, Option.bind_some]
  rw [zero_mul, hzero]
  rfl

/-- The minimum is the highest value of the bucket of the smallest sample. -/
theorem Built.min_eq (hb : Built engine h xs) (hxs : xs ≠ []) (hcount : xs.length < 2 ^ 63) :
    ∃ v : ℕ, v ≤ 600000000 ∧ (v : ℤ) ∈ xs ∧ (∀ y ∈ xs, v ≤ y) ∧
      h.min Binary64.round = some (defaultLayout.highestEquivalentValue v) := by
  have hpos := List.length_pos_iff.mpr hxs
  have hlt : 0 < (sorted xs).length := by rwa [length_sorted]
  have hrank := isRank_sorted hlt
  generalize (sorted xs)[0] = x at hrank
  have hmem := Multiset.mem_coe.mp hrank.mem
  obtain ⟨h0, hle⟩ := hb.trackable x hmem
  obtain ⟨v, rfl⟩ := Int.eq_ofNat_of_zero_le h0
  refine ⟨v, by exact_mod_cast hle, hmem, fun y hy => hrank.le_of_mem (Multiset.mem_coe.mpr hy), ?_⟩
  rw [HdrHistogram.min, hb.holds.2.total, card_buckets, if_neg (by omega)]
  exact hb.valueAtPercentile_eq (countAtPercentile_zero hpos hcount) hrank

/-- The minimum is the lowest value that is counted with the smallest sample, and no sample is below
it. -/
def MinimumLaw (h : HdrHistogram) (xs : List ℤ) : Prop :=
  ∃ x ∈ xs, (∀ y ∈ xs, x ≤ y) ∧
    ∃ v, h.min Binary64.round = some v ∧ IsLeast (h.layout.Equivalent x) v ∧ ∀ y ∈ xs, v ≤ y

/-- It is exactly when a sample is in a bucket of one value. -/
theorem minimumLaw_iff (hb : Built engine h xs) (hxs : xs ≠ []) (hcount : xs.length < 2 ^ 63) :
    MinimumLaw h xs ↔ ∃ x ∈ xs, x < 2048 := by
  obtain ⟨v, hv, hmem, hleast, hmin⟩ := hb.min_eq hxs hcount
  have hsmall : v < 2 ^ 62 := by omega
  have hlow := lowestEquivalentValue_eq defaultLayout_regular hsmall
  have hhigh := highestEquivalentValue_eq defaultLayout_regular hsmall
  have hwidth := defaultLayout.width_pos (defaultLayout.index v)
  have hfloor := isLeast_lowest defaultLayout_regular hsmall
  have hone := width_eq_one_iff (n := v)
  constructor
  · rintro ⟨x, hx, hx', w, hw, hlowest, -⟩
    obtain rfl : x = v := le_antisymm (hx' v hmem) (hleast x hx)
    rw [hb.holds.1] at hlowest
    have heq := hlowest.unique hfloor
    rw [Option.some_inj.mp (hw.symm.trans hmin)] at heq
    exact ⟨v, hmem, by omega⟩
  · rintro ⟨x, hx, hlt⟩
    have hle := hleast x hx
    have heq : defaultLayout.highestEquivalentValue v = defaultLayout.lowestEquivalentValue v :=
      by omega
    rw [heq] at hmin
    refine ⟨v, hmem, hleast, _, hmin, ?_, fun y hy => le_trans ?_ (hleast y hy)⟩
    · rw [hb.holds.1]
      exact hfloor
    · exact hfloor.2 ⟨Int.natCast_nonneg v, by omega, rfl⟩

/-- Of the samples 5000 and 1000 the second is the minimum. -/
theorem thousand_minimumLaw :
    MinimumLaw (Php.record (Php.record newDefaultHdrHistogram 5000) 1000) [5000, 1000] := by
  have hfirst : Built .php (Php.record newDefaultHdrHistogram 5000) [5000] :=
    .record .new (by norm_num) (by norm_num)
  have hboth : Built .php (Php.record (Php.record newDefaultHdrHistogram 5000) 1000) [5000, 1000] :=
    .record hfirst (by norm_num) (by norm_num)
  exact (minimumLaw_iff hboth (List.cons_ne_nil _ _) (by norm_num)).mpr ⟨1000, by simp, by norm_num⟩

/-- The minimum of the sample 5000 is 5003. -/
theorem fiveThousand_not_minimumLaw :
    Built .go (Go.record newDefaultHdrHistogram 5000) [5000] ∧
      (Go.record newDefaultHdrHistogram 5000).min Binary64.round = some 5003 ∧
      ¬ MinimumLaw (Go.record newDefaultHdrHistogram 5000) [5000] := by
  have hbuilt : Built .go (Go.record newDefaultHdrHistogram 5000) [5000] :=
    .record .new (by norm_num) (by norm_num)
  have hmin : (Go.record newDefaultHdrHistogram 5000).min Binary64.round = some 5003 := by
    obtain ⟨v, -, hmem, -, hmin⟩ := hbuilt.min_eq (List.cons_ne_nil _ _) (by norm_num)
    rw [hmin, List.mem_singleton.mp hmem]
    decide +kernel
  refine ⟨hbuilt, hmin, ?_⟩
  rintro ⟨x, hx, -, v, hv, -, hle⟩
  rw [hmin] at hv
  cases hv
  exact absurd (hle 5000 List.mem_cons_self) (by norm_num)

end RespBench.Hdr
