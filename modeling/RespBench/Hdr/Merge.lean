import RespBench.Hdr.Buckets

/-!
# Merging is exact

What a histogram reports depends on the multiset of its buckets alone (`Holds`): recording a value
adds its bucket, and merging adds the buckets of the other histogram, since the smallest value of
a bucket is recorded in this bucket again. `merge_exact` compares the merged histograms with one
that recorded everything.

The percentiles agree as long as the rank that is asked for does not exceed the number of samples.
In doubles it can, for more than `2 ^ 53` samples (`roundedUp_not_exact`): then the loop runs
through and the largest recorded value is returned, which a merge rounds down to its bucket.
-/

namespace RespBench.Hdr
open RespBench.Lib

/-! ## Histograms as multisets of buckets -/

/-- A histogram holds a multiset of buckets. -/
structure Holds (h : HdrHistogram) (M : Multiset ℕ) : Prop where
  count : ∀ i : ℕ, h.rawCountAt i = M.count i
  keys : ∀ k, k ∈ Table.keys h.counts ↔ ∃ i ∈ M, (i : ℤ) = k
  total : h.total = M.card

/-- An empty histogram has the layout that it was given. -/
@[simp] lemma empty_layout (L : Layout) : (HdrHistogram.empty L).layout = L := rfl

/-- A new histogram has the default layout. -/
lemma newDefault_layout : newDefaultHdrHistogram.layout = defaultLayout := empty_layout _

/-- An empty histogram holds nothing. -/
lemma Holds.empty (L : Layout) : Holds (.empty L) 0 :=
  ⟨fun _ => rfl, fun _ => by simp [HdrHistogram.empty, Table.keys], rfl⟩

variable {h other : HdrHistogram} {M N : Multiset ℕ}

/-- Recording keeps the layout. -/
@[simp] lemma recordValueWithCount_layout (h : HdrHistogram) (value count : ℤ) :
    (h.recordValueWithCount value count).layout = h.layout := by
  unfold HdrHistogram.recordValueWithCount
  split <;> rfl

/-- A recorded value adds its bucket. -/
lemma Holds.recordValueWithCount (hL : h.layout.Regular) (hh : Holds h M) {v c : ℕ}
    (hv : v < 2 ^ 63) (hc : 0 < c) : Holds (h.recordValueWithCount v c)
    (M + Multiset.replicate c (h.layout.index v)) := by
  rw [HdrHistogram.recordValueWithCount, if_neg (by omega), countsIndexFor_eq hL hv]
  constructor
  · intro i
    rw [HdrHistogram.rawCountAt, Table.get_modify, Multiset.count_add, Multiset.count_replicate]
    have hi := hh.count i
    rw [HdrHistogram.rawCountAt] at hi
    by_cases h' : h.layout.index v = i
    · subst h'
      rw [if_pos rfl, if_pos rfl, hi]
      push_cast
      rfl
    · rw [if_neg (by omega), if_neg h', hi, add_zero]
  · intro k
    rw [Table.mem_keys_modify, hh.keys]
    constructor
    · rintro (rfl | ⟨i, hi, rfl⟩)
      · exact ⟨_, Multiset.mem_add.mpr (.inr (Multiset.mem_replicate.mpr ⟨hc.ne', rfl⟩)), rfl⟩
      · exact ⟨i, Multiset.mem_add.mpr (.inl hi), rfl⟩
    · rintro ⟨i, hi, rfl⟩
      rcases Multiset.mem_add.mp hi with hi | hi
      · exact .inr ⟨i, hi, rfl⟩
      · exact .inl (by rw [Multiset.eq_of_mem_replicate hi])
  · rw [Multiset.card_add, Multiset.card_replicate, hh.total]
    push_cast
    rfl

/-- A recorded value counts once. -/
lemma record_eq (engine : Engine) (h : HdrHistogram) (value : ℤ) :
    engine.record h value = h.recordValueWithCount value 1 := by
  cases engine with
  | go => rfl
  | php =>
    simp only [Engine.record, Php.record, HdrHistogram.recordValueWithCount]
    by_cases hv : value < 0
    · rw [if_pos hv, if_pos (.inl hv)]
    · rw [if_neg hv, if_neg (show ¬ (value < 0 ∨ (1 : ℤ) ≤ 0) from by omega)]

/-- Recorded samples add their buckets. -/
lemma Holds.foldl_record (engine : Engine) {xs : List ℤ} (hxs : ∀ x ∈ xs, 0 ≤ x ∧ x < 2 ^ 63)
    (hL : h.layout.Regular) (hh : Holds h M) :
    (xs.foldl engine.record h).layout = h.layout ∧
      Holds (xs.foldl engine.record h)
      (M + (xs.map fun x => h.layout.index x.toNat : Multiset ℕ)) := by
  induction xs generalizing h M with
  | nil => exact ⟨rfl, by simpa using hh⟩
  | cons x xs ih =>
    obtain ⟨hx, hrest⟩ := List.forall_mem_cons.mp hxs
    obtain ⟨v, rfl⟩ := Int.eq_ofNat_of_zero_le hx.1
    have hlayout := recordValueWithCount_layout h v 1
    have hrecord : Holds (h.recordValueWithCount v 1) _ :=
      hh.recordValueWithCount hL (v := v) (by omega) Nat.one_pos
    obtain ⟨hl, hfold⟩ := ih hrest (by rw [hlayout]; exact hL) hrecord
    rw [List.foldl_cons, record_eq]
    refine ⟨hl.trans hlayout, ?_⟩
    rw [hlayout, Multiset.replicate_one, add_assoc, Multiset.singleton_add] at hfold
    exact hfold

/-- The multiples of the next bucket are added. -/
lemma filter_lt_succ (N : Multiset ℕ) (n : ℕ) :
    N.filter (· < n + 1) = N.filter (· < n) + Multiset.replicate (N.count n) n := by
  ext i
  rw [Multiset.count_add, Multiset.count_filter, Multiset.count_filter, Multiset.count_replicate]
  rcases lt_trichotomy i n with hi | rfl | hi
  · rw [if_pos (by omega), if_pos hi, if_neg (by omega), add_zero]
  · simp
  · rw [if_neg (by omega), if_neg (by omega), if_neg (by omega)]

/-- The first rounds of a merge add the buckets below their number. -/
lemma Holds.foldl_mergeIndex (hL : h.layout.Regular) (hlayout : other.layout = h.layout)
    (hh : Holds h M) (hother : Holds other N) {n : ℕ} (hn : n ≤ h.layout.countsLen.toNat) :
    ((List.range n).foldl (HdrHistogram.mergeIndex other) h).layout = h.layout ∧
      Holds ((List.range n).foldl (HdrHistogram.mergeIndex other) h) (M + N.filter (· < n)) := by
  induction n with
  | zero => exact ⟨rfl, by simpa using hh⟩
  | succ n ih =>
    obtain ⟨hl, ih⟩ := ih (by omega)
    rw [List.range_succ, List.foldl_append, List.foldl_cons, List.foldl_nil,
      filter_lt_succ, ← add_assoc]
    generalize (List.range n).foldl (HdrHistogram.mergeIndex other) h = g at hl ih
    rw [HdrHistogram.mergeIndex, hother.count, hlayout]
    by_cases hc : 0 < N.count n
    · have hfloor := floor_lt hL (i := n) (by omega)
      have hindex := countsIndexFor_valueFromIndex hL (i := n) (by omega)
      rw [valueFromIndex_eq hL (by omega), countsIndexFor_eq hL (hfloor.trans (by norm_num)),
        Nat.cast_inj]
        at hindex
      have hrecord := ih.recordValueWithCount (by rw [hl]; exact hL) (v := h.layout.floor n)
        (hfloor.trans (by norm_num)) hc
      rw [hl, hindex] at hrecord
      rw [if_pos (by omega), valueFromIndex_eq hL (by omega)]
      exact ⟨(recordValueWithCount_layout _ _ _).trans hl, hrecord⟩
    · rw [if_neg (by omega), show N.count n = 0 from by omega, Multiset.replicate_zero, add_zero]
      exact ⟨hl, ih⟩

/-- A merge adds the buckets of the other histogram. -/
theorem Holds.merge (hL : h.layout.Regular) (hlayout : other.layout = h.layout) (hh : Holds h M)
    (hother : Holds other N) (hN : ∀ i ∈ N, (i : ℤ) < h.layout.countsLen) :
    (h.merge other).layout = h.layout ∧ Holds (h.merge other) (M + N) := by
  have hall := hh.foldl_mergeIndex hL hlayout hother le_rfl
  rw [Multiset.filter_eq_self.mpr fun i hi => by have := hN i hi; omega] at hall
  rw [HdrHistogram.merge, hlayout]
  exact hall

/-! ## What a histogram reports -/

/-- The keys of the counts are indices with samples. -/
def Populated (h : HdrHistogram) : Prop := ∀ idx ∈ Table.keys h.counts, 0 ≤ idx ∧
    h.rawCountAt idx ≠ 0

/-- A histogram that holds buckets has entries for them alone. -/
lemma Holds.populated (hh : Holds h M) : Populated h := by
  intro idx hidx
  obtain ⟨i, hi, rfl⟩ := (hh.keys idx).mp hidx
  rw [hh.count]
  have := Multiset.count_pos.mpr hi
  omega

/-- The relevant length is one more than the largest index. -/
lemma relevantLength_eq (engine : Engine) (hh : Populated h) :
    engine.relevantLength h = (Table.keys h.counts).foldl max (-1) + 1 := by
  cases engine with
  | go =>
    rw [Engine.relevantLength, Go.relevantLength]
    congr 1
    refine List.foldl_ext _ _ _ fun maxIdx idx hidx => ?_
    have hcount := (hh idx hidx).2
    by_cases hlt : idx > maxIdx
    · rw [if_pos ⟨hcount, hlt⟩, max_eq_right hlt.le]
    · rw [if_neg (fun h => hlt h.2), max_eq_left (not_lt.mp hlt)]
  | php =>
    rw [Engine.relevantLength, Php.relevantLength]
    unfold Populated at hh
    cases hkeys : Table.keys h.counts with
    | nil => rfl
    | cons idx rest =>
      have hidx := (hh idx (by rw [hkeys]; exact List.mem_cons_self)).1
      rw [List.foldl_cons, max_eq_right (by omega)]

section SameBuckets
variable {k : HdrHistogram} (hh : Holds h M) (hk : Holds k M)
include hh hk

/-- The counts are determined by the buckets. -/
theorem Holds.rawCountAt_eq (idx : ℤ) : h.rawCountAt idx = k.rawCountAt idx := by
  rcases lt_or_ge idx 0 with hneg | hpos
  · have hnone : ∀ {g}, Holds g M → g.rawCountAt idx = 0 := by
      intro g hg
      refine Table.get_of_notMem fun hmem => ?_
      have := (hg.populated idx hmem).1
      omega
    rw [hnone hh, hnone hk]
  · obtain ⟨i, rfl⟩ := Int.eq_ofNat_of_zero_le hpos
    rw [hh.count, hk.count]

/-- The relevant length is determined by the buckets. -/
theorem Holds.relevantLength_eq (engine : Engine) :
    engine.relevantLength h = engine.relevantLength k := by
  have hle : ∀ {g g'}, Holds g M → Holds g' M →
      (Table.keys g.counts).foldl max (-1) ≤ (Table.keys g'.counts).foldl max (-1) := by
    intro g g' hg hg'
    have hself := Table.foldl_max_le_iff.mp (le_refl ((Table.keys g'.counts).foldl max (-1)))
    refine Table.foldl_max_le_iff.mpr ⟨hself.1, fun idx hidx => hself.2 idx ?_⟩
    exact (hg'.keys idx).mpr ((hg.keys idx).mp hidx)
  rw [Hdr.relevantLength_eq engine hh.populated, Hdr.relevantLength_eq engine hk.populated,
    le_antisymm (hle hh hk) (hle hk hh)]

/-- The percentile scan is determined by the buckets. -/
lemma Holds.scan_eq (hlayout : h.layout = k.layout) (countAt : ℤ) (l : List ℕ) (running : ℤ) :
    h.scan countAt l running = k.scan countAt l running := by
  induction l generalizing running with
  | nil => rfl
  | cons i l ih => simp only [HdrHistogram.scan, hh.rawCountAt_eq hk, hlayout, ih]

end SameBuckets

/-! ## Percentiles -/

/-- The scan runs through exactly when the counts do not reach the rank. -/
lemma scan_isSome_iff {countAt running : ℤ} (hrunning : running < countAt) (hh : Holds h M)
    (l : List ℕ) :
    (h.scan countAt l running).isSome ↔ countAt ≤ running
      + (l.map fun i => (M.count i : ℤ)).sum := by
  induction l generalizing running with
  | nil => simpa [HdrHistogram.scan] using hrunning
  | cons i l ih =>
    rw [HdrHistogram.scan, List.map_cons, List.sum_cons, hh.count, ← add_assoc]
    by_cases hreached : running + M.count i ≥ countAt
    · have hrest : 0 ≤ (l.map fun i => (M.count i : ℤ)).sum :=
        List.sum_nonneg (by simp)
      rw [if_pos hreached, Option.isSome_some]
      exact iff_of_true rfl (by omega)
    · rw [if_neg hreached]
      exact ih (not_le.mp hreached)

/-- The counts of all indices add up to the number of samples. -/
lemma sum_counts {n : ℕ} (hM : ∀ i ∈ M, i < n) :
    ((List.range n).map fun i => (M.count i : ℤ)).sum = M.card := by
  have hmem : ∀ i ∈ M, i ∈ (List.range n).toFinset := fun i hi => by
    rw [List.mem_toFinset, List.mem_range]
    exact hM i hi
  rw [← List.sum_toFinset _ (List.nodup_range), ← Multiset.sum_count_eq_card hmem]
  push_cast
  rfl

/-- A percentile is determined by the buckets, when its rank does not exceed the number of
samples. -/
theorem Holds.valueAtPercentile_eq {k : HdrHistogram} (hh : Holds h M) (hk : Holds k M)
    (hlayout : h.layout = k.layout) (hM : ∀ i ∈ M, (i : ℤ) < h.layout.countsLen)
    {round : ℚ → Option ℚ} {p : ℚ} (hrank : ∀ countAt,
      HdrHistogram.countAtPercentile round (min (max p 0) 100) M.card = some countAt →
      1 ≤ countAt ∧ countAt ≤ M.card) :
    h.valueAtPercentile round p = k.valueAtPercentile round p := by
  unfold HdrHistogram.valueAtPercentile
  rw [hh.total, hk.total, ← hlayout]
  split
  · rfl
  · cases hcount : HdrHistogram.countAtPercentile round (min (max p 0) 100) M.card with
    | none => rfl
    | some countAt =>
      obtain ⟨hpos, hle⟩ := hrank countAt hcount
      have hpos : 0 < countAt := hpos
      have hsome := (scan_isSome_iff hpos hh (List.range h.layout.countsLen.toNat)).mpr (by
        rw [sum_counts fun i hi => by have := hM i hi; omega]
        omega)
      obtain ⟨value, hvalue⟩ := Option.isSome_iff_exists.mp hsome
      rw [Option.map_some, Option.map_some, ← hh.scan_eq hk hlayout, hvalue]
      rfl

/-- In exact arithmetic no rank exceeds the number of samples. -/
lemma exact_rank_le {n : ℕ} (hn : 0 < n) {p : ℚ} (h100 : p ≤ 100) {countAt : ℤ}
    (h : HdrHistogram.countAtPercentile some p n = some countAt) : 1 ≤ countAt ∧ countAt ≤ n := by
  cases h
  refine ⟨le_max_right _ _, max_le (Int.ceil_le.mpr ?_) (by omega)⟩
  have hfraction : p / 100 ≤ 1 := by linarith
  push_cast
  exact mul_le_of_le_one_left (by positivity) hfraction

/-- In doubles no rank exceeds the number of samples, unless this number itself is rounded up. -/
lemma double_rank_le {n : ℕ} (hn : 0 < n)
    (hround : ∀ samples, Binary64.round n = some samples → samples ≤ n) {p : ℚ} (h0 : 0 ≤ p)
    (h100 : p ≤ 100) {countAt : ℤ} (h : HdrHistogram.countAtPercentile Binary64.round p n
      = some countAt) : 1 ≤ countAt ∧ countAt ≤ n := by
  obtain ⟨fraction, hfraction, h⟩ := Option.bind_eq_some_iff.mp h
  obtain ⟨samples, hsamples, h⟩ := Option.bind_eq_some_iff.mp h
  obtain ⟨rank, hrank, h⟩ := Option.bind_eq_some_iff.mp h
  cases h
  refine ⟨le_max_right _ _, max_le (Int.ceil_le.mpr ?_) (by omega)⟩
  rw [Int.cast_natCast] at hsamples
  have hn' := hround samples hsamples
  have hsamples0 := Binary64.round_nonneg (by positivity) hsamples
  have hfraction0 := Binary64.round_nonneg (by positivity) hfraction
  have hone : Binary64.round 1 = some 1 := by
    exact_mod_cast Binary64.round_natCast (n := 1) (by norm_num)
  have hfraction1 : fraction ≤ 1 := by
    rcases h0.eq_or_lt with rfl | hpos
    · rw [zero_div, ← Nat.cast_zero, Binary64.round_natCast (by norm_num)] at hfraction
      cases hfraction
      norm_num
    · exact Binary64.round_le_round (by positivity) (by linarith) (by linarith) hone hfraction
  have hproduct : fraction * samples ≤ samples := mul_le_of_le_one_left hsamples0 hfraction1
  rw [Int.cast_natCast]
  rcases (mul_nonneg hfraction0 hsamples0).eq_or_lt with hzero | hpos
  · rw [← hzero, ← Nat.cast_zero, Binary64.round_natCast (by norm_num)] at hrank
    cases hrank
    positivity
  · exact (Binary64.round_le_round hpos (hproduct.trans hn') hproduct hsamples hrank).trans hn'

/-! ## Merging -/

/-- A new default histogram with the given samples. -/
def recordAll (engine : Engine) (xs : List ℤ) : HdrHistogram :=
  xs.foldl engine.record newDefaultHdrHistogram

/-- A new histogram has a regular layout. -/
lemma newDefault_regular : newDefaultHdrHistogram.layout.Regular := regular_of_eq newDefault_layout

/-- The buckets of a list of samples. -/
def buckets (xs : List ℤ) : Multiset ℕ := xs.map fun x => defaultLayout.index x.toNat

/-- Samples that a default histogram declares trackable. -/
def Trackable (xs : List ℤ) : Prop := ∀ x ∈ xs, 0 ≤ x ∧ x ≤ 600000000

/-- The buckets of two sequences are those of both. -/
lemma buckets_append (xs ys : List ℤ) : buckets (xs ++ ys) = buckets xs + buckets ys := by
  rw [buckets, List.map_append, ← Multiset.coe_add]
  rfl

/-- Every sample has a bucket. -/
lemma card_buckets (xs : List ℤ) : (buckets xs).card = xs.length := by simp [buckets]

/-- A histogram holds the buckets of all that it recorded. -/
lemma holds_recordAll (engine : Engine) {xs : List ℤ} (hxs : Trackable xs) :
    (recordAll engine xs).layout = defaultLayout ∧ Holds (recordAll engine xs) (buckets xs) := by
  have hnew : Holds newDefaultHdrHistogram 0 := .empty _
  have h := hnew.foldl_record engine (fun x hx =>
    ⟨(hxs x hx).1, (hxs x hx).2.trans_lt (by norm_num)⟩)
    newDefault_regular
  rwa [zero_add, newDefault_layout] at h

/-- Trackable values have indices of the counts array. -/
lemma lt_countsLen {xs : List ℤ} (hxs : Trackable xs) {i : ℕ} (hi : i ∈ buckets xs) :
    (i : ℤ) < defaultLayout.countsLen := by
  obtain ⟨x, hx, rfl⟩ := List.mem_map.mp (Multiset.mem_coe.mp hi)
  obtain ⟨h0, hle⟩ := hxs x hx
  apply index_lt_countsLen defaultLayout_regular
  rw [Int.toNat_of_nonneg h0, defaultLayout_eq]
  exact hle

/-- Two recorded histograms, merged into an empty one. -/
def mergeBoth (engine : Engine) (xs ys : List ℤ) : HdrHistogram :=
  (newDefaultHdrHistogram.merge (recordAll engine xs)).merge (recordAll engine ys)

/-- Two histograms merged hold the buckets of both. -/
lemma holds_mergeBoth (engine : Engine) {xs ys : List ℤ} (hxs : Trackable xs) (hys : Trackable ys) :
    (mergeBoth engine xs ys).layout = defaultLayout ∧
      Holds (mergeBoth engine xs ys) (buckets xs + buckets ys) := by
  obtain ⟨hlx, hx⟩ := holds_recordAll engine hxs
  obtain ⟨hly, hy⟩ := holds_recordAll engine hys
  have hnew : Holds newDefaultHdrHistogram 0 := .empty _
  obtain ⟨hl, hfirst⟩ := hnew.merge newDefault_regular (hlx.trans newDefault_layout.symm) hx (by
    rw [newDefault_layout]
    exact fun i => lt_countsLen hxs)
  rw [newDefault_layout] at hl
  rw [zero_add] at hfirst
  obtain ⟨hl', hsecond⟩ := hfirst.merge (regular_of_eq hl) (hly.trans hl.symm) hy (by
    rw [hl]
    exact fun i => lt_countsLen hys)
  exact ⟨hl'.trans hl, hsecond⟩

/-- Two histograms report the same counts, totals and relevant lengths. -/
def SameCounts (engine : Engine) (h k : HdrHistogram) : Prop :=
  (∀ idx, h.rawCountAt idx = k.rawCountAt idx) ∧ h.total = k.total ∧
    engine.relevantLength h = engine.relevantLength k

/-- Two histograms report the same percentiles. -/
def SamePercentiles (round : ℚ → Option ℚ) (h k : HdrHistogram) : Prop :=
  ∀ p, h.valueAtPercentile round p = k.valueAtPercentile round p

/-- Histograms with the same buckets report the same percentiles in exact arithmetic. -/
lemma samePercentiles_exact {k : HdrHistogram} (hh : Holds h M) (hk : Holds k M)
    (hlayout : h.layout = k.layout) (hM : ∀ i ∈ M, (i : ℤ) < h.layout.countsLen) :
    SamePercentiles some h k := by
  intro p
  rcases Nat.eq_zero_or_pos M.card with hzero | hpos
  · simp only [HdrHistogram.valueAtPercentile, hh.total, hk.total, hzero, Nat.cast_zero, if_true]
  · exact hh.valueAtPercentile_eq hk hlayout hM fun countAt => exact_rank_le hpos (min_le_right _ _)

/-- They do in doubles when the number of samples is not rounded up. -/
lemma samePercentiles_double {k : HdrHistogram} (hh : Holds h M) (hk : Holds k M)
    (hlayout : h.layout = k.layout) (hM : ∀ i ∈ M, (i : ℤ) < h.layout.countsLen)
    (hround : ∀ samples, Binary64.round M.card = some samples → samples ≤ M.card) :
    SamePercentiles Binary64.round h k := by
  intro p
  rcases Nat.eq_zero_or_pos M.card with hzero | hpos
  · simp only [HdrHistogram.valueAtPercentile, hh.total, hk.total, hzero, Nat.cast_zero, if_true]
  · exact hh.valueAtPercentile_eq hk hlayout hM fun countAt =>
      double_rank_le hpos hround (le_min (le_max_right _ _) (by norm_num)) (min_le_right _ _)

/-- Merging two histograms into an empty one, in either order, is recording all samples in one: the
counts agree, the percentiles agree in exact arithmetic, and they agree in doubles when the number
of samples is not rounded up to a larger double. Counts and totals are unbounded here: they are
those of the 64-bit counters for fewer than 2^63 samples in all. -/
theorem merge_exact (engine : Engine) (xs ys : List ℤ) (hxs : Trackable xs) (hys : Trackable ys) :
    ∀ merged ∈ [mergeBoth engine xs ys, mergeBoth engine ys xs],
      SameCounts engine merged (recordAll engine (xs ++ ys)) ∧
      SamePercentiles some merged (recordAll engine (xs ++ ys)) ∧
      ((∀ samples, Binary64.round (xs ++ ys).length = some samples → samples ≤ (xs ++ ys).length) →
        SamePercentiles Binary64.round merged (recordAll engine (xs ++ ys))) := by
  have hboth : Trackable (xs ++ ys) := fun z hz => (List.mem_append.mp hz).elim (hxs z) (hys z)
  obtain ⟨hlayout, hdirect⟩ := holds_recordAll engine hboth
  rw [buckets_append] at hdirect
  have hindex := fun i => lt_countsLen hboth (i := i)
  rw [buckets_append] at hindex
  have hcard : (buckets xs + buckets ys).card = (xs ++ ys).length := by
    rw [← buckets_append, card_buckets]
  have hmerged : ∀ merged ∈ [mergeBoth engine xs ys, mergeBoth engine ys xs],
      merged.layout = defaultLayout ∧ Holds merged (buckets xs + buckets ys) := by
    rintro merged (_ | ⟨_, _ | ⟨_, ⟨⟩⟩⟩)
    · exact holds_mergeBoth engine hxs hys
    · rw [add_comm]
      exact holds_mergeBoth engine hys hxs
  intro merged hmem
  obtain ⟨hl, hholds⟩ := hmerged merged hmem
  have hsame : merged.layout = (recordAll engine (xs ++ ys)).layout := hl.trans hlayout.symm
  rw [← hl] at hindex
  refine ⟨⟨hholds.rawCountAt_eq hdirect, ?_, hholds.relevantLength_eq hdirect engine⟩,
    samePercentiles_exact hholds hdirect hsame hindex, fun hround => ?_⟩
  · rw [hholds.total, hdirect.total]
  · exact samePercentiles_double hholds hdirect hsame hindex (by rwa [hcard])

/-- A sample of each of two histograms. -/
theorem smallMerge_exact :
    (mergeBoth .go [5] [600000000]).total = (recordAll .go [5, 600000000]).total ∧
      (mergeBoth .php [600000000] [5]).valueAtPercentile Binary64.round 50
        = (recordAll .php [5, 600000000]).valueAtPercentile Binary64.round 50 := by
  have hlow : Trackable [5] := by simp [Trackable]
  have hhigh : Trackable [600000000] := by simp [Trackable]
  have hround : ∀ samples, Binary64.round ([(5 : ℤ)] ++ [600000000]).length = some samples →
      samples ≤ ([(5 : ℤ)] ++ [600000000]).length := by
    intro samples h
    rw [Binary64.round_natCast (by norm_num)] at h
    cases h
    exact le_rfl
  exact ⟨(merge_exact .go [5] [600000000] hlow hhigh _ List.mem_cons_self).1.2.1,
    (merge_exact .php [5] [600000000] hlow hhigh _ (List.mem_cons_of_mem _ List.mem_cons_self)).2.2
      hround 50⟩

/-! ## More samples than a double can count -/

/-- When the rank exceeds the number of samples, the scan runs through. -/
lemma valueAtPercentile_of_lt (hh : Holds h M) (hM : ∀ i ∈ M, (i : ℤ) < h.layout.countsLen)
    {round : ℚ → Option ℚ} {p : ℚ} {countAt : ℤ} (h0 : 0 < M.card)
    (hrank : HdrHistogram.countAtPercentile round (min (max p 0) 100) M.card = some countAt)
    (hlt : M.card < countAt) : h.valueAtPercentile round p = some h.maxValue := by
  have hnone : h.scan countAt (List.range h.layout.countsLen.toNat) 0 = none := by
    refine Option.not_isSome_iff_eq_none.mp fun hsome => ?_
    have hle := (scan_isSome_iff (by omega) hh _).mp hsome
    rw [sum_counts fun i hi => by have := hM i hi; omega] at hle
    omega
  rw [HdrHistogram.valueAtPercentile, hh.total, if_neg (by omega), hrank, Option.map_some, hnone]
  rfl

/-- The largest value is the largest one recorded. -/
lemma foldl_record_maxValue (engine : Engine) {xs : List ℤ} (hxs : ∀ x ∈ xs, 0 ≤ x)
    (h : HdrHistogram) :
    (xs.foldl engine.record h).maxValue = xs.foldl max h.maxValue := by
  induction xs generalizing h with
  | nil => rfl
  | cons x xs ih =>
    obtain ⟨hx, hrest⟩ := List.forall_mem_cons.mp hxs
    have hmax : (engine.record h x).maxValue = max h.maxValue x := by
      rw [record_eq, HdrHistogram.recordValueWithCount, if_neg (by omega)]
      dsimp only
      split <;> omega
    rw [List.foldl_cons, List.foldl_cons, ih hrest, hmax]

/-- A merge of equal samples records their bucket once. -/
lemma merge_replicate {c i : ℕ} (h : HdrHistogram) (hother : Holds other (Multiset.replicate c i))
    (hi : i < other.layout.countsLen) :
    h.merge other = h.recordValueWithCount (other.layout.valueFromIndex i) c := by
  suffices hfold : ∀ n : ℕ, (List.range n).foldl (HdrHistogram.mergeIndex other) h
      = if i < n then h.recordValueWithCount (other.layout.valueFromIndex i) c else h by
    rw [HdrHistogram.merge, hfold, if_pos (by omega)]
  intro n
  induction n with
  | zero => rfl
  | succ n ih =>
    rw [List.range_succ, List.foldl_append, ih, List.foldl_cons, List.foldl_nil,
      HdrHistogram.mergeIndex, hother.count, Multiset.count_replicate]
    rcases lt_trichotomy i n with hlt | rfl | hgt
    · rw [if_neg hlt.ne, Nat.cast_zero, if_neg (lt_irrefl 0), if_pos hlt, if_pos (by omega)]
    · rw [if_neg (lt_irrefl i), if_pos rfl, if_pos (Nat.lt_succ_self i)]
      split
      · rfl
      · rw [HdrHistogram.recordValueWithCount, if_pos (.inr (by omega))]
    · rw [if_neg hgt.ne', Nat.cast_zero, if_neg (lt_irrefl 0), if_neg (by omega), if_neg (by omega)]

/-- The value 2049 is trackable. -/
lemma trackable_replicate (n : ℕ) : Trackable (List.replicate n 2049) := by
  intro x hx
  rw [List.eq_of_mem_replicate hx]
  norm_num

/-- Samples of 2049 are in the bucket of 2048. -/
lemma buckets_replicate (n : ℕ) :
    ∃ i : ℕ, (i : ℤ) = 2048 ∧ buckets (List.replicate n 2049) = Multiset.replicate n i := by
  refine ⟨defaultLayout.index 2049, ?_, ?_⟩
  · exact (countsIndexFor_eq defaultLayout_regular (n := 2049) (by norm_num)).symm.trans
      (by decide +kernel)
  · rw [buckets, List.map_replicate, Multiset.coe_replicate]
    rfl

/-- Recorded directly, the largest value is the sample itself. -/
lemma recordAll_maxValue (engine : Engine) {n : ℕ} (hn : 0 < n) :
    (recordAll engine (List.replicate n 2049)).maxValue = 2049 := by
  rw [recordAll, foldl_record_maxValue engine fun x hx => (trackable_replicate n x hx).1]
  refine le_antisymm (Table.foldl_max_le_iff.mpr ⟨?_, fun x hx => ?_⟩) ?_
  · norm_num [newDefaultHdrHistogram, HdrHistogram.empty]
  · exact (List.eq_of_mem_replicate hx).le
  · exact (Table.foldl_max_le_iff.mp le_rfl).2 _ (List.mem_replicate.mpr ⟨hn.ne', rfl⟩)

/-- After a merge, the largest value is the floor of its bucket. -/
lemma mergeBoth_maxValue (engine : Engine) {n : ℕ} (hn : 0 < n) :
    (mergeBoth engine (List.replicate n 2049) []).maxValue = 2048 := by
  obtain ⟨i, hindex, hbuckets⟩ := buckets_replicate n
  obtain ⟨hlayout, hdirect⟩ := holds_recordAll engine (trackable_replicate n)
  have hempty : Holds (recordAll engine []) (Multiset.replicate 0 0) := by
    rw [Multiset.replicate_zero]
    exact .empty _
  have hlayout₀ : (recordAll engine []).layout = defaultLayout := newDefault_layout
  have hlen : defaultLayout.countsLen = 21504 := by rw [defaultLayout_eq]
  have hvalue : defaultLayout.valueFromIndex 2048 = 2048 := by decide +kernel
  rw [hbuckets] at hdirect
  have hfirst :=
    merge_replicate newDefaultHdrHistogram hdirect (by rw [hlayout, hindex, hlen]; norm_num)
  rw [hlayout, hindex, hvalue] at hfirst
  rw [mergeBoth, hfirst, merge_replicate _ hempty (by rw [hlayout₀, hlen]; norm_num)]
  simp [HdrHistogram.recordValueWithCount, newDefaultHdrHistogram, HdrHistogram.empty, hn.ne']

/-- Equal samples of 2049, of which there are fewer than their rank. -/
lemma replicate_percentiles (engine : Engine) {n : ℕ} (hn : 0 < n) {countAt : ℤ}
    (hrank : HdrHistogram.countAtPercentile Binary64.round 100 n = some countAt)
    (hlt : n < countAt) :
    (mergeBoth engine (List.replicate n 2049) []).valueAtPercentile Binary64.round 100 = some 2048 ∧
      (recordAll engine (List.replicate n 2049 ++ [])).valueAtPercentile Binary64.round
        100 = some 2049 := by
  have hxs := trackable_replicate n
  have hcard := card_buckets (List.replicate n 2049)
  rw [List.length_replicate] at hcard
  have hclamp : min (max (100 : ℚ) 0) 100 = 100 := by norm_num
  rw [← hclamp, ← hcard] at hrank
  obtain ⟨hlayout, hdirect⟩ := holds_recordAll engine hxs
  have hnone : Trackable [] := fun _ h => nomatch h
  obtain ⟨hlayout', hmerged⟩ := holds_mergeBoth engine hxs hnone
  have hnil : buckets [] = 0 := rfl
  rw [hnil, add_zero] at hmerged
  constructor
  · rw [valueAtPercentile_of_lt hmerged (by rw [hlayout']; exact fun i => lt_countsLen hxs)
      (by omega) hrank
      (by omega), mergeBoth_maxValue engine hn]
  · rw [List.append_nil,
      valueAtPercentile_of_lt hdirect (by rw [hlayout]; exact fun i => lt_countsLen hxs)
      (by omega) hrank (by omega), recordAll_maxValue engine hn]

/-- For `2 ^ 53 + 3` samples of 2049 the percentile 100 is 2049, and after a merge 2048. -/
theorem roundedUp_not_exact : Trackable (List.replicate (2 ^ 53 + 3) 2049) ∧
    ¬ SamePercentiles Binary64.round (mergeBoth .go (List.replicate (2 ^ 53 + 3) 2049) [])
      (recordAll .go (List.replicate (2 ^ 53 + 3) 2049 ++ [])) := by
  have hrank : HdrHistogram.countAtPercentile Binary64.round 100 ((2 ^ 53 + 3 : ℕ) : ℤ)
      = some (2 ^ 53 + 4) := by decide +kernel
  obtain ⟨hmerged, hdirect⟩ := replicate_percentiles .go (by norm_num) hrank (by norm_num)
  refine ⟨trackable_replicate _, fun h => ?_⟩
  have h100 := h 100
  rw [hmerged, hdirect] at h100
  exact absurd h100 (by decide)

end RespBench.Hdr
