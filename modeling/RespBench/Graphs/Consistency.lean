import RespBench.Graphs.Consensus

/-!
# Consistent outliers

When the latency charts and the CPU chart leave out the runs that are outliers of the throughput.
Every chart counts the runs that have its value, and looks its positions up among the outliers. This
is right when it counts in step with the throughput chart (`InStep`), which depends on the runs that
lack a value or a duration, and not on the numbers. `consistent_iff` says that this is enough, and
that nothing less is: runs that are counted out of step become inconsistent with other numbers of
requests, since any single run can be made the only outlier (`consensus_deviating`).

The critical value of Grubbs is that of the source over the reals, its quantile of Student's
distribution is any function.
-/

namespace RespBench.Graphs
open RespBench.Lib

/-- A chart counts in step with the throughput chart: a run of both charts has the same position in
both, and a run without throughput is behind the positions of all throughputs. -/
def InStep (records : List Record) (value : Record → Option ℚ) : Prop :=
  ∀ run, Has value records run →
    (Has Record.rps records run → rank value records run = rank Record.rps records run) ∧
      (¬ Has Record.rps records run → (extract_total_rps records).length ≤ rank value records run)

/-- There are too few runs with throughput for an outlier, or all charts count in step. -/
def CountedAlike (parse_iso_to_epoch : String → Option ℚ) (cpu_samples : List (ℚ × ℚ))
    (records : List Record) : Prop :=
  (extract_total_rps records).length < 3 ∨
    (∀ cmd pct, InStep records fun rec => rec.summary cmd pct) ∧
      InStep records (Record.cpu parse_iso_to_epoch cpu_samples)

/-- What a record has, apart from its number of requests. -/
def Record.shape (rec : Record) : Record := { rec with requests := 0 }

/-- `grubbs_critical_value`, with the critical value of Student's distribution. -/
noncomputable def grubbs_critical_value (t_crit : ℕ → ℝ) (n : ℕ) : ℝ :=
  (n - 1) / √n * √(t_crit n ^ 2 / (n - 2 + t_crit n ^ 2))

/-! ## Positions -/

section Positions
variable {value : Record → Option ℚ} {records records' : List Record}

/-- The position of a run with a value is one of the values. -/
lemma rank_lt {run : ℕ} (h : Has value records run) :
    rank value records run < (records.filterMap value).length := by
  obtain ⟨rec, hrec, hvalue⟩ := h
  obtain ⟨hrun, rfl⟩ := List.getElem?_eq_some_iff.mp hrec
  have hnext : (records.take (run + 1)).countP (fun rec => (value rec).isSome)
    = rank value records run + 1 := by
    rw [List.take_succ_eq_append_getElem hrun, List.countP_append, List.countP_singleton,
      if_pos hvalue, rank]
  have hle := (List.take_sublist (run + 1) records).countP_le (p := fun rec => (value rec).isSome)
  rw [List.length_filterMap_eq_countP]
  omega

/-- Outliers are positions of values, whatever the fourth method flags. -/
lemma lt_length_of_mem_consensus {grubbs : List ℚ → Finset ℕ} {values : List ℚ} {i : ℕ}
    (h : i ∈ find_consensus_outliers grubbs values) : i < values.length := by
  have hlt {p : ℚ → Bool} (hi : i ∈ flagged p values) : i < values.length := by
    obtain ⟨v, hv, -⟩ := mem_flagged.mp hi
    exact (List.getElem?_eq_some_iff.mp hv).1
  have hz : i ∈ detect_modified_zscore values → i < values.length := by
    unfold detect_modified_zscore
    dsimp only
    split_ifs
    all_goals first | exact hlt | exact fun hi => absurd hi (Finset.notMem_empty i)
  have hiqr : i ∈ detect_iqr values → i < values.length := by
    unfold detect_iqr
    dsimp only
    split_ifs
    all_goals first | exact hlt | exact fun hi => absurd hi (Finset.notMem_empty i)
  by_contra hge
  exact notMem_consensus (mt hz hge) (mt hiqr hge) (.inl fun hpct => hge (by
    unfold detect_pct_deviation at hpct
    dsimp only at hpct
    split_ifs at hpct
    all_goals first | exact hlt hpct | exact absurd hpct (Finset.notMem_empty i))) h

/-- What a chart averages is decided by the positions of the runs. -/
lemma sameRuns_iff (detect_grubbs : List ℚ → Finset ℕ) {results_dir : ResultsDir}
    {file : SeriesFile} (hfile : file ∈ results_dir.files) {cc : ℕ}
    (hgroup : (cc, records) ∈ by_connections file.records) :
    SameRuns detect_grubbs results_dir (file.series_label, cc) records value ↔
      ∀ run, Has value records run →
        (rank value records run ∈ find_consensus_outliers detect_grubbs
          (extract_total_rps records) ↔
          Has Record.rps records run ∧
            rank Record.rps records run ∈ find_consensus_outliers detect_grubbs
              (extract_total_rps records)) := by
  unfold SameRuns Discarded
  simp only [outliersAt_eq detect_grubbs hfile hgroup, mem_averaged]
  refine forall_congr' fun run => ?_
  tauto

/-- A chart that counts in step averages the runs that are not discarded. -/
lemma InStep.sameRuns (h : InStep records value) (detect_grubbs : List ℚ → Finset ℕ)
    {results_dir : ResultsDir} {file : SeriesFile} (hfile : file ∈ results_dir.files) {cc : ℕ}
    (hgroup : (cc, records) ∈ by_connections file.records) :
    SameRuns detect_grubbs results_dir (file.series_label, cc) records value := by
  refine (sameRuns_iff detect_grubbs hfile hgroup).mpr fun run hrun => ?_
  obtain ⟨hboth, hbehind⟩ := h run hrun
  by_cases hrps : Has Record.rps records run
  · rw [hboth hrps]
    exact (and_iff_right hrps).symm
  · refine iff_of_false (fun hmem => ?_) fun hmem => hrps hmem.1
    have hlt := lt_length_of_mem_consensus hmem
    have hle := hbehind hrps
    omega

/-- So does every chart when there are too few runs for an outlier. -/
lemma sameRuns_of_few (hfew : (extract_total_rps records).length < 3)
    (detect_grubbs : List ℚ → Finset ℕ) {results_dir : ResultsDir} {file : SeriesFile}
    (hfile : file ∈ results_dir.files) {cc : ℕ}
    (hgroup : (cc, records) ∈ by_connections file.records) :
    SameRuns detect_grubbs results_dir (file.series_label, cc) records value := by
  refine (sameRuns_iff detect_grubbs hfile hgroup).mpr fun run _ => ?_
  rw [find_consensus_outliers, if_pos hfew]
  simp

/-- Which runs have a value depends on the shapes of the records. -/
lemma has_congr (hvalue : ∀ rec, (value rec.shape).isSome = (value rec).isSome)
    (hshape : records'.map Record.shape = records.map Record.shape) (run : ℕ) :
    Has value records' run ↔ Has value records run := by
  have hmap (records : List Record) : Has value records run ↔
    Has value (records.map Record.shape) run := by
    simp only [Has, List.getElem?_map, Option.map_eq_some_iff]
    constructor
    · rintro ⟨rec, hrec, hsome⟩
      exact ⟨_, ⟨rec, hrec, rfl⟩, by rwa [hvalue]⟩
    · rintro ⟨_, ⟨rec, hrec, rfl⟩, hsome⟩
      exact ⟨rec, hrec, by rwa [hvalue] at hsome⟩
  rw [hmap, hshape, ← hmap]

/-- So do their positions. -/
lemma rank_congr (hvalue : ∀ rec, (value rec.shape).isSome = (value rec).isSome)
    (hshape : records'.map Record.shape = records.map Record.shape) (run : ℕ) :
    rank value records' run = rank value records run := by
  have hmap (records : List Record) : rank value (records.map Record.shape) run
    = rank value records run := by
    rw [rank, ← List.map_take, List.countP_map]
    simp only [Function.comp_def, hvalue, rank]
  rw [← hmap, hshape, hmap]

/-- Whether a record has throughput depends on its shape. -/
lemma rps_shape (rec : Record) : rec.shape.rps.isSome = rec.rps.isSome := by
  unfold Record.rps Record.shape
  dsimp only
  split <;> rfl

/-- How many records have throughput depends on their shapes. -/
lemma length_extract_congr (hshape : records'.map Record.shape = records.map Record.shape) :
    (extract_total_rps records').length = (extract_total_rps records).length := by
  have hcount (records : List Record) : (extract_total_rps records).length
      = (records.map Record.shape).countP fun rec => rec.rps.isSome := by
    rw [extract_total_rps, List.length_filterMap_eq_countP, List.countP_map]
    simp only [Function.comp_def, rps_shape]
  rw [hcount, hshape, ← hcount]

/-- Counting in step depends on the shapes of the records. -/
lemma inStep_congr (hvalue : ∀ rec, (value rec.shape).isSome = (value rec).isSome)
    (hshape : records'.map Record.shape = records.map Record.shape) :
    InStep records' value ↔ InStep records value := by
  unfold InStep
  simp only [has_congr hvalue hshape, has_congr rps_shape hshape, rank_congr hvalue hshape,
    rank_congr rps_shape hshape, length_extract_congr hshape]

end Positions

/-! ## One deviating run -/

section Deviating
variable (i k : ℕ)

/-- Ones, and a two behind `i` of them. -/
def deviating : List ℚ := List.replicate i 1 ++ 2 :: List.replicate k 1

/-- A group with one deviating run has so many runs. -/
lemma length_deviating : (deviating i k).length = i + k + 1 := by
  simp [deviating]
  omega

/-- The deviating run may stand anywhere. -/
lemma deviating_perm : (deviating i k).Perm (List.replicate (i + k) 1 ++ [2]) := by
  have hmiddle : (deviating i k).Perm (2 :: (List.replicate i 1 ++ List.replicate k 1)) :=
    List.perm_middle
  rw [List.replicate_append_replicate] at hmiddle
  exact hmiddle.trans (List.perm_append_singleton _ _).symm

/-- The two is at its place, and everything else is a one. -/
lemma deviating_getElem? {j : ℕ} {v : ℚ} (h : (deviating i k)[j]? = some v) :
    (j = i ∧ v = 2) ∨ (j ≠ i ∧ v = 1) := by
  rw [deviating] at h
  rcases lt_trichotomy j i with hj | rfl | hj
  · rw [List.getElem?_append_left (by simpa using hj), List.getElem?_replicate, if_pos hj] at h
    exact .inr ⟨hj.ne, (Option.some_inj.mp h).symm⟩
  · rw [List.getElem?_append_right (by simp)] at h
    simp only [List.length_replicate, Nat.sub_self, List.getElem?_cons_zero, Option.some_inj] at h
    exact .inl ⟨rfl, h.symm⟩
  · obtain ⟨d, rfl⟩ := Nat.exists_eq_add_of_lt hj
    rw [List.getElem?_append_right (by simp; omega), List.length_replicate,
      show i + d + 1 - i = d + 1 from by omega, List.getElem?_cons_succ, List.getElem?_replicate]
        at h
    split at h
    · exact .inr ⟨hj.ne', (Option.some_inj.mp h).symm⟩
    · cases h

/-- The deviating run stands at its position. -/
lemma deviating_self : (deviating i k)[i]? = some 2 := by
  rw [deviating, List.getElem?_append_right (by simp)]
  simp

variable {i k} (hn : 2 ≤ i + k)

/-- All positions but the last one of the sorted list are ones. -/
lemma ordered_deviating {j : Fin (deviating i k).length} (hj : (j : ℕ) < i + k) :
    ordered (deviating i k) j = 1 := by
  have hsorted : (List.replicate (i + k) (1 : ℚ) ++ [2]).Pairwise (· ≤ ·) := by
    rw [List.pairwise_append]
    refine ⟨List.pairwise_replicate.mpr (.inr le_rfl), List.pairwise_singleton _ _, ?_⟩
    intro a ha b hb
    rw [List.eq_of_mem_replicate ha, List.mem_singleton.mp hb]
    norm_num
  have heq : (deviating i k).insertionSort (· ≤ ·) = List.replicate (i + k) 1 ++ [2] :=
    ((List.perm_insertionSort (· ≤ ·) _).trans (deviating_perm i k)).eq_of_pairwise
      (fun a b _ _ hab hba => le_antisymm hab hba) (List.pairwise_insertionSort (· ≤ ·) _) hsorted
  have hget := getD_insertionSort (deviating i k) j.isLt 0
  rw [heq, List.getD_append _ _ _ _ (by simpa using hj)] at hget
  rw [← hget, List.getD_replicate _ hj]

include hn

/-- The middle value is that of the other runs. -/
lemma middle_one : Middle (deviating i k) 1 := by
  have hlength := length_deviating i k
  exact ⟨⟨(deviating i k).length / 2, by omega⟩, .inr rfl, ordered_deviating (by dsimp only; omega)⟩

/-- So is the median. -/
lemma median_deviating : median (deviating i k) = 1 := by
  have hlength := length_deviating i k
  rw [median_eq (by omega : 0 < (deviating i k).length), lower, upper,
    ordered_deviating (by dsimp only; omega), ordered_deviating (by dsimp only; omega)]
  norm_num

omit hn in
/-- The mean is drawn towards the deviating run. -/
lemma mean_deviating : mean (deviating i k) = 1 + 1 / (i + k + 1) := by
  have hpos : (i : ℚ) + k + 1 ≠ 0 := by positivity
  have hsum : (deviating i k).sum = i + k + 2 := by
    simp [deviating]
    ring
  rw [mean, hsum, length_deviating]
  push_cast
  field_simp
  ring

/-- The variance is that of one deviating run. -/
lemma variance_deviating : variance (deviating i k) = 1 / (i + k + 1) := by
  have hpos : (i : ℚ) + k + 1 ≠ 0 := by positivity
  have hpos' : (i : ℚ) + k ≠ 0 := by
    have hcast : ((i + k : ℕ) : ℚ) ≠ 0 := Nat.cast_ne_zero.mpr (by omega)
    exact_mod_cast hcast
  rw [variance, mean_deviating, length_deviating, deviating]
  simp only [List.map_append, List.map_replicate, List.map_cons, List.sum_append, List.sum_cons,
    List.sum_replicate, nsmul_eq_mul]
  push_cast
  rw [show (i : ℚ) + k + 1 - 1 = i + k by ring]
  field_simp
  ring

/-- No value is as far from the mean as the two. -/
lemma furthest_deviating : ∀ j, j ∈ furthest (deviating i k) ↔ j = i := by
  have hpos : (0 : ℚ) < i + k + 1 := by positivity
  have hlarge : (2 : ℚ) ≤ i + k := by exact_mod_cast hn
  have hone : |(1 : ℚ) - mean (deviating i k)| = 1 / (i + k + 1) := by
    rw [mean_deviating, abs_sub_comm, abs_of_nonneg (by rw [add_sub_cancel_left]; positivity),
      add_sub_cancel_left]
  have htwo : |(2 : ℚ) - mean (deviating i k)| = (i + k) / (i + k + 1) := by
    have heq : (2 : ℚ) - mean (deviating i k) = (i + k) / (i + k + 1) := by
      rw [mean_deviating]
      field_simp
      ring
    rw [heq, abs_of_nonneg (by positivity)]
  have hlt : (1 : ℚ) / (i + k + 1) < (i + k) / (i + k + 1) := by
    rw [div_lt_div_iff_of_pos_right hpos]
    linarith
  intro j
  rw [furthest, List.mem_filter, List.mem_range, decide_eq_true_eq]
  constructor
  · rintro ⟨hj, hfar⟩
    have hget := List.getElem?_eq_getElem hj
    rcases deviating_getElem? i k hget with ⟨rfl, -⟩ | ⟨-, hv⟩
    · rfl
    · have hle := hfar 2 (List.mem_of_getElem? (deviating_self i k))
      rw [List.getD_eq_getElem _ _ hj, hv, hone, htwo] at hle
      exact absurd hlt (not_lt.mpr hle)
  · rintro rfl
    refine ⟨by rw [length_deviating]; omega, fun v hv => ?_⟩
    rw [List.getD_eq_getElem?_getD, deviating_self, Option.getD_some, htwo]
    obtain ⟨m, hm⟩ := List.mem_iff_getElem?.mp hv
    rcases deviating_getElem? j k hm with ⟨-, rfl⟩ | ⟨-, rfl⟩
    · exact htwo.le
    · exact hone.le.trans hlt.le

/-- The test of Grubbs flags the two, for every critical value of Student's distribution. -/
lemma grubbs_deviating (t_crit : ℕ → ℝ) (tie : TieBreak) :
    detect_grubbs (grubbs_critical_value t_crit) tie (deviating i k) = {i} := by
  have hpick : tie.pick (furthest (deviating i k)) = i :=
    (furthest_deviating hn _).mp
      (tie.pick_mem _ (List.ne_nil_of_mem ((furthest_deviating hn i).mpr rfl)))
  have hposQ : (0 : ℚ) < i + k + 1 := by positivity
  have hlarge : (2 : ℝ) ≤ i + k := by exact_mod_cast hn
  have hpos : (0 : ℝ) < i + k + 1 := by linarith
  have hvariance := variance_deviating hn
  have hlength := length_deviating i k
  rw [detect_grubbs, if_neg (by omega), if_neg (by rw [hvariance]; positivity)]
  dsimp only
  rw [hpick, if_pos]
  refine .inr ?_
  have hvalue : (deviating i k).getD i 0 - mean (deviating i k) = (i + k) / (i + k + 1) := by
    rw [List.getD_eq_getElem?_getD, deviating_self, Option.getD_some, mean_deviating]
    field_simp
    ring
  rw [hvalue, hvariance, hlength, grubbs_critical_value, mul_pow, div_pow,
    Real.sq_sqrt (by positivity), Real.sq_sqrt
      (div_nonneg (sq_nonneg _) (by push_cast; nlinarith [sq_nonneg (t_crit (i + k + 1))]))]
  push_cast
  generalize t_crit (i + k + 1) = t
  have hden : 0 < (i : ℝ) + k + 1 - 2 + t ^ 2 := by nlinarith [sq_nonneg t]
  have hratio : t ^ 2 / ((i : ℝ) + k + 1 - 2 + t ^ 2) < 1 := by
    rw [div_lt_one hden]
    linarith
  have hfactor : (0 : ℝ) < ((i + k) / (i + k + 1)) ^ 2 := by positivity
  generalize t ^ 2 / ((i : ℝ) + k + 1 - 2 + t ^ 2) = ratio at hratio
  calc ((i : ℝ) + k + 1 - 1) ^ 2 / ((i : ℝ) + k + 1) * ratio * (1 / ((i : ℝ) + k + 1))
      = (((i : ℝ) + k) / ((i : ℝ) + k + 1)) ^ 2 * ratio := by
        rw [add_sub_cancel_right]
        field_simp
    _ < (((i : ℝ) + k) / ((i : ℝ) + k + 1)) ^ 2 * 1 := mul_lt_mul_of_pos_left hratio hfactor
    _ = (((i : ℝ) + k) / ((i : ℝ) + k + 1)) ^ 2 := mul_one _

/-- The deviating run is more than 15 percent away. -/
lemma pct_deviating : i ∈ detect_pct_deviation (deviating i k) := by
  have hlength := length_deviating i k
  rw [detect_pct_deviation, if_neg (by omega)]
  dsimp only
  rw [median_deviating hn, if_neg one_ne_zero, mem_flagged]
  refine ⟨2, deviating_self i k, decide_eq_true ?_⟩
  norm_num [PCT_DEVIATION_THRESHOLD]

/-- The deviating run is the only outlier. -/
theorem consensus_deviating (t_crit : ℕ → ℝ) (tie : TieBreak) :
    find_consensus_outliers (detect_grubbs (grubbs_critical_value t_crit) tie)
    (deviating i k) = {i} := by
  have hlength := length_deviating i k
  ext j
  rw [Finset.mem_singleton]
  constructor
  · intro hj
    by_contra hne
    obtain ⟨v, hv⟩ : ∃ v, (deviating i k)[j]? = some v :=
      ⟨_, List.getElem?_eq_getElem (lt_length_of_mem_consensus hj)⟩
    obtain ⟨-, rfl⟩ := (deviating_getElem? i k hv).resolve_left fun h => hne h.1
    refine notMem_consensus (notMem_zscore hv fun w _ => ?_) (notMem_iqr hv (middle_one hn))
      (.inl (notMem_pct_deviation hv (median_deviating hn).symm)) hj
    rw [median_deviating hn, sub_self, abs_zero]
    exact abs_nonneg _
  · rintro rfl
    have hgrubbs := grubbs_deviating hn t_crit tie
    have hpct := pct_deviating hn
    rw [find_consensus_outliers, if_neg (by omega)]
    simp only [Finset.mem_filter, List.foldr_cons, List.foldr_nil, Finset.mem_union,
      CONSENSUS_MIN_METHODS, List.countP_cons, List.countP_nil, decide_eq_true_eq, hgrubbs, hpct,
        Finset.mem_singleton, if_true]
    exact ⟨by simp, by omega⟩

end Deviating

/-! ## Other numbers of requests -/

/-- The records with other throughputs, in the order of the records that have one. -/
def withThroughputs : List ℚ → List Record → List Record
  | _, [] => []
  | rps, rec :: rest =>
    if rec.duration_ms ≤ 0 then rec :: withThroughputs rps rest
    else { rec with requests := rps.headD 0 * (rec.duration_ms / 1000) } ::
      withThroughputs rps.tail rest

/-- Other throughputs leave the shapes of the records. -/
lemma shape_withThroughputs (rps : List ℚ) (records : List Record) :
    (withThroughputs rps records).map Record.shape = records.map Record.shape := by
  induction records generalizing rps with
  | nil => rfl
  | cons rec rest ih =>
    rw [withThroughputs]
    split
    · rw [List.map_cons, ih, List.map_cons]
    · rw [List.map_cons, ih, List.map_cons]
      rfl

/-- The throughputs that were given are those that are extracted. -/
lemma extract_withThroughputs {rps : List ℚ} {records : List Record}
    (h : rps.length = (extract_total_rps records).length) :
    extract_total_rps (withThroughputs rps records) = rps := by
  induction records generalizing rps with
  | nil => exact (List.length_eq_zero_iff.mp h).symm
  | cons rec rest ih =>
    unfold extract_total_rps at h ih ⊢
    rw [withThroughputs]
    by_cases hduration : rec.duration_ms ≤ 0
    · have hnone : rec.rps = none := if_pos hduration
      rw [List.filterMap_cons, hnone] at h
      rw [if_pos hduration, List.filterMap_cons, hnone]
      exact ih h
    · have hpos : 0 < rec.duration_ms / 1000 := div_pos (not_le.mp hduration) (by norm_num)
      have hsome : rec.rps = some (rec.requests / (rec.duration_ms / 1000)) := if_neg hduration
      rw [List.filterMap_cons, hsome] at h
      cases rps with
      | nil => cases h
      | cons v rps =>
        have hv : ({ rec with requests := v * (rec.duration_ms / 1000) } : Record).rps
          = some v := by
          rw [Record.rps, if_neg hduration]
          exact congrArg some (mul_div_cancel_right₀ v hpos.ne')
        rw [if_neg hduration, List.headD_cons, List.tail_cons, List.filterMap_cons, hv]
        exact congrArg (v :: ·) (ih (Nat.succ_inj.mp h))

/-- A chart that does not count in step averages other runs for some numbers of requests. -/
lemma exists_not_sameRuns (t_crit : ℕ → ℝ) (tie : TieBreak) {value : Record → Option ℚ}
    {records : List Record} (hvalue : ∀ rec, (value rec.shape).isSome = (value rec).isSome)
    (hmany : 3 ≤ (extract_total_rps records).length) (h : ¬ InStep records value) :
    ∃ records', records'.map Record.shape = records.map Record.shape ∧
      ∀ (results_dir : ResultsDir) (file : SeriesFile) (cc : ℕ), file ∈ results_dir.files →
        (cc, records') ∈ by_connections file.records →
          ¬ SameRuns (detect_grubbs (grubbs_critical_value t_crit) tie) results_dir
            (file.series_label, cc)
            records' value := by
  unfold InStep at h
  push Not at h
  obtain ⟨run, hrun, hstep⟩ := h
  -- the position that shall be the outlier's
  obtain ⟨j, hj, hout⟩ : ∃ j < (extract_total_rps records).length,
      ¬ (rank value records run = j ↔ Has Record.rps records run ∧
        rank Record.rps records run = j) := by
    by_cases hrps : Has Record.rps records run
    · refine ⟨rank Record.rps records run, rank_lt hrps, fun hiff => ?_⟩
      have heq := hiff.mpr ⟨hrps, rfl⟩
      have hlt := (hstep fun _ => heq).2
      exact (hstep fun _ => heq).1 hrps
    · have hlt := (hstep fun h => absurd h hrps).2
      exact ⟨rank value records run, hlt, fun hiff => hrps (hiff.mp rfl).1⟩
  let records' := withThroughputs (deviating j ((extract_total_rps records).length - 1 - j)) records
  have hshape : records'.map Record.shape = records.map Record.shape := shape_withThroughputs _ _
  have hextract : extract_total_rps records' = deviating j
    ((extract_total_rps records).length - 1 - j) :=
    extract_withThroughputs (by rw [length_deviating]; omega)
  refine ⟨records', hshape, fun results_dir file cc hfile hgroup hsame => hout ?_⟩
  have hpositions :=
    (sameRuns_iff _ hfile hgroup).mp hsame run ((has_congr hvalue hshape run).mpr hrun)
  rw [hextract, consensus_deviating (by omega), Finset.mem_singleton, Finset.mem_singleton,
    has_congr rps_shape hshape, rank_congr hvalue hshape, rank_congr rps_shape hshape] at hpositions
  exact hpositions

/-! ## Consistency -/

/-- A group of records with a number of connections is that of a directory of its own. -/
lemma exists_dir {records : List Record} {cc : ℕ} (hne : records ≠ [])
    (hconnections : ∀ rec ∈ records, rec.connections = some cc) (cpu_samples : List (ℚ × ℚ)) :
    ∃ (results_dir : ResultsDir) (file : SeriesFile), file ∈ results_dir.files ∧
      (cc, records) ∈ by_connections file.records ∧ file.cpu_samples = cpu_samples := by
  refine ⟨⟨[⟨"series", records, cpu_samples⟩], List.nodup_singleton _⟩,
    ⟨"series", records, cpu_samples⟩, List.mem_cons_self, ?_, rfl⟩
  obtain ⟨rec, hrec⟩ := List.exists_mem_of_ne_nil records hne
  refine List.mem_map.mpr ⟨cc,
    (List.mem_insertionSort _).mpr (List.mem_dedup.mpr (List.mem_filterMap.mpr
    ⟨rec, hrec, hconnections rec hrec⟩)), ?_⟩
  rw [List.filter_eq_self.mpr fun rec hrec => decide_eq_true (hconnections rec hrec)]

/-- A chart that averages the runs that are not discarded, for all numbers of
requests, counts in step. -/
lemma inStep_of_sameRuns (t_crit : ℕ → ℝ) (tie : TieBreak) {value : Record → Option ℚ}
    {file : SeriesFile} {cc : ℕ} {records : List Record}
    (hgroup : (cc, records) ∈ by_connections file.records)
    (hvalue : ∀ rec, (value rec.shape).isSome = (value rec).isSome)
    (hmany : 3 ≤ (extract_total_rps records).length)
    (hall : ∀ (results_dir : ResultsDir) (file' : SeriesFile) (records' : List Record),
      file' ∈ results_dir.files → (cc, records') ∈ by_connections file'.records →
      file'.cpu_samples = file.cpu_samples → records'.map Record.shape = records.map Record.shape →
        SameRuns (detect_grubbs (grubbs_critical_value t_crit) tie) results_dir
          (file'.series_label, cc) records'
          value) : InStep records value := by
  by_contra hstep
  obtain ⟨records', hshape, hdiffer⟩ := exists_not_sameRuns t_crit tie hvalue hmany hstep
  have hconnections : ∀ rec ∈ records', rec.connections = some cc := by
    intro rec hrec
    have hmem : rec.shape ∈ records.map Record.shape := hshape ▸ List.mem_map_of_mem hrec
    obtain ⟨own, hown, heq⟩ := List.mem_map.mp hmem
    rw [mem_by_connections hgroup] at hown
    have hcc := of_decide_eq_true (List.mem_filter.mp hown).2
    rw [← hcc]
    exact (congrArg Record.connections heq).symm
  have hne : records' ≠ [] := by
    rintro rfl
    rw [← length_extract_congr hshape] at hmany
    exact absurd hmany (by decide)
  obtain ⟨results_dir, file', hfile, hgroup', hsamples⟩ :=
    exists_dir hne hconnections file.cpu_samples
  exact hdiffer results_dir file' cc hfile hgroup'
    (hall results_dir file' records' hfile hgroup' hsamples hshape)

/-- Counting alike depends on the shapes of the records. -/
lemma countedAlike_congr {parse_iso_to_epoch : String → Option ℚ} {cpu_samples : List (ℚ × ℚ)}
    {records records' : List Record}
    (hshape : records'.map Record.shape = records.map Record.shape) :
    CountedAlike parse_iso_to_epoch cpu_samples records' ↔
      CountedAlike parse_iso_to_epoch cpu_samples records := by
  have hlatency (cmd : String) (pct : Percentile) : InStep records'
    (fun rec => rec.summary cmd pct) ↔
      InStep records fun rec => rec.summary cmd pct := inStep_congr (fun _ => rfl) hshape
  have hcpu : InStep records' (Record.cpu parse_iso_to_epoch cpu_samples) ↔
      InStep records (Record.cpu parse_iso_to_epoch cpu_samples) :=
        inStep_congr (fun _ => rfl) hshape
  unfold CountedAlike
  simp only [length_extract_congr hshape, hlatency, hcpu]

/-- Charts that count alike leave out the outliers of the throughput. -/
lemma CountedAlike.consistent {parse_iso_to_epoch : String → Option ℚ} {file : SeriesFile}
    {records : List Record} (h : CountedAlike parse_iso_to_epoch file.cpu_samples records)
    (detect_grubbs : List ℚ → Finset ℕ) {results_dir : ResultsDir}
    (hfile : file ∈ results_dir.files) {cc : ℕ}
    (hgroup : (cc, records) ∈ by_connections file.records) :
    Consistent detect_grubbs parse_iso_to_epoch results_dir file cc records := by
  rcases h with hfew | ⟨hlatency, hcpu⟩
  · exact ⟨fun cmd pct => sameRuns_of_few hfew detect_grubbs hfile hgroup,
      sameRuns_of_few hfew detect_grubbs hfile hgroup⟩
  · exact ⟨fun cmd pct => (hlatency cmd pct).sameRuns detect_grubbs hfile hgroup,
      hcpu.sameRuns detect_grubbs hfile hgroup⟩

/-- The charts leave out the outliers of the throughput when they count the runs in step with it, or
have too few runs for an outlier. Otherwise they do not for some numbers of requests. -/
theorem consistent_iff (t_crit : ℕ → ℝ) (tie : TieBreak) (parse_iso_to_epoch : String → Option ℚ)
    (file : SeriesFile) (cc : ℕ) (records : List Record)
    (hgroup : (cc, records) ∈ by_connections file.records) :
    (CountedAlike parse_iso_to_epoch file.cpu_samples records →
      ∀ results_dir : ResultsDir, file ∈ results_dir.files →
        Consistent (detect_grubbs (grubbs_critical_value t_crit) tie) parse_iso_to_epoch
          results_dir file cc
          records) ∧
    ((∀ (results_dir : ResultsDir) (file' : SeriesFile) (records' : List Record),
      file' ∈ results_dir.files → (cc, records') ∈ by_connections file'.records →
      file'.cpu_samples = file.cpu_samples → records'.map Record.shape = records.map Record.shape →
        Consistent (detect_grubbs (grubbs_critical_value t_crit) tie) parse_iso_to_epoch
          results_dir file' cc
          records') ↔
      CountedAlike parse_iso_to_epoch file.cpu_samples records) := by
  refine ⟨fun h results_dir hfile => h.consistent _ hfile hgroup, fun hall => ?_, ?_⟩
  · by_contra hnot
    obtain ⟨hmany, hcharts⟩ := not_or.mp hnot
    rw [not_lt] at hmany
    refine hcharts ⟨fun cmd pct => ?_, ?_⟩
    · exact inStep_of_sameRuns t_crit tie hgroup (fun _ => rfl) hmany fun results_dir file' records'
        hfile hgroup' hsamples
        hshape => (hall results_dir file' records' hfile hgroup' hsamples hshape).latency cmd pct
    · refine inStep_of_sameRuns t_crit tie hgroup (fun _ => rfl) hmany fun results_dir file'
        records' hfile hgroup' hsamples
        hshape => ?_
      rw [← hsamples]
      exact (hall results_dir file' records' hfile hgroup' hsamples hshape).cpu
  · intro h results_dir file' records' hfile hgroup' hsamples hshape
    rw [← countedAlike_congr hshape, ← hsamples] at h
    exact h.consistent _ hfile hgroup'

/-- A record of 16 connections and a second, with its number of requests and the median
latency of a command. -/
def secondOf (requests : ℚ) (latency : Option ℚ) : Record where
  connections := some 16
  duration_ms := 1000
  requests := requests
  summary _ _ := latency
  start_timestamp := none
  finish_timestamp := none

/-- The fourth of six runs is half as fast as the others. -/
def slowFourth (first : Option ℚ) : List Record :=
  [secondOf 1000 first, secondOf 1000 (some 100), secondOf 1000 (some 100), secondOf 500 (some 200),
    secondOf 1000 (some 100), secondOf 1000 (some 100)]

/-- The results of one series. -/
def oneSeries (records : List Record) : ResultsDir := ⟨[⟨"jedis", records, []⟩], by simp⟩

/-- The fourth run is the outlier, whatever the test of Grubbs says. -/
lemma slowFourth_outliers (detect_grubbs : List ℚ → Finset ℕ) (first : Option ℚ) :
    find_consensus_outliers detect_grubbs (extract_total_rps (slowFourth first)) = {3} := by
  have hrps : extract_total_rps (slowFourth first) = [1000, 1000, 1000, 500, 1000, 1000] := by
    simp [extract_total_rps, slowFourth, secondOf, Record.rps]
  rw [hrps]
  have hmz : detect_modified_zscore [1000, 1000, 1000, 500, 1000, 1000] = {3} := by decide +kernel
  have hiqr : detect_iqr [1000, 1000, 1000, 500, 1000, 1000] = {3} := by decide +kernel
  have hpct : detect_pct_deviation [1000, 1000, 1000, 500, 1000, 1000] = {3} := by decide +kernel
  rw [find_consensus_outliers, hmz, hiqr, hpct, if_neg (by decide)]
  ext idx
  simp only [CONSENSUS_MIN_METHODS, List.foldr_cons, List.foldr_nil, Finset.mem_filter,
    Finset.mem_union, Finset.mem_singleton, List.countP_cons, List.countP_nil, decide_eq_true_eq]
  by_cases h : idx = 3
  · simp [h]
  · simp only [h, if_false, false_or, iff_false, not_and]
    split <;> omega

/-- All runs are in one group. -/
lemma slowFourth_group (first : Option ℚ) : (16, slowFourth first)
    ∈ by_connections (slowFourth first) :=
  List.mem_cons_self

/-- A chart with a value of exactly the runs with throughput counts in step. -/
lemma inStep_of_complete {value : Record → Option ℚ} {records : List Record}
    (h : ∀ rec ∈ records, (value rec).isSome = rec.rps.isSome) : InStep records value := by
  have hrank (run : ℕ) : rank value records run = rank Record.rps records run :=
    List.countP_congr fun rec hrec => by rw [h rec (List.mem_of_mem_take hrec)]
  rintro run ⟨rec, hrec, hvalue⟩
  refine ⟨fun _ => hrank run, fun hnone => absurd ⟨rec, hrec, ?_⟩ hnone⟩
  rwa [← h rec (List.mem_of_getElem? hrec)]

/-- Six complete runs. -/
theorem slowFourth_consistent : Consistent (detect_grubbs (grubbs_critical_value fun _ => 2) .last)
    (fun _ => none) (oneSeries (slowFourth (some 100))) ⟨"jedis", slowFourth (some 100),
      []⟩ 16 (slowFourth (some 100)) := by
  refine (consistent_iff (fun _ => 2) .last (fun _ => none) ⟨"jedis",
    slowFourth (some 100), []⟩ 16 _
    (slowFourth_group _)).1 (.inr ⟨fun cmd pct => inStep_of_complete ?_, fun run hrun => ?_⟩)
      _ List.mem_cons_self
  · simp [slowFourth, secondOf, Record.rps]
  · have hcpu : ∀ rec ∈ slowFourth (some 100), rec.cpu (fun _ => none) [] = none := by
      simp [slowFourth, secondOf, Record.cpu, Record.window]
    obtain ⟨rec, hrec, hsome⟩ := hrun
    rw [hcpu rec (List.mem_of_getElem? hrec)] at hsome
    cases hsome

/-- Without a latency in the first run, the fifth is left out in place of the fourth. -/
theorem slowFourth_not_consistent :
    find_consensus_outliers (fun _ => {3}) (extract_total_rps (slowFourth none)) = {3} ∧
      averaged (fun rec => rec.summary "GET" .p50) (slowFourth none) {3} = [1, 2, 3, 5] ∧
      ¬ Consistent (fun _ => {3}) (fun _ => none)
      (oneSeries (slowFourth none)) ⟨"jedis", slowFourth none, []⟩ 16
        (slowFourth none) := by
  have hruns : averaged (fun rec => rec.summary "GET" .p50) (slowFourth none) {3} = [1, 2, 3, 5] :=
    by decide
  refine ⟨slowFourth_outliers _ _, hruns, fun h => ?_⟩
  have hfile : (⟨"jedis", slowFourth none, []⟩ : SeriesFile)
    ∈ (oneSeries (slowFourth none)).files := List.mem_cons_self
  have hlatency := h.latency "GET" .p50 3
  rw [outliersAt_eq _ hfile (slowFourth_group none), slowFourth_outliers, hruns] at hlatency
  refine (hlatency.mp (by decide)).2 ⟨⟨_, rfl, by decide⟩, ?_⟩
  rw [slowFourth_outliers]
  decide

end RespBench.Graphs
