import RespBench.Graphs.Outliers
import RespBench.Lib.Ranks

/-!
# The consensus keeps a middle value

Two of the four methods must agree to discard a run. A middle value of the list is never flagged by
the modified z-score, since no value is closer to the median (`notMem_zscore`), nor by the
quartiles, which enclose it (`notMem_iqr`). When it is the median itself, its relative deviation is
zero; otherwise there are two middle values, and the test of Grubbs flags one position at most. So
one of them is kept (`exists_kept`).

The test of Grubbs takes its critical values and its choice among tied positions as parameters.
-/

namespace RespBench.Graphs
open RespBench.Lib

/-! ## The test of Grubbs -/

/-- `stdev`, squared. -/
def variance (values : List ℚ) : ℚ := (values.map fun v => (v - mean values) ^ 2).sum
    / (values.length - 1)

/-- The positions of the values that are furthest from the mean. -/
def furthest (values : List ℚ) : List ℕ :=
  (List.range values.length).filter fun i => ∀ v ∈ values,
    |v - mean values| ≤ |values.getD i 0 - mean values|

/-- A choice among tied positions. -/
structure TieBreak where
  pick : List ℕ → ℕ
  pick_mem : ∀ l ≠ [], pick l ∈ l

/-- The reversed sort of pairs puts the last of the tied positions first. -/
def TieBreak.last : TieBreak where
  pick l := l.getLastD 0
  pick_mem l hl := by
    rw [List.getLastD_eq_getLast?, List.getLast?_eq_some_getLast hl]
    exact List.getLast_mem hl

section Grubbs
variable {K : Type*} [Field K] [LinearOrder K]

def detect_grubbs (grubbs_critical_value : ℕ → K) (tie : TieBreak) (values : List ℚ) : Finset ℕ :=
  if values.length < 3 then ∅
  else if variance values = 0 then ∅
  else
    let idx := tie.pick (furthest values)
    let g_crit := grubbs_critical_value values.length
    -- both sides of the comparison times the standard deviation, squared
    if g_crit < 0 ∨ g_crit ^ 2 * variance values < ((values.getD idx 0 - mean values) ^ 2 : ℚ)
      then {idx} else ∅

/-- One position is flagged at most. -/
lemma grubbs_unique {grubbs_critical_value : ℕ → K} {tie : TieBreak} {values : List ℚ} {i j : ℕ}
    (hi : i ∈ detect_grubbs grubbs_critical_value tie values)
    (hj : j ∈ detect_grubbs grubbs_critical_value tie values) : i = j := by
  unfold detect_grubbs at hi hj
  split at hi
  · exact absurd hi (Finset.notMem_empty i)
  · split at hi
    · exact absurd hi (Finset.notMem_empty i)
    · dsimp only at hi hj
      split at hi
      next hexceeds =>
        rw [if_neg ‹_›, if_neg ‹_›, if_pos hexceeds, Finset.mem_singleton] at hj
        rw [Finset.mem_singleton.mp hi, hj]
      next => exact absurd hi (Finset.notMem_empty i)

end Grubbs

/-- The comparison of the squares is that of `g_stat` with the critical value. -/
theorem g_stat_iff {v m s2 : ℚ} (hs : 0 < s2) (g_crit : ℝ) :
    g_crit < |(v - m : ℝ)| / √s2 ↔ g_crit < 0 ∨ g_crit ^ 2 * s2 < ((v - m) ^ 2 : ℚ) := by
  have hpos : (0 : ℝ) < s2 := by exact_mod_cast hs
  have hroot : 0 < √(s2 : ℝ) := Real.sqrt_pos.mpr hpos
  rw [lt_div_iff₀ hroot]
  rcases lt_or_ge g_crit 0 with hneg | hnonneg
  · have hlt : g_crit * √s2 < |(v - m : ℝ)| :=
      (mul_neg_of_neg_of_pos hneg hroot).trans_le (abs_nonneg _)
    exact ⟨fun _ => .inl hneg, fun _ => hlt⟩
  · rw [or_iff_right (not_lt.mpr hnonneg), ← sq_lt_sq₀ (mul_nonneg hnonneg hroot.le) (abs_nonneg _),
      mul_pow, Real.sq_sqrt hpos.le, sq_abs]
    push_cast
    rfl

/-! ## The middle -/

/-- The lower or the upper of the middle values, which are one if their number is odd. -/
def Middle (values : List ℚ) (v : ℚ) : Prop :=
  ∃ k : Fin values.length, ((k : ℕ) = (values.length - 1) / 2 ∨ (k : ℕ) = values.length / 2) ∧
    ordered values k = v

section Middle
variable {values : List ℚ} (hpos : 0 < values.length)

def lower : ℚ := ordered values ⟨(values.length - 1) / 2, by omega⟩

def upper : ℚ := ordered values ⟨values.length / 2, by omega⟩

/-- The lower of the two middle values is a middle value. -/
lemma middle_lower : Middle values (lower hpos) := ⟨_, .inl rfl, rfl⟩

/-- The upper of the two middle values is a middle value. -/
lemma middle_upper : Middle values (upper hpos) := ⟨_, .inr rfl, rfl⟩

/-- The two middle values are in order. -/
lemma lower_le_upper : lower hpos ≤ upper hpos :=
  ordered_mono values (Fin.le_def.mpr (Nat.div_le_div_right (by omega)))

/-- The median is halfway between the middle values. -/
lemma median_eq : median values = (lower hpos + upper hpos) / 2 := by
  rw [median, List.length_insertionSort]
  rw [getD_insertionSort values (Nat.div_lt_self hpos one_lt_two)]
  split
  next hodd =>
    have hsame : lower hpos = upper hpos := by
      rw [lower, upper]
      congr 2
      omega
    have hhalf : upper hpos = (lower hpos + upper hpos) / 2 := by
      rw [hsame]
      ring
    exact hhalf
  next heven =>
    have hbelow : values.length / 2 - 1 = (values.length - 1) / 2 := by omega
    rw [getD_insertionSort values (k := values.length / 2 - 1) (by omega)]
    simp only [hbelow]
    rfl

include hpos in
/-- A bound of all values is one of their median. -/
lemma le_median {x : ℚ} (h : ∀ v ∈ values, x ≤ v) : x ≤ median values := by
  have hlower := h _ (ordered_mem values ⟨(values.length - 1) / 2, by omega⟩)
  have hupper := h _ (ordered_mem values ⟨values.length / 2, by omega⟩)
  rw [median_eq hpos, lower, upper]
  linarith

include hpos in
/-- A bound of all values is one of their mean. -/
lemma le_mean {x : ℚ} (h : ∀ v ∈ values, x ≤ v) : x ≤ mean values := by
  have hlength : (0 : ℚ) < values.length := Nat.cast_pos.mpr hpos
  have hsum := List.card_nsmul_le_sum values x h
  rw [nsmul_eq_mul] at hsum
  rw [mean, le_div_iff₀ hlength]
  linarith

/-- No value is closer to the median than the middle ones. -/
lemma middle_closest {v w : ℚ} (hv : v = lower hpos ∨ v = upper hpos) (hw : w ∈ values) :
    |v - median values| ≤ |w - median values| := by
  have hle := lower_le_upper hpos
  have hhalf : |v - median values| = (upper hpos - lower hpos) / 2 := by
    rw [median_eq hpos]
    rcases hv with rfl | rfl
    · rw [abs_of_nonpos (by linarith)]
      ring
    · rw [abs_of_nonneg (by linarith)]
      ring
  have hbetween : w ≤ lower hpos ∨ upper hpos ≤ w := le_or_ordered_le (by dsimp only; omega) hw
  rw [hhalf, median_eq hpos, le_abs]
  rcases hbetween with hlow | hhigh
  · exact .inr (by linarith)
  · exact .inl (by linarith)

end Middle

/-! ## The methods -/

/-- A position is flagged when its value is. -/
lemma mem_flagged {p : ℚ → Bool} {values : List ℚ} {i : ℕ} :
    i ∈ flagged p values ↔ ∃ v, values[i]? = some v ∧ p v := by
  simp [flagged, List.mk_mem_zipIdx_iff_getElem?]

section Methods
variable {values : List ℚ} {i : ℕ} {v : ℚ} (hi : values[i]? = some v)
include hi

/-- A value that no other is closer to the median than is not flagged by the modified z-score. -/
lemma notMem_zscore (hv : ∀ w ∈ values, |v - median values| ≤ |w - median values|) :
    i ∉ detect_modified_zscore values := by
  have hpos : 0 < values.length := List.length_pos_of_mem (List.mem_of_getElem? hi)
  unfold detect_modified_zscore
  split
  · exact Finset.notMem_empty i
  · extract_lets med deviations mad
    have hbound : ∀ d ∈ deviations, |v - med| ≤ d := by
      intro d hd
      obtain ⟨w, hw, rfl⟩ := List.mem_map.mp hd
      exact hv w hw
    have hdeviations : 0 < deviations.length := by rwa [List.length_map]
    have hmad : |v - med| ≤ mad := by
      unfold mad
      split
      · exact le_mean hdeviations hbound
      · exact le_median hdeviations hbound
    split
    · exact Finset.notMem_empty i
    next hne =>
      have hmadpos : 0 < mad := lt_of_le_of_ne ((abs_nonneg _).trans hmad) (Ne.symm hne)
      have hratio : |0.6745 * (v - med) / mad| ≤ 0.6745 := by
        rw [abs_div, abs_mul, abs_of_pos hmadpos, div_le_iff₀ hmadpos, abs_of_pos (by norm_num)]
        exact mul_le_mul_of_nonneg_left hmad (by norm_num)
      rw [mem_flagged]
      rintro ⟨w, hw, hflagged⟩
      obtain rfl := Option.some_inj.mp (hi.symm.trans hw)
      have hexceeds := of_decide_eq_true hflagged
      unfold MODIFIED_Z_THRESHOLD at hexceeds
      linarith

/-- A middle value lies between the quartiles. -/
lemma notMem_iqr (hv : Middle values v) : i ∉ detect_iqr values := by
  obtain ⟨k, hk, rfl⟩ := hv
  unfold detect_iqr
  split
  · exact Finset.notMem_empty i
  next hlength =>
    extract_lets sorted_v q1 q3 iqr
    have hsorted : sorted_v.length = values.length := List.length_insertionSort _ _
    have hq1 : q1 ≤ ordered values k := by
      have hget : q1 = ordered values ⟨values.length / 4, by omega⟩ := by
        unfold q1
        rw [hsorted]
        exact getD_insertionSort values _ _
      rw [hget]
      exact ordered_mono values (Fin.le_def.mpr (by dsimp only; omega))
    have hq3 : ordered values k ≤ q3 := by
      have hget : q3 = ordered values ⟨3 * values.length / 4, by omega⟩ := by
        unfold q3
        rw [hsorted]
        exact getD_insertionSort values _ _
      rw [hget]
      exact ordered_mono values (Fin.le_def.mpr (by dsimp only; omega))
    have hiqr : 0 ≤ IQR_MULTIPLIER * iqr :=
      mul_nonneg (by norm_num [IQR_MULTIPLIER]) (sub_nonneg.mpr (hq1.trans hq3))
    rw [mem_flagged]
    rintro ⟨w, hw, hflagged⟩
    obtain rfl := Option.some_inj.mp (hi.symm.trans hw)
    rw [Bool.or_eq_true, decide_eq_true_eq, decide_eq_true_eq] at hflagged
    rcases hflagged with hlow | hhigh
    · linarith
    · linarith

/-- The median does not deviate from itself. -/
lemma notMem_pct_deviation (hv : v = median values) : i ∉ detect_pct_deviation values := by
  unfold detect_pct_deviation
  split
  · exact Finset.notMem_empty i
  · dsimp only
    split
    · exact Finset.notMem_empty i
    · rw [mem_flagged]
      rintro ⟨w, hw, hflagged⟩
      obtain rfl := Option.some_inj.mp (hi.symm.trans hw)
      have hexceeds := of_decide_eq_true hflagged
      rw [hv, sub_self, abs_zero, zero_div, zero_mul, PCT_DEVIATION_THRESHOLD] at hexceeds
      norm_num at hexceeds

end Methods

/-- Two methods must agree. -/
lemma notMem_consensus {grubbs : List ℚ → Finset ℕ} {values : List ℚ} {i : ℕ}
    (hz : i ∉ detect_modified_zscore values) (hiqr : i ∉ detect_iqr values)
    (hone : i ∉ detect_pct_deviation values ∨ i ∉ grubbs values) :
    i ∉ find_consensus_outliers grubbs values := by
  unfold find_consensus_outliers
  split
  · exact Finset.notMem_empty i
  · dsimp only
    rw [Finset.mem_filter]
    rintro ⟨-, hcount⟩
    simp only [List.countP_cons, List.countP_nil, decide_eq_true_eq, CONSENSUS_MIN_METHODS, hz,
      hiqr, if_false, add_zero] at hcount
    rcases hone with hpct | hgrubbs
    · rw [if_neg hpct] at hcount
      split at hcount <;> omega
    · rw [if_neg hgrubbs] at hcount
      split at hcount <;> omega

/-! ## What is kept -/

/-- When the fourth method flags one position at most, a middle value is kept. -/
theorem exists_kept {grubbs : List ℚ → Finset ℕ} {values : List ℚ} (hvalues : values ≠ [])
    (hgrubbs : ∀ i ∈ grubbs values, ∀ j ∈ grubbs values, i = j) :
    ∃ i v, values[i]? = some v ∧ Middle values v ∧ i ∉ find_consensus_outliers grubbs values := by
  have hpos : 0 < values.length := List.length_pos_iff.mpr hvalues
  obtain ⟨i, hi⟩ : ∃ i, values[i]? = some (lower hpos) :=
    List.mem_iff_getElem?.mp (ordered_mem values _)
  obtain ⟨j, hj⟩ : ∃ j, values[j]? = some (upper hpos) :=
    List.mem_iff_getElem?.mp (ordered_mem values _)
  have hz := notMem_zscore hi fun w => middle_closest hpos (.inl rfl)
  have hiqr := notMem_iqr hi (middle_lower hpos)
  by_cases heq : lower hpos = upper hpos
  · -- the middle value is the median
    have hmedian : lower hpos = median values := by
      rw [median_eq hpos, ← heq]
      ring
    exact ⟨i, _, hi, middle_lower hpos,
      notMem_consensus hz hiqr (.inl (notMem_pct_deviation hi hmedian))⟩
  · by_cases hflagged : i ∈ grubbs values
    · have hother : j ∉ grubbs values := by
        intro hj'
        obtain rfl := hgrubbs i hflagged j hj'
        exact heq (Option.some_inj.mp (hi.symm.trans hj))
      have hz' := notMem_zscore hj fun w => middle_closest hpos (.inr rfl)
      exact ⟨j, _, hj, middle_upper hpos,
        notMem_consensus hz' (notMem_iqr hj (middle_upper hpos)) (.inr hother)⟩
    · exact ⟨i, _, hi, middle_lower hpos, notMem_consensus hz hiqr (.inr hflagged)⟩

/-- A point is missing exactly when there are no values. -/
lemma point_eq_none {values : List ℚ} : point values = none ↔ values = [] := by simp [point]

/-- A value that is not flagged stays. -/
lemma clean_ne_nil {values : List ℚ} {O : Finset ℕ} {i : ℕ} {v : ℚ} (hi : values[i]? = some v)
    (hO : i ∉ O) :
    clean values O ≠ [] := by
  have hmem : v ∈ clean values O :=
    List.mem_map.mpr ⟨(v, i), List.mem_filter.mpr ⟨List.mk_mem_zipIdx_iff_getElem?.mpr hi,
      decide_eq_true hO⟩, rfl⟩
  exact List.ne_nil_of_mem hmem

section Point
variable {K : Type*} [Field K] [LinearOrder K] (grubbs_critical_value : ℕ → K) (tie : TieBreak)

/-- Some value stays. -/
lemma consensus_clean_ne_nil {values : List ℚ} (hvalues : values ≠ []) :
    clean values (find_consensus_outliers (detect_grubbs grubbs_critical_value tie) values)
      ≠ [] := by
  have hgrubbs : ∀ i ∈ detect_grubbs grubbs_critical_value tie values,
      ∀ j ∈ detect_grubbs grubbs_critical_value tie values, i = j :=
        fun i hi j hj => grubbs_unique hi hj
  obtain ⟨i, v, hi, -, hkept⟩ := exists_kept hvalues hgrubbs
  exact clean_ne_nil hi hkept

/-- For every critical value and every choice among ties, a position of a middle value is not
flagged, and every group of runs with throughput has a mean that is plotted. -/
theorem consensus_keeps_middle :
    (∀ values : List ℚ, values ≠ [] → ∃ i v, values[i]? = some v ∧ Middle values v ∧
      i ∉ find_consensus_outliers (detect_grubbs grubbs_critical_value tie) values) ∧
    ∀ results_dir : ResultsDir, ∀ file ∈ results_dir.files, ∀ group ∈ by_connections file.records,
      extract_total_rps group.2 ≠ [] → ∃ avg, ((file.series_label, group.1),
        find_consensus_outliers (detect_grubbs grubbs_critical_value tie)
        (extract_total_rps group.2), some avg)
          ∈ load_all_data_flat (detect_grubbs grubbs_critical_value tie) results_dir := by
  refine ⟨fun values hvalues => exists_kept hvalues fun i hi j hj => grubbs_unique hi hj, ?_⟩
  intro results_dir file hfile group hgroup hrps
  obtain ⟨avg, havg⟩ := Option.ne_none_iff_exists'.mp
    (mt point_eq_none.mp (consensus_clean_ne_nil grubbs_critical_value tie hrps))
  refine ⟨avg, List.mem_flatMap.mpr ⟨file, hfile, List.mem_filterMap.mpr ⟨group, hgroup, ?_⟩⟩⟩
  dsimp only
  rw [if_neg hrps, havg]

end Point

/-- Four runs whose throughputs are far from each other. -/
def fourRuns : List Record :=
  [100, 10, 1000, 200].map fun requests => ⟨some 16, 1000, requests, fun _ _ => none, none, none⟩

/-- The results of one series. -/
def fourRunsDir : ResultsDir := ⟨[⟨"jedis", fourRuns, []⟩], List.nodup_singleton _⟩

/-- With a test of Grubbs that always flags, a middle value is kept, and the group is plotted. -/
theorem twoPairs_keep_middle :
    (∃ i v, [100, 10, 1000, 200][i]? = some v ∧ Middle [100, 10, 1000, 200] v ∧
      i ∉ find_consensus_outliers (detect_grubbs (fun _ => (-1 : ℚ)) .last) [100, 10, 1000, 200]) ∧
    ∃ avg, (("jedis", 16),
      find_consensus_outliers (detect_grubbs (fun _ => (-1 : ℚ)) .last)
      (extract_total_rps fourRuns), some avg) ∈ load_all_data_flat
        (detect_grubbs (fun _ => (-1 : ℚ)) .last) fourRunsDir := by
  obtain ⟨hkeeps, hplots⟩ := consensus_keeps_middle (K := ℚ) (fun _ => -1) .last
  refine ⟨hkeeps _ (List.cons_ne_nil _ _), ?_⟩
  exact hplots fourRunsDir ⟨"jedis", fourRuns, []⟩ List.mem_cons_self (16,
    fourRuns) List.mem_cons_self
    (by simp [extract_total_rps, fourRuns, Record.rps])

end RespBench.Graphs
