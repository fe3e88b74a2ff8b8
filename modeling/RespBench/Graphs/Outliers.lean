import Mathlib

/-!
# Outliers of the graphs

The loaders of the interactive graphs for the flat layout (`generate_interactive_graphs.py`). The
runs that are outliers of the throughput chart are handed to the loaders of the latency and CPU
charts by their positions, but each loader counts only the runs that have its value. `mem_averaged`
says which runs a loader keeps, and `outliersAt_eq` that it looks up the outliers of its own group.

Numbers are rational. Of the four methods the test of Grubbs is any function here.
-/

namespace RespBench.Graphs

/-! ## Detection -/

def mean (values : List ℚ) : ℚ := values.sum / values.length

def median (values : List ℚ) : ℚ :=
  let s := values.insertionSort (· ≤ ·)
  if s.length % 2 = 1 then s.getD (s.length / 2) 0
  else (s.getD (s.length / 2 - 1) 0 + s.getD (s.length / 2) 0) / 2

/-- The positions of the values that are flagged. -/
def flagged (p : ℚ → Bool) (values : List ℚ) : Finset ℕ :=
  ((values.zipIdx.filter fun a => p a.1).map Prod.snd).toFinset

def MODIFIED_Z_THRESHOLD : ℚ := 3.5
def IQR_MULTIPLIER : ℚ := 1.5
def PCT_DEVIATION_THRESHOLD : ℚ := 15
def CONSENSUS_MIN_METHODS : ℕ := 2

def detect_modified_zscore (values : List ℚ) : Finset ℕ :=
  if values.length < 3 then ∅
  else
    let med := median values
    let deviations := values.map fun v => |v - med|
    let mad := if median deviations = 0 then mean deviations else median deviations
    if mad = 0 then ∅
      else flagged (fun v => MODIFIED_Z_THRESHOLD < |0.6745 * (v - med) / mad|) values

def detect_iqr (values : List ℚ) : Finset ℕ :=
  if values.length < 4 then ∅
  else
    let sorted_v := values.insertionSort (· ≤ ·)
    let q1 := sorted_v.getD (sorted_v.length / 4) 0
    let q3 := sorted_v.getD (3 * sorted_v.length / 4) 0
    let iqr := q3 - q1
    flagged (fun v => v < q1 - IQR_MULTIPLIER * iqr || q3 + IQR_MULTIPLIER * iqr < v) values

def detect_pct_deviation (values : List ℚ) : Finset ℕ :=
  if values.length < 2 then ∅
  else
    let med := median values
    if med = 0 then ∅ else flagged (fun v => PCT_DEVIATION_THRESHOLD < |v - med| / med * 100) values

/-- The positions that two methods flag. -/
def find_consensus_outliers (detect_grubbs : List ℚ → Finset ℕ) (values : List ℚ) : Finset ℕ :=
  if values.length < 3 then ∅
  else
    let flags := [detect_modified_zscore values, detect_iqr values, detect_pct_deviation values,
      detect_grubbs values]
    (flags.foldr (· ∪ ·) ∅).filter fun idx => CONSENSUS_MIN_METHODS ≤ flags.countP fun s => idx ∈ s

/-! ## Records -/

inductive Percentile where
  | p50 | p95 | p99 | p999
deriving DecidableEq

/-- A `STEADY` record: `phase.connections`, `phase.duration_ms`, `totals.requests`, the summaries
`metrics.<cmd>.latency.summary.<pct>` and the timestamps of the phase. -/
structure Record where
  connections : Option ℕ
  duration_ms : ℚ
  requests : ℚ
  summary : String → Percentile → Option ℚ
  start_timestamp : Option String
  finish_timestamp : Option String

def Record.rps (rec : Record) : Option ℚ :=
  if rec.duration_ms ≤ 0 then none else some (rec.requests / (rec.duration_ms / 1000))

def extract_total_rps (records : List Record) : List ℚ := records.filterMap Record.rps

/-- The values of a command and a percentile. -/
def extract_latency_percentiles (records : List Record) (cmd : String)
    (pct : Percentile) : List ℚ :=
  records.filterMap fun rec => rec.summary cmd pct

/-- The time window of a record, if both timestamps are there, not empty, and can be parsed. -/
def Record.window (parse_iso_to_epoch : String → Option ℚ) (rec : Record) : Option (ℚ × ℚ) := do
  let start_ts ← rec.start_timestamp
  let finish_ts ← rec.finish_timestamp
  guard (start_ts ≠ "" ∧ finish_ts ≠ "")
  let start_epoch ← parse_iso_to_epoch start_ts
  let end_epoch ← parse_iso_to_epoch finish_ts
  return (start_epoch, end_epoch)

def extract_steady_time_windows (parse_iso_to_epoch : String → Option ℚ) (records : List Record) :
    List (ℚ × ℚ) :=
  records.filterMap (Record.window parse_iso_to_epoch)

def compute_avg_cpu_for_window (samples : List (ℚ × ℚ)) (window : ℚ × ℚ) : Option ℚ :=
  let matching := (samples.filter fun s => window.1 ≤ s.1 ∧ s.1 ≤ window.2).map Prod.snd
  if matching = [] then none else some (mean matching)

/-! ## Loaders -/

/-- A metrics file and the samples of the monitor beside it. -/
structure SeriesFile where
  series_label : String
  records : List Record
  cpu_samples : List (ℚ × ℚ)

structure ResultsDir where
  files : List SeriesFile
  labels_nodup : (files.map SeriesFile.series_label).Nodup

/-- The records for each number of connections. -/
def by_connections (records : List Record) : List (ℕ × List Record) :=
  ((records.filterMap Record.connections).dedup.insertionSort (· ≤ ·)).map fun cc =>
    (cc, records.filter fun rec => rec.connections = some cc)

/-- `[v for i, v in enumerate(values) if i not in outlier_indices]`. -/
def clean {α : Type} (values : List α) (outlier_indices : Finset ℕ) : List α :=
  (values.zipIdx.filter fun a => a.2 ∉ outlier_indices).map Prod.fst

def point (values : List ℚ) : Option ℚ := if values = [] then none else some (mean values)

/-- A series and a number of connections. -/
abbrev Key := String × ℕ

/-- The groups of records that have throughput, with their outliers and their points. -/
def load_all_data_flat (detect_grubbs : List ℚ → Finset ℕ) (results_dir : ResultsDir) :
    List (Key × Finset ℕ × Option ℚ) :=
  results_dir.files.flatMap fun file => (by_connections file.records).filterMap fun group =>
    let rps_values := extract_total_rps group.2
    if rps_values = [] then none
    else
      let outlier_indices := find_consensus_outliers detect_grubbs rps_values
      some ((file.series_label, group.1), outlier_indices, point (clean rps_values outlier_indices))

def rps_outlier_map (detect_grubbs : List ℚ → Finset ℕ) (results_dir : ResultsDir) :
    List (Key × Finset ℕ) :=
  (load_all_data_flat detect_grubbs results_dir).map fun a => (a.1, a.2.1)

/-- `rps_outlier_map.get(key, set())`. -/
def outliersAt (rps_outlier_map : List (Key × Finset ℕ)) (key : Key) : Finset ℕ :=
  (rps_outlier_map.lookup key).getD ∅

/-- The points of a command and a percentile. -/
def load_latency_data_flat (results_dir : ResultsDir) (rps_outlier_map : List (Key × Finset ℕ))
    (cmd : String) (pct : Percentile) : List (Key × ℚ) :=
  results_dir.files.flatMap fun file => (by_connections file.records).filterMap fun group =>
    let key := (file.series_label, group.1)
    let values := extract_latency_percentiles group.2 cmd pct
    (point (clean values (outliersAt rps_outlier_map key))).map (key, ·)

def load_cpu_data_flat (parse_iso_to_epoch : String → Option ℚ) (results_dir : ResultsDir)
    (rps_outlier_map : List (Key × Finset ℕ)) : List (Key × ℚ) :=
  results_dir.files.flatMap fun file => (by_connections file.records).filterMap fun group =>
    let key := (file.series_label, group.1)
    let windows := extract_steady_time_windows parse_iso_to_epoch group.2
    let cpu_values := windows.filterMap (compute_avg_cpu_for_window file.cpu_samples)
    (point (clean cpu_values (outliersAt rps_outlier_map key))).map (key, ·)

/-! ## Runs -/

section Runs
variable (value : Record → Option ℚ) (records : List Record)

/-- A run has a value of a chart. -/
def Has (run : ℕ) : Prop := ∃ rec, records[run]? = some rec ∧ (value rec).isSome

/-- The position of a run among those that have a value: the runs before it that are not skipped. -/
def rank (run : ℕ) : ℕ := (records.take run).countP fun rec => (value rec).isSome

/-- The runs whose values are averaged: what a loader keeps of its values when they are
replaced by their runs. -/
def averaged (outlier_indices : Finset ℕ) : List ℕ :=
  clean (records.zipIdx.filterMap fun a => (value a.1).map fun _ => a.2) outlier_indices

end Runs

/-- A run is discarded as an outlier of the throughput. -/
def Discarded (detect_grubbs : List ℚ → Finset ℕ) (records : List Record) (run : ℕ) : Prop :=
  Has Record.rps records run ∧
    run ∉ averaged Record.rps records
      (find_consensus_outliers detect_grubbs (extract_total_rps records))

/-- The runs of a group that a chart averages, with the outliers that it looks up, are those with a
value that are not discarded. -/
def SameRuns (detect_grubbs : List ℚ → Finset ℕ) (results_dir : ResultsDir) (key : Key)
    (records : List Record) (value : Record → Option ℚ) : Prop :=
  ∀ run, run ∈ averaged value records (outliersAt (rps_outlier_map detect_grubbs results_dir) key) ↔
    Has value records run ∧ ¬ Discarded detect_grubbs records run

/-- The CPU value of a record. -/
def Record.cpu (parse_iso_to_epoch : String → Option ℚ) (cpu_samples : List (ℚ × ℚ))
    (rec : Record) : Option ℚ :=
  (rec.window parse_iso_to_epoch).bind (compute_avg_cpu_for_window cpu_samples)

/-- The latency points and the CPU point of a group leave out the runs that are outliers of the
throughput, and no others. -/
structure Consistent (detect_grubbs : List ℚ → Finset ℕ) (parse_iso_to_epoch : String → Option ℚ)
    (results_dir : ResultsDir) (file : SeriesFile) (cc : ℕ) (records : List Record) : Prop where
  latency : ∀ cmd pct,
    SameRuns detect_grubbs results_dir (file.series_label, cc) records fun rec =>
      rec.summary cmd pct
  cpu : SameRuns detect_grubbs results_dir (file.series_label, cc) records
    (Record.cpu parse_iso_to_epoch file.cpu_samples)

section Runs
variable {value : Record → Option ℚ} {records : List Record}

/-- Whether the first record has a value. -/
lemma has_zero {rec : Record} : Has value (rec :: records) 0 ↔ (value rec).isSome := by simp [Has]

/-- Whether a later record has a value. -/
lemma has_succ {rec : Record} {run : ℕ} : Has value (rec :: records)
    (run + 1) ↔ Has value records run := by simp [Has]

/-- No value comes before the first record. -/
lemma rank_zero : rank value records 0 = 0 := rfl

/-- A record with a value moves the later ones up. -/
lemma rank_succ (rec : Record) (run : ℕ) : rank value (rec :: records) (run + 1)
    = rank value records run + if (value rec).isSome then 1 else 0 := by
  rw [rank, List.take_succ_cons, List.countP_cons, rank]

/-- The runs that are kept, when the runs are counted from `n` and the values from `k`. -/
lemma mem_kept {O : Finset ℕ} {n k run : ℕ} :
    run ∈ ((((records.zipIdx n).filterMap fun a => (value a.1).map fun _ => a.2).zipIdx k).filter
        fun a => a.2 ∉ O).map Prod.fst ↔
      ∃ i, run = n + i ∧ Has value records i ∧ k + rank value records i ∉ O := by
  induction records generalizing n k with
  | nil => simp [Has]
  | cons rec records ih =>
    rw [List.zipIdx_cons, List.filterMap_cons, ← Nat.or_exists_add_one]
    simp only [has_zero, has_succ, rank_zero, rank_succ, Nat.add_zero]
    cases hvalue : value rec with
    | none => simp only [Option.map_none, ih, Option.isSome_none]; grind
    | some v =>
      have hcons {l : List (ℕ × ℕ)} : run ∈ (if k ∉ O then (n, k) :: l else l).map Prod.fst
          ↔ (run = n ∧ k ∉ O) ∨ run ∈ l.map Prod.fst := by
        split
        · next hk => simp [hk]
        · next hk => simp [hk]
      simp only [Option.map_some, List.zipIdx_cons, List.filter_cons, decide_eq_true_eq, hcons, ih,
        Option.isSome_some]
      grind

/-- The runs that are averaged are those whose position among the runs with a value is not an
outlier's. -/
lemma mem_averaged {O : Finset ℕ} {run : ℕ} :
    run ∈ averaged value records O ↔ Has value records run ∧ rank value records run ∉ O := by
  rw [averaged, clean, mem_kept]
  simp

end Runs

/-! ## What the loaders average -/

/-- Positions do not depend on the values. -/
lemma clean_map {α β : Type} (f : α → β) (values : List α) (O : Finset ℕ) :
    clean (values.map f) O = (clean values O).map f := by
  rw [clean, clean, List.zipIdx_map, List.filter_map, List.map_map, List.map_map]
  rfl

/-- What stays was there. -/
lemma mem_of_mem_clean {α : Type} {values : List α} {O : Finset ℕ} {v : α}
    (h : v ∈ clean values O) : v ∈ values := by
  obtain ⟨a, ha, rfl⟩ := List.mem_map.mp h
  exact List.fst_mem_of_mem_zipIdx (List.mem_of_mem_filter ha)

/-- A loader averages the values of the runs that it keeps. -/
lemma clean_eq (value : Record → Option ℚ) (records : List Record) (O : Finset ℕ) :
    clean (records.filterMap value) O
      = (averaged value records O).filterMap fun run => records[run]?.bind value := by
  let numbered := records.zipIdx.filterMap fun a => (value a.1).map fun v => (v, a.2)
  have hvalues : records.filterMap value = numbered.map Prod.fst := by
    have hnumbered : numbered.map Prod.fst = (records.zipIdx.map Prod.fst).filterMap value := by
      rw [List.map_filterMap, List.filterMap_map]
      simp only [Option.map_map, Function.comp_def, Option.map_id']
    rw [hnumbered, List.zipIdx_map_fst]
  have hruns : (records.zipIdx.filterMap fun a => (value a.1).map fun _ => a.2)
    = numbered.map Prod.snd := by
    rw [List.map_filterMap]
    simp only [Option.map_map, Function.comp_def]
  have hmem : ∀ a ∈ clean numbered O, some a.1 = records[a.2]?.bind value := by
    intro a ha
    obtain ⟨⟨rec, run⟩, hrec, ha⟩ := List.mem_filterMap.mp (mem_of_mem_clean ha)
    obtain ⟨v, hv, rfl⟩ := Option.map_eq_some_iff.mp ha
    rw [List.mk_mem_zipIdx_iff_getElem?.mp hrec]
    exact hv.symm
  rw [averaged, hvalues, hruns, clean_map, clean_map, List.filterMap_map, ← List.filterMap_eq_map]
  exact List.filterMap_congr hmem

/-- A latency chart averages the runs that the outliers of its group leave. -/
theorem load_latency_data_flat_eq (results_dir : ResultsDir) (map : List (Key × Finset ℕ))
    (cmd : String) (pct : Percentile) : load_latency_data_flat results_dir map cmd pct =
      results_dir.files.flatMap fun file => (by_connections file.records).filterMap fun group =>
        (point ((averaged (fun rec => rec.summary cmd pct) group.2
          (outliersAt map (file.series_label, group.1))).filterMap
          fun run => group.2[run]?.bind fun rec => rec.summary cmd pct)).map
            ((file.series_label, group.1), ·) := by
  simp only [load_latency_data_flat, extract_latency_percentiles, clean_eq]

/-- The CPU chart averages the runs that the outliers of its group leave. -/
theorem load_cpu_data_flat_eq (parse_iso_to_epoch : String → Option ℚ) (results_dir : ResultsDir)
    (map : List (Key × Finset ℕ)) : load_cpu_data_flat parse_iso_to_epoch results_dir map =
      results_dir.files.flatMap fun file => (by_connections file.records).filterMap fun group =>
        (point ((averaged (Record.cpu parse_iso_to_epoch file.cpu_samples) group.2
          (outliersAt map (file.series_label, group.1))).filterMap
            fun run => group.2[run]?.bind (Record.cpu parse_iso_to_epoch file.cpu_samples))).map
              ((file.series_label, group.1), ·) := by
  have hcpu (records : List Record) (samples : List (ℚ × ℚ)) :
      (extract_steady_time_windows parse_iso_to_epoch records).filterMap
        (compute_avg_cpu_for_window samples)
        = records.filterMap (Record.cpu parse_iso_to_epoch samples) := List.filterMap_filterMap
  simp only [load_cpu_data_flat, hcpu, clean_eq]

/-! ## The outliers that are looked up -/

/-- A group holds the records of its number of connections. -/
lemma mem_by_connections {records group : List Record} {cc : ℕ}
    (h : (cc, group) ∈ by_connections records) :
    group = records.filter fun rec => rec.connections = some cc := by
  obtain ⟨cc', -, heq⟩ := List.mem_map.mp h
  cases heq
  rfl

/-- The other loaders find the outliers of their own group. -/
lemma outliersAt_eq (detect_grubbs : List ℚ → Finset ℕ) {results_dir : ResultsDir}
    {file : SeriesFile} (hfile : file ∈ results_dir.files) {cc : ℕ} {records : List Record}
    (hgroup : (cc, records) ∈ by_connections file.records) :
    outliersAt (rps_outlier_map detect_grubbs results_dir) (file.series_label, cc)
      = find_consensus_outliers detect_grubbs (extract_total_rps records) := by
  unfold outliersAt
  cases hlookup : (rps_outlier_map detect_grubbs results_dir).lookup (file.series_label, cc) with
  | some O =>
    obtain ⟨l, l', hmap, -⟩ := List.lookup_eq_some_iff.mp hlookup
    have hmem : ((file.series_label, cc), O) ∈ rps_outlier_map detect_grubbs results_dir := by
      rw [hmap]
      exact List.mem_append_right _ List.mem_cons_self
    obtain ⟨a, ha, heq⟩ := List.mem_map.mp hmem
    obtain ⟨file', hfile', ha⟩ := List.mem_flatMap.mp ha
    obtain ⟨group', hgroup', ha⟩ := List.mem_filterMap.mp ha
    dsimp only at ha
    split at ha
    · cases ha
    · cases ha
      obtain ⟨hkey, rfl⟩ := Prod.mk.inj heq
      obtain ⟨hlabel, rfl⟩ := Prod.mk.inj hkey
      cases List.inj_on_of_nodup_map results_dir.labels_nodup hfile' hfile hlabel
      rw [mem_by_connections hgroup, ← mem_by_connections hgroup']
      rfl
  | none =>
    have hnil : extract_total_rps records = [] := by
      by_contra hne
      refine absurd (List.lookup_eq_none_iff.mp hlookup ((file.series_label, cc),
        _) (List.mem_map.mpr ⟨_,
        List.mem_flatMap.mpr ⟨file, hfile, List.mem_filterMap.mpr ⟨_, hgroup, if_neg hne⟩⟩, rfl⟩))
          ?_
      simp
    rw [hnil]
    rfl

end RespBench.Graphs
