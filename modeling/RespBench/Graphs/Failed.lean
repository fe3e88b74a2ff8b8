import RespBench.Graphs.Consensus

/-!
# Failed phases

A failed phase leaves a row in the results. The static graphs skip it (`load_results` of
`generate_graphs.py`); the loaders of the interactive graphs look at `phase.id` only. All three
charts are of one form (`filePoints`). Rows that have no value of a chart can be deleted
(`filePoints_completed`); a row that has one shows up at the latest when it is alone in its group,
since the outliers never cover a group (`forall_none_of_filePoints`). So the failed rows are without
influence exactly when they have no value of any chart (`unaffected_iff`).
-/

namespace RespBench.Graphs

/-! ## Rows -/

/-- A row of a results file, with `phase.id`, and `phase.status` if it is there. The inner option is
empty for a value that is not a text. -/
structure Row where
  id : Option String
  status : Option (Option String)
  record : Record

/-- `data.get("phase", {}).get("status", "COMPLETED") != "COMPLETED"`. -/
def Row.Failed (row : Row) : Prop := row.status.getD (some "COMPLETED") ≠ some "COMPLETED"

instance : DecidablePred Row.Failed := fun row =>
  inferInstanceAs (Decidable (row.status.getD (some "COMPLETED") ≠ some "COMPLETED"))

def load_steady_records (rows : List Row) : List Record :=
  (rows.filter fun row => row.id = some "STEADY").map Row.record

/-- A metrics file as it is written. -/
structure RowFile where
  series_label : String
  rows : List Row
  cpu_samples : List (ℚ × ℚ)

structure RowDir where
  files : List RowFile
  labels_nodup : (files.map RowFile.series_label).Nodup

namespace RowDir

/-- The directory with some rows of each file. -/
def keep (p : Row → Bool) (dir : RowDir) : RowDir where
  files := dir.files.map fun file => { file with rows := file.rows.filter p }
  labels_nodup := by
    rw [List.map_map]
    exact dir.labels_nodup

def completed (dir : RowDir) : RowDir := dir.keep fun row => ¬ row.Failed

def failed (dir : RowDir) : RowDir := dir.keep fun row => row.Failed

/-- What the loaders read. -/
def load (dir : RowDir) : ResultsDir where
  files := dir.files.map fun file => ⟨file.series_label, load_steady_records file.rows,
    file.cpu_samples⟩
  labels_nodup := by
    rw [List.map_map]
    exact dir.labels_nodup

end RowDir

/-- The points of the throughput chart. -/
def rps_points (detect_grubbs : List ℚ → Finset ℕ) (results_dir : ResultsDir) : List (Key × ℚ) :=
  (load_all_data_flat detect_grubbs results_dir).filterMap fun a => a.2.2.map (a.1, ·)

/-- Without the failed rows the points are the same. -/
structure Unaffected (detect_grubbs : List ℚ → Finset ℕ) (parse_iso_to_epoch : String → Option ℚ)
    (dir : RowDir) :
    Prop where
  rps : rps_points detect_grubbs dir.load = rps_points detect_grubbs dir.completed.load
  latency : ∀ cmd pct,
    load_latency_data_flat dir.load (rps_outlier_map detect_grubbs dir.load) cmd pct =
      load_latency_data_flat dir.completed.load
        (rps_outlier_map detect_grubbs dir.completed.load) cmd pct
  cpu : load_cpu_data_flat parse_iso_to_epoch dir.load (rps_outlier_map detect_grubbs dir.load) =
    load_cpu_data_flat parse_iso_to_epoch dir.completed.load
      (rps_outlier_map detect_grubbs dir.completed.load)

/-- A row without a value of any chart: neither a duration nor a percentile nor a sample of the
monitor in its time window. -/
structure Row.Silent (parse_iso_to_epoch : String → Option ℚ) (cpu_samples : List (ℚ × ℚ))
    (row : Row) : Prop where
  rps : row.record.duration_ms ≤ 0
  latency : ∀ cmd pct, row.record.summary cmd pct = none
  cpu : row.record.cpu parse_iso_to_epoch cpu_samples = none

/-- All failed rows of the phase with a number of connections are silent. -/
def RowDir.Silent (parse_iso_to_epoch : String → Option ℚ) (dir : RowDir) : Prop :=
  ∀ file ∈ dir.files, ∀ row ∈ file.rows, row.Failed → row.id = some "STEADY" →
    row.record.connections ≠ none →
    row.Silent parse_iso_to_epoch file.cpu_samples

/-! ## The form of the charts -/

/-- The points of a chart for one file. -/
def filePoints (detect_grubbs : List ℚ → Finset ℕ) (value : Record → Option ℚ)
    (series_label : String) (records : List Record) : List (Key × ℚ) :=
  (by_connections records).filterMap fun group =>
    (point (clean (group.2.filterMap value)
      (find_consensus_outliers detect_grubbs (extract_total_rps group.2)))).map
        ((series_label, group.1), ·)

/-- The points of a chart, whose values may depend on the samples of the monitor. -/
def RowDir.points (detect_grubbs : List ℚ → Finset ℕ) (value : List (ℚ × ℚ) → Record → Option ℚ)
    (dir : RowDir) :
    List (Key × ℚ) :=
  dir.files.flatMap fun file =>
    filePoints detect_grubbs (value file.cpu_samples) file.series_label
      (load_steady_records file.rows)

section Charts
variable (detect_grubbs : List ℚ → Finset ℕ) (dir : RowDir)

/-- The points of a directory are those of its files. -/
lemma points_load (value : List (ℚ × ℚ) → Record → Option ℚ) : dir.points detect_grubbs value =
    dir.load.files.flatMap fun file =>
      filePoints detect_grubbs (value file.cpu_samples) file.series_label file.records := by
  rw [RowDir.load, List.flatMap_map, RowDir.points]

/-- The throughput chart plots the points of the throughput. -/
lemma rps_points_eq : rps_points detect_grubbs dir.load = dir.points detect_grubbs fun _ =>
    Record.rps := by
  rw [points_load, rps_points, load_all_data_flat, List.filterMap_flatMap]
  refine List.flatMap_congr fun file _ => ?_
  rw [filePoints, List.filterMap_filterMap]
  refine List.filterMap_congr fun group _ => ?_
  dsimp only
  rw [← extract_total_rps]
  split
  next hnil =>
    rw [hnil]
    rfl
  next => rfl

/-- A latency chart plots the points of the latency. -/
lemma load_latency_data_flat_points (cmd : String) (pct : Percentile) :
    load_latency_data_flat dir.load (rps_outlier_map detect_grubbs dir.load) cmd pct =
      dir.points detect_grubbs fun _ rec => rec.summary cmd pct := by
  rw [points_load]
  refine List.flatMap_congr fun file hfile => List.filterMap_congr fun group hgroup => ?_
  dsimp only
  rw [outliersAt_eq detect_grubbs hfile hgroup]
  rfl

/-- The CPU chart plots the points of the CPU. -/
lemma load_cpu_data_flat_points (parse_iso_to_epoch : String → Option ℚ) :
    load_cpu_data_flat parse_iso_to_epoch dir.load (rps_outlier_map detect_grubbs dir.load) =
      dir.points detect_grubbs (Record.cpu parse_iso_to_epoch) := by
  rw [points_load]
  refine List.flatMap_congr fun file hfile => List.filterMap_congr fun group hgroup => ?_
  dsimp only
  rw [outliersAt_eq detect_grubbs hfile hgroup, extract_steady_time_windows,
    List.filterMap_filterMap]
  rfl

/-- The points of the rows that are kept. -/
lemma points_keep (value : List (ℚ × ℚ) → Record → Option ℚ) (p : Row → Bool) :
    (dir.keep p).points detect_grubbs value = dir.files.flatMap fun file =>
      filePoints detect_grubbs (value file.cpu_samples) file.series_label
        (load_steady_records (file.rows.filter p)) :=
  List.flatMap_map _ _ _

/-- The rule in terms of the points. -/
lemma unaffected_points_iff (parse_iso_to_epoch : String → Option ℚ) :
    Unaffected detect_grubbs parse_iso_to_epoch dir ↔
      dir.points detect_grubbs (fun _ => Record.rps)
        = dir.completed.points detect_grubbs (fun _ => Record.rps) ∧
      (∀ cmd pct, dir.points detect_grubbs (fun _ rec => rec.summary cmd pct)
        = dir.completed.points detect_grubbs fun _ rec => rec.summary cmd pct) ∧
      dir.points detect_grubbs (Record.cpu parse_iso_to_epoch)
        = dir.completed.points detect_grubbs (Record.cpu parse_iso_to_epoch) := by
  simp only [← rps_points_eq, ← load_latency_data_flat_points, ← load_cpu_data_flat_points]
  constructor
  · intro h
    exact ⟨h.rps, h.latency, h.cpu⟩
  · rintro ⟨hrps, hlatency, hcpu⟩
    exact ⟨hrps, hlatency, hcpu⟩

end Charts

/-! ## Deleting rows without values -/

/-- The numbers of connections, in ascending order. -/
def connectionCounts (records : List Record) : List ℕ :=
  (records.filterMap Record.connections).dedup.insertionSort (· ≤ ·)

/-- A number of connections counts when some record has it. -/
lemma mem_connectionCounts {records : List Record} {cc : ℕ} :
    cc ∈ connectionCounts records ↔ ∃ rec ∈ records, rec.connections = some cc := by
  rw [connectionCounts, List.mem_insertionSort, List.mem_dedup, List.mem_filterMap]

/-- The numbers of connections are in order, each of them once. -/
lemma connectionCounts_sorted (records : List Record) : (connectionCounts records).SortedLT := by
  refine List.sortedLT_iff_nodup_and_sortedLE.mpr ⟨?_, List.sortedLE_insertionSort⟩
  exact (List.perm_insertionSort (· ≤ ·) _).nodup_iff.mpr (List.nodup_dedup _)

/-- What a sorted list is mapped to depends only on the elements that are mapped to something. -/
lemma filterMap_sorted_congr {β : Type} {l l' : List ℕ} (hl : l.SortedLT) (hl' : l'.SortedLT)
    {f : ℕ → Option β} (hmem : ∀ a, f a ≠ none → a ∈ l ∧ a ∈ l') :
    l.filterMap f = l'.filterMap f := by
  have hsupport (m : List ℕ) : m.filterMap f = (m.filter fun a => (f a).isSome).filterMap f := by
    rw [List.filterMap_filter]
    refine List.filterMap_congr fun a _ => ?_
    cases f a <;> rfl
  have hsorted {m : List ℕ} (hm : m.SortedLT) : (m.filter fun a => (f a).isSome).SortedLT :=
    (hm.pairwise.sublist List.filter_sublist).sortedLT
  have hsame : (l.filter fun a => (f a).isSome) = l'.filter fun a => (f a).isSome := by
    refine (hsorted hl).eq_of_mem_iff (hsorted hl') fun a => ?_
    rw [List.mem_filter, List.mem_filter]
    constructor
    · rintro ⟨-, hsome⟩
      exact ⟨(hmem a (Option.isSome_iff_ne_none.mp hsome)).2, hsome⟩
    · rintro ⟨-, hsome⟩
      exact ⟨(hmem a (Option.isSome_iff_ne_none.mp hsome)).1, hsome⟩
  rw [hsupport l, hsame, ← hsupport]

/-- The values of a group. -/
def groupValues (value : Record → Option ℚ) (cc : ℕ) (records : List Record) : List ℚ :=
  (records.filter fun rec => rec.connections = some cc).filterMap value

/-- The points of a file, one for each number of connections. -/
lemma filePoints_eq (detect_grubbs : List ℚ → Finset ℕ) (value : Record → Option ℚ)
    (series_label : String) (records : List Record) :
    filePoints detect_grubbs value series_label records =
      (connectionCounts records).filterMap fun cc =>
        (point (clean (groupValues value cc records)
          (find_consensus_outliers detect_grubbs (groupValues Record.rps cc records)))).map
            ((series_label, cc), ·) :=
  List.filterMap_map

/-- A group that has values is that of some record. -/
lemma mem_of_groupValues {value : Record → Option ℚ} {cc : ℕ} {records : List Record}
    (h : groupValues value cc records ≠ []) : cc ∈ connectionCounts records := by
  obtain ⟨v, hv⟩ := List.exists_mem_of_ne_nil _ h
  obtain ⟨rec, hrec, -⟩ := List.mem_filterMap.mp hv
  obtain ⟨hmem, hcc⟩ := List.mem_filter.mp hrec
  exact mem_connectionCounts.mpr ⟨rec, hmem, of_decide_eq_true hcc⟩

/-- The points depend only on the values of the groups. -/
lemma filePoints_congr (detect_grubbs : List ℚ → Finset ℕ) {value : Record → Option ℚ}
    (series_label : String) {records records' : List Record}
    (hvalue : ∀ cc, groupValues value cc records = groupValues value cc records')
    (hrps : ∀ cc, groupValues Record.rps cc records = groupValues Record.rps cc records') :
    filePoints detect_grubbs value series_label records
      = filePoints detect_grubbs value series_label records' := by
  rw [filePoints_eq, filePoints_eq]
  simp only [hvalue, hrps]
  refine filterMap_sorted_congr (connectionCounts_sorted _) (connectionCounts_sorted _)
    fun cc hpoint => ?_
  have hne : groupValues value cc records' ≠ [] := by
    intro hnil
    rw [hnil] at hpoint
    exact hpoint rfl
  exact ⟨mem_of_groupValues (hvalue cc ▸ hne), mem_of_groupValues hne⟩

/-- The values of a group, from the rows. -/
lemma groupValues_load (value : Record → Option ℚ) (cc : ℕ) (rows : List Row) :
    groupValues value cc (load_steady_records rows) = rows.filterMap fun row =>
      if row.id = some "STEADY" ∧ row.record.connections = some cc then value row.record
        else none := by
  rw [groupValues, load_steady_records, List.filterMap_filter, List.filterMap_map,
    List.filterMap_filter]
  refine List.filterMap_congr fun row _ => ?_
  by_cases hid : row.id = some "STEADY" <;> simp [hid]

/-- Failed rows without a value do not count. -/
lemma groupValues_completed {value : Record → Option ℚ} {rows : List Row}
    (hrows : ∀ row ∈ rows, row.Failed → row.id = some "STEADY" → row.record.connections ≠ none →
      value row.record = none) (cc : ℕ) : groupValues value cc (load_steady_records rows)
        = groupValues value cc (load_steady_records (rows.filter fun row => ¬ row.Failed)) := by
  rw [groupValues_load, groupValues_load, List.filterMap_filter]
  refine List.filterMap_congr fun row hrow => ?_
  by_cases hfailed : row.Failed
  · have hdeleted : ¬ decide (¬ row.Failed) = true := fun h => of_decide_eq_true h hfailed
    rw [if_neg hdeleted]
    split
    next hgroup =>
      refine hrows row hrow hfailed hgroup.1 ?_
      rw [hgroup.2]
      exact Option.some_ne_none cc
    next => rfl
  · have hkept : decide (¬ row.Failed) = true := decide_eq_true hfailed
    rw [if_pos hkept]

/-- Failed rows without a value, and without throughput, leave a chart alone. -/
lemma points_completed (detect_grubbs : List ℚ → Finset ℕ)
    {value : List (ℚ × ℚ) → Record → Option ℚ} {dir : RowDir}
    (hdir : ∀ file ∈ dir.files, ∀ row ∈ file.rows, row.Failed → row.id = some "STEADY" →
      row.record.connections ≠ none → value file.cpu_samples row.record = none ∧
      row.record.rps = none) :
    dir.points detect_grubbs value = dir.completed.points detect_grubbs value := by
  rw [RowDir.completed, points_keep]
  refine List.flatMap_congr fun file hfile => ?_
  refine filePoints_congr detect_grubbs file.series_label (groupValues_completed ?_)
    (groupValues_completed ?_)
  · exact fun row hrow hfailed hid hconnections =>
      (hdir file hfile row hrow hfailed hid hconnections).1
  · exact fun row hrow hfailed hid hconnections =>
      (hdir file hfile row hrow hfailed hid hconnections).2

/-- A record without duration has no throughput. -/
lemma rps_eq_none {rec : Record} : rec.rps = none ↔ rec.duration_ms ≤ 0 := by simp [Record.rps]

/-- Silent rows are without influence. -/
theorem unaffected_of_silent (detect_grubbs : List ℚ → Finset ℕ)
    {parse_iso_to_epoch : String → Option ℚ} {dir : RowDir}
    (hsilent : dir.Silent parse_iso_to_epoch) :
    Unaffected detect_grubbs parse_iso_to_epoch dir := by
  rw [unaffected_points_iff]
  refine ⟨points_completed detect_grubbs ?_, fun cmd pct => points_completed detect_grubbs ?_,
    points_completed detect_grubbs ?_⟩
  all_goals
    intro file hfile row hrow hfailed hid hconnections
    have hrow := hsilent file hfile row hrow hfailed hid hconnections
  · exact ⟨rps_eq_none.mpr hrow.rps, rps_eq_none.mpr hrow.rps⟩
  · exact ⟨hrow.latency cmd pct, rps_eq_none.mpr hrow.rps⟩
  · exact ⟨hrow.cpu, rps_eq_none.mpr hrow.rps⟩

/-! ## Rows that count -/

/-- Without outliers all values stay. -/
lemma clean_empty (values : List ℚ) : clean values ∅ = values := by
  have hall : values.zipIdx.filter (fun a => a.2 ∉ (∅ : Finset ℕ)) = values.zipIdx :=
    List.filter_eq_self.mpr fun a _ => decide_eq_true (Finset.notMem_empty a.2)
  rw [clean, hall, List.zipIdx_map_fst]

/-- A failed row cannot fail again. -/
lemma failed_failed (dir : RowDir) : dir.failed.failed = dir.failed := by
  simp only [RowDir.failed, RowDir.keep, List.map_map, RowDir.mk.injEq]
  refine List.map_congr_left fun file _ => ?_
  simp only [Function.comp_apply, List.filter_filter, Bool.and_self]

/-- Without its failed rows, a directory of failed rows is empty. -/
lemma points_failed_completed (detect_grubbs : List ℚ → Finset ℕ)
    (value : List (ℚ × ℚ) → Record → Option ℚ) (dir : RowDir) :
    dir.failed.completed.points detect_grubbs value = [] := by
  rw [RowDir.completed, points_keep, List.flatMap_eq_nil_iff]
  intro file hfile
  obtain ⟨file, -, rfl⟩ := List.mem_map.mp hfile
  have hnone : (file.rows.filter fun row => row.Failed).filter (fun row => ¬ row.Failed) = [] := by
    simp [List.filter_filter]
  dsimp only
  rw [hnone]
  rfl

section Grubbs
variable {K : Type*} [Field K] [LinearOrder K] (grubbs_critical_value : ℕ → K) (tie : TieBreak)

/-- In a group without a point no record has throughput, and then none has a value: without
throughput there are no outliers. -/
lemma forall_none_of_filePoints {value : Record → Option ℚ} {series_label : String}
    {records : List Record}
    (hrps : filePoints (detect_grubbs grubbs_critical_value tie) Record.rps series_label records
      = [])
    (hvalue : filePoints (detect_grubbs grubbs_critical_value tie) value series_label records = [])
    {rec : Record} (hrec : rec ∈ records) (hconnections : rec.connections ≠ none) :
    rec.rps = none ∧ value rec = none := by
  obtain ⟨cc, hcc⟩ := Option.ne_none_iff_exists'.mp hconnections
  have hmem : cc ∈ connectionCounts records := mem_connectionCounts.mpr ⟨rec, hrec, hcc⟩
  have hgroup : rec ∈ records.filter fun rec => rec.connections = some cc :=
    List.mem_filter.mpr ⟨hrec, decide_eq_true hcc⟩
  rw [filePoints_eq, List.filterMap_eq_nil_iff] at hrps hvalue
  have hrps := Option.map_eq_none_iff.mp (hrps cc hmem)
  have hvalue := Option.map_eq_none_iff.mp (hvalue cc hmem)
  rw [point_eq_none] at hrps hvalue
  have hnil : groupValues Record.rps cc records = [] := by
    by_contra hne
    exact consensus_clean_ne_nil grubbs_critical_value tie hne hrps
  have hnone : find_consensus_outliers (detect_grubbs grubbs_critical_value tie) [] = ∅ :=
    if_pos (by decide)
  rw [hnil, hnone, clean_empty] at hvalue
  exact ⟨List.filterMap_eq_nil_iff.mp hnil rec hgroup,
    List.filterMap_eq_nil_iff.mp hvalue rec hgroup⟩

/-- A failed row that has a value of a chart shows up when it is alone with the other failed
rows. -/
lemma none_of_points_failed {value : List (ℚ × ℚ) → Record → Option ℚ} {dir : RowDir}
    (hrps : dir.failed.points (detect_grubbs grubbs_critical_value tie) (fun _ => Record.rps) = [])
    (hvalue : dir.failed.points (detect_grubbs grubbs_critical_value tie) value = [])
    {file : RowFile} (hfile : file ∈ dir.files) {row : Row} (hrow : row ∈ file.rows)
    (hfailed : row.Failed) (hid : row.id = some "STEADY")
    (hconnections : row.record.connections ≠ none) :
    row.record.rps = none ∧ value file.cpu_samples row.record = none := by
  rw [RowDir.failed, points_keep, List.flatMap_eq_nil_iff] at hrps hvalue
  have hkept : row ∈ (file.rows.filter fun row => row.Failed).filter fun row =>
    row.id = some "STEADY" :=
    List.mem_filter.mpr ⟨List.mem_filter.mpr ⟨hrow, decide_eq_true hfailed⟩, decide_eq_true hid⟩
  exact forall_none_of_filePoints grubbs_critical_value tie (hrps file hfile) (hvalue file hfile)
    (List.mem_map_of_mem hkept) hconnections

/-- A directory is unaffected by its failed rows when they have no value of any chart. Other failed
rows make a difference, if not in this directory, then in another one with the same failed rows. -/
theorem unaffected_iff (parse_iso_to_epoch : String → Option ℚ) (dir : RowDir) :
    (dir.Silent parse_iso_to_epoch →
      Unaffected (detect_grubbs grubbs_critical_value tie) parse_iso_to_epoch dir) ∧
    ((∀ dir' : RowDir, dir'.failed = dir.failed →
      Unaffected (detect_grubbs grubbs_critical_value tie) parse_iso_to_epoch dir') ↔
        dir.Silent parse_iso_to_epoch) := by
  refine ⟨unaffected_of_silent _, ?_⟩
  constructor
  · intro hall
    -- the directory of the failed rows alone
    obtain ⟨hrps, hlatency, hcpu⟩ :=
      (unaffected_points_iff _ _ _).mp (hall dir.failed (failed_failed dir))
    simp only [points_failed_completed] at hrps hlatency hcpu
    intro file hfile row hrow hfailed hid hconnections
    constructor
    case rps =>
      exact rps_eq_none.mp
        (none_of_points_failed grubbs_critical_value tie hrps hrps hfile hrow hfailed hid
          hconnections).1
    case latency =>
      exact fun cmd pct =>
        (none_of_points_failed grubbs_critical_value tie hrps (hlatency cmd pct) hfile hrow hfailed
        hid hconnections).2
    case cpu =>
      exact (none_of_points_failed grubbs_critical_value tie hrps hcpu hfile hrow hfailed hid
        hconnections).2
  · intro hsilent dir' hsame
    refine unaffected_of_silent _ fun file hfile row hrow hfailed hid hconnections => ?_
    have hmem : ({ file with rows := file.rows.filter fun row => row.Failed } : RowFile)
      ∈ dir.failed.files := by
      rw [← hsame]
      exact List.mem_map_of_mem hfile
    obtain ⟨file', hfile', heq⟩ := List.mem_map.mp hmem
    obtain ⟨-, hrows, hsamples⟩ := RowFile.mk.inj heq
    have hrow' : row ∈ file'.rows.filter fun row => row.Failed := by
      rw [hrows]
      exact List.mem_filter.mpr ⟨hrow, decide_eq_true hfailed⟩
    have hquiet := hsilent file' hfile' row (List.mem_of_mem_filter hrow') hfailed hid hconnections
    rwa [hsamples] at hquiet

end Grubbs

/-- A row of a phase with 4 connections. -/
def steadyRow (status : String) (requests duration_ms : ℚ) : Row where
  id := some "STEADY"
  status := some (some status)
  record := ⟨some 4, duration_ms, requests, fun _ _ => none, none, none⟩

/-- The results of one series. -/
def oneSeriesRows (rows : List Row) : RowDir := ⟨[⟨"redis-py", rows, []⟩], by simp⟩

/-- Two runs and a phase that failed at once. -/
def failedAtOnce : RowDir :=
  oneSeriesRows [steadyRow "COMPLETED" 50000 1000, steadyRow "COMPLETED" 50000 1000,
    steadyRow "ERROR" 0 0]

/-- The failed row has no duration, and is without influence. -/
theorem failedAtOnce_unaffected :
    Unaffected (detect_grubbs (fun _ => (2 : ℚ)) .last) (fun _ => none) failedAtOnce := by
  refine (unaffected_iff (K := ℚ) (fun _ => 2) .last (fun _ => none) failedAtOnce).1 ?_
  intro file hfile row hrow hfailed hid hconnections
  obtain rfl := List.mem_singleton.mp hfile
  have hcases : row = steadyRow "COMPLETED" 50000 1000 ∨ row = steadyRow "ERROR" 0 0 := by
    simpa using hrow
  rcases hcases with rfl | rfl
  · exact absurd hfailed (by decide)
  · exact ⟨le_rfl, fun _ _ => rfl, rfl⟩

/-- A run and a phase in which all requests failed for a second. -/
def failedForASecond : RowDir :=
  oneSeriesRows [steadyRow "COMPLETED" 50000 1000, steadyRow "ERROR" 0 1000]

/-- The failed row halves the throughput. -/
theorem failedForASecond_affected :
    rps_points (detect_grubbs (fun _ => (2 : ℚ)) .last) failedForASecond.load
      = [(("redis-py", 4), 25000)] ∧
      rps_points (detect_grubbs (fun _ => (2 : ℚ)) .last) failedForASecond.completed.load
        = [(("redis-py", 4), 50000)] ∧
      ¬ Unaffected (detect_grubbs (fun _ => (2 : ℚ)) .last) (fun _ => none) failedForASecond := by
  have hall : rps_points (detect_grubbs (fun _ => (2 : ℚ)) .last) failedForASecond.load
      = [(("redis-py", 4), 25000)] := by decide +kernel
  have hcompleted : rps_points (detect_grubbs (fun _ => (2 : ℚ)) .last)
    failedForASecond.completed.load
      = [(("redis-py", 4), 50000)] := by decide +kernel
  refine ⟨hall, hcompleted, fun h => ?_⟩
  have hsame := h.rps
  rw [hall, hcompleted] at hsame
  revert hsame
  decide +kernel

end RespBench.Graphs
