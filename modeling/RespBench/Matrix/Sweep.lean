import RespBench.Matrix.Bindings

/-!
# The cells of a sweep

What `run_matrix` records in its manifest. Each step of a cell may raise an exception, and
what happens outside (the engine, its metrics file, who else writes to it) is given for each
cell. `accounted_iff` says when the manifest tells the truth about the cells: the status is
`ok` from the start, so that an exception that the code does not handle leaves it so, whatever
has become of the engine.
-/

namespace RespBench.Matrix
open RespBench.Lib

/-! ## Metrics files -/

/-- `str.isspace`. -/
def isSpace (c : Char) : Bool :=
  (0x09 ≤ c.toNat && c.toNat ≤ 0x0d) || (0x1c ≤ c.toNat && c.toNat ≤ 0x20) ||
    (0x2000 ≤ c.toNat && c.toNat ≤ 0x200a) ||
    [0x85, 0xa0, 0x1680, 0x2028, 0x2029, 0x202f, 0x205f, 0x3000].contains c.toNat

/-- The number of lines that are not blank. -/
def records (text : List Char) : ℕ :=
  (text.splitOnP fun c => c = '\n' || c = '\r').countP fun line => line.any fun c => !isSpace c

/-- The size of a file, if there is one; sizes are in characters. -/
def ndjson_size (file : Option (List Char)) : ℕ := (file.map List.length).getD 0

def count_ndjson_lines (file : Option (List Char)) (offset : ℕ) : ℕ :=
  match file with
  | none => 0
  | some text => records (text.drop offset)

/-! ## What happens outside -/

inductive Exc where
  | CalledProcessError (returncode : ℤ)
  | SubprocessError (name : String)
  | OSError (name : String)
  | CellFailure
  | other (name : String)
deriving DecidableEq

/-- The exceptions of the `except` clause. -/
def Exc.isHandled : Exc → Bool
  | .other _ => false
  | _ => true

/-- A piece of text that is appended to a metrics file, by the engine of the cell or by somebody
else. -/
structure Write where
  byEngine : Bool
  text : List Char

/-- An engine that has been started, with what the steps around it raise. -/
structure Run where
  writes : List Write
  /-- the exit status, if the engine has ended when its cell does -/
  exited : Option ℤ
  getpgid : Option Exc
  enter : Option Exc
  wait : Option Exc
  exit : Option Exc
  reading : Option Exc
  /-- one waits until the engine has ended, or for an exception -/
  waited : wait = none → exited.isSome

/-- What the outside does in a cell. -/
structure Outside where
  /-- before the cell is attempted -/
  setup : Option Exc
  engine : String
  metrics : Option (List Char)
  flush : Option Exc
  spawn : Except Exc Run
  /-- while the failure is printed -/
  report : Option Exc

def Run.text (run : Run) : List Char := run.writes.flatMap Write.text

/-- What the engine itself has appended. -/
def Run.own (run : Run) : List Char := (run.writes.filter Write.byEngine).flatMap Write.text

def Run.metrics_after (run : Run) (metrics : Option (List Char)) : Option (List Char) :=
  if metrics = none ∧ run.writes = [] then none else some (metrics.getD [] ++ run.text)

/-! ## Cells -/

inductive Status where
  | ok
  | failed
deriving DecidableEq

/-- A cell of the manifest. -/
structure CellRecord where
  iteration : ℕ
  x_value : Value
  label : String
  engine : String
  metrics_output : String
  status : Status
  records_written : Option ℕ
  error : Option Exc
deriving DecidableEq

def raising : Option Exc → Except Exc Unit
  | some e => .error e
  | none => .ok ()

/-- Waiting for the engine inside the monitor, whose `__exit__` runs in any case. -/
def Run.returncode (run : Run) : Except Exc ℤ := do
  raising run.getpgid
  raising run.enter
  raising run.exit
  if h : run.wait = none then return run.exited.get (run.waited h)
  else
    raising run.wait
    return 0

/-- The records of an engine that exits with 0. -/
def Run.records_written (run : Run) (metrics : Option (List Char)) : Except Exc ℕ := do
  let returncode ← run.returncode
  if returncode ≠ 0 then throw (.CalledProcessError returncode)
  else
    raising run.reading
    return count_ndjson_lines (run.metrics_after metrics) (ndjson_size metrics)

/-- The `try` block up to the records that were written. -/
def Outside.measure (outside : Outside) : Except Exc ℕ := do
  raising outside.flush
  let bench_proc ← outside.spawn
  bench_proc.records_written outside.metrics

/-- An attempted cell: its record, and the exception that goes on. -/
def runCell (cell : Cell) (outside : Outside) : CellRecord × Option Exc :=
  let record : CellRecord := ⟨cell.iteration, cell.x_val, cell.combo.label, outside.engine,
    cell.combo.label ++ ".ndjson", .ok, none, none⟩
  match outside.measure with
  | .ok records_written =>
    let record := { record with records_written := some records_written }
    if records_written = 0 then ({ record with status := .failed, error := some .CellFailure },
      outside.report)
    else (record, none)
  | .error e =>
    if e.isHandled then ({ record with status := .failed, error := some e }, outside.report)
      else (record, some e)

/-- What a cell raises before it is attempted. -/
def prepare (x_axis : String) (cell : Cell) (outside : Outside) : Option Exc :=
  match resolveCell x_axis cell.x_val cell.combo with
  | none => some (.other "ValueError")
  | some _ => outside.setup

/-! ## The sweep -/

/-- The cells of a sweep, each with what happens outside. -/
def runCells (x_axis : String) : List (Cell × Outside) → List CellRecord →
    List CellRecord × Option Exc
  | [], cells => (cells, none)
  | (cell, outside) :: rest, cells =>
    match prepare x_axis cell outside with
    | some e => (cells, some e)
    | none =>
      let out := runCell cell outside
      match out.2 with
      | some e => (cells ++ [out.1], some e)
      | none => runCells x_axis rest (cells ++ [out.1])

def failed_cells (cells : List CellRecord) : List CellRecord := cells.filter fun c => c.status ≠ .ok

structure Summary where
  planned : ℕ
  attempted : ℕ
  succeeded : ℕ
  failed : ℕ

def summarize_cells (cells : List CellRecord) (planned : ℕ) : Summary :=
  let failed := failed_cells cells
  ⟨planned, cells.length, cells.length - failed.length, failed.length⟩

structure Manifest where
  cells : List CellRecord
  summary : Summary

/-- The planned cells of a sweep, with what happens outside in each. -/
def sweepPlan (config : Config) (iterations : ℤ) (series_combos : List Series)
    (outside : ℕ → Outside) :
    List (Cell × Outside) :=
  (plannedCells config iterations series_combos).zipIdx.map fun a => (a.1, outside a.2)

/-- The last manifest of `run_matrix` and what it raises, unless it is refused before the first
cell. -/
def run_matrix (config : Config) (iterations : ℤ) (outside : ℕ → Outside) :
    Option (Manifest × Option Exc) := do
  let series_combos ← generate_series_combos config
  let total_cells := config.x_values.length * series_combos.length * iterations
  guard (0 < total_cells)
  let out := runCells config.x_axis (sweepPlan config iterations series_combos outside) []
  return (⟨out.1, summarize_cells out.1 total_cells.toNat⟩, out.2)

/-! ## What is to be recorded -/

/-- The engine of a cell has exited with 0 and has appended a record. -/
def Outside.Finished (outside : Outside) : Prop :=
  outside.flush = none ∧ ∃ run, outside.spawn = .ok run ∧ run.exited = some 0 ∧ 0 < records run.own

/-- The exception with which waiting for the engine ends. -/
def Run.stopped (run : Run) : Option Exc := run.getpgid.or (run.enter.or (run.exit.or run.wait))

/-- The first exception of the steps of a cell, apart from the ones for a failing exit
status and for no records. -/
def Outside.interruption (outside : Outside) : Option Exc :=
  match outside.flush, outside.spawn with
  | some e, _ => some e
  | none, .error e => some e
  | none, .ok run => run.stopped.or (if run.exited = some 0 then run.reading else none)

/-- No exception that is not handled comes before the engine is done, and nobody else writes the
records of an engine that writes none. -/
structure Outside.Sound (outside : Outside) : Prop where
  interrupted : ∀ e, outside.interruption = some e → e.isHandled = false → outside.Finished
  alone : outside.interruption = none → ∀ run, outside.spawn = .ok run → run.exited = some 0 →
    0 < records run.text → 0 < records run.own

/-- The engine has exited with 0 and somebody has appended a record. -/
def Outside.recorded (outside : Outside) : Bool :=
  match outside.spawn with
  | .error _ => false
  | .ok run => run.exited = some 0 && 0 < records run.text

/-- The exception that leaves an attempt. -/
def Outside.escape (outside : Outside) : Option Exc :=
  match outside.interruption with
  | some e => if e.isHandled then outside.report else some e
  | none => if outside.recorded then none else outside.report

/-- The cells that are attempted: those whose setup is reached and raises nothing, up to the first
that an exception leaves. -/
def attempts (x_axis : String) (planned : List (Cell × Outside)) : List (Cell × Outside) :=
  let prepared := planned.takeWhile fun a => (prepare x_axis a.1 a.2).isNone
  prepared.take ((prepared.takeWhile fun a => a.2.escape.isNone).length + 1)

/-- A cell in the order of a sweep. -/
def Cell.place (cell : Cell) : ℕ × Value × String := (cell.iteration, cell.x_val, cell.combo.label)

def CellRecord.place (record : CellRecord) : ℕ × Value × String :=
  (record.iteration, record.x_value, record.label)

/-- The manifest has each attempted cell once, the first of those that are planned and in their
order, as `ok` only if its engine is done; and the numbers of its summary are right. -/
structure Accounted (x_axis : String) (planned : List (Cell × Outside))
    (manifest : Manifest) : Prop where
  attempted : List.Forall₂ (fun (a : Cell × Outside) r => r.place = a.1.place ∧
    (r.status = .ok → a.2.Finished))
    (attempts x_axis planned) manifest.cells
  ordered : manifest.cells.map CellRecord.place <+: planned.map fun a => a.1.place
  counted : manifest.summary.attempted = manifest.cells.length
  succeeded : manifest.summary.succeeded = manifest.cells.countP fun r => r.status = .ok
  summed : manifest.summary.attempted = manifest.summary.succeeded + manifest.summary.failed

/-! ## One cell -/

/-- What is counted after a run are the records that it has written. -/
lemma count_after (run : Run) (metrics : Option (List Char)) :
    count_ndjson_lines (run.metrics_after metrics) (ndjson_size metrics) = records run.text := by
  unfold Run.metrics_after
  split
  · next h =>
    rw [Run.text, h.2]
    rfl
  · cases metrics with
    | none => rfl
    | some text => exact congrArg records List.drop_left

/-- A stopped run has no exit code. -/
lemma returncode_of_stopped {run : Run} {e : Exc} (h : run.stopped = some e) :
    run.returncode = .error e := by
  unfold Run.stopped at h
  unfold Run.returncode
  cases hgetpgid : run.getpgid with
  | some e' =>
    rw [hgetpgid] at h
    cases h
    rfl
  | none =>
    cases henter : run.enter with
    | some e' =>
      rw [hgetpgid, henter] at h
      cases h
      rfl
    | none =>
      cases hexit : run.exit with
      | some e' =>
        rw [hgetpgid, henter, hexit] at h
        cases h
        rfl
      | none =>
        rw [hgetpgid, henter, hexit] at h
        change run.wait = some e at h
        rw [dif_neg (by rw [h]; exact Option.some_ne_none e), h]
        rfl

/-- One has waited for the engine, which has ended. -/
lemma returncode_of_waited {run : Run} (h : run.stopped = none) :
    ∃ code, run.exited = some code ∧ run.returncode = .ok code := by
  simp only [Run.stopped, Option.or_eq_none_iff] at h
  obtain ⟨hgetpgid, henter, hexit, hwait⟩ := h
  obtain ⟨code, hcode⟩ := Option.isSome_iff_exists.mp (run.waited hwait)
  refine ⟨code, hcode, ?_⟩
  unfold Run.returncode
  rw [hgetpgid, henter, hexit, dif_pos hwait]
  simp only [hcode, Option.get_some]
  rfl

/-- The records of a run, or what stopped the orchestrator. -/
lemma records_written_eq (run : Run) (metrics : Option (List Char)) : run.records_written metrics =
    match run.stopped.or (if run.exited = some 0 then run.reading else none) with
    | some e => .error e
    | none => if run.exited = some 0 then .ok (records run.text)
        else .error (.CalledProcessError (run.exited.getD 0)) := by
  unfold Run.records_written
  cases hstopped : run.stopped with
  | some e =>
    rw [returncode_of_stopped hstopped]
    rfl
  | none =>
    obtain ⟨code, hcode, hreturncode⟩ := returncode_of_waited hstopped
    rw [hreturncode, hcode, Option.none_or, Runs.ok_bind]
    by_cases hzero : code = 0
    · rw [if_neg (not_not.mpr hzero), if_pos (by rw [hzero]), if_pos (by rw [hzero]), count_after]
      cases run.reading <;> rfl
    · have hne : ¬ some code = some 0 := fun h => hzero (Option.some.inj h)
      rw [if_pos hzero, if_neg hne, if_neg hne]
      rfl

/-- An exception of a step is the outcome of the `try` block; otherwise the exit
status and the records are. -/
lemma measure_eq (outside : Outside) : outside.measure =
    match outside.interruption with
    | some e => .error e
    | none =>
      match outside.spawn with
      | .error e => .error e
      | .ok run =>
        if run.exited = some 0 then .ok (records run.text)
          else .error (.CalledProcessError (run.exited.getD 0)) := by
  unfold Outside.measure Outside.interruption
  cases outside.flush with
  | some e => rfl
  | none =>
    cases outside.spawn with
    | error e => rfl
    | ok run => exact records_written_eq run _

/-- A cell that ran has the place of the cell. -/
lemma runCell_place (cell : Cell) (outside : Outside) :
    (runCell cell outside).1.place = cell.place := by
  unfold runCell
  split
  · dsimp only
    split <;> rfl
  · split <;> rfl

/-- What leaves a cell, and whether it is recorded as `ok`. -/
lemma runCell_eq (cell : Cell) (outside : Outside) : (runCell cell outside).2 = outside.escape ∧
    ((runCell cell outside).1.status = .ok ↔
      (∃ e, outside.interruption = some e ∧ e.isHandled = false) ∨
        outside.interruption = none ∧ outside.recorded) := by
  unfold runCell Outside.escape Outside.recorded
  rw [measure_eq]
  cases hinterruption : outside.interruption with
  | some e => cases hhandled : e.isHandled <;> simp [hhandled]
  | none =>
    cases hspawn : outside.spawn with
    | error e =>
      rw [Outside.interruption, hspawn] at hinterruption
      cases hflush : outside.flush <;> rw [hflush] at hinterruption <;> cases hinterruption
    | ok run =>
      by_cases hexited : run.exited = some 0
      · by_cases hrecords : records run.text = 0
        · simp [hexited, hrecords]
        · simp [hexited, hrecords, Nat.pos_of_ne_zero hrecords]
      · simp [hexited, Exc.isHandled]

/-- A cell is truthfully recorded exactly if nothing goes wrong that its status does not show. -/
lemma sound_iff (cell : Cell) (outside : Outside) :
    outside.Sound ↔ ((runCell cell outside).1.status = .ok → outside.Finished) := by
  rw [(runCell_eq cell outside).2]
  constructor
  · rintro hsound (⟨e, he, hhandled⟩ | ⟨hinterruption, hrecorded⟩)
    · exact hsound.interrupted e he hhandled
    · have hflush : outside.flush = none := by
        unfold Outside.interruption at hinterruption
        split at hinterruption
        · cases hinterruption
        · assumption
        · assumption
      unfold Outside.recorded at hrecorded
      split at hrecorded
      · cases hrecorded
      · next run hspawn =>
        rw [Bool.and_eq_true, decide_eq_true_eq, decide_eq_true_eq] at hrecorded
        exact ⟨hflush, run, hspawn, hrecorded.1,
          hsound.alone hinterruption run hspawn hrecorded.1 hrecorded.2⟩
  · intro h
    constructor
    · intro e he hhandled
      exact h (.inl ⟨e, he, hhandled⟩)
    · intro hinterruption run hspawn hexited hrecords
      have hrecorded : outside.recorded := by
        unfold Outside.recorded
        rw [hspawn]
        simp [hexited, hrecords]
      obtain ⟨-, run', hspawn', -, hown⟩ := h (.inr ⟨hinterruption, hrecorded⟩)
      rw [hspawn] at hspawn'
      cases hspawn'
      exact hown

/-! ## The sweep -/

/-- The cells that are attempted, one by one. -/
lemma attempts_cons (x_axis : String) (a : Cell × Outside) (planned : List (Cell × Outside)) :
    attempts x_axis (a :: planned) = if (prepare x_axis a.1 a.2).isNone then
      a :: (if a.2.escape.isNone then attempts x_axis planned else []) else [] := by
  unfold attempts
  dsimp only
  cases hprepare : (prepare x_axis a.1 a.2).isNone with
  | false => simp [hprepare]
  | true => cases hescape : a.2.escape.isNone <;> simp [hprepare, hescape]

/-- The cells that are attempted are the first ones. -/
lemma attempts_isPrefix (x_axis : String) (planned : List (Cell × Outside)) :
    attempts x_axis planned <+: planned :=
  (List.take_prefix _ _).trans (List.takeWhile_prefix _)

/-- The run of a sweep records the cells that are attempted. -/
lemma runCells_eq (x_axis : String) (planned : List (Cell × Outside)) (cells : List CellRecord) :
    (runCells x_axis planned cells).1 = cells ++ (attempts x_axis planned).map fun a =>
      (runCell a.1 a.2).1 := by
  induction planned generalizing cells with
  | nil => exact (List.append_nil _).symm
  | cons a planned ih =>
    rw [runCells, attempts_cons]
    cases hprepare : prepare x_axis a.1 a.2 with
    | some e => exact (List.append_nil _).symm
    | none =>
      dsimp only
      rw [(runCell_eq a.1 a.2).1]
      cases hescape : a.2.escape with
      | some e => rfl
      | none =>
        dsimp only
        rw [ih, List.append_assoc]
        rfl

/-- A cell failed or is ok. -/
lemma length_failed (cells : List CellRecord) :
    (failed_cells cells).length + cells.countP (fun r => r.status = .ok) = cells.length := by
  have hsplit :=
    List.length_eq_countP_add_countP (fun r : CellRecord => decide (r.status = .ok)) (l := cells)
  rw [failed_cells, ← List.countP_eq_length_filter, hsplit, Nat.add_comm]
  simp only [decide_not, Bool.decide_eq_true]

/-- A sweep is truthfully recorded exactly if nothing goes wrong in an attempted cell that its
status does not show: an exception that is not handled comes only when the engine has exited
with 0 and has appended a record, and nobody else appends records in a cell whose engine exits
with 0 and appends none. -/
theorem accounted_iff (config : Config) (iterations : ℤ) (outside : ℕ → Outside)
    (series_combos : List Series) (manifest : Manifest) (raised : Option Exc)
    (hseries : generate_series_combos config = some series_combos)
    (h : run_matrix config iterations outside = some (manifest, raised)) :
    Accounted config.x_axis (sweepPlan config iterations series_combos outside) manifest ↔
      ∀ a ∈ attempts config.x_axis (sweepPlan config iterations series_combos outside),
      a.2.Sound := by
  obtain ⟨series, hseries', h⟩ := Option.bind_eq_some_iff.mp h
  obtain ⟨_, -, h⟩ := Option.bind_eq_some_iff.mp h
  rw [hseries] at hseries'
  cases hseries'
  cases h
  generalize sweepPlan config iterations series_combos outside = planned
  have hcells := runCells_eq config.x_axis planned []
  rw [List.nil_append] at hcells
  constructor
  · intro haccounted a ha
    have hall := haccounted.attempted
    dsimp only at hall
    rw [hcells, List.forall₂_map_right_iff] at hall
    exact (sound_iff a.1 a.2).mpr (List.forall₂_same.mp hall a ha).2
  · intro hsound
    have hfailed := length_failed (runCells config.x_axis planned []).1
    refine ⟨?_, ?_, rfl, ?_, ?_⟩
    · dsimp only
      rw [hcells, List.forall₂_map_right_iff]
      exact List.forall₂_same.mpr fun a ha =>
        ⟨runCell_place a.1 a.2, (sound_iff a.1 a.2).mp (hsound a ha)⟩
    · dsimp only
      rw [hcells, List.map_map]
      have hplace : CellRecord.place ∘ (fun a : Cell × Outside => (runCell a.1 a.2).1) = fun a =>
        a.1.place :=
        funext fun a => runCell_place a.1 a.2
      rw [hplace]
      exact (attempts_isPrefix _ _).map _
    · dsimp only [summarize_cells]
      omega
    · dsimp only [summarize_cells]
      omega

/-- A sweep of two cells. -/
def twoCells : RawMatrix where
  x_axis := some "connections"
  workload_template := some (.scalar (.str "configs/workloads/example-workload.json"))
  dimensions :=
    [("connections", .array [.scalar (.other "1"), .scalar (.other "64")]),
      ("driver_config", .single (.scalar (.str "configs/drivers/default/jedis.json")))]
  names_nodup := by decide

/-- An engine that exits with 0 and appends a record. -/
def workingEngine : Run where
  writes := [⟨true, "{}\n".toList⟩]
  exited := some 0
  getpgid := none
  enter := none
  wait := none
  exit := none
  reading := none
  waited := fun _ => rfl

/-- A server that cannot be flushed. -/
def flushFailure : Outside :=
  ⟨none, "java", none, some (.CalledProcessError 1), .ok workingEngine, none⟩

/-- `Ctrl-C` after the engine has ended, while its records are counted. -/
def interruptedCount : Outside :=
  ⟨none, "java", none, none,
    .ok { workingEngine with reading := some (.other "KeyboardInterrupt") }, none⟩

/-- The failed flush meets the conditions. -/
lemma flushFailure_sound : flushFailure.Sound where
  interrupted e he hhandled := by
    cases he
    cases hhandled
  alone h := by cases h

/-- The interrupted count meets the conditions. -/
lemma interruptedCount_sound : interruptedCount.Sound where
  interrupted _ _ _ := ⟨rfl, _, rfl, rfl, by decide⟩
  alone h := by cases h

/-- The manifest accounts for both cells. -/
theorem twoCells_accounted : ∃ series manifest,
    generate_series_combos twoCells.config = some series ∧
      run_matrix twoCells.config 1 (fun i => if i = 0 then flushFailure else interruptedCount)
        = some (manifest, some (.other "KeyboardInterrupt")) ∧
      Accounted "connections"
        (sweepPlan twoCells.config 1 series fun i =>
          if i = 0 then flushFailure else interruptedCount) manifest := by
  refine ⟨_, _, rfl, rfl, (accounted_iff twoCells.config 1 _ _ _ _ rfl rfl).mpr ?_⟩
  exact List.forall_mem_cons.mpr ⟨flushFailure_sound,
    List.forall_mem_singleton.mpr interruptedCount_sound⟩

/-- `Ctrl-C` while the engine is at work. -/
def interruptedEngine : Outside :=
  ⟨none, "java", none, none, .ok
    { workingEngine with writes := [], exited := none, wait := some (.other
      "KeyboardInterrupt"), waited := nofun }, none⟩

/-- The interrupted cell is recorded as `ok`. -/
theorem interruptedEngine_not_accounted : ∃ series manifest raised,
    generate_series_combos twoCells.config = some series ∧
      run_matrix twoCells.config 1 (fun _ => interruptedEngine) = some (manifest, raised) ∧
      (∃ record, manifest.cells = [record] ∧ record.status = .ok) ∧ manifest.summary.succeeded = 1 ∧
      ¬ Accounted "connections" (sweepPlan twoCells.config 1
        series fun _ => interruptedEngine) manifest := by
  refine ⟨_, _, _, rfl, rfl, ⟨_, rfl, rfl⟩, rfl, fun haccounted => ?_⟩
  cases haccounted.attempted with
  | cons hfirst _ =>
    obtain ⟨-, run, hspawn, hexited, -⟩ := hfirst.2 rfl
    cases hspawn
    cases hexited

end RespBench.Matrix
