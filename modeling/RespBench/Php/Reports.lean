import RespBench.Metrics.Order

/-!
# The reports of worker processes

A PHP worker process sends its collector to the parent as a line of JSON (`serializeCollector`),
from which the parent rebuilds the histograms and merges them (`mergePartial`).
`processes_agree` says that this gives the same as merging the collectors themselves, as the
workers of a single process do.

JSON is a parameter (`Runtime`): all that the proofs use is that a report comes back as it was sent,
up to floats without a fraction, which may come back as integers (`Carries`). As in the collectors,
the key of a command is its text, also where PHP turns it into an integer. Times are rationals.
-/

namespace RespBench.Php
open RespBench.Lib
open RespBench.Hdr (HdrHistogram Holds defaultLayout newDefaultHdrHistogram)
open RespBench.Metrics

/-! ## Values -/

inductive Key
  | int (n : ℤ)
  | string (s : String)
deriving DecidableEq

inductive Value
  | null
  | bool (b : Bool)
  | int (n : ℤ)
  | float (x : ℚ)
  | string (s : String)
  | array (entries : List (Key × Value))

/-- The functions of PHP that are not modelled: JSON and the casts of strings to numbers. -/
structure Runtime where
  jsonEncode : Value → String
  /-- `none` for a `JsonException`. -/
  jsonDecode : String → Option Value
  parseInt : String → ℤ
  parseFloat : String → ℚ

namespace Value

/-- What `foreach` iterates over; it skips a value that is not an array with a warning. -/
def entries : Value → List (Key × Value)
  | array entries => entries
  | _ => []

/-- `$value[$key] ?? null`. -/
def offset (value : Value) (key : String) : Value :=
  ((value.entries.find? fun e => e.1 = .string key).map Prod.snd).getD null

/-- `$value[$key]`, an error for a string. -/
def read : Value → String → Option Value
  | string _, _ => none
  | value, key => some (value.offset key)

/-- `isset`. -/
def isSet : Value → Bool
  | null => false
  | _ => true

/-- `=== true`. -/
def isTrue : Value → Bool
  | bool true => true
  | _ => false

end Value

namespace Runtime
variable (php : Runtime)

/-- `(int)`. -/
def intval : Value → ℤ
  | .null => 0
  | .bool b => if b then 1 else 0
  | .int n => n
  | .float x => if 0 ≤ x then ⌊x⌋ else ⌈x⌉
  | .string s => php.parseInt s
  | .array entries => if entries.isEmpty then 0 else 1

/-- `(float)`. -/
def floatval : Value → ℚ
  | .null => 0
  | .bool b => if b then 1 else 0
  | .int n => n
  | .float x => x
  | .string s => php.parseFloat s
  | .array entries => if entries.isEmpty then 0 else 1

/-- `(int)` of a key. -/
def intKey : Key → ℤ
  | .int n => n
  | .string s => php.parseInt s

end Runtime

/-- `(string)` of a key. -/
def Key.text : Key → String
  | int n => toString n
  | string s => s

/-- The characters that `trim` removes. -/
def isBlank (c : Char) : Bool := c ∈ [' ', '\n', '\r', '\t', '\x0b', '\x00']

/-- `trim`. -/
def trim (s : String) : String := .ofList (s.toList.rdropWhile isBlank |>.dropWhile isBlank)

/-! ## Reports -/

/-- The counts of a report: the counts that are not zero, up to the relevant length. -/
def reportCounts (histogram : Option HdrHistogram) : List (Key × Value) :=
  match histogram with
  | none => []
  | some h =>
    (List.range (Hdr.Php.relevantLength h).toNat).filterMap fun i : ℕ =>
      if h.rawCountAt i > 0 then some (.int i, .int (h.rawCountAt i)) else none

/-- The command of a report. -/
def reportCommand (entry : String × CommandMetrics) : Key × Value :=
  (.string entry.1, .array [
    (.string "requests", .int entry.2.requests),
    (.string "errors", .int entry.2.errors),
    (.string "counts", .array (reportCounts entry.2.histogram))])

/-- The report of a collector, with the values of its times. -/
def reportWith (start stop : Value) (c : Collector ℚ) : Value :=
  .array [
    (.string "ok", .bool true),
    (.string "total_requests", .int c.totalRequests),
    (.string "total_errors", .int c.totalErrors),
    (.string "start", start),
    (.string "stop", stop),
    (.string "commands", .array (c.commandMetrics.map reportCommand))]

/-- A time or null. -/
def timeValue : Option ℚ → Value
  | none => .null
  | some x => .float x

def report (c : Collector ℚ) : Value := reportWith (timeValue c.startTime) (timeValue c.endTime) c

/-- `serializeCollector`. -/
def serializeCollector (php : Runtime) (c : Collector ℚ) : String :=
  php.jsonEncode (report c) ++ "\n"

/-- `serializeError`. -/
def serializeError (php : Runtime) (message : String) : String :=
  php.jsonEncode (.array [(.string "ok", .bool false), (.string "error", .string message)])

/-! ## Merging reports -/

/-- `ingestCommand`. -/
def ingestCommand (c : Collector ℚ) (name : String) (requests errors : ℤ)
    (histogram : HdrHistogram) :
    Collector ℚ :=
  { c with
    commandMetrics := Table.modify (newCommandMetrics .php name) name
      (fun m => m.ingest requests errors histogram) c.commandMetrics }

/-- `ingestTotals`. -/
def ingestTotals (c : Collector ℚ) (requests errors : ℤ) : Collector ℚ :=
  { c with totalRequests := c.totalRequests + requests, totalErrors := c.totalErrors + errors }

/-- The histogram that is rebuilt from counts. -/
def rebuild (php : Runtime) (counts : Value) : HdrHistogram :=
  counts.entries.foldl (fun h e =>
    h.recordValueWithCount (h.layout.valueFromIndex (php.intKey e.1)) (php.intval e.2))
      newDefaultHdrHistogram

/-- One round of the loop over the commands of a report. -/
def ingestReported (php : Runtime) (c : Collector ℚ) (entry : Key × Value) :
    Option (Collector ℚ) := do
  let histogram := rebuild php (entry.2.offset "counts")
  let requests ← entry.2.read "requests"
  let errors ← entry.2.read "errors"
  return ingestCommand c entry.1.text (php.intval requests) (php.intval errors) histogram

/-- The collector that is rebuilt from a report. -/
def rebuildCollector (php : Runtime) (data : Value) : Option (Collector ℚ) := do
  let c ← (data.offset "commands").entries.foldlM (ingestReported php) .new
  return ingestTotals c (php.intval (data.offset "total_requests"))
    (php.intval (data.offset "total_errors"))

/-- A time of a report, if it is set. -/
def reportedTime (php : Runtime) (value : Value) : Option ℚ :=
  if value.isSet then some (php.floatval value) else none

/-- `mergePartial`: whether the worker reported success, and the collector; `none`
when an error is raised. -/
def mergePartial (php : Runtime) (c : Collector ℚ) (payload : String) :
    Option (Bool × Collector ℚ) :=
  let line := trim payload
  if line = "" then some (false, c)
  else
    match php.jsonDecode line with
    | none => some (false, c)
    | some data =>
      if !(data.offset "ok").isTrue then some (false, c)
      else do
        let rebuilt ← rebuildCollector php data
        let c := { c with
          startTime := Collector.widenStart c.startTime (reportedTime php (data.offset "start"))
          endTime := Collector.widenEnd c.endTime (reportedTime php (data.offset "stop")) }
        let merged ← c.mergeFrom .php rebuilt rebuilt.commandMetrics
        return (true, merged)

/-! ## What JSON does to a report -/

/-- A value is read as a time. -/
def ReadsAs (value : Value) : Option ℚ → Prop
  | none => value = .null
  | some x => value = .float x ∨ ∃ n : ℤ, value = .int n ∧ (n : ℚ) = x

/-- The report of a collector is written as an object, and is read as it was written, except that a
time without a fraction may become an integer. -/
structure Carries (php : Runtime) (c : Collector ℚ) : Prop where
  text : ∃ body, php.jsonEncode (report c) = "\x7b" ++ body ++ "\x7d"
  decode : ∃ start stop, ReadsAs start c.startTime ∧ ReadsAs stop c.endTime ∧
    php.jsonDecode (php.jsonEncode (report c)) = some (reportWith start stop c)

variable {php : Runtime} {c d : Collector ℚ} {τ υ : Tally ℚ}

/-- The text of an object is not trimmed, except for a line feed. -/
lemma trim_object (body : String) :
    trim ("\x7b" ++ body ++ "\x7d") = "\x7b" ++ body ++ "\x7d" ∧
      trim ("\x7b" ++ body ++ "\x7d" ++ "\n") = "\x7b" ++ body ++ "\x7d" := by
  have hlist : ("\x7b" ++ body ++ "\x7d").toList = '\x7b' :: body.toList ++ ['\x7d'] := by
    rw [String.toList_append, String.toList_append]
    rfl
  have hend : (('\x7b' :: body.toList) ++ ['\x7d']).rdropWhile isBlank = '\x7b' :: body.toList ++
    ['\x7d'] :=
    List.rdropWhile_concat_neg _ _ _ (by decide)
  have hstart : ('\x7b' :: (body.toList ++ ['\x7d'])).dropWhile isBlank
    = '\x7b' :: (body.toList ++ ['\x7d']) :=
    List.dropWhile_cons_of_neg (by decide)
  constructor
  · rw [trim, hlist, hend, List.cons_append, hstart, ← List.cons_append, ← hlist,
      String.ofList_toList]
  · rw [trim, String.toList_append, hlist, show "\n".toList = ['\n'] from rfl,
      List.rdropWhile_concat_pos _ _ _ (by decide), hend, List.cons_append, hstart,
      ← List.cons_append, ← hlist, String.ofList_toList]

/-- A time is read as it was sent. -/
lemma reportedTime_eq {value : Value} {time : Option ℚ} (h : ReadsAs value time) :
    reportedTime php value = time := by
  cases time with
  | none =>
    obtain rfl : value = .null := h
    rfl
  | some x =>
    rcases h with rfl | ⟨n, rfl, rfl⟩ <;> rfl

/-! ## Rebuilding -/

/-- The counts that are sent are recorded as a merge records them. -/
lemma foldl_reportCounts (php : Runtime) {h acc : HdrHistogram} (hacc : acc.layout = h.layout)
    (indices : List ℕ) :
    (indices.filterMap fun i : ℕ =>
        if h.rawCountAt i > 0 then some (Key.int i, Value.int (h.rawCountAt i)) else none).foldl
      (fun h e => h.recordValueWithCount (h.layout.valueFromIndex (php.intKey e.1))
        (php.intval e.2)) acc
      = indices.foldl (HdrHistogram.mergeIndex h) acc := by
  induction indices generalizing acc with
  | nil => rfl
  | cons i indices ih =>
    rw [List.filterMap_cons, List.foldl_cons, HdrHistogram.mergeIndex]
    by_cases hi : h.rawCountAt i > 0
    · rw [if_pos hi, if_pos hi, List.foldl_cons,
        ← ih (by rw [Hdr.recordValueWithCount_layout, hacc])]
      dsimp only [Runtime.intKey, Runtime.intval]
      rw [hacc]
    · rw [if_neg hi, if_neg hi]
      exact ih hacc

/-- A rebuilt histogram holds what the histogram of the worker holds. -/
lemma holds_rebuild {m : CommandMetrics} {R : Multiset CommandResult} (hm : m.Tallies .php R) :
    (rebuild php (.array (reportCounts m.histogram))).layout = defaultLayout ∧
      Holds (rebuild php (.array (reportCounts m.histogram))) (bucketsOf R) := by
  obtain ⟨hnewLayout, hnew⟩ := CommandMetrics.holds_new
  cases hh : m.histogram with
  | none =>
    rw [(hm.missing hh).2]
    exact ⟨hnewLayout, hnew⟩
  | some h =>
    obtain ⟨hlayout, hholds⟩ := hm.histogram h hh
    have hlength : Hdr.Php.relevantLength h = (Table.keys h.counts).foldl max (-1) + 1 :=
      Hdr.relevantLength_eq .php hholds.populated
    have hcountsLen : Hdr.Php.relevantLength h ≤ defaultLayout.countsLen := by
      have hle : (Table.keys h.counts).foldl max (-1) ≤ defaultLayout.countsLen - 1 := by
        refine Table.foldl_max_le_iff.mpr ⟨by decide +kernel, fun idx hidx => ?_⟩
        obtain ⟨i, hi, rfl⟩ := (hholds.keys idx).mp hidx
        have := bucket_lt hi
        omega
      omega
    have hall : ∀ i ∈ bucketsOf R, i < (Hdr.Php.relevantLength h).toNat := fun i hi => by
      have := (Table.foldl_max_le_iff.mp (le_refl ((Table.keys h.counts).foldl max (-1)))).2 i
        ((hholds.keys i).mpr ⟨i, hi, rfl⟩)
      omega
    have hfold := hnew.foldl_mergeIndex (by rw [hnewLayout]; exact Hdr.defaultLayout_regular)
      (hlayout.trans hnewLayout.symm) hholds (n := (Hdr.Php.relevantLength h).toNat)
        (by rw [hnewLayout]; omega)
    rw [Multiset.filter_eq_self.mpr hall, zero_add, hnewLayout,
      ← foldl_reportCounts php (hnewLayout.trans hlayout.symm)] at hfold
    exact hfold

/-- A command that was reported is ingested with its rebuilt histogram. -/
lemma ingestReported_eq (acc : Collector ℚ) (e : String × CommandMetrics) :
    ingestReported php acc (reportCommand e) = some (ingestCommand acc e.1 e.2.requests e.2.errors
      (rebuild php (.array (reportCounts e.2.histogram)))) := rfl

/-- Ingesting commands leaves the rest of a collector. -/
lemma foldl_ingestCommand (acc : Collector ℚ) (f : String × CommandMetrics → HdrHistogram)
    (entries : List (String × CommandMetrics)) :
    entries.foldl (fun acc e => ingestCommand acc e.1 e.2.requests e.2.errors (f e)) acc =
      { acc with
        commandMetrics :=
  entries.foldl (fun commands e => Table.modify (newCommandMetrics .php e.1) e.1
          (fun m => m.ingest e.2.requests e.2.errors (f e)) commands) acc.commandMetrics } := by
  induction entries generalizing acc with
  | nil => rfl
  | cons e entries ih =>
    rw [List.foldl_cons, List.foldl_cons, ih]
    rfl

/-- A rebuilt collector counts the results of the worker, without its window. -/
lemma rebuildCollector_eq (php : Runtime) (hc : c.Tallies .php τ) (start stop : Value) :
    ∃ rebuilt, rebuildCollector php (reportWith start stop c) = some rebuilt ∧
      rebuilt.Tallies .php ⟨τ.results, ⊤, ⊥⟩ := by
  have hcommands : ((reportWith start stop c).offset "commands").entries
    = c.commandMetrics.map reportCommand := rfl
  have hloop : (c.commandMetrics.map reportCommand).foldlM (ingestReported php)
    (Collector.new : Collector ℚ)
      = some (c.commandMetrics.foldl (fun acc e => ingestCommand acc e.1 e.2.requests e.2.errors
          (rebuild php (.array (reportCounts e.2.histogram)))) .new) := by
    rw [List.foldlM_map]
    simp only [ingestReported_eq]
    exact List.foldlM_pure
  have htally := (CommandsTally.nil .php).foldl hc.commands (.refl _)
    (fun e m => m.ingest e.2.requests e.2.errors
      (rebuild php (.array (reportCounts e.2.histogram))))
    fun e _ m S hm he => hm.ingest he.requests he.errors (holds_rebuild he)
  rw [zero_add] at htally
  refine ⟨_, by rw [rebuildCollector, hcommands, hloop]; rfl, ?_⟩
  rw [foldl_ingestCommand]
  exact ⟨htally, (zero_add _).trans hc.totalRequests, (zero_add _).trans hc.totalErrors, rfl, rfl⟩

/-! ## Merging a report -/

/-- A text with the report of a worker. -/
structure Delivers (php : Runtime) (payload : String) (c : Collector ℚ) : Prop where
  line : trim payload = php.jsonEncode (report c)
  carries : Carries php c

/-- A serialised collector is delivered. -/
lemma delivers_serializeCollector (hc : Carries php c) :
    Delivers php (serializeCollector php c) c := by
  obtain ⟨body, hbody⟩ := hc.text
  refine ⟨?_, hc⟩
  rw [serializeCollector, hbody]
  exact (trim_object body).2

/-- The window of the parent is widened by the window of the report. -/
def widenWindow (d c : Collector ℚ) : Collector ℚ :=
  { d with
    startTime := Collector.widenStart d.startTime c.startTime
    endTime := Collector.widenEnd d.endTime c.endTime }

/-- A widened window is that of both. -/
lemma tallies_widenWindow (hd : d.Tallies .php υ) (hc : c.Tallies .php τ) :
    (widenWindow d c).Tallies .php ⟨υ.results, υ.start ⊓ τ.start, υ.stop ⊔ τ.stop⟩ where
  commands := hd.commands
  totalRequests := hd.totalRequests
  totalErrors := hd.totalErrors
  start := by rw [← hd.start, ← hc.start, ← Collector.windowStart_widen]; rfl
  stop := by rw [← hd.stop, ← hc.stop, ← Collector.windowStop_widen]; rfl

/-- A delivered report is merged as the collector that it rebuilds. -/
lemma mergePartial_eq (hc : c.Tallies .php τ) {payload : String} (hpayload : Delivers php payload c)
    (d : Collector ℚ) :
    ∃ rebuilt : Collector ℚ, rebuilt.Tallies .php ⟨τ.results, ⊤, ⊥⟩ ∧ mergePartial php d payload =
      ((widenWindow d c).mergeFrom .php rebuilt rebuilt.commandMetrics).map fun merged =>
        (true, merged) := by
  obtain ⟨body, hbody⟩ := hpayload.carries.text
  obtain ⟨start, stop, hstart, hstop, hdecode⟩ := hpayload.carries.decode
  obtain ⟨rebuilt, hrebuilt, htallies⟩ := rebuildCollector_eq php hc start stop
  have hline : trim payload ≠ "" := by
    rw [hpayload.line, hbody]
    intro hempty
    have hlist := congrArg String.toList hempty
    rw [String.toList_append, String.toList_append] at hlist
    exact nomatch hlist
  refine ⟨rebuilt, htallies, ?_⟩
  have hok : ((reportWith start stop c).offset "ok").isTrue = true := rfl
  have hstart' : reportedTime php ((reportWith start stop c).offset "start") = c.startTime :=
    reportedTime_eq hstart
  have hstop' : reportedTime php ((reportWith start stop c).offset "stop") = c.endTime :=
    reportedTime_eq hstop
  unfold mergePartial
  dsimp only
  rw [if_neg hline, hpayload.line, hdecode]
  dsimp only
  rw [hok, hrebuilt, hstart', hstop']
  change ((widenWindow d c).mergeFrom .php rebuilt rebuilt.commandMetrics).bind
    (fun merged => some (true, merged))
    = _
  cases (widenWindow d c).mergeFrom .php rebuilt rebuilt.commandMetrics <;> rfl

/-- What merging a delivered report does: it reports success, and adds the tally of the worker, as
merging its collector does. -/
theorem mergePartial_spec (hd : d.Tallies .php υ) (hc : c.Tallies .php τ) {payload : String}
    (hpayload : Delivers php payload c) :
    ((mergePartial php d payload).isSome ↔ (d.mergeFrom .php c c.commandMetrics).isSome) ∧
      ∀ result, mergePartial php d payload = some result → result.1 ∧
      result.2.Tallies .php (υ + τ) := by
  obtain ⟨rebuilt, hrebuilt, hmerge⟩ := mergePartial_eq hc hpayload d
  have hwindow := tallies_widenWindow hd hc
  rw [hmerge, Option.isSome_map]
  constructor
  · rw [hwindow.mergeFrom_isSome_iff hrebuilt (.refl _), hd.mergeFrom_isSome_iff hc (.refl _)]
  · intro result hresult
    obtain ⟨merged, hmerged, rfl⟩ := Option.map_eq_some_iff.mp hresult
    have hsum : (⟨υ.results, υ.start ⊓ τ.start, υ.stop ⊔ τ.stop⟩ + ⟨τ.results, ⊤, ⊥⟩ : Tally ℚ) = υ
      + τ :=
      Tally.ext rfl (inf_top_eq _) (sup_bot_eq _)
    exact ⟨rfl, hsum ▸ hwindow.mergeFrom hrebuilt (.refl _) hmerged⟩

/-! ## Processes and a single process -/

/-- The collectors of workers merged one by one, as `runPhaseInline` does. -/
def mergeWorkers (workers : List (Collector ℚ)) (c : Collector ℚ) : Option (Collector ℚ) :=
  workers.foldlM (fun acc w => acc.mergeFrom .php w w.commandMetrics) c

/-- The reports of workers merged one by one, as `runPhaseMultiProcess` does. -/
def mergeReports (php : Runtime) (workers : List (Collector ℚ)) (c : Collector ℚ) :
    Option (Collector ℚ) :=
  workers.foldlM (fun acc w => (mergePartial php acc (serializeCollector php w)).map Prod.snd) c

/-- Merged workers with accepted names raise no error. -/
lemma mergeWorkers_isSome {workers : List (Collector ℚ)} (hworkers : ∀ w ∈ workers, w.Accepted .php)
    (hc : c.Accepted .php) : (mergeWorkers workers c).isSome := by
  induction workers generalizing c with
  | nil => rfl
  | cons w workers ih =>
    obtain ⟨hw, hrest⟩ := List.forall_mem_cons.mp hworkers
    obtain ⟨d, hd, haccepted⟩ := hc.mergeFrom hw (.refl _)
    rw [mergeWorkers, List.foldlM_cons, hd]
    exact ih hrest haccepted

/-- From parents that count the same, merging reports and merging collectors give the same. -/
lemma mergeReports_mergeWorkers {workers : List (Collector ℚ)}
    (hworkers : ∀ w ∈ workers, w.Reachable .php) (hjson : ∀ w ∈ workers, Carries php w)
    (hc : c.Tallies .php τ) (hd : d.Tallies .php τ) :
    Option.Rel (Collector.Same .php) (mergeReports php workers c) (mergeWorkers workers d) := by
  induction workers generalizing c d τ with
  | nil => exact .some (hc.same hd)
  | cons w workers ih =>
    obtain ⟨hw, hrest⟩ := List.forall_mem_cons.mp hworkers
    obtain ⟨hcarries, hjson⟩ := List.forall_mem_cons.mp hjson
    obtain ⟨υ, hυ⟩ := hw.tallies
    obtain ⟨hsome, hspec⟩ := mergePartial_spec hc hυ (delivers_serializeCollector hcarries)
    rw [hc.mergeFrom_isSome_iff hυ (.refl _), ← hd.mergeFrom_isSome_iff hυ (.refl _)] at hsome
    rw [mergeReports, mergeWorkers, List.foldlM_cons, List.foldlM_cons]
    cases hreport : mergePartial php c (serializeCollector php w) with
    | none =>
      rw [hreport] at hsome
      rw [Option.not_isSome_iff_eq_none.mp fun h => nomatch hsome.mpr h]
      exact .none
    | some result =>
      rw [hreport] at hsome
      obtain ⟨merged, hmerged⟩ := Option.isSome_iff_exists.mp (hsome.mp rfl)
      rw [hmerged]
      exact ih hrest hjson (hspec result hreport).2 (hd.mergeFrom hυ (.refl _) hmerged)

/-- Worker processes and a single process report the same. (Both raise an error, if the name of a
command reads as an integer, and neither does otherwise.) -/
theorem processes_agree {workers : List (Collector ℚ)} (hworkers : ∀ w ∈ workers, w.Reachable .php)
    (hjson : ∀ w ∈ workers, Carries php w) :
    Option.Rel (Collector.Same .php) (mergeReports php workers .new) (mergeWorkers workers .new) ∧
      ((∀ w ∈ workers, w.Accepted .php) → (mergeWorkers workers .new).isSome) :=
  ⟨mergeReports_mergeWorkers hworkers hjson (Collector.tallies_new .php)
    (Collector.tallies_new .php), fun hnames => mergeWorkers_isSome hnames fun _ hname =>
      absurd hname List.not_mem_nil⟩

/-! ### A worker and an idle worker -/

/-- A worker with a latency and an error. -/
def busyWorker : Collector ℚ :=
  (((Collector.new.start (21 / 2)).record .php ⟨"PING", 120, true⟩).record .php ⟨"SET", 0,
    false⟩).stop 20

/-- What `json_encode` writes between the braces for its report. -/
def busyBody : String :=
  "\"ok\":true,\"total_requests\":2,\"total_errors\":1,\"start\":10.5,\"stop\":20,\"commands\":" ++
  "\x7b\"PING\":\x7b\"requests\":1,\"errors\":0,\"counts\":\x7b\"120\":1\x7d\x7d," ++
  "\"SET\":\x7b\"requests\":1,\"errors\":1,\"counts\":[]\x7d\x7d"

/-- And for the report of a worker that was never started. -/
def idleBody : String :=
  "\"ok\":true,\"total_requests\":0,\"total_errors\":0,\"start\":null,\"stop\":null,\"commands\":[]"

def busyText : String := "\x7b" ++ busyBody ++ "\x7d"

def idleText : String := "\x7b" ++ idleBody ++ "\x7d"

/-- And for an error. -/
def errorText : String := "\x7b" ++ "\"ok\":false,\"error\":\"read error on connection\"" ++ "\x7d"

/-- JSON for these texts. -/
def sampleRuntime : Runtime where
  jsonEncode value :=
    match value.offset "total_requests" with
    | .int 0 => idleText
    | .int _ => busyText
    | _ => errorText
  jsonDecode text :=
    if text = busyText then some (reportWith (.float (21 / 2)) (.int 20) busyWorker)
    else if text = idleText then some (reportWith .null .null .new)
    else if text = errorText then
      some (.array [(.string "ok", .bool false),
        (.string "error", .string "read error on connection")])
    else none
  parseInt _ := 0
  parseFloat _ := 0

/-- The text of the busy worker's report. -/
lemma encode_busyWorker : sampleRuntime.jsonEncode (report busyWorker) = busyText := rfl

/-- The text of the idle worker's report. -/
lemma encode_new : sampleRuntime.jsonEncode (report .new) = idleText := rfl

/-- The two reports differ. -/
lemma busyText_ne : idleText ≠ busyText := by decide +kernel

/-- The runtime of the example carries the busy worker. -/
lemma carries_busyWorker : Carries sampleRuntime busyWorker where
  text := by
    refine ⟨busyBody, ?_⟩
    rw [encode_busyWorker, busyText]
  decode := by
    refine ⟨.float (21 / 2), .int 20, .inl rfl, .inr ⟨20, rfl, rfl⟩, ?_⟩
    rw [encode_busyWorker, sampleRuntime]
    dsimp only
    rw [if_pos rfl]

/-- The runtime of the example carries an idle worker. -/
lemma carries_new : Carries sampleRuntime .new where
  text := by
    refine ⟨idleBody, ?_⟩
    rw [encode_new, idleText]
  decode := by
    refine ⟨.null, .null, rfl, rfl, ?_⟩
    rw [encode_new, sampleRuntime]
    dsimp only
    rw [if_neg busyText_ne, if_pos rfl]

/-- The busy worker is reachable. -/
lemma reachable_busyWorker : busyWorker.Reachable .php :=
  .stop _ (.record _ (fun h => nomatch h) (.record _ (fun _ => by decide) (.start _ .new)))

/-- The two workers as processes and in one process. -/
theorem busyWorker_processes_agree :
    Option.Rel (Collector.Same .php) (mergeReports sampleRuntime [busyWorker, .new] .new)
      (mergeWorkers [busyWorker, .new] .new) ∧ (mergeWorkers [busyWorker, .new] .new).isSome := by
  have hreach : ∀ w ∈ [busyWorker, .new], w.Reachable .php :=
    List.forall_mem_cons.mpr ⟨reachable_busyWorker, List.forall_mem_singleton.mpr .new⟩
  have hcarries : ∀ w ∈ [busyWorker, .new], Carries sampleRuntime w :=
    List.forall_mem_cons.mpr ⟨carries_busyWorker, List.forall_mem_singleton.mpr carries_new⟩
  have hnames : ∀ w ∈ [busyWorker, .new], w.Accepted .php := by
    refine List.forall_mem_cons.mpr ⟨?_, List.forall_mem_singleton.mpr fun _ hname =>
      absurd hname List.not_mem_nil⟩
    unfold Collector.Accepted
    decide
  obtain ⟨hagree, hsome⟩ := processes_agree hreach hcarries
  exact ⟨hagree, hsome hnames⟩

end RespBench.Php
