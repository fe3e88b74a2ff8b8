import RespBench.Lib.Pool
import RespBench.Metrics.Eager

/-!
# Recording at the same time

`MetricsCollector.record` of the Java and C# engines, called by any number of threads at the same
time. A call is six operations on the shared state, each of them atomic: the counters are atomic
integers, the commands a concurrent map, and the histograms synchronized. In between, the counters
do not agree with each other.

`totals_eq` and `counts_eq` are the books of the counters: what was called is counted, or still to
be counted by a call that goes on. When all calls have returned, the collector agrees with the one
that records the same results one after the other (`no_record_lost`).
-/

namespace RespBench.Metrics.Eager.Concurrent
open RespBench.Lib

inductive Engine where
  | java
  | csharp
deriving DecidableEq

/-- What is recorded for a latency: `Math.min(result.latencyMicros(), 600_000_000L)`, and
`Math.Max(1, Math.Min(result.LatencyMicros, 600_000_000L))`. -/
def Engine.bounded : Engine → ℤ → ℤ
  | .java => fun latencyMicros => min latencyMicros 600000000
  | .csharp => fun latencyMicros => max 1 (min latencyMicros 600000000)

/-- Where a thread is in `record`. -/
inductive Pc where
  | idle
  -- `totalRequests.incrementAndGet()`
  | totalRequests (result : CommandResult)
  -- `totalErrors.incrementAndGet()`, if it failed
  | totalErrors (result : CommandResult)
  -- `commandMetrics.computeIfAbsent(result.commandName(), CommandMetrics::new)`
  | lookup (result : CommandResult)
  -- `requests.incrementAndGet()` of these metrics
  | requests (result : CommandResult)
  -- `histogram.recordValue(...)`, or `errors.incrementAndGet()`
  | value (result : CommandResult)
deriving DecidableEq

/-- The collector. `called` is history: the results with which `record` was called, in this
order. -/
structure Shared where
  collector : MetricsCollector
  called : List CommandResult
deriving DecidableEq

inductive Event where
  | call (result : CommandResult)
  | run
deriving DecidableEq

/-- The commands that have metrics. -/
def Shared.names (s : Shared) : List String := Table.keys s.collector.commandMetrics

/-- The metrics of a command are created, if need be, and changed. -/
def Shared.modify (s : Shared) (commandName : String)
    (f : CommandMetrics → CommandMetrics) : Shared :=
  { s with
    collector.commandMetrics :=
      Table.modify (.new commandName) commandName f s.collector.commandMetrics }

/-- The metrics of a command, which exist, are changed. -/
def Shared.change (s : Shared) (commandName : String) (f : CommandMetrics → CommandMetrics) :
    Option Shared :=
  if commandName ∈ s.names then some (s.modify commandName f) else none

/-- The second half of `CommandMetrics.record`. -/
def recordValue (engine : Engine) (result : CommandResult) (m : CommandMetrics) : CommandMetrics :=
  if result.success
    then { m with histogram := m.histogram ++ [engine.bounded result.latencyMicros] }
  else { m with errors := m.errors + 1 }

/-- One operation of a thread. -/
def run (engine : Engine) (s : Shared) : Pc → Option (Shared × Pc)
  | .idle => none
  | .totalRequests result =>
    some ({ s with collector.totalRequests := s.collector.totalRequests + 1 }, .totalErrors result)
  | .totalErrors result =>
    some ({ s with collector.totalErrors :=
      if result.success then s.collector.totalErrors else s.collector.totalErrors + 1 },
        .lookup result)
  | .lookup result => some (s.modify result.commandName id, .requests result)
  | .requests result =>
    (s.change result.commandName fun m => { m with requests := m.requests + 1 }).map fun t =>
      (t, .value result)
  | .value result => (s.change result.commandName (recordValue engine result)).map fun t =>
    (t, .idle)

/-- One event of a thread. Latencies are measured by a clock that does not go back. -/
def step (engine : Engine) : Event → Shared → Pc → Option (Shared × Pc)
  | .call result, s, .idle =>
    if 0 ≤ result.latencyMicros then some ({ s with called := s.called ++ [result] },
      .totalRequests result) else none
  | .run, s, pc => run engine s pc
  | _, _, _ => none

/-- The threads that record into one collector. -/
def recorders (engine : Engine) (ι : Type) : Pool ι Shared Pc Event where
  shared := ⟨.new, []⟩
  locals := fun _ => .idle
  step := fun _ => step engine

/-- The same results, recorded one after the other. -/
def recordAll (engine : Engine) (results : List CommandResult) : MetricsCollector :=
  results.foldl (fun c result => c.record engine.bounded result) .new

/-! ## Counts -/

/-- What the metrics of a command count: requests, errors, and how often each latency. -/
abbrev Counts : Type := ℕ × ℕ × Multiset ℤ

def CommandMetrics.counts (m : CommandMetrics) : Counts :=
  (m.requests, m.errors, (m.histogram : Multiset ℤ))

/-- The metrics of a command in a collector. -/
def metricsOf (name : String) (c : MetricsCollector) : CommandMetrics :=
  Table.get (.new name) name c.commandMetrics

/-- What a request adds to the totals. -/
def totalsOf (result : CommandResult) : ℕ × ℕ := (1, if result.success then 0 else 1)

/-- What the second half of `CommandMetrics.record` adds. -/
def valueOf (engine : Engine) (result : CommandResult) : Counts :=
  (0, if result.success then 0 else 1, if result.success
    then {engine.bounded result.latencyMicros} else 0)

/-- What a request adds to the metrics of a command. -/
def countsOf (engine : Engine) (name : String) (result : CommandResult) : Counts :=
  if result.commandName = name then (1, 0, 0) + valueOf engine result else 0

/-- What a thread still has to add to the totals. -/
def Pc.totals : Pc → ℕ × ℕ
  | .totalRequests result => totalsOf result
  | .totalErrors result => (0, if result.success then 0 else 1)
  | _ => 0

/-- What a thread still has to add to the metrics of a command. -/
def Pc.counts (engine : Engine) (name : String) : Pc → Counts
  | .idle => 0
  | .totalRequests result => countsOf engine name result
  | .totalErrors result => countsOf engine name result
  | .lookup result => countsOf engine name result
  | .requests result => countsOf engine name result
  | .value result => if result.commandName = name then valueOf engine result else 0

variable {engine : Engine} {ι : Type}

/-- What a recorded value adds to the counts. -/
lemma counts_recordValue (result : CommandResult) (m : CommandMetrics) :
    CommandMetrics.counts (recordValue engine result m) = CommandMetrics.counts m
      + valueOf engine result := by
  unfold recordValue valueOf CommandMetrics.counts
  split
  · refine Prod.ext (add_zero _).symm (Prod.ext (add_zero _).symm ?_)
    exact (Multiset.coe_add _ _).symm
  · simp

/-- What a recorded result adds to the counts. -/
lemma counts_record (result : CommandResult) (m : CommandMetrics) :
    CommandMetrics.counts (m.record engine.bounded result)
      = CommandMetrics.counts m + ((1, 0, 0) + valueOf engine result) := by
  have hrecord : m.record engine.bounded result
    = recordValue engine result { m with requests := m.requests + 1 } := rfl
  rw [hrecord, counts_recordValue, ← add_assoc]
  simp [CommandMetrics.counts]

/-- A change of one command, as the counts see it. -/
lemma counts_modify {name name' : String} {f : CommandMetrics → CommandMetrics} {d : Counts}
    (hf : ∀ m, CommandMetrics.counts (f m) = CommandMetrics.counts m + d)
    (commands : List (String × CommandMetrics)) :
    CommandMetrics.counts (Table.get (.new name) name (Table.modify (.new name') name' f commands))
      = CommandMetrics.counts (Table.get (.new name) name commands) + if name' = name
        then d else 0 := by
  rw [Table.get_modify]
  by_cases hname : name = name'
  · subst hname
    rw [if_pos rfl, if_pos rfl, hf]
  · rw [if_neg hname, if_neg (Ne.symm hname), add_zero]

/-! ## Steps -/

/-- The steps of a thread, one rule for each. -/
inductive Steps (engine : Engine) : Shared → Pc → Shared → Pc → Prop where
  | call {s} (result : CommandResult) :
    Steps engine s .idle { s with called := s.called ++ [result] } (.totalRequests result)
  | totalRequests {s result} :
    Steps engine s (.totalRequests result)
      { s with collector.totalRequests := s.collector.totalRequests + 1 } (.totalErrors result)
  | totalErrors {s result} :
    Steps engine s (.totalErrors result)
      { s with
        collector.totalErrors :=
          if result.success then s.collector.totalErrors else s.collector.totalErrors + 1 }
            (.lookup result)
  | lookup {s result} : Steps engine s (.lookup result) (s.modify result.commandName id)
    (.requests result)
  | requests {s result} :
    Steps engine s (.requests result)
      (s.modify result.commandName fun m => { m with requests := m.requests + 1 }) (.value result)
  | value {s result} :
    Steps engine s (.value result) (s.modify result.commandName (recordValue engine result)) .idle

/-- Every step of a recorder follows a rule. -/
lemma steps_of_step {event : Event} {s t : Shared} {pc pc' : Pc}
    (h : step engine event s pc = some (t, pc')) : Steps engine s pc t pc' := by
  cases event with
  | call result =>
    cases pc <;> simp only [step, reduceCtorEq] at h
    split at h <;> cases h
    exact .call result
  | run =>
    cases pc with
    | idle => cases h
    | totalRequests result =>
      cases h
      exact .totalRequests
    | totalErrors result =>
      cases h
      exact .totalErrors
    | lookup result =>
      cases h
      exact .lookup
    | requests result =>
      obtain ⟨u, hu, heq⟩ := Option.map_eq_some_iff.mp h
      unfold Shared.change at hu
      split at hu <;> cases hu
      cases heq
      exact .requests
    | value result =>
      obtain ⟨u, hu, heq⟩ := Option.map_eq_some_iff.mp h
      unfold Shared.change at hu
      split at hu <;> cases hu
      cases heq
      exact .value

/-! ## The commands -/

/-- The result that a thread records. -/
def Pc.result : Pc → Option CommandResult
  | .idle => none
  | .totalRequests result => some result
  | .totalErrors result => some result
  | .lookup result => some result
  | .requests result => some result
  | .value result => some result

/-- The result whose metrics a thread has looked up. -/
def Pc.found : Pc → Option CommandResult
  | .requests result => some result
  | .value result => some result
  | _ => none

/-- What a thread knows: its result is one of the calls, and the metrics that it has looked up
exist. -/
structure Knows (s : Shared) (pc : Pc) : Prop where
  called : ∀ result, pc.result = some result → result ∈ s.called
  found : ∀ result, pc.found = some result → result.commandName ∈ s.names

section Commands
variable {s t : Shared} {pc pc' : Pc}

/-- The names after a change. -/
lemma mem_names_modify {s : Shared} {name name' : String} {f : CommandMetrics → CommandMetrics} :
    name ∈ (s.modify name' f).names ↔ name = name' ∨ name ∈ s.names :=
  Table.mem_keys_modify

/-- Calls and commands are only added. -/
lemma grows_of_steps (h : Steps engine s pc t pc') :
    (∀ result ∈ s.called, result ∈ t.called) ∧ ∀ name ∈ s.names, name ∈ t.names := by
  cases h with
  | call result => exact ⟨fun _ => List.mem_append_left _, fun _ => id⟩
  | totalRequests => exact ⟨fun _ => id, fun _ => id⟩
  | totalErrors => exact ⟨fun _ => id, fun _ => id⟩
  | lookup => exact ⟨fun _ => id, fun _ hname => mem_names_modify.mpr (.inr hname)⟩
  | requests => exact ⟨fun _ => id, fun _ hname => mem_names_modify.mpr (.inr hname)⟩
  | value => exact ⟨fun _ => id, fun _ hname => mem_names_modify.mpr (.inr hname)⟩

/-- The others still know what they know. -/
lemma Knows.others (hk : Knows s pc) {pc₁ pc₂ : Pc} (h : Steps engine s pc₁ t pc₂) : Knows t pc :=
  ⟨fun result hresult => (grows_of_steps h).1 result (hk.called result hresult),
    fun result hresult => (grows_of_steps h).2 _ (hk.found result hresult)⟩

/-- A recorder knows what it needs to know after its own steps. -/
lemma Knows.steps (hk : Knows s pc) (h : Steps engine s pc t pc') : Knows t pc' := by
  cases h with
  | call result =>
    exact ⟨fun _ heq => by cases heq; exact List.mem_append_right _ List.mem_cons_self, nofun⟩
  | totalRequests => exact ⟨hk.called, nofun⟩
  | totalErrors => exact ⟨hk.called, nofun⟩
  | lookup => exact ⟨hk.called, fun _ heq => by cases heq; exact mem_names_modify.mpr (.inl rfl)⟩
  | requests => exact ⟨hk.called, fun _ heq => by cases heq; exact mem_names_modify.mpr (.inl rfl)⟩
  | value => exact ⟨nofun, nofun⟩

/-- Only the commands of calls have metrics. -/
lemma names_of_steps (hk : Knows s pc) (h : Steps engine s pc t pc')
    (hnames : ∀ name ∈ s.names, ∃ result ∈ s.called, result.commandName = name) :
    ∀ name ∈ t.names, ∃ result ∈ t.called, result.commandName = name := by
  intro name hname
  have hown : ∀ {result f}, pc.result = some result → name ∈ (s.modify result.commandName f).names →
      ∃ result ∈ s.called, result.commandName = name := by
    intro result f hresult hname
    rcases mem_names_modify.mp hname with rfl | hname
    · exact ⟨result, hk.called result hresult, rfl⟩
    · exact hnames name hname
  cases h with
  | call result =>
    obtain ⟨result', hresult', heq⟩ := hnames name hname
    exact ⟨result', List.mem_append_left _ hresult', heq⟩
  | totalRequests => exact hnames name hname
  | totalErrors => exact hnames name hname
  | lookup => exact hown rfl hname
  | requests => exact hown rfl hname
  | value => exact hown rfl hname

end Commands

/-! ## The books -/

section Reachable
variable [DecidableEq ι] {σ : Pool.State ι Shared Pc}

/-- In every reachable state every recorder knows what it needs to know. -/
lemma knows_of_recorders (h : (recorders engine ι).Reachable σ) (w : ι) :
    Knows σ.shared (σ.locals w) :=
  Pool.knows_induction (P := recorders engine ι) (K := fun _ => Knows) (fun _ => ⟨nofun, nofun⟩)
    (fun _ _ _ _ _ _ hk hstep => hk.steps (steps_of_step hstep))
    (fun _ _ _ _ _ _ _ _ _ _ hstep hk => hk.others (steps_of_step hstep)) h w

/-- No name is listed twice. -/
lemma nodup_of_recorders (h : (recorders engine ι).Reachable σ) : σ.shared.names.Nodup := by
  refine Pool.reachable_induction (P := recorders engine ι) (I := fun σ => σ.shared.names.Nodup)
    List.nodup_nil ?_ h
  intro σ w e σ' _ ih hnext
  have hsteps := steps_of_step (Pool.next_eq_some hnext).1
  generalize σ.locals w = pc, σ'.locals w = pc', σ'.shared = t at hsteps ⊢
  cases hsteps with
  | call => exact ih
  | totalRequests => exact ih
  | totalErrors => exact ih
  | lookup => exact Table.nodup_modify ih
  | requests => exact Table.nodup_modify ih
  | value => exact Table.nodup_modify ih

/-- Every name is that of a result. -/
lemma names_of_recorders (h : (recorders engine ι).Reachable σ) :
    ∀ name ∈ σ.shared.names, ∃ result ∈ σ.shared.called, result.commandName = name :=
  Pool.reachable_induction (P := recorders engine ι)
    (I := fun σ => ∀ name ∈ σ.shared.names, ∃ result ∈ σ.shared.called,
      result.commandName = name) nofun
    (fun _ w _ _ hσ ih hnext =>
      names_of_steps (knows_of_recorders hσ w) (steps_of_step (Pool.next_eq_some hnext).1) ih) h

variable [Fintype ι]

/-- What was called is in the totals, or a thread is still to add it. -/
lemma totals_eq (h : (recorders engine ι).Reachable σ) :
    (σ.shared.called.map totalsOf).sum
      = (σ.shared.collector.totalRequests, σ.shared.collector.totalErrors) + ∑ w,
      (σ.locals w).totals := by
  refine Pool.balance (P := recorders engine ι) (fun s => (s.called.map totalsOf).sum)
    (fun s => (s.collector.totalRequests, s.collector.totalErrors)) Pc.totals ?_ ?_ h
  · simp [recorders, Pc.totals, MetricsCollector.new, ← Prod.zero_eq_mk]
  · intro σ w e t pc' rest _ hstep hbook
    have hsteps := steps_of_step hstep
    generalize σ.locals w = pc at hsteps hbook
    generalize σ.shared = s at hsteps hbook
    cases hsteps with
    | call result =>
      rw [List.map_append, List.sum_append, hbook, List.map_singleton, List.sum_singleton]
      simp only [Pc.totals, zero_add]
      abel
    | totalRequests =>
      rw [hbook]
      ext
      · simp only [Pc.totals, totalsOf, Prod.fst_add]
        omega
      · rfl
    | totalErrors =>
      rw [hbook]
      ext
      · simp only [Pc.totals, Prod.fst_add, Prod.fst_zero]
      · simp only [Pc.totals, Prod.snd_add, Prod.snd_zero]
        split <;> omega
    | lookup => exact hbook
    | requests => exact hbook
    | value => exact hbook

/-- What was called is counted for its command, or a thread is still to count it. -/
lemma counts_eq (name : String) (h : (recorders engine ι).Reachable σ) :
    (σ.shared.called.map (countsOf engine name)).sum
      = CommandMetrics.counts (metricsOf name σ.shared.collector) + ∑ w,
      (σ.locals w).counts engine name := by
  refine Pool.balance (P := recorders engine ι) (fun s => (s.called.map (countsOf engine name)).sum)
    (fun s => CommandMetrics.counts (metricsOf name s.collector)) (Pc.counts engine name) ?_ ?_ h
  · simp [recorders, Pc.counts, MetricsCollector.new, metricsOf, Table.get, CommandMetrics.counts,
      CommandMetrics.new, ← Prod.zero_eq_mk]
  · intro σ w e t pc' rest _ hstep hbook
    have hsteps := steps_of_step hstep
    generalize σ.locals w = pc at hsteps hbook
    generalize σ.shared = s at hsteps hbook
    -- the change of a command moves what the thread has to add into its metrics
    have hmodify : ∀ {name' f d}, (∀ m, CommandMetrics.counts (f m) = CommandMetrics.counts m + d) →
        CommandMetrics.counts (metricsOf name (s.modify name' f).collector)
          = CommandMetrics.counts (metricsOf name s.collector) + if name' = name then d else 0 :=
      fun hf => counts_modify hf _
    cases hsteps with
    | call result =>
      rw [List.map_append, List.sum_append, hbook, List.map_singleton, List.sum_singleton]
      simp only [Pc.counts, zero_add]
      abel
    | totalRequests => exact hbook
    | totalErrors => exact hbook
    | lookup =>
      rw [hmodify (f := id) (d := 0) fun m => (add_zero _).symm, ite_self, add_zero]
      exact hbook
    | @requests result =>
      rw [hmodify (d := (1, 0, 0)) fun m => by simp [CommandMetrics.counts]]
      refine hbook.trans ?_
      simp only [Pc.counts, countsOf]
      split
      · abel
      · simp only [add_zero]
    | @value result =>
      rw [hmodify (counts_recordValue result)]
      refine hbook.trans ?_
      simp only [Pc.counts, zero_add, add_assoc]

end Reachable

/-! ## One after the other -/

/-- The totals of results recorded one after the other. -/
lemma foldl_record_totals (results : List CommandResult) (c : MetricsCollector) :
    let c' := results.foldl (fun c result => c.record engine.bounded result) c
    (c'.totalRequests, c'.totalErrors) = (c.totalRequests, c.totalErrors)
      + (results.map totalsOf).sum := by
  induction results generalizing c with
  | nil => exact (add_zero _).symm
  | cons result results ih =>
    dsimp only at ih ⊢
    rw [List.foldl_cons, ih, List.map_cons, List.sum_cons, ← add_assoc]
    congr 1
    ext
    · rfl
    · simp only [MetricsCollector.record, totalsOf, Prod.snd_add]
      split <;> rfl

/-- The counts of results recorded one after the other. -/
lemma foldl_record_counts (name : String) (results : List CommandResult) (c : MetricsCollector) :
    CommandMetrics.counts
      (metricsOf name (results.foldl (fun c result => c.record engine.bounded result) c))
      = CommandMetrics.counts (metricsOf name c) + (results.map (countsOf engine name)).sum := by
  induction results generalizing c with
  | nil => exact (add_zero _).symm
  | cons result results ih =>
    rw [List.foldl_cons, ih, List.map_cons, List.sum_cons, ← add_assoc]
    congr 1
    exact counts_modify (counts_record result) _

/-- The names of results recorded one after the other. -/
lemma keys_foldl_record (engine : Engine) (results : List CommandResult) (c : MetricsCollector) :
    let c' := results.foldl (fun c result => c.record engine.bounded result) c
    ((Table.keys c.commandMetrics).Nodup → (Table.keys c'.commandMetrics).Nodup) ∧
      ∀ name, name ∈ Table.keys c'.commandMetrics ↔
        name ∈ Table.keys c.commandMetrics ∨ ∃ result ∈ results, result.commandName = name := by
  induction results generalizing c with
  | nil => exact ⟨id, fun name => by simp⟩
  | cons result results ih =>
    obtain ⟨hnodup, hkeys⟩ := ih (c.record engine.bounded result)
    refine ⟨fun hc => hnodup (Table.nodup_modify hc), fun name => ?_⟩
    rw [List.foldl_cons, hkeys, MetricsCollector.record, Table.mem_keys_modify,
      List.exists_mem_cons_iff]
    constructor
    · rintro ((rfl | hname) | hrest)
      · exact .inr (.inl rfl)
      · exact .inl hname
      · exact .inr (.inr hrest)
    · rintro (hname | rfl | hrest)
      · exact .inl (.inr hname)
      · exact .inl (.inl rfl)
      · exact .inr hrest

/-! ## Results -/

/-- Two collectors agree, but for the order of their commands and of the values in their
histograms. -/
structure Agrees (c c' : MetricsCollector) : Prop where
  totalRequests : c.totalRequests = c'.totalRequests
  totalErrors : c.totalErrors = c'.totalErrors
  commands : (Table.keys c.commandMetrics).Perm (Table.keys c'.commandMetrics)
  requests : ∀ name, (metricsOf name c).requests = (metricsOf name c').requests
  errors : ∀ name, (metricsOf name c).errors = (metricsOf name c').errors
  histogram : ∀ name, (metricsOf name c).histogram.Perm (metricsOf name c').histogram

/-- A command of a call is counted. -/
lemma counts_ne_zero {results : List CommandResult} {result : CommandResult}
    (h : result ∈ results) :
    (results.map (countsOf engine result.commandName)).sum ≠ 0 := by
  intro hzero
  have hfst : (results.map fun r => (countsOf engine result.commandName r).1).sum = 0 := by
    have hmap := congrArg (AddMonoidHom.fst ℕ (ℕ × Multiset ℤ)) hzero
    rwa [map_list_sum, List.map_map, map_zero] at hmap
  have hone : (countsOf engine result.commandName result).1 = 0 :=
    List.sum_eq_zero_iff.mp hfst _ (List.mem_map_of_mem h)
  simp [countsOf, valueOf] at hone

/-- In every interleaving of any number of threads that record into a Java or C# collector, what was
called is in the totals and in the counts of its command, or a thread is still to add it, and every
thread can go on; and when all calls have returned, the collector agrees with the one that records
the same results one after the other. -/
theorem no_record_lost (engine : Engine) {ι : Type} [DecidableEq ι] [Fintype ι]
    {σ : Pool.State ι Shared Pc} (h : (recorders engine ι).Reachable σ) :
    ((σ.shared.called.map totalsOf).sum
        = (σ.shared.collector.totalRequests, σ.shared.collector.totalErrors) + ∑ w,
        (σ.locals w).totals ∧
      ∀ name, (σ.shared.called.map (countsOf engine name)).sum
        = CommandMetrics.counts (metricsOf name σ.shared.collector) + ∑ w,
        (σ.locals w).counts engine name) ∧
    (∀ w, σ.locals w ≠ .idle → ((recorders engine ι).next w .run σ).isSome) ∧
    ((∀ w, σ.locals w = .idle) → Agrees σ.shared.collector (recordAll engine σ.shared.called)) := by
  have htotals := totals_eq h
  have hcounts := fun name => counts_eq name h
  refine ⟨⟨htotals, hcounts⟩, fun w hw => ?_, fun hidle => ?_⟩
  · have hfound := (knows_of_recorders h w).found
    rw [Pool.next, Option.isSome_map]
    cases hpc : σ.locals w with
    | idle => exact absurd hpc hw
    | requests result =>
      rw [hpc] at hfound
      simp only [recorders, step, run, Shared.change]
      rw [if_pos (hfound result rfl)]
      rfl
    | value result =>
      rw [hpc] at hfound
      simp only [recorders, step, run, Shared.change]
      rw [if_pos (hfound result rfl)]
      rfl
    | _ => rfl
  · have hnothing : ∑ w, (σ.locals w).totals = 0 := Finset.sum_eq_zero fun w _ =>
      by rw [hidle w]; rfl
    have hnone : ∀ name, ∑ w, (σ.locals w).counts engine name = 0 := fun name =>
      Finset.sum_eq_zero fun w _ => by rw [hidle w]; rfl
    have hseq : (σ.shared.collector.totalRequests, σ.shared.collector.totalErrors)
        = ((recordAll engine σ.shared.called).totalRequests,
          (recordAll engine σ.shared.called).totalErrors) := by
      rw [recordAll, foldl_record_totals, htotals, hnothing, add_zero]
      exact (zero_add _).symm
    have hsame : ∀ name, CommandMetrics.counts (metricsOf name σ.shared.collector)
        = CommandMetrics.counts (metricsOf name (recordAll engine σ.shared.called)) :=
          fun name => by
      rw [recordAll, foldl_record_counts, hcounts name, hnone name, add_zero]
      exact (zero_add _).symm
    obtain ⟨hnodup, hkeys⟩ := keys_foldl_record engine σ.shared.called .new
    refine ⟨congrArg Prod.fst hseq, congrArg Prod.snd hseq, ?_,
      fun name => congrArg (·.1) (hsame name), fun name => congrArg (·.2.1) (hsame name),
        fun name => Multiset.coe_eq_coe.mp (congrArg (·.2.2) (hsame name))⟩
    refine (List.perm_ext_iff_of_nodup (nodup_of_recorders h) (hnodup List.nodup_nil)).mpr
      fun name => ?_
    rw [hkeys]
    refine ⟨fun hname => .inr (names_of_recorders h name hname), ?_⟩
    rintro (hname | ⟨result, hresult, rfl⟩)
    · exact absurd hname List.not_mem_nil
    · by_contra hnew
      have hzero := hcounts result.commandName
      rw [hnone, add_zero, metricsOf, Table.get_of_notMem hnew] at hzero
      exact counts_ne_zero hresult hzero

def first (event : Event) : Fin 2 × Event := (⟨0, Nat.two_pos⟩, event)
def second (event : Event) : Fin 2 × Event := (⟨1, Nat.one_lt_two⟩, event)

/-- Two threads record a success and an error of the same command, operation by operation in
turn. -/
def turns : List (Fin 2 × Event) :=
  [first (.call ⟨"GET", 120, true⟩), second (.call ⟨"GET", 0, false⟩)]
    ++ (List.replicate 5 [first .run, second .run]).flatten

def turnsEnd : Pool.State (Fin 2) Shared Pc :=
  ((recorders .csharp (Fin 2)).run turns (recorders .csharp (Fin 2)).init).get (by decide +kernel)

/-- The end of both turns is reachable. -/
lemma reachable_turnsEnd : (recorders .csharp (Fin 2)).Reachable turnsEnd :=
  Pool.Reachable.run .init (Option.some_get _).symm

/-- Both are counted. -/
theorem turnsEnd_agrees :
    turnsEnd.shared.collector = ⟨[("GET", ⟨"GET", 2, 1, [120]⟩)], 2, 1⟩ ∧
      Agrees turnsEnd.shared.collector (recordAll .csharp turnsEnd.shared.called) :=
  ⟨by decide +kernel, (no_record_lost .csharp reachable_turnsEnd).2.2 (by decide +kernel)⟩

end RespBench.Metrics.Eager.Concurrent
