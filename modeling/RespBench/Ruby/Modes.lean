import RespBench.Hdr.Buckets
import RespBench.Lib.Table
import RespBench.Ruby.Workers

/-!
# The concurrency modes of the Ruby engine

A phase of the Ruby engine runs in processes or in threads. A process counts its requests in a plain
`Hash`, whose latencies its parent records again; a thread has a collector of its own, which is
merged in the end; and a collector can record by itself. `modes_agree` says that the three come to
the same collector, with its commands in the same order.

The classes of `metrics_collector.rb` are here with the histogram of the HDRHistogram gem as a
parameter (`HDRHistogram`); the `Hash` of a process is that of `Workers.lean`. The argument is that
merging a collector that has recorded one more result records this result into the merged collector
(`merge_record`, `merge_result_record`), and that a request loop goes the same way whatever it
records into (`requestLoop_lockstep`).
-/

namespace RespBench.Ruby.Modes
open RespBench.Lib
open RespBench.Random (Fault)

/-! ## The histogram -/

/-- What the collectors use of a histogram of the gem: `new` with the default parameters, `record`,
`merge!` and `count`. -/
structure HDRHistogram (H : Type) where
  new : H
  record : H → ℤ → H
  merge : H → H → H
  count : H → ℕ

/-- The laws of the gem: `merge!` adds what the other histogram has recorded. -/
structure HDRHistogram.Lawful {H : Type} (gem : HDRHistogram H) : Prop where
  count_new : gem.count gem.new = 0
  count_record : ∀ h latency, 0 ≤ latency → latency ≤ 600000000 →
    gem.count (gem.record h latency) = gem.count h + 1
  merge_empty : ∀ h other, gem.count other = 0 → gem.merge h other = h
  merge_record : ∀ h other latency, 0 ≤ latency → latency ≤ 600000000 →
    gem.merge h (gem.record other latency) = gem.record (gem.merge h other) latency

variable {H : Type} (gem : HDRHistogram H)

/-! ## The collectors of the threads -/

structure ThreadLocalCommandMetrics (H : Type) where
  requests : ℕ
  errors : ℕ
  histogram : H

def ThreadLocalCommandMetrics.new : ThreadLocalCommandMetrics H := ⟨0, 0, gem.new⟩

/-- `record`; a raised error is recorded as a failed result. -/
def ThreadLocalCommandMetrics.record (outcome : Outcome) (m : ThreadLocalCommandMetrics H) :
    ThreadLocalCommandMetrics H :=
  match outcome with
  | .result latency true =>
    let latency := if latency > 600000000 then 600000000 else latency
    { m with requests := m.requests + 1, histogram := gem.record m.histogram latency }
  | .result _ false => { m with requests := m.requests + 1, errors := m.errors + 1 }
  | .raised => { m with requests := m.requests + 1, errors := m.errors + 1 }

/-- Whether an outcome counts as an error. -/
def failed : Outcome → Bool
  | .result _ success => !success
  | .raised => true

structure ThreadLocalCollector (H : Type) where
  total_requests : ℕ
  total_errors : ℕ
  command_metrics : List (Command × ThreadLocalCommandMetrics H)

def ThreadLocalCollector.new : ThreadLocalCollector H := ⟨0, 0, []⟩

/-- `record`. -/
def ThreadLocalCollector.record (c : ThreadLocalCollector H) (name : Command) (outcome : Outcome) :
    ThreadLocalCollector H where
  total_requests := c.total_requests + 1
  total_errors := if failed outcome then c.total_errors + 1 else c.total_errors
  command_metrics := Table.modify (.new gem) name (.record gem outcome) c.command_metrics

/-! ## The collector of a phase -/

structure CommandMetrics (H : Type) where
  requests : ℕ
  errors : ℕ
  histogram : Option H

namespace CommandMetrics

def new : CommandMetrics H := ⟨0, 0, none⟩

/-- `record`. -/
def record (outcome : Outcome) (m : CommandMetrics H) : CommandMetrics H :=
  match outcome with
  | .result latency true =>
    { m with
      requests := m.requests + 1
      histogram := some (gem.record (m.histogram.getD gem.new) (min latency 600000000)) }
  | .result _ false => { m with requests := m.requests + 1, errors := m.errors + 1 }
  | .raised => { m with requests := m.requests + 1, errors := m.errors + 1 }

/-- `merge_from`. -/
def merge_from (src : ThreadLocalCommandMetrics H) (m : CommandMetrics H) : CommandMetrics H where
  requests := m.requests + src.requests
  errors := m.errors + src.errors
  histogram :=
    if gem.count src.histogram > 0 then some (gem.merge (m.histogram.getD gem.new) src.histogram)
      else m.histogram

/-- `add_raw_counts`. -/
def add_raw_counts (requests errors : ℕ) (m : CommandMetrics H) : CommandMetrics H :=
  { m with requests := m.requests + requests, errors := m.errors + errors }

/-- `record_latency`. -/
def record_latency (m : CommandMetrics H) (latency_micros : ℤ) : CommandMetrics H :=
  { m with histogram := some (gem.record (m.histogram.getD gem.new) latency_micros) }

end CommandMetrics

/-- `MetricsCollector`, without its times. -/
structure MetricsCollector (H : Type) where
  total_requests : ℕ
  total_errors : ℕ
  command_metrics : List (Command × CommandMetrics H)

namespace MetricsCollector

def new : MetricsCollector H := ⟨0, 0, []⟩

/-- `record`. -/
def record (c : MetricsCollector H) (name : Command) (outcome : Outcome) : MetricsCollector H where
  total_requests := c.total_requests + 1
  total_errors := if failed outcome then c.total_errors + 1 else c.total_errors
  command_metrics := Table.modify .new name (.record gem outcome) c.command_metrics

/-- One round of `merge_thread_collectors`. -/
def merge_thread_collector (c : MetricsCollector H) (collector : ThreadLocalCollector H) :
    MetricsCollector H where
  total_requests := c.total_requests + collector.total_requests
  total_errors := c.total_errors + collector.total_errors
  command_metrics := Table.merge .new (.merge_from gem) c.command_metrics collector.command_metrics

/-- `merge_thread_collectors`. -/
def merge_thread_collectors (c : MetricsCollector H) (collectors : List (ThreadLocalCollector H)) :
    MetricsCollector H :=
  collectors.foldl (merge_thread_collector gem) c

/-- `set_totals_from_processes`. -/
def set_totals_from_processes (c : MetricsCollector H) (results : List ResultData) :
    MetricsCollector H :=
  { c with
    total_requests := (results.map ResultData.total_requests).sum
    total_errors := (results.map ResultData.total_errors).sum }

end MetricsCollector

/-! ## The two modes -/

/-- How the parent takes in the entry of a command. -/
def add_entry (cmd_data : CmdMetrics) (merged : CommandMetrics H) : CommandMetrics H :=
  cmd_data.latencies.foldl (CommandMetrics.record_latency gem)
    (merged.add_raw_counts cmd_data.requests cmd_data.errors)

/-- The loop of `execute_forked_workload` over the commands of a result. -/
def merge_result (command_metrics : List (Command × CommandMetrics H)) (result : ResultData) :
    List (Command × CommandMetrics H) :=
  Table.merge .new (add_entry gem) command_metrics result.commands

/-- The collector that `execute_forked_workload` makes of the results of its processes. -/
def merge_processes (results : List ResultData) : MetricsCollector H :=
  MetricsCollector.set_totals_from_processes ⟨0, 0, results.foldl (merge_result gem) []⟩ results

/-- The block of a thread in `execute_threaded_workload`: its collector, and the keys that it
drew. -/
def run_thread_loop (keyspace : KeyspaceConfig) (thread_seed : ℤ) (my_target : Option ℤ)
    (end_time : ℚ) (env : Env) (fuel : ℕ) : Except Fault (ThreadLocalCollector H × List ℤ) := do
  let st ← requestLoop (ThreadLocalCollector.record gem) .new env fuel
    (.create_with_seed keyspace thread_seed) my_target end_time
  return (st.metrics, st.keys)

/-! ## Merging what was recorded -/

/-- A latency is not negative. -/
def Timed (outcome : Outcome) : Prop := ∀ latency, outcome = .result latency true → 0 ≤ latency

section Threads
variable (hgem : gem.Lawful)
include hgem

/-- Merging into new metrics changes nothing. -/
lemma merge_from_new : CommandMetrics.merge_from gem (.new gem) = id := by
  funext m
  rw [CommandMetrics.merge_from, ThreadLocalCommandMetrics.new]
  dsimp only
  rw [hgem.count_new, if_neg (lt_irrefl 0)]
  rfl

/-- The metrics of a command that a thread recorded once more. -/
lemma merge_from_record {outcome : Outcome} (htimed : Timed outcome)
    (src : ThreadLocalCommandMetrics H) :
    CommandMetrics.merge_from gem (src.record gem outcome)
      = CommandMetrics.record gem outcome ∘ CommandMetrics.merge_from gem src := by
  funext m
  cases outcome with
  | raised => rfl
  | result latency success =>
    cases success with
    | false => rfl
    | true =>
      have h0 := htimed latency rfl
      have hclamp : (if latency > 600000000 then 600000000 else latency)
        = min latency 600000000 := by
        split <;> omega
      have hcount := hgem.count_record src.histogram (min latency 600000000) (by omega) (by omega)
      have hmerge :=
        hgem.merge_record (m.histogram.getD gem.new) src.histogram (min latency 600000000)
        (by omega) (by omega)
      simp only [CommandMetrics.merge_from, ThreadLocalCommandMetrics.record,
        CommandMetrics.record, hclamp, Function.comp_apply, hcount, hmerge, Nat.add_assoc]
      rw [if_pos (Nat.succ_pos _)]
      split
      · rfl
      next hnone =>
        -- nothing was recorded before, and merging an empty histogram changes nothing
        rw [hgem.merge_empty _ _ (by omega)]

/-- The collector of a thread that recorded once more. -/
theorem merge_record {collector : ThreadLocalCollector H}
    (hnodup : (Table.keys collector.command_metrics).Nodup) (name : Command) {outcome : Outcome}
    (htimed : Timed outcome) (c : MetricsCollector H) :
    c.merge_thread_collector gem (collector.record gem name outcome)
      = (c.merge_thread_collector gem collector).record gem name outcome := by
  have hcommands := Table.merge_modify CommandMetrics.new (merge_from_record gem hgem htimed)
    (merge_from_new gem hgem) name hnodup c.command_metrics
  simp only [MetricsCollector.merge_thread_collector, ThreadLocalCollector.record,
    MetricsCollector.record, hcommands, Nat.add_assoc]
  split <;> rfl

end Threads

/-- Latencies recorded in a row. -/
lemma foldl_record_latency (latencies : List ℤ) (m : CommandMetrics H) :
    latencies.foldl (CommandMetrics.record_latency gem) m = { m with
      histogram := latencies.foldl (fun h latency => some (gem.record (h.getD gem.new) latency))
        m.histogram } := by
  induction latencies generalizing m with
  | nil => rfl
  | cons latency latencies ih =>
    rw [List.foldl_cons, ih]
    rfl

/-- An empty entry adds nothing. -/
lemma add_entry_empty : add_entry gem .empty = id := rfl

/-- The entry of a command that a process recorded once more. -/
lemma add_entry_record (outcome : Outcome) (cmd_data : CmdMetrics) :
    add_entry gem (cmd_data.record outcome) = CommandMetrics.record gem outcome ∘
    add_entry gem cmd_data := by
  funext m
  simp only [add_entry, Function.comp_apply, foldl_record_latency, CommandMetrics.add_raw_counts]
  cases outcome with
  | raised => rfl
  | result latency success =>
    cases success with
    | false => rfl
    | true => simp only [CmdMetrics.record, CommandMetrics.record, List.foldl_append,
        Nat.add_assoc]; rfl

/-- The commands of a process that recorded once more. -/
theorem merge_result_record {commands : CmdTable} (hnodup : (Table.keys commands).Nodup)
    (name : Command) (outcome : Outcome) (table : List (Command × CommandMetrics H)) :
    Table.merge .new (add_entry gem) table (CmdTable.modify name (.record outcome) commands)
      = Table.modify .new name (.record gem outcome)
      (Table.merge .new (add_entry gem) table commands) :=
  Table.merge_modify .new (add_entry_record gem outcome) (add_entry_empty gem) name hnodup table

/-! ## Histories -/

/-- The commands of a worker and how they ended, from one round to another. -/
def historyFrom (env : Env) (start len : ℕ) : List (Command × Outcome) :=
  (List.range' start len).map fun j => (env.select j, env.outcome j)

/-- The first rounds of a worker. -/
def history (env : Env) (count : ℕ) : List (Command × Outcome) := historyFrom env 0 count

/-- What a history leaves in a state that results are recorded into. -/
def recordAll {M : Type} (record : M → Command → Outcome → M) (m : M)
    (history : List (Command × Outcome)) : M :=
  history.foldl (fun m result => record m result.1 result.2) m

/-- A loop goes the same way whatever it records into. -/
lemma whileLoop_lockstep {M M' : Type} (cond : ℕ → Bool)
    {record : M → Command → Outcome → M} {env : Env} {drawFuel fuel : ℕ} {st st' : LoopState M}
    (h : whileLoop (fun st => cond st.count) record env drawFuel fuel st = .ok st')
    (record' : M' → Command → Outcome → M') (m : M') :
    ∃ len, st'.count = st.count + len ∧
      whileLoop (fun st => cond st.count) record' env drawFuel fuel ⟨st.count,
        st.key_gen, m, st.keys⟩
        = .ok ⟨st'.count, st'.key_gen, recordAll record' m (historyFrom env st.count len),
          st'.keys⟩ := by
  induction fuel generalizing st m with
  | zero => cases h
  | succ fuel ih =>
    rw [whileLoop] at h ⊢
    dsimp only at h ⊢
    split at h
    next hcond =>
      rw [if_pos hcond]
      cases hkey : st.key_gen.next_key drawFuel with
      | error err =>
        rw [LoopState.round, hkey] at h
        cases h
      | ok drawn =>
        rw [LoopState.round, hkey] at h ⊢
        obtain ⟨len, hcount, hrest⟩ := ih h (record' m (env.select st.count) (env.outcome st.count))
        exact ⟨len + 1, by rw [hcount]; dsimp only; omega, hrest⟩
    next hcond =>
      cases h
      rw [if_neg hcond]
      exact ⟨0, rfl, rfl⟩

/-- A request loop goes the same way whatever it records into. -/
lemma requestLoop_lockstep {M M' : Type} {record : M → Command → Outcome → M} {init : M}
    {env : Env} {fuel : ℕ} {key_gen : KeyGenerator} {my_target : Option ℤ} {end_time : ℚ}
    {st' : LoopState M} (h : requestLoop record init env fuel key_gen my_target end_time = .ok st')
    (record' : M' → Command → Outcome → M') (m : M') :
    requestLoop record' m env fuel key_gen my_target end_time
      = .ok ⟨st'.count, st'.key_gen, recordAll record' m (history env st'.count), st'.keys⟩ := by
  cases my_target with
  | some target =>
    obtain ⟨len, hcount, hrun⟩ := whileLoop_lockstep (fun count => (count : ℤ) < target) h record' m
    rw [Nat.zero_add] at hcount
    rw [hcount]
    rw [hcount] at hrun
    exact hrun
  | none =>
    obtain ⟨len, hcount, hrun⟩ :=
      whileLoop_lockstep (fun count => env.clock count < end_time) h record' m
    rw [Nat.zero_add] at hcount
    rw [hcount]
    rw [hcount] at hrun
    exact hrun

/-- One more result is recorded last. -/
lemma recordAll_concat {M : Type} (record : M → Command → Outcome → M) (m : M)
    (history : List (Command × Outcome)) (result : Command × Outcome) :
    recordAll record m (history ++ [result]) = record (recordAll record m history) result.1
      result.2 := by
  rw [recordAll, List.foldl_append]
  rfl

/-- The `Hash` of a process with a history. -/
def tableOf (history : List (Command × Outcome)) : CmdTable :=
  recordAll (fun table name outcome => CmdTable.modify name (.record outcome) table) [] history

/-- The result of a process with a history. -/
def resultOf (history : List (Command × Outcome)) : ResultData :=
  ⟨history.length, ((tableOf history).map fun entry => entry.2.errors).sum, tableOf history⟩

/-- The collector of a thread with a history. -/
def collectorOf (history : List (Command × Outcome)) : ThreadLocalCollector H :=
  recordAll (ThreadLocalCollector.record gem) .new history

/-- The history has as many results as were counted. -/
@[simp] lemma length_history (env : Env) (count : ℕ) : (history env count).length = count := by
  rw [history, historyFrom, List.length_map, List.length_range']

/-- What a process delivers, and what a thread would have collected in its place. -/
theorem run_request_loop_eq {keyspace : KeyspaceConfig} {seed : ℤ} {my_target : Option ℤ}
    {end_time : ℚ} {env : Env} {fuel : ℕ} {data : ResultData} {keys : List ℤ}
    (h : run_request_loop keyspace seed my_target end_time env fuel = .ok (data, keys)) :
    data = resultOf (history env data.total_requests) ∧
      run_thread_loop gem keyspace seed my_target end_time env fuel
        = .ok (collectorOf gem (history env data.total_requests), keys) := by
  rw [run_request_loop] at h
  cases hloop : requestLoop (fun table name outcome =>
    CmdTable.modify name (.record outcome) table) [] env fuel
      (.create_with_seed keyspace seed) my_target end_time with
  | error err =>
    rw [hloop] at h
    cases h
  | ok st =>
    rw [hloop] at h
    cases h
    have hmetrics : st.metrics = tableOf (history env st.count) := by
      have hself := requestLoop_lockstep hloop
        (fun table name outcome => CmdTable.modify name (.record outcome) table)
        []
      rw [hloop] at hself
      exact congrArg LoopState.metrics (Except.ok.inj hself)
    constructor
    · rw [resultOf, length_history, hmetrics]
    · rw [run_thread_loop, requestLoop_lockstep hloop (ThreadLocalCollector.record gem) .new]
      rfl

/-- The table of a history names every command once. -/
lemma nodup_tableOf (history : List (Command × Outcome)) :
    (Table.keys (tableOf history)).Nodup := by
  induction history using List.reverseRecOn with
  | nil => exact List.nodup_nil
  | append_singleton history result ih =>
    rw [tableOf, recordAll_concat]
    exact Table.nodup_modify ih

/-- The collector of a history names every command once. -/
lemma nodup_collectorOf (history : List (Command × Outcome)) :
    (Table.keys (collectorOf gem history).command_metrics).Nodup := by
  induction history using List.reverseRecOn with
  | nil => exact List.nodup_nil
  | append_singleton history result ih =>
    rw [collectorOf, recordAll_concat]
    exact Table.nodup_modify ih

/-! ## What the modes come to -/

/-- Merging the collector of a thread records its history. -/
theorem merge_collectorOf (hgem : gem.Lawful) {history : List (Command × Outcome)}
    (htimed : ∀ result ∈ history, Timed result.2) (c : MetricsCollector H) :
    c.merge_thread_collector gem (collectorOf gem history)
      = recordAll (MetricsCollector.record gem) c history := by
  induction history using List.reverseRecOn with
  | nil => rfl
  | append_singleton history result ih =>
    have hlast := htimed result (List.mem_append_right _ (List.mem_singleton_self result))
    rw [recordAll_concat, ← ih fun r hr => htimed r (List.mem_append_left _ hr),
      ← merge_record gem hgem (nodup_collectorOf gem history) result.1 hlast, collectorOf,
        recordAll_concat]
    rfl

/-- Merging the result of a process records its history into the commands. -/
theorem merge_resultOf (history : List (Command × Outcome)) (c : MetricsCollector H) :
    merge_result gem c.command_metrics (resultOf history)
      = (recordAll (MetricsCollector.record gem) c history).command_metrics := by
  induction history using List.reverseRecOn with
  | nil => rfl
  | append_singleton history result ih =>
    have hrecord :=
      merge_result_record gem (nodup_tableOf history) result.1 result.2 c.command_metrics
    rw [recordAll_concat, MetricsCollector.record, ← ih, merge_result, merge_result,
      resultOf, tableOf, recordAll_concat]
    exact hrecord

/-- The totals of what was recorded. -/
lemma recordAll_totals (history : List (Command × Outcome)) (c : MetricsCollector H) :
    (recordAll (MetricsCollector.record gem) c history).total_requests = c.total_requests
      + history.length ∧
      (recordAll (MetricsCollector.record gem) c history).total_errors
        = c.total_errors + history.countP fun result => failed result.2 := by
  induction history using List.reverseRecOn with
  | nil => exact ⟨rfl, rfl⟩
  | append_singleton history result ih =>
    obtain ⟨hrequests, herrors⟩ := ih
    rw [recordAll_concat, MetricsCollector.record]
    dsimp only
    rw [hrequests, herrors, List.length_append, List.countP_append, List.countP_singleton]
    refine ⟨rfl, ?_⟩
    split <;> rfl

/-- The errors of a process are those of its commands. -/
lemma errors_resultOf (history : List (Command × Outcome)) :
    (resultOf history).total_errors = history.countP fun result => failed result.2 := by
  induction history using List.reverseRecOn with
  | nil => rfl
  | append_singleton history result ih =>
    have hentry : ∀ d : CmdMetrics, (d.record result.2).errors = d.errors + if failed result.2
      then 1 else 0 := by
      intro d
      cases result.2 with
      | raised => rfl
      | result latency success => cases success <;> rfl
    have hsum : ((Table.modify .empty result.1 (.record result.2) (tableOf history)).map
      fun entry =>
        entry.2.errors).sum = ((tableOf history).map fun entry => entry.2.errors).sum +
          if failed result.2 then 1 else 0 := Table.sum_modify hentry rfl
    rw [List.countP_append, List.countP_singleton, ← ih, resultOf, tableOf, recordAll_concat]
    exact hsum

/-- Histories in a row are recorded one after the other. -/
lemma recordAll_flatten {M : Type} (record : M → Command → Outcome → M) (m : M)
    (first : List (Command × Outcome)) (rest : List (List (Command × Outcome))) :
    recordAll record m (first :: rest).flatten
      = recordAll record (recordAll record m first) rest.flatten := by
  rw [List.flatten_cons, recordAll, List.foldl_append]
  rfl

/-- The collectors of all threads. -/
lemma merge_thread_collectors_eq (hgem : gem.Lawful) {histories : List (List (Command × Outcome))}
    (htimed : ∀ history ∈ histories, ∀ result ∈ history, Timed result.2) (c : MetricsCollector H) :
    c.merge_thread_collectors gem (histories.map (collectorOf gem))
      = recordAll (MetricsCollector.record gem) c histories.flatten := by
  induction histories generalizing c with
  | nil => rfl
  | cons history histories ih =>
    obtain ⟨hfirst, hrest⟩ := List.forall_mem_cons.mp htimed
    rw [recordAll_flatten, ← merge_collectorOf gem hgem hfirst, ← ih hrest]
    rfl

/-- The results of all processes. -/
lemma merge_processes_eq (histories : List (List (Command × Outcome))) :
    merge_processes gem (histories.map resultOf)
      = recordAll (MetricsCollector.record gem) .new histories.flatten := by
  have hcommands : ∀ c : MetricsCollector H, (histories.map resultOf).foldl (merge_result gem)
    c.command_metrics
      = (recordAll (MetricsCollector.record gem) c histories.flatten).command_metrics := by
    induction histories with
    | nil => exact fun _ => rfl
    | cons history histories ih =>
      intro c
      rw [recordAll_flatten, ← ih, ← merge_resultOf]
      rfl
  obtain ⟨hrequests, herrors⟩ := recordAll_totals gem histories.flatten (.new : MetricsCollector H)
  have hsums : ((histories.map resultOf).map ResultData.total_requests).sum
    = histories.flatten.length ∧
      ((histories.map resultOf).map ResultData.total_errors).sum
        = histories.flatten.countP fun result => failed result.2 := by
    rw [List.map_map, List.map_map, List.length_flatten, List.countP_flatten]
    refine ⟨rfl, ?_⟩
    rw [List.map_congr_left fun history _ => (errors_resultOf history).symm]
    rfl
  have hnew : (histories.map resultOf).foldl (merge_result gem) []
      = (recordAll (MetricsCollector.record gem) .new histories.flatten).command_metrics :=
        hcommands .new
  rw [merge_processes, MetricsCollector.set_totals_from_processes, hsums.1, hsums.2, hnew]
  generalize recordAll (MetricsCollector.record gem) .new histories.flatten
    = c at hrequests herrors ⊢
  obtain ⟨requests, errors, commands⟩ := c
  rw [MetricsCollector.new, Nat.zero_add] at hrequests herrors
  dsimp only at hrequests herrors ⊢
  rw [hrequests, herrors]

/-- When the workers of a phase return, it does not matter for its metrics whether they are
processes or threads: the parent's collector is the one that recorded all their results by itself,
one worker after the other. -/
theorem modes_agree (hgem : gem.Lawful) {n : ℕ} {keyspace : KeyspaceConfig} {seed : ℕ → ℤ}
    {my_target : ℕ → Option ℤ} {end_time : ℕ → ℚ} {env : ℕ → Env} {fuel : ℕ}
    (htimed : ∀ i j, Timed ((env i).outcome j)) {data : ℕ → ResultData} {keys : ℕ → List ℤ}
    (hrun : ∀ i < n, run_request_loop keyspace (seed i) (my_target i) (end_time i) (env i) fuel
      = .ok (data i, keys i)) :
    ∃ collectors : ℕ → ThreadLocalCollector H,
      (∀ i < n, run_thread_loop gem keyspace (seed i) (my_target i) (end_time i) (env i) fuel
        = .ok (collectors i, keys i)) ∧
      merge_processes gem ((List.range n).map data)
        = MetricsCollector.merge_thread_collectors gem .new ((List.range n).map collectors) ∧
      merge_processes gem ((List.range n).map data) = recordAll (MetricsCollector.record gem) .new
        ((List.range n).flatMap fun i => history (env i) (data i).total_requests) := by
  have hdata : (List.range n).map data
      = ((List.range n).map fun i => history (env i) (data i).total_requests).map resultOf := by
    rw [List.map_map]
    exact List.map_congr_left fun i hi =>
      (run_request_loop_eq gem (hrun i (List.mem_range.mp hi))).1
  have htimed' : ∀ results ∈ (List.range n).map fun i => history (env i) (data i).total_requests,
      ∀ result ∈ results, Timed result.2 := by
    intro results hresults result hresult
    obtain ⟨i, -, rfl⟩ := List.mem_map.mp hresults
    obtain ⟨j, -, rfl⟩ := List.mem_map.mp hresult
    exact htimed i j
  refine ⟨fun i => collectorOf gem (history (env i) (data i).total_requests),
    fun i hi => (run_request_loop_eq gem (hrun i hi)).2, ?_, ?_⟩
  · rw [hdata, merge_processes_eq, ← merge_thread_collectors_eq gem hgem htimed', List.map_map]
    rfl
  · rw [hdata, merge_processes_eq]
    rfl

/-! ## Two workers -/

/-- The gem by the buckets of its counts. -/
def bucketGem : HDRHistogram (Multiset ℕ) where
  new := 0
  record h latency := h + {Hdr.defaultLayout.index latency.toNat}
  merge h other := h + other
  count h := h.card

/-- The gem of the example is lawful. -/
lemma bucketGem_lawful : bucketGem.Lawful where
  count_new := rfl
  count_record h _ _ _ := Multiset.card_add h _
  merge_empty h other hnone := by
    rw [Multiset.card_eq_zero.mp hnone]
    exact add_zero h
  merge_record h other _ _ _ := (add_assoc h other _).symm

/-- A worker whose first request is a PING of five microseconds, and whose second one raises an
error. -/
def pingAndRaise : Env where
  select j := if j = 0 then .ping else .get
  outcome j := if j = 0 then .result 5 true else .raised
  start := 0
  clock _ := 0

/-- What it delivers. -/
def pingAndRaiseData : ResultData := ⟨2, 1, [(.ping, ⟨1, 0, [5]⟩), (.get, ⟨1, 1, []⟩)]⟩

/-- No latency of the example is negative. -/
lemma pingAndRaise_timed (j : ℕ) : Timed (pingAndRaise.outcome j) := by
  intro latency houtcome
  rw [pingAndRaise] at houtcome
  dsimp only at houtcome
  split at houtcome
  · cases houtcome
    norm_num
  · cases houtcome

/-- What a worker of the example computes. -/
lemma pingAndRaise_run (i : ℕ) :
    run_request_loop ⟨10, .sequential_int, none⟩ i (some 2) 0 pingAndRaise 3
    = .ok (pingAndRaiseData, [0, 1]) := rfl

/-- Both modes agree on two workers of the example. -/
theorem twoWorkers_modes_agree : ∃ collectors : ℕ → ThreadLocalCollector (Multiset ℕ),
    (∀ i : ℕ, i < 2 → run_thread_loop bucketGem ⟨10, .sequential_int, none⟩ i (some 2) 0
      pingAndRaise 3
      = .ok (collectors i, [0, 1])) ∧
    merge_processes bucketGem ((List.range 2).map fun _ => pingAndRaiseData)
      = MetricsCollector.merge_thread_collectors bucketGem .new ((List.range 2).map collectors) ∧
    merge_processes bucketGem ((List.range 2).map fun _ => pingAndRaiseData)
      = recordAll (MetricsCollector.record bucketGem) .new
        ((List.range 2).flatMap fun _ => history pingAndRaise pingAndRaiseData.total_requests) :=
  modes_agree bucketGem bucketGem_lawful (fun _ j => pingAndRaise_timed j) fun i _ =>
    pingAndRaise_run i

end RespBench.Ruby.Modes
