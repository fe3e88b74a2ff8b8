import RespBench.Lib.Binary64
import RespBench.Lib.Table
import RespBench.Random.Ports

/-!
# Ruby workers

One phase of the Ruby engine: the forked processes of `execute_forked_workload` and the
threads of `execute_threaded_workload`, the division of the rate and of the requests among
them, their request loops with the keys that they draw, and how the parent merges what the
processes write to their pipes.

Ruby integers are unbounded. `rps_limit.to_f / num_processes` is computed in doubles
(`Lib.Binary64`). As in the other engines' models a loop is given a number of rounds and reports
`Fault.timeout` when it is used up. The stop flag of the threads is never raised here: only an
interrupt or an error of the main thread raises it.
-/

namespace RespBench.Ruby
open RespBench.Lib
open RespBench.Random (Fault)

/-! ## Configuration -/

inductive CompletionType where
  | duration
  | requests
  | other (type : String)
deriving DecidableEq

structure CompletionConfig where
  type : CompletionType
  seconds : Option ℤ
  requests : Option ℤ

def CompletionConfig.duration_based (c : CompletionConfig) : Bool := c.type = .duration
def CompletionConfig.duration_seconds (c : CompletionConfig) : ℤ := c.seconds.getD 0
def CompletionConfig.total_requests (c : CompletionConfig) : ℤ := c.requests.getD 0

inductive GenerationAlg where
  | sequential_int
  | uniform_rand
  | other (name : String)
deriving DecidableEq

structure KeyspaceConfig where
  keys_count : ℤ
  generation_alg : GenerationAlg
  seed : Option ℤ

def KeyspaceConfig.sequential_int (c : KeyspaceConfig) : Bool := c.generation_alg = .sequential_int
def KeyspaceConfig.seed_value (c : KeyspaceConfig) : ℤ := c.seed.getD 0

structure PhaseConfig where
  connections : ℤ
  rps_limit : ℤ
  completion : CompletionConfig
  keyspace : KeyspaceConfig

/-- `rps_limit?`. -/
def PhaseConfig.has_rps_limit (phase : PhaseConfig) : Bool := phase.rps_limit > 0

/-! ## Keys -/

structure KeyGenerator where
  keys_count : ℤ
  sequential : Bool
  sequential_counter : ℤ
  random : Random.Ruby.JavaRandom

def KeyGenerator.create_with_seed (config : KeyspaceConfig) (seed : ℤ) : KeyGenerator where
  keys_count := config.keys_count
  sequential := config.sequential_int
  sequential_counter := 0
  random := .new seed

/-- Ruby's `%`: the result has the sign of the divisor. -/
def modulo (a b : ℤ) : Except Fault ℤ :=
  if b = 0 then .error (.illegalArgument "divided by 0") else .ok (a.fmod b)

/-- The key index that `next_key` formats. -/
def KeyGenerator.next_key (fuel : ℕ) (g : KeyGenerator) : Except Fault (ℤ × KeyGenerator) := do
  if g.sequential then
    let key_index ← modulo (g.sequential_counter + 1 - 1) g.keys_count
    return (key_index, { g with sequential_counter := g.sequential_counter + 1 })
  else
    let (key_index, random) ← g.random.next_int fuel g.keys_count
    let key_index ← modulo key_index g.keys_count
    return (key_index, { g with random })

/-! ## Metrics -/

inductive Command where
  | ping
  | get
  | set
deriving DecidableEq

/-- How a command ends: with a result, or with a `StandardError`. -/
inductive Outcome where
  | result (latency_micros : ℤ) (success : Bool)
  | raised

/-- The entry of one command; the latencies are those recorded, the newest last. -/
structure CmdMetrics where
  requests : ℕ
  errors : ℕ
  latencies : List ℤ

def CmdMetrics.empty : CmdMetrics := ⟨0, 0, []⟩

/-- A `Hash` from commands to entries, in insertion order. -/
abbrev CmdTable := List (Command × CmdMetrics)

/-- `table[name] ||= empty`, then the entry is changed. -/
def CmdTable.modify (name : Command) (f : CmdMetrics → CmdMetrics) (table : CmdTable) : CmdTable :=
  Table.modify .empty name f table

/-- The changes of one finished command. -/
def CmdMetrics.record (outcome : Outcome) (d : CmdMetrics) : CmdMetrics :=
  match outcome with
  | .result latency true =>
    { d with requests := d.requests + 1, latencies := d.latencies ++ [min latency 600000000] }
  | .result _ false => { d with requests := d.requests + 1, errors := d.errors + 1 }
  | .raised => { d with requests := d.requests + 1, errors := d.errors + 1 }

/-- `ThreadLocalCollector`. -/
structure ThreadLocalCollector where
  total_requests : ℕ
  total_errors : ℕ
  command_metrics : CmdTable

/-- `record`; a raised error is recorded as a failed result. -/
def ThreadLocalCollector.record (c : ThreadLocalCollector) (name : Command) (outcome : Outcome) :
    ThreadLocalCollector where
  total_requests := c.total_requests + 1
  total_errors := match outcome with
    | .result _ true => c.total_errors
    | .result _ false => c.total_errors + 1
    | .raised => c.total_errors + 1
  command_metrics := CmdTable.modify name (.record outcome) c.command_metrics

/-! ## The request loop -/

/-- What a worker meets: the command selected in each round and how it ends, and the readings of the
clock when the deadline is set and in each round. -/
structure Env where
  select : ℕ → Command
  outcome : ℕ → Outcome
  start : ℚ
  clock : ℕ → ℚ

/-- The state of a request loop: finished requests, generator, metrics, and the keys
drawn, the newest last. -/
structure LoopState (M : Type) where
  count : ℕ
  key_gen : KeyGenerator
  metrics : M
  keys : List ℤ

/-- One round: a command is selected, a key is drawn whether the command uses it or not, and
the outcome is recorded. -/
def LoopState.round {M : Type} (record : M → Command → Outcome → M) (env : Env) (fuel : ℕ)
    (st : LoopState M) : Except Fault (LoopState M) := do
  let (key, key_gen) ← st.key_gen.next_key fuel
  return ⟨st.count + 1, key_gen, record st.metrics (env.select st.count) (env.outcome st.count),
    st.keys ++ [key]⟩

/-- Rounds as long as a condition holds. -/
def whileLoop {M : Type} (cond : LoopState M → Bool)
    (record : M → Command → Outcome → M) (env : Env) (drawFuel : ℕ) :
    ℕ → LoopState M → Except Fault (LoopState M)
  | 0, _ => .error .timeout
  | fuel + 1, st =>
    if cond st then do
      let st' ← st.round record env drawFuel
      whileLoop cond record env drawFuel fuel st'
    else .ok st

/-- The loop of one worker: up to its target, or else up to the end time. -/
def requestLoop {M : Type} (record : M → Command → Outcome → M) (init : M) (env : Env) (fuel : ℕ)
    (key_gen : KeyGenerator) (my_target : Option ℤ) (end_time : ℚ) : Except Fault (LoopState M) :=
  let start : LoopState M := ⟨0, key_gen, init, []⟩
  match my_target with
  | some target => whileLoop (fun st => (st.count : ℤ) < target) record env fuel fuel start
  | none => whileLoop (fun st => env.clock st.count < end_time) record env fuel fuel start

/-! ## Process mode -/

def MAX_PROCESSES : ℤ := 16

def num_processes (phase : PhaseConfig) : ℤ := min phase.connections MAX_PROCESSES

/-- `(phase.rps_limit.to_f / num_processes).ceil`; an infinite quotient raises a
`FloatDomainError`. -/
def my_rps (phase : PhaseConfig) (num_processes : ℤ) : Except Fault (Option ℤ) :=
  if phase.has_rps_limit then
    match Binary64.round phase.rps_limit with
    | none => .error (.illegalArgument "Infinity")
    | some rate =>
      match Binary64.round (rate / num_processes) with
      | none => .error (.illegalArgument "Infinity")
      | some quotient => .ok (some ⌈quotient⌉)
  else .ok none

/-- The request target of every process. -/
def my_target (completion : CompletionConfig) (num_processes : ℤ) : Option ℤ :=
  if completion.duration_based then none
  else
    let total := completion.total_requests
    some (total / num_processes + if total % num_processes > 0 then 1 else 0)

/-- The `Hash` that a process sends to its parent. -/
structure ResultData where
  total_requests : ℕ
  total_errors : ℕ
  commands : CmdTable

/-- `run_request_loop`: the result of a process, and the keys that it drew. -/
def run_request_loop (keyspace : KeyspaceConfig) (seed_base : ℤ) (my_target : Option ℤ)
    (end_time : ℚ) (env : Env) (fuel : ℕ) : Except Fault (ResultData × List ℤ) := do
  let st ← requestLoop (fun table name outcome =>
    CmdTable.modify name (.record outcome) table) [] env
    fuel (.create_with_seed keyspace seed_base) my_target end_time
  return (⟨st.count, (st.metrics.map fun entry => entry.2.errors).sum, st.metrics⟩, st.keys)

/-- What the process `proc_idx` computes once it is connected. -/
def run_worker_process (phase : PhaseConfig) (proc_idx : ℕ) (env : Env) (fuel : ℕ) :
    Except Fault (ResultData × List ℤ) :=
  run_request_loop phase.keyspace (phase.keyspace.seed_value + proc_idx)
    (my_target phase.completion (num_processes phase))
      (env.start + phase.completion.duration_seconds)
    env fuel

/-- How the process `proc_idx` ends: it delivers the result of its run, or dies before it writes (a
failed connection, an error in the loop, a signal), or what it writes cannot be loaded. -/
inductive WorkerEnd (phase : PhaseConfig) (proc_idx : ℕ) where
  | delivers (result : ResultData) (exit_status : ℕ)
      (run : ∃ env fuel keys, run_worker_process phase proc_idx env fuel = .ok (result, keys))
  | dies (exit_status : ℕ)
  | garbles (message : String) (exit_status : ℕ)

/-- What the parent finds in a pipe. -/
inductive PipeData where
  | empty
  | loads (result : ResultData)
  | raises (message : String)

def WorkerEnd.pipe_data {phase : PhaseConfig} {proc_idx : ℕ} : WorkerEnd phase proc_idx → PipeData
  | .delivers result _ _ => .loads result
  | .dies _ => .empty
  | .garbles message _ => .raises message

/-- The parent reads the pipes in turn. Nothing is kept of an empty pipe, an error of `Marshal.load`
is rescued with a warning, and the status that `Process.waitpid` collects is not looked at. -/
def read_results (data : ℕ → PipeData) : ℕ → List ResultData
  | 0 => []
  | n + 1 => read_results data n ++
    match data n with
    | .empty => []
    | .loads result => [result]
    | .raises _ => []

/-- The totals and the merged entries of a phase. -/
structure MetricsCollector where
  total_requests : ℕ
  total_errors : ℕ
  command_metrics : CmdTable

/-- `add_raw_counts`, then `record_latency` for every latency. -/
def CmdMetrics.merge (d : CmdMetrics) (merged : CmdMetrics) : CmdMetrics :=
  ⟨merged.requests + d.requests, merged.errors + d.errors, merged.latencies ++ d.latencies⟩

/-- The commands of one result are merged into the entries of the phase. -/
def merge_commands (table : CmdTable) (commands : CmdTable) : CmdTable :=
  commands.foldl (fun merged entry => CmdTable.modify entry.1 entry.2.merge merged) table

inductive Status where
  | COMPLETED
  | ERROR
deriving DecidableEq

/-- `execute_forked_workload`: the status of the phase and its metrics. An error in the parent's own
code is rescued as `ERROR`; computing the rate of a process can raise one. -/
def execute_forked_workload (phase : PhaseConfig) (ends : ∀ i, WorkerEnd phase i) :
    Status × MetricsCollector :=
  match my_rps phase (num_processes phase) with
  | .error _ => (.ERROR, ⟨0, 0, []⟩)
  | .ok _ =>
    let results := read_results (fun i => (ends i).pipe_data) (num_processes phase).toNat
    (.COMPLETED,
      { total_requests := (results.map ResultData.total_requests).sum
        total_errors := (results.map ResultData.total_errors).sum
        command_metrics :=
          results.foldl (fun table result => merge_commands table result.commands) [] })

/-! ## Thread mode -/

def MAX_THREADS : ℤ := 256

/-- The number of threads for the slots of a phase, one slot for each connection. -/
def thread_count (phase : PhaseConfig) : ℤ := min (max 0 phase.connections) MAX_THREADS

/-- The request target of a thread; without threads the division raises a `ZeroDivisionError`. -/
def local_target (completion : CompletionConfig) (thread_count thread_idx : ℤ) : Option ℤ :=
  if completion.duration_based then none
  else
    let target := completion.total_requests
    some (target / thread_count + if thread_idx < target % thread_count then 1 else 0)

/-- The loop of the thread `thread_idx`: its collector, and the keys that it drew. -/
def run_thread (phase : PhaseConfig) (thread_idx : ℕ) (env : Env) (fuel : ℕ) :
    Except Fault (ThreadLocalCollector × List ℤ) := do
  let st ← requestLoop ThreadLocalCollector.record ⟨0, 0, []⟩ env fuel
    (.create_with_seed phase.keyspace (phase.keyspace.seed_value + thread_idx))
    (local_target phase.completion (thread_count phase) thread_idx)
    (env.start + phase.completion.duration_seconds)
  return (st.metrics, st.keys)

/-! ## A phase -/

inductive ConcurrencyMode where
  | process
  | thread
deriving DecidableEq

/-- The keys that all workers of a phase draw. -/
def phase_keys (mode : ConcurrencyMode) (phase : PhaseConfig) (env : ℕ → Env) (fuel : ℕ) :
    Except Fault (List ℤ) :=
  if mode = .process ∧ phase.connections > 1 then do
    let _ ← my_rps phase (num_processes phase)
    Runs.collect (fun i => (run_worker_process phase i (env i) fuel).map Prod.snd)
      (num_processes phase).toNat
  else if !phase.completion.duration_based && thread_count phase = 0 then
    .error (.illegalArgument "divided by 0")
  else
    Runs.collect (fun i => (run_thread phase i (env i) fuel).map Prod.snd)
      (thread_count phase).toNat

end RespBench.Ruby
