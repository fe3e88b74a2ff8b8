import RespBench.Lib.Pool
import RespBench.Limiter.Schedule
import RespBench.Metrics.Eager
import RespBench.Python.Workers

/-!
# The Python workers

The worker coroutines of `_run_workload`, as many for each connection as its pipeline is deep, on
the event loop of `asyncio`. One of them runs at a time, until it awaits something that is not there
yet: `running` is the one that has the loop. A command may return without suspending, so a worker
can finish many requests while it runs.

The loader has validated the phase. Nothing is cancelled or interrupted. A key is drawn in every
round (`next_key`), and a draw that never returns keeps the loop; which keys the commands receive is
the subject of `RespBench.Python.Workers`. Times are nanoseconds of the monotonic clock, and a sleep
lasts as long as it was asked to, or longer.
-/

namespace RespBench.Python.EventLoop
open RespBench.Lib RespBench.Limiter
open RespBench.Metrics (CommandResult)
open RespBench.Metrics.Eager (MetricsCollector)

def YIELD_EVERY_N_REQUESTS : ℕ := 64
def CONSECUTIVE_FAILURE_BACKOFF_AFTER : ℕ := 8

/-- `MAX_FAILURE_BACKOFF_SECONDS`, in nanoseconds. -/
def MAX_FAILURE_BACKOFF : ℤ := 50000000

def HIGHEST_TRACKABLE_VALUE : ℤ := 600000000

/-- What `_run_workload` reads of its phase. `target_requests` is `None` in a duration-based one. -/
structure Phase where
  connections : ℕ
  connections_pos : 0 < connections
  effective_pipeline_depth : ℕ
  effective_pipeline_depth_pos : 0 < effective_pipeline_depth
  rps_limit : ℤ
  target_requests : Option ℕ
  commands : List String
  commands_ne_nil : commands ≠ []
  keyspace : KeyspaceConfig
  keyspace_valid : keyspace.Valid

/-- The interval of the limiter, if the phase has one. -/
def Phase.rate_limiter (phase : Phase) : Option ℤ :=
  if phase.rps_limit > 0 then some (intervalNanos phase.rps_limit) else none

/-- The workers: one for each slot of each connection. -/
abbrev Phase.Worker (phase : Phase) : Type :=
  Fin phase.connections × Fin phase.effective_pipeline_depth

/-- How `command.execute` ends: with a result, or with an exception. -/
inductive Outcome where
  | result (latency_micros : ℤ) (success : Bool)
  | exception
deriving DecidableEq

def Outcome.success : Outcome → Bool
  | .result _ success => success
  | .exception => false

/-- What is recorded. -/
def Outcome.toResult (command : String) : Outcome → CommandResult
  | .result latency_micros success => ⟨command, latency_micros, success⟩
  | .exception => ⟨command, 0, false⟩

/-- `collector.record(result)`. -/
def record (c : MetricsCollector) (result : CommandResult) : MetricsCollector :=
  c.record (min · HIGHEST_TRACKABLE_VALUE) result

/-- Where a worker is. -/
inductive Pc where
  -- its task has not started
  | created
  -- `while True`
  | top
  -- `now >= self._next_allowed_nanos`
  | acquire
  -- `await asyncio.sleep(wait_seconds)`
  | sleep (until_ : ℤ)
  -- `command = selector.select()`
  | select
  -- `await command.execute(client, key)`, while the worker runs
  | execute (command : String)
  -- the same, suspended
  | suspended (command : String)
  -- `await asyncio.sleep(...)` at the end of a round
  | pause (until_ : ℤ)
  | done
deriving DecidableEq

/-- `failing_since` is history: when the first of the consecutive failures was recorded. -/
structure Local where
  pc : Pc
  since_yield : ℕ
  consecutive_failures : ℕ
  failing_since : ℤ
deriving DecidableEq

/-- What the workers share, and who runs: `random` are the random numbers of the generators, one for
each connection. `served` is history: how many requests that worker has finished since it got the
loop. -/
structure Shared (phase : Phase) where
  request_budget : ℕ
  schedule : Schedule
  collector : MetricsCollector
  shared_counter : ℕ
  random : Fin phase.connections → Random.Python.JavaRandom
  running : Option phase.Worker
  served : ℕ

/-- Time passes; the loop resumes a worker; the worker goes on, with the clock beyond `end_time` or
not; it selects a command; the command suspends it, or ends. -/
inductive Event where
  | tick (d : ℕ)
  | resume
  | run (expired : Bool)
  | select (command : String)
  | suspend
  | finish (outcome : Outcome)

/-- How long a worker sleeps after so many consecutive failures. -/
def backoff (consecutive_failures : ℕ) : ℤ :=
  if consecutive_failures ≥ CONSECUTIVE_FAILURE_BACKOFF_AFTER then
    min (1000000 * ((consecutive_failures : ℤ) - CONSECUTIVE_FAILURE_BACKOFF_AFTER + 1))
      MAX_FAILURE_BACKOFF
  else 0

section Machine
variable (fuel : ℕ) (phase : Phase) (w : phase.Worker)

/-- Whether a worker that rests can be resumed, and where it goes on. -/
def awake (now : ℤ) : Pc → Option Pc
  | .created => some .top
  | .sleep until_ => if until_ ≤ now then some .acquire else none
  | .suspended command => some (.execute command)
  | .pause until_ => if until_ ≤ now then some .top else none
  | _ => none

/-- Where a round goes on that has been claimed. -/
def claimed : Pc := if phase.rate_limiter.isSome then .acquire else .select

/-- The next operation of the worker that runs. -/
def advance (expired : Bool) (s : Shared phase) (l : Local) : Option (Shared phase × Local) :=
  match l.pc with
  | .top =>
    match phase.target_requests with
    | some target_requests =>
      if s.request_budget ≥ target_requests then
        some ({ s with request_budget := s.request_budget + 1, running := none },
          { l with pc := .done })
      else some ({ s with request_budget := s.request_budget + 1 }, { l with pc := claimed phase })
    | none =>
      if expired then some ({ s with running := none }, { l with pc := .done })
      else some (s, { l with pc := claimed phase })
  | .acquire =>
    match phase.rate_limiter with
    | none => none
    | some interval =>
      if s.schedule.clock ≥ s.schedule.nextAllowed then
        some ({ s with schedule := s.schedule.grant interval s.schedule.clock },
          { l with pc := .select })
      else
        some ({ s with running := none },
          { l with pc := .sleep (s.schedule.clock + (s.schedule.nextAllowed - s.schedule.clock)) })
  | _ => none

/-- `key_gen.next_key()`, with the counter that all generators share. Without a result it draws for
ever. -/
def next_key (connection : Fin phase.connections) (s : Shared phase) : Option (Shared phase) :=
  let key_gen : KeyGenerator := ⟨phase.keyspace, s.shared_counter, s.random connection⟩
  (key_gen.next_key fuel).toOption.map fun r =>
    { s with
      shared_counter := r.2.sequential_counter
      random := Function.update s.random connection r.2.random }

variable {phase} in
/-- The end of a round: the request is recorded, and the worker yields after a failure, and
after so many requests. -/
def finish (command : String) (outcome : Outcome) (s : Shared phase) (l : Local) :
    Shared phase × Local :=
  let s := { s with collector := record s.collector (outcome.toResult command), served :=
    s.served + 1 }
  let since_yield := l.since_yield + 1
  if outcome.success then
    if since_yield ≥ YIELD_EVERY_N_REQUESTS then
      ({ s with running := none },
        { l with pc := .pause s.schedule.clock, since_yield := 0, consecutive_failures := 0 })
    else (s, { l with pc := .top, since_yield := since_yield, consecutive_failures := 0 })
  else
    let consecutive_failures := l.consecutive_failures + 1
    ({ s with running := none },
      { pc := .pause (s.schedule.clock + backoff consecutive_failures)
        since_yield := 0
        consecutive_failures := consecutive_failures
        failing_since := if l.consecutive_failures = 0 then s.schedule.clock else l.failing_since })

def step (event : Event) (s : Shared phase) (l : Local) : Option (Shared phase × Local) :=
  match event with
  | .tick d => some ({ s with schedule := s.schedule.tick d }, l)
  | .resume =>
    if s.running = none then
      (awake s.schedule.clock l.pc).map fun pc =>
        ({ s with running := some w, served := 0 }, { l with pc := pc })
    else none
  | .run expired => if s.running = some w then advance phase expired s l else none
  | .select command =>
    if s.running = some w ∧ l.pc = .select ∧ command ∈ phase.commands then
      (next_key fuel phase w.1 s).map fun t => (t, { l with pc := .execute command })
    else none
  | .suspend =>
    match l.pc with
    | .execute command =>
      if s.running = some w then some ({ s with running := none },
        { l with pc := .suspended command }) else none
    | _ => none
  | .finish outcome =>
    match l.pc with
    | .execute command => if s.running = some w then some (finish command outcome s l) else none
    | _ => none

end Machine

/-- The workers of a phase, whose limiter is created at `t0`. -/
def workers (fuel : ℕ) (phase : Phase) (t0 : ℤ) :
    Pool phase.Worker (Shared phase) Local Event where
  shared :=
    { request_budget := 0
      schedule := .new t0
      collector := .new
      shared_counter := 0
      random := fun idx => .new (phase.keyspace.seed_value + idx)
      running := none
      served := 0 }
  locals := fun _ => ⟨.created, 0, 0, t0⟩
  step := step fuel phase

end RespBench.Python.EventLoop
