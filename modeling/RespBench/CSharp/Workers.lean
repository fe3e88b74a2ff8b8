import RespBench.Lib.Pool

/-!
# C# pipelined workers

The pipelined workers of one phase in the C# engine: the tasks of `ExecuteWorkload` in
`RunPipelinedLoop`, with `ClaimAndSubmit` and the shared `RequestCount`. A step of a worker is one
atomic operation on the shared state, or one operation on its own; the tasks that it submitted
complete at any time, in any order, with a result or faulted.

A request is named by its ticket: the value of `RequestCount` that its claim read, or, when a phase
has no target and nothing is claimed, its number in the order of submission. What the commands are
does not matter here, nor how long the rate limiter takes. No worker throws, so that `Running` stays
1: the commands are asynchronous methods, whose exceptions fault their tasks, and `Record` accepts
every result. `RequestCount` is an unbounded integer, where the source has a `long`: in a
request-based phase it does not wrap as long as the target and the number of workers together are
below 2^63 (`requestCount_bounds`).
-/

namespace RespBench.CSharp
open RespBench.Lib

/-- What the pipelined workers read of their phase: the number of clients, the pipeline depth, and
`totalTargetRequests`, which is -1 unless the phase is request-based. -/
structure Phase where
  workers : ℕ
  pipelineDepth : ℕ
  totalTargetRequests : ℤ

/-- How a task completes: with a result, whose command succeeded or not, or faulted. -/
inductive Outcome where
  | result (success : Bool)
  | faulted
deriving DecidableEq

/-- Where `ClaimAndSubmit` is called: in round `i` of the initial fill, or after a completion. -/
inductive Site where
  | fill (i : ℕ)
  | refill
deriving DecidableEq

/-- Where a worker is. -/
inductive Pc where
  -- `for (int i = 0; i < pipelineDepth && Running == 1; i++)`
  | fill (i : ℕ)
  -- `UtcNow >= endTimeMs`
  | deadline (site : Site)
  -- `Interlocked.Increment(ref RequestCount) - 1`
  | claim (site : Site)
  -- `claimed >= totalTargetRequests`
  | compare (site : Site) (claimed : ℤ)
  -- `Interlocked.Decrement(ref RequestCount)`
  | undo (site : Site)
  -- `pending.Add(command.Execute(client, keyGen))`
  | submit (site : Site) (ticket : ℤ)
  -- `while (pending.Count > 0 && Running == 1)`
  | event
  -- `await Task.WhenAny(pending)`
  | whenAny
  -- `pending.Remove(completed)`
  | remove (ticket : ℤ)
  -- `await completed`, and `metrics.Record` of its result or of a failure
  | record (ticket : ℤ)
  -- `Interlocked.Increment(ref RequestCount)` of a phase without target
  | count
  -- `if (Running == 1)` before the refill
  | recheck
  | done
deriving DecidableEq

/-- The shared state. `claims` is history: how many requests were claimed. `recorded` lists the
calls of `metrics.Record`, the newest last. -/
structure Shared where
  requestCount : ℤ
  running : Bool
  claims : ℕ
  recorded : List (ℤ × Outcome)
deriving DecidableEq

structure Local where
  pc : Pc
  pending : List ℤ
  completed : List (ℤ × Outcome)
deriving DecidableEq

/-- `task.IsCompleted`: the outcome of a completed task. -/
def Local.outcome (l : Local) (ticket : ℤ) : Option Outcome := l.completed.lookup ticket

/-- The next step of a worker, the reading of the clock against the end time, the completion of one
of its tasks, or the end of `Task.WhenAny` with one of the completed tasks. -/
inductive Event where
  | run
  | time (expired : Bool)
  | complete (ticket : ℤ) (outcome : Outcome)
  | any (ticket : ℤ)
deriving DecidableEq

/-- After `ClaimAndSubmit` returned false. -/
def Site.refused : Site → Pc
  | .fill _ => .event
  | .refill => .event

/-- After `ClaimAndSubmit` returned true. -/
def Site.accepted : Site → Pc
  | .fill i => .fill (i + 1)
  | .refill => .event

section Machine
variable (phase : Phase)

/-- One operation of a worker. -/
def run (s : Shared) (l : Local) : Option (Shared × Local) :=
  match l.pc with
  | .fill i =>
    some (s, { l with pc :=
      if i < phase.pipelineDepth ∧ s.running then .deadline (.fill i) else .event })
  | .deadline _ => none
  | .claim site =>
    if phase.totalTargetRequests > 0 then
      some ({ s with
          requestCount := s.requestCount + 1
          claims := if s.requestCount < phase.totalTargetRequests then s.claims + 1 else s.claims },
        { l with pc := .compare site s.requestCount })
    else some ({ s with claims := s.claims + 1 }, { l with pc := .submit site s.claims })
  | .compare site claimed =>
    some (s, { l with pc :=
      if claimed ≥ phase.totalTargetRequests then .undo site else .submit site claimed })
  | .undo site => some ({ s with requestCount := s.requestCount - 1 },
      { l with pc := site.refused })
  | .submit site ticket =>
    some (s, { l with pc := site.accepted, pending := l.pending ++ [ticket] })
  | .event => some (s,
      { l with pc := if 0 < l.pending.length ∧ s.running then .whenAny else .done })
  | .whenAny => none
  | .remove ticket => some (s, { l with pc := .record ticket, pending := l.pending.erase ticket })
  | .record ticket =>
    (l.outcome ticket).map fun outcome =>
      ({ s with recorded := s.recorded ++ [(ticket, outcome)] }, { l with pc := .count })
  | .count =>
    some ({ s with requestCount :=
        if phase.totalTargetRequests ≤ 0 then s.requestCount + 1 else s.requestCount },
      { l with pc := .recheck })
  | .recheck => some (s, { l with pc := if s.running then .deadline .refill else .event })
  | .done => none

/-- One event of a worker. The end time of a request-based phase is never reached, and
a task completes once. -/
def step (event : Event) (s : Shared) (l : Local) : Option (Shared × Local) :=
  match event with
  | .run => run phase s l
  | .time expired =>
    match l.pc with
    | .deadline site =>
      if expired then
        if phase.totalTargetRequests > 0 then none else some (s, { l with pc := site.refused })
      else some (s, { l with pc := .claim site })
    | _ => none
  | .complete ticket outcome =>
    if ticket ∈ l.pending ∧ l.outcome ticket = none then
      some (s, { l with completed := (ticket, outcome) :: l.completed })
    else none
  | .any ticket =>
    if l.pc = .whenAny ∧ ticket ∈ l.pending ∧ (l.outcome ticket).isSome then
      some (s, { l with pc := .remove ticket })
    else none

/-- The pipelined workers of a phase. -/
def workload : Pool (Fin phase.workers) Shared Local Event where
  shared := ⟨0, true, 0, []⟩
  locals := fun _ => ⟨.fill 0, [], []⟩
  step := fun _ => step phase

end Machine

end RespBench.CSharp
