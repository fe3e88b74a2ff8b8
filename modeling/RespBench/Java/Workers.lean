import RespBench.Lib.ArrayList
import RespBench.Lib.Pool

/-!
# Java workers

The workload of one phase in the Java engine: the virtual threads of `executeWorkload`, each in
`runSyncLoop` or in `runPipelinedLoop`, with `claimAndSubmit` and the shared `requestCount`. A step
of a worker is one atomic operation on the shared state, or one operation on its own; the futures of
a worker complete at any time, in any order, normally or exceptionally.

A request is named by its ticket: the value that its `getAndIncrement` returned, or, when a phase
has no target and nothing is claimed, its number in the order of submission. What the commands are
does not matter here, nor how long the rate limiter takes. No worker is interrupted and no call of a
client throws; `requestCount` is an unbounded integer, where the source has a `long`: in a
request-based phase it does not wrap as long as the target and the number of workers together are
below 2^63 (`requestCount_bounds`).
-/

namespace RespBench.Java
open RespBench.Lib

/-- What a workload reads of its phase: the number of clients, the effective pipeline depth, and
`totalTargetRequests`, which is -1 unless the phase is request-based. -/
structure Phase where
  workers : ℕ
  pipelineDepth : ℕ
  totalTargetRequests : ℤ

/-- How a future completes: with a result, whose command succeeded or not, or exceptionally. -/
inductive Outcome where
  | result (success : Bool)
  | exception
deriving DecidableEq

/-- Where a request is claimed: in the loop of `runSyncLoop`, in round `i` of the initial fill, or
in the scan of the pending futures. -/
inductive Site where
  | sync
  | fill (i : ℕ)
  | refill (it : ArrayList.Itr)
deriving DecidableEq

/-- Where a worker is. -/
inductive Pc where
  -- `while (running.get())`
  | top
  -- `for (int i = 0; i < pipelineDepth && running.get(); i++)`
  | fill (i : ℕ)
  -- `System.currentTimeMillis() >= endTimeMs`
  | deadline (site : Site)
  -- `requestCount.getAndIncrement()`
  | claim (site : Site)
  -- `claimed >= totalTargetRequests`
  | compare (site : Site) (claimed : ℤ)
  -- `requestCount.decrementAndGet()`
  | undo (site : Site)
  -- `command.execute(client, keyGen)`, and `pending.add` of its future
  | submit (site : Site) (ticket : ℤ)
  -- `join()` of `runSyncLoop`
  | join (ticket : ℤ)
  -- `while (!pending.isEmpty() && running.get())`
  | event
  -- `CompletableFuture.anyOf(...).join()`, and `pending.iterator()`
  | anyOf
  -- `it.hasNext()`, `it.next()`, `f.isDone()`, `it.remove()`
  | scan (it : ArrayList.Itr)
  -- `metrics.record(...)`
  | record (site : Site) (ticket : ℤ)
  -- `requestCount.incrementAndGet()` of a phase without target
  | count (site : Site)
  -- `if (running.get())` before the refill
  | recheck (it : ArrayList.Itr)
  | done
  -- the worker threw an exception
  | failed
deriving DecidableEq

/-- The shared state. `claims` is history: how many requests were claimed. `recorded` lists the
calls of `metrics.record`, the newest last. -/
structure Shared where
  requestCount : ℤ
  running : Bool
  claims : ℕ
  recorded : List (ℤ × Outcome)
deriving DecidableEq

structure Local where
  pc : Pc
  pending : ArrayList ℤ
  completed : List (ℤ × Outcome)
deriving DecidableEq

/-- `f.isDone()`: the outcome of a completed future. -/
def Local.outcome (l : Local) (ticket : ℤ) : Option Outcome := l.completed.lookup ticket

/-- The requests of a worker that were sent and are not recorded. -/
def Local.inFlight (l : Local) : List ℤ :=
  match l.pc with
  | .join ticket => ticket :: l.pending.elems
  | _ => l.pending.elems

/-- The next step of a worker, the reading of the clock against the end time, or the completion
of one of its futures. -/
inductive Event where
  | run
  | time (expired : Bool)
  | complete (ticket : ℤ) (outcome : Outcome)
deriving DecidableEq

/-- After `break`, or after `claimAndSubmit` returned false. -/
def Site.refused : Site → Pc
  | .sync => .done
  | .fill _ => .event
  | .refill it => .scan it

/-- After a request is recorded. -/
def Site.recorded : Site → Pc
  | .sync => .top
  | .fill i => .fill i
  | .refill it => .recheck it

section Machine
variable (phase : Phase)

/-- One operation of a worker. An iterator that fails ends the worker, and its handler clears
`running`. -/
def run (s : Shared) (l : Local) : Option (Shared × Local) :=
  match l.pc with
  | .top => some (s, { l with pc := if s.running then .deadline .sync else .done })
  | .fill i =>
    some (s, { l with pc :=
      if i < phase.pipelineDepth ∧ s.running then .deadline (.fill i) else .event })
  | .deadline _ => none
  | .claim site =>
    if phase.totalTargetRequests > 0 then
      some ({ s with
          requestCount := s.requestCount + 1
          claims := if s.requestCount < phase.totalTargetRequests then s.claims + 1 else s.claims },
        { l with pc := .compare site s.requestCount })
    else some ({ s with claims := s.claims + 1 }, { l with pc := .submit site s.claims })
  | .compare site claimed =>
    some (s, { l with pc :=
      if claimed ≥ phase.totalTargetRequests then .undo site else .submit site claimed })
  | .undo site => some ({ s with requestCount := s.requestCount - 1 },
      { l with pc := site.refused })
  | .submit .sync ticket => some (s, { l with pc := .join ticket })
  | .submit (.fill i) ticket =>
    some (s, { l with pc := .fill (i + 1), pending := l.pending.add ticket })
  | .submit (.refill it) ticket =>
    some (s, { l with pc := .scan it, pending := l.pending.add ticket })
  | .join ticket => if (l.outcome ticket).isSome
      then some (s, { l with pc := .record .sync ticket }) else none
  | .event =>
    some (s, { l with pc := if !l.pending.isEmpty ∧ s.running then .anyOf else .done })
  | .anyOf =>
    if l.pending.elems.any fun ticket => (l.outcome ticket).isSome then
      some (s, { l with pc := .scan l.pending.iterator })
    else none
  | .scan it =>
    if l.pending.hasNext it then
      match l.pending.next it with
      | .error _ => some ({ s with running := false }, { l with pc := .failed })
      | .ok (ticket, it') =>
        if (l.outcome ticket).isSome then
          match l.pending.remove it' with
          | .error _ => some ({ s with running := false }, { l with pc := .failed })
          | .ok (pending, it'') => some (s, { l with pc := .record (.refill it'') ticket, pending })
        else some (s, { l with pc := .scan it' })
    else some (s, { l with pc := .event })
  | .record site ticket =>
    (l.outcome ticket).map fun outcome =>
      ({ s with recorded := s.recorded ++ [(ticket, outcome)] }, { l with pc := .count site })
  | .count site =>
    some ({ s with requestCount :=
        if phase.totalTargetRequests ≤ 0 then s.requestCount + 1 else s.requestCount },
      { l with pc := site.recorded })
  | .recheck it => some (s, { l with pc := if s.running then .deadline (.refill it) else .scan it })
  | .done => none
  | .failed => none

/-- One event of a worker. The end time of a request-based phase is never reached, and a
future completes once. -/
def step (event : Event) (s : Shared) (l : Local) : Option (Shared × Local) :=
  match event with
  | .run => run phase s l
  | .time expired =>
    match l.pc with
    | .deadline site =>
      if expired then
        if phase.totalTargetRequests > 0 then none else some (s, { l with pc := site.refused })
      else some (s, { l with pc := .claim site })
    | _ => none
  | .complete ticket outcome =>
    if ticket ∈ l.inFlight ∧ l.outcome ticket = none then
      some (s, { l with completed := (ticket, outcome) :: l.completed })
    else none

/-- The workload of a phase. -/
def workload : Pool (Fin phase.workers) Shared Local Event where
  shared := ⟨0, true, 0, []⟩
  locals := fun _ => ⟨if phase.pipelineDepth ≤ 1 then .top else .fill 0, .empty, []⟩
  step := fun _ => step phase

end Machine

end RespBench.Java
