import RespBench.Lib.Pool
import RespBench.Random.Ports

/-!
# The shared request budget

The workload of one phase in the Go engine (`runWorkload`, `pipelineWorker`) and in the Rust engine
(`run_workload`, `worker_loop`): `pipeline_depth` workers for each connection draw requests from one
atomic budget and keys from the generator of their connection, record into collectors of their own,
and merge these at the end.

The two engines share their shape and differ in four operations, each with its own definition below:
the test that follows the decrement of the budget, the reading of a configured number, and the two
ways to draw a key. Numbers are 64-bit words: Go's `int` and Rust's `u64`, which `run_workload`
casts to `i64` for the budget. A worker's step is one atomic operation. No interrupt arrives and no
worker panics; waiting in the rate limiter and in the back-off only delays the next step.
-/

namespace RespBench.Budget
open RespBench.Lib
open RespBench.Random (Fault)

/-! ## The two engines -/

inductive Engine where
  | go
  | rust
deriving DecidableEq

/-- A configured number: an `int` in Go, a `u64` in Rust. -/
def Engine.number : Engine → BitVec 64 → ℤ
  | .go, n => n.toInt
  | .rust, n => n.toNat

/-- Whether a worker leaves, from the budget before its decrement: `remaining.Add(-1) < 0` in Go,
`remaining.fetch_sub(1) <= 0` in Rust. -/
def Engine.exhausted : Engine → BitVec 64 → Bool
  | .go, remaining => (remaining - 1#64).slt 0#64
  | .rust, remaining => remaining.sle 0#64

/-- `keysCountOrOne`. -/
def keysCountOrOne (keysCount : BitVec 64) : BitVec 64 :=
  if keysCount.sle 0#64 then 1#64 else keysCount

/-- The index of a sequential key: `n % int64(keysCountOrOne())` in Go, `n % keys_count` in Rust,
which panics for zero. -/
def Engine.sequentialIndex : Engine → (counter keysCount : BitVec 64) → Option (BitVec 64)
  | .go, counter, keysCount => some (counter.srem (keysCountOrOne keysCount))
  | .rust, counter, keysCount => if keysCount = 0#64 then none else some (counter.umod keysCount)

/-- The `JavaRandom` of a connection. -/
def Engine.Rng : Engine → Type
  | .go => Random.Go.JavaRandom
  | .rust => Random.Rust.JavaRandom

def Engine.newRng : (engine : Engine) → BitVec 64 → engine.Rng
  | .go, seed => Random.Go.NewJavaRandom seed
  | .rust, seed => Random.Rust.JavaRandom.new seed

/-- The index of a random key, when the draw returns. Rust narrows `keys_count` to an `i32`, and
widens the result again. -/
def Engine.randomIndex (fuel : ℕ) : (engine : Engine) → (keysCount : BitVec 64) → engine.Rng →
    Option (BitVec 64 × engine.Rng)
  | .go, keysCount, rng =>
    (Random.Go.JavaRandom.NextInt fuel (keysCountOrOne keysCount) rng).toOption
  | .rust, keysCount, rng =>
    match Random.Rust.JavaRandom.nextInt fuel (keysCount.setWidth 32) rng with
    | .error _ => none
    | .ok (raw, rng') =>
      if keysCount = 0#64 then none else some ((raw.signExtend 64).umod keysCount, rng')

/-! ## A phase -/

inductive Command where
  | ping
  | get
  | set
deriving DecidableEq

/-- `consumes_key`; in Go the commands themselves ask for a key, except `ping`. -/
def Command.consumesKey : Command → Bool
  | .ping => false
  | .get => true
  | .set => true

inductive Completion where
  | duration
  | requests
  | other
deriving DecidableEq

/-- What a workload reads of its phase: `connections` is the number of connections that are open,
and `depth` the effective pipeline depth. -/
structure Phase where
  connections : ℕ
  depth : ℕ
  completion : Completion
  requests : BitVec 64
  commands : List Command
  sequential : Bool
  keysCount : BitVec 64
  seed : BitVec 64

def Phase.durationBased (phase : Phase) : Bool := phase.completion = .duration

/-- The budget at the start; Go stores -1 unless the phase is request-based. -/
def Engine.initialBudget : Engine → Phase → BitVec 64
  | .go, phase => if phase.completion = .requests then phase.requests else -1#64
  | .rust, phase => phase.requests

/-- A worker is one slot of one connection. -/
abbrev Worker (phase : Phase) := Fin phase.connections × Fin phase.depth

structure Collector where
  totalRequests : ℕ
  totalErrors : ℕ
deriving DecidableEq

def Collector.record (c : Collector) (success : Bool) : Collector :=
  ⟨c.totalRequests + 1, if success then c.totalErrors else c.totalErrors + 1⟩

def Collector.mergeFrom (c other : Collector) : Collector :=
  ⟨c.totalRequests + other.totalRequests, c.totalErrors + other.totalErrors⟩

/-- The state that the workers share: the budget, the counter of `sequential_int`, the generators of
`uniform_rand`, and the merged collector. The last three fields are history: how many decrements
claimed a request, how many sent their worker away, and the keys drawn, the newest last. -/
structure Shared (engine : Engine) (phase : Phase) where
  remaining : BitVec 64
  counter : BitVec 64
  rngs : Fin phase.connections → engine.Rng
  merged : Collector
  granted : ℕ
  refused : ℕ
  drawn : List (Fin phase.connections × BitVec 64)

/-- Where a worker is. -/
inductive Pc where
  | top
  | claimed
  | selected (command : Command)
  | keyed (command : Command) (key : Option (BitVec 64))
  | executed (success : Bool)
  | leaving
  | done
deriving DecidableEq

structure Local where
  pc : Pc
  collector : Collector

/-- The atomic steps of a worker, with what the outside decides. -/
inductive Event where
  | budget
  | clock (expired : Bool)
  | select (command : Command)
  | draw
  | execute (success : Bool)
  | record
  | merge

section Machine
variable (engine : Engine) (phase : Phase) (fuel : ℕ)

/-- The decrement of the budget and the test of its result. -/
def takeBudget (s : Shared engine phase) (l : Local) : Shared engine phase × Local :=
  if engine.exhausted s.remaining then
    ({ s with remaining := s.remaining - 1#64, refused := s.refused + 1 },
      { l with pc := .leaving })
  else
    ({ s with remaining := s.remaining - 1#64, granted := s.granted + 1 },
      { l with pc := .claimed })

/-- `NextKey`, `next_key`: the index of the next key of a connection. -/
def drawKey (connection : Fin phase.connections) (s : Shared engine phase) :
    Option (BitVec 64 × Shared engine phase) :=
  if phase.sequential then
    (engine.sequentialIndex s.counter phase.keysCount).map fun key =>
      (key, { s with counter := s.counter + 1#64, drawn := s.drawn ++ [(connection, key)] })
  else
    (engine.randomIndex fuel phase.keysCount (s.rngs connection)).map fun r =>
      (r.1, { s with
        rngs := Function.update s.rngs connection r.2
        drawn := s.drawn ++ [(connection, r.1)] })

/-- One step of a worker: the loop of `pipelineWorker` and of `worker_loop`, then the merge. -/
def step (w : Worker phase) (event : Event) (s : Shared engine phase) (l : Local) :
    Option (Shared engine phase × Local) :=
  match l.pc, event with
  | .top, .budget => if phase.durationBased then none else some (takeBudget engine phase s l)
  | .top, .clock expired =>
    if phase.durationBased then some (s, { l with pc := if expired then .leaving else .claimed })
      else none
  | .claimed, .select command =>
    if command ∈ phase.commands then some (s, { l with pc := .selected command }) else none
  | .selected command, .draw =>
    if command.consumesKey then
      (drawKey engine phase fuel w.1 s).map fun r =>
        (r.2, { l with pc := .keyed command (some r.1) })
    else some (s, { l with pc := .keyed command none })
  | .keyed _ _, .execute success => some (s, { l with pc := .executed success })
  | .executed success, .record => some (s, ⟨.top, l.collector.record success⟩)
  | .leaving, .merge =>
    some ({ s with merged := s.merged.mergeFrom l.collector }, { l with pc := .done })
  | _, _ => none

/-- The workload of a phase: all workers start at the top of their loops with the whole budget. -/
def workload : Pool (Worker phase) (Shared engine phase) Local Event where
  shared :=
    { remaining := engine.initialBudget phase
      counter := 0#64
      rngs := fun i => engine.newRng (phase.seed + BitVec.ofNat 64 i)
      merged := ⟨0, 0⟩
      granted := 0
      refused := 0
      drawn := [] }
  locals := fun _ => ⟨.top, ⟨0, 0⟩⟩
  step := step engine phase fuel

end Machine

/-- All workers have left their loops and merged their collectors. -/
def Finished {engine : Engine} {phase : Phase}
    (s : Pool.State (Worker phase) (Shared engine phase) Local) : Prop :=
  ∀ w, (s.locals w).pc = .done

instance {engine : Engine} {phase : Phase}
    (s : Pool.State (Worker phase) (Shared engine phase) Local) : Decidable (Finished s) := by
  unfold Finished
  infer_instance

end RespBench.Budget
