import RespBench.Lib.Binary64
import RespBench.Lib.Pool
import RespBench.Lib.Table
import RespBench.Lib.Text
import RespBench.Limiter.Schedule
import RespBench.Metrics.Eager
import RespBench.Random.Ports

/-!
# The Node engine

The workload of one phase in the Node engine: the loops that `runWorkload` starts, one for each
connection or, when requests are pipelined, one for each slot of a connection, with the request
budget, the key counter, the rate limiter and the collector that they share. There is one event
loop, so a step of a loop is a stretch of it from one `await` to the next, which nobody interrupts.
What a stretch reads of the outside (the clock against the deadline, the command that the selector
draws, the result of a request) is the reading of its event.

The loader has made the configuration: counts are positive, and the seed and the rate limit are
whole numbers, since `BigInt` throws on others. The budget is a double, which may be a fraction, and
taking one from it is rounded (`lower`).
-/

namespace RespBench.Node
open RespBench.Lib RespBench.Lib.Text RespBench.Limiter
open RespBench.Metrics (CommandResult)
open RespBench.Metrics.Eager (MetricsCollector)
open RespBench.Random.Node (JavaRandom)

/-! ## Keys -/

inductive GenerationAlg where
  | sequential_int
  | uniform_rand
deriving DecidableEq

structure KeyspaceConfig where
  keysCount : ℕ
  keysCount_pos : 0 < keysCount
  keySizeBytes : ℚ
  keyPrefix : List Char
  generationAlg : GenerationAlg
  seed : ℤ

namespace KeyspaceConfig
variable (config : KeyspaceConfig)

/-- `padStart` cuts the width down to a whole number. -/
def paddingWidth : ℕ := ⌊max (config.keySizeBytes - utf16Length config.keyPrefix) 1⌋₊

/-- A negative index does not occur. -/
def formatKey (keyIndex : ℤ) : List Char := config.keyPrefix ++
    pad config.paddingWidth keyIndex.toNat

/-- `nextKey`, with the counter that all generators share and the random numbers of this one.
Without a result it draws for ever. -/
def nextKey (fuel counter : ℕ) (random : JavaRandom) : Option (List Char × ℕ × JavaRandom) :=
  match config.generationAlg with
  | .sequential_int => some (config.formatKey ((counter : ℤ).tmod config.keysCount),
      counter + 1, random)
  | .uniform_rand =>
    (random.nextInt fuel config.keysCount).toOption.map fun r =>
      (config.formatKey (r.1.tmod config.keysCount), counter, r.2)

end KeyspaceConfig

/-! ## Metrics -/

/-- `HIGHEST_TRACKABLE_VALUE`. -/
def HIGHEST_TRACKABLE_VALUE : ℤ := 600000000

/-- `record` of the collector, and of the metrics of a command. -/
def record (c : MetricsCollector) (result : CommandResult) : MetricsCollector :=
  c.record (min · HIGHEST_TRACKABLE_VALUE) result

/-! ## Phases -/

/-- A command: its name, and whether it consumes a key. -/
structure Command where
  name : String
  usesKey : Bool
deriving DecidableEq

/-- The number of requests is a double. -/
inductive CompletionConfig where
  | duration
  | requests (requests : ℚ)

structure PhaseConfig where
  connections : ℕ
  pipelineDepth : ℚ
  rpsLimit : ℤ
  completion : CompletionConfig
  keyspace : KeyspaceConfig
  commands : List Command

namespace PhaseConfig
variable (phase : PhaseConfig)

def effectivePipelineDepth : ℚ := if phase.pipelineDepth > 0 then phase.pipelineDepth else 1

/-- The loops of a connection: `runSyncLoop`, or the slots of `Array.from({ length:
pipelineDepth }, slot)`. -/
def slots : ℕ := if phase.effectivePipelineDepth ≤ 1 then 1 else ⌊phase.effectivePipelineDepth⌋₊

/-- The interval of the limiter, if the phase has one. -/
def rateLimiter : Option ℤ := if phase.rpsLimit > 0
    then some (intervalNanos phase.rpsLimit) else none

/-- `new RequestBudget(completion.totalRequests())`, if the phase has one. -/
def budget : ℚ :=
  match phase.completion with
  | .duration => 0
  | .requests requests => requests

end PhaseConfig

/-! ## The loops -/

/-- A request that was sent, and when. -/
structure Request (connections : ℕ) where
  connection : Fin connections
  command : Command
  key : List Char
  time : ℤ

/-- `this.remaining -= 1`, in doubles: a finite one stays finite. -/
def lower (remaining : ℚ) : ℚ := (Binary64.roundSigned (remaining - 1)).getD 0

/-- What the loops share. `issued` is history: the requests in the order in which they were sent. -/
structure Shared (connections : ℕ) where
  remaining : ℚ
  schedule : Schedule
  counter : ℕ
  random : Fin connections → JavaRandom
  collector : MetricsCollector
  issued : List (Request connections)

/-- Where a loop rests. -/
inductive Pc where
  -- it was not called yet
  | start
  -- `await sleepMillis(...)`, `await yieldToEventLoop()`
  | acquiring
  -- `await rateLimiter.acquire()`, which has returned
  | admitted
  -- `await this.issue(...)`
  | flight (command : Command)
  | done
deriving DecidableEq

/-- What a stretch reads of the outside. -/
structure Reading where
  expired : Bool
  command : Command
  latencyMicros : ℤ
  success : Bool

/-- Time passes, or a loop goes on. -/
inductive Event where
  | tick (d : ℕ)
  | resume (reading : Reading)

section Machine
variable (fuel : ℕ) (phase : PhaseConfig) (connection : Fin phase.connections)

/-- `issue`: selects a command and sends it. -/
def issue (command : Command) (s : Shared phase.connections) :
    Option (Shared phase.connections × Pc) :=
  if command ∉ phase.commands then none
  else if command.usesKey then
    (phase.keyspace.nextKey fuel s.counter (s.random connection)).map fun r =>
      ({ s with
          counter := r.2.1
          random := Function.update s.random connection r.2.2
          issued := s.issued ++ [⟨connection, command, r.1, s.schedule.clock⟩] },
        .flight command)
  else
    some ({ s with issued := s.issued ++ [⟨connection, command, [], s.schedule.clock⟩] },
      .flight command)

/-- `acquire` from one reading of its clock to the next `await`; without a limiter, `issue`. -/
def acquire (command : Command) (s : Shared phase.connections) :
    Option (Shared phase.connections × Pc) :=
  match phase.rateLimiter with
  | none => issue fuel phase connection command s
  | some interval =>
    if s.schedule.clock ≥ s.schedule.nextAllowed then
      some ({ s with schedule := s.schedule.grant interval s.schedule.clock }, .admitted)
    else some (s, .acquiring)

/-- The top of the loop: `while (keepGoing())`, where a claim takes from the budget. -/
def loop (reading : Reading) (s : Shared phase.connections) :
    Option (Shared phase.connections × Pc) :=
  match phase.completion with
  | .duration => if reading.expired then some (s, .done)
      else acquire fuel phase connection reading.command s
  | .requests _ =>
    if s.remaining ≤ 0 then some (s, .done)
    else acquire fuel phase connection reading.command { s with remaining := lower s.remaining }

/-- A stretch of a loop. A command that throws is a failed result of its name. -/
def resume (reading : Reading) (s : Shared phase.connections) :
    Pc → Option (Shared phase.connections × Pc)
  | .start => loop fuel phase connection reading s
  | .acquiring => acquire fuel phase connection reading.command s
  | .admitted => issue fuel phase connection reading.command s
  | .flight command =>
    let result : CommandResult := ⟨command.name, reading.latencyMicros, reading.success⟩
    loop fuel phase connection reading { s with collector := record s.collector result }
  | .done => none

def step (event : Event) (s : Shared phase.connections) (pc : Pc) :
    Option (Shared phase.connections × Pc) :=
  match event with
  | .tick d => some ({ s with schedule := s.schedule.tick d }, pc)
  | .resume reading => resume fuel phase connection reading s pc

/-- The loops of a phase, whose limiter is created at `t0`, after the warmup. -/
def workload (t0 : ℤ) : Pool (Fin phase.connections × Fin phase.slots)
    (Shared phase.connections) Pc Event where
  shared :=
    { remaining := phase.budget
      schedule := .new t0
      counter := 0
      random := fun index => .new (phase.keyspace.seed + index)
      collector := .new
      issued := [] }
  locals := fun _ => .start
  step := fun w => step fuel phase w.1

end Machine

end RespBench.Node
