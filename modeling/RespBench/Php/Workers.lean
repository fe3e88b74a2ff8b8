import RespBench.Random.Ports

/-!
# PHP workers

One phase of the PHP engine: how `Benchmark` divides the rate and the requests among its workers,
and the loop of `runWorker` with the keys that it draws. PHP integers are unbounded here; the
counters of a phase of fewer than `2 ^ 55` requests stay inside PHP's 64 bits.

The loops of the source carry no counter of their own (`while (true)` and the rejection loop of
`JavaRandom`), so they are given a number of rounds and report `Fault.timeout` when it is used up.
-/

namespace RespBench.Php
open RespBench.Random (Fault)

/-! ## Configuration -/

/-- The `type` of a completion: any string, two of which mean something. -/
inductive CompletionType where
  | duration
  | requests
  | other (type : String)
deriving DecidableEq

structure CompletionConfig where
  type : CompletionType
  seconds : Option ℤ
  requests : Option ℤ

def CompletionConfig.isDurationBased (c : CompletionConfig) : Bool := c.type = .duration
def CompletionConfig.isRequestBased (c : CompletionConfig) : Bool := c.type = .requests
def CompletionConfig.durationSeconds (c : CompletionConfig) : ℤ := c.seconds.getD 0
def CompletionConfig.totalRequests (c : CompletionConfig) : ℤ := c.requests.getD 0

/-- The `generation_alg` of a keyspace: any string, two of which mean something. -/
inductive GenerationAlg where
  | sequential_int
  | uniform_rand
  | other (name : String)
deriving DecidableEq

structure KeyspaceConfig where
  keysCount : ℤ
  generationAlg : GenerationAlg
  seed : Option ℤ

def KeyspaceConfig.isSequentialInt (c : KeyspaceConfig) : Bool := c.generationAlg = .sequential_int
def KeyspaceConfig.isUniformRand (c : KeyspaceConfig) : Bool := c.generationAlg = .uniform_rand
def KeyspaceConfig.seedValue (c : KeyspaceConfig) : ℤ := c.seed.getD 0

structure PhaseConfig where
  connections : ℤ
  completion : CompletionConfig
  keyspace : KeyspaceConfig
  rpsLimit : ℤ

def PhaseConfig.hasRpsLimit (phase : PhaseConfig) : Bool := phase.rpsLimit > 0

/-! ## Keys -/

/-- PHP's `%`. -/
def intMod (a b : ℤ) : Except Fault ℤ :=
  if b = 0 then .error (.illegalArgument "Modulo by zero") else .ok (a.tmod b)

structure KeyGenerator where
  keysCount : ℤ
  sequential : Bool
  workerIndex : ℤ
  workerCount : ℤ
  sequentialStep : ℤ
  random : Random.Php.JavaRandom

/-- The constructor. -/
def KeyGenerator.new (config : KeyspaceConfig) (seedOverride : Option ℤ)
    (workerIndex workerCount : ℤ) :
    KeyGenerator where
  keysCount := config.keysCount
  sequential := config.isSequentialInt
  workerIndex := max 0 workerIndex
  workerCount := max 1 workerCount
  sequentialStep := 0
  random := .new (seedOverride.getD config.seedValue)

def KeyGenerator.forWorker (config : KeyspaceConfig) (workerIndex workerCount : ℤ) : KeyGenerator :=
  let seedOverride := if config.isUniformRand then some (config.seedValue + workerIndex) else none
  .new config seedOverride workerIndex workerCount

/-- The key index that `nextKey` formats. -/
def KeyGenerator.nextKey (fuel : ℕ) (g : KeyGenerator) : Except Fault (ℤ × KeyGenerator) := do
  if g.sequential then
    let keyIndex ← intMod (g.workerIndex + g.sequentialStep * g.workerCount) g.keysCount
    let keyIndex ← intMod keyIndex g.keysCount
    return (keyIndex, { g with sequentialStep := g.sequentialStep + 1 })
  else
    let (keyIndex, random) ← g.random.nextInt fuel g.keysCount
    let keyIndex ← intMod keyIndex g.keysCount
    return (keyIndex, { g with random })

/-! ## Commands -/

inductive Command where
  | ping
  | get
  | set
deriving DecidableEq

/-- The command asks the generator for a key. -/
def Command.consumesKey : Command → Bool
  | .ping => false
  | .get => true
  | .set => true

/-- The keys that a command draws. -/
def Command.execute (fuel : ℕ) (g : KeyGenerator) (c : Command) :
    Except Fault (List ℤ × KeyGenerator) :=
  if c.consumesKey then do
    let (keyIndex, g') ← g.nextKey fuel
    return ([keyIndex], g')
  else .ok ([], g)

/-! ## The division of a phase -/

def MAX_WORKERS : ℤ := 256

/-- The number of workers that `runPhase` starts. -/
def workerCount (phase : PhaseConfig) : ℤ := max 1 (min phase.connections MAX_WORKERS)

def activeWorkerCount (phase : PhaseConfig) (workerCount : ℤ) : ℤ :=
  if phase.hasRpsLimit then max 1 (min workerCount phase.rpsLimit) else workerCount

/-- `intdiv` and `%` of the remainder truncate. -/
def splitShare (total workerCount workerIndex : ℤ) : ℤ :=
  let base := total.tdiv workerCount
  if workerIndex < total.tmod workerCount then base + 1 else base

def workerRps (phase : PhaseConfig) (workerCount workerIndex : ℤ) : ℤ :=
  if !phase.hasRpsLimit then -1
  else
    let active := activeWorkerCount phase workerCount
    if workerIndex ≥ active then 0 else splitShare phase.rpsLimit active workerIndex

def workerRequestTarget (phase : PhaseConfig) (workerCount workerIndex : ℤ) : Option ℤ :=
  if !phase.completion.isRequestBased then none
  else
    let active := activeWorkerCount phase workerCount
    if workerIndex ≥ active then some 0
    else some (splitShare phase.completion.totalRequests active workerIndex)

/-! ## The worker loop -/

/-- What a worker meets: the command selected in each round, and the readings of the clock when the
deadline is set and in each round. -/
structure Env where
  select : ℕ → Command
  start : ℚ
  clock : ℕ → ℚ

/-- The keys drawn by the loop of `runWorker`, from a number of finished requests. -/
def runLoop (env : Env) (target : Option ℤ) (deadline : Option ℚ) (drawFuel : ℕ) :
    ℕ → ℕ → KeyGenerator → Except Fault (List ℤ)
  | 0, _, _ => .error .timeout
  | fuel + 1, done, g =>
    if target.any fun t => (done : ℤ) ≥ t then .ok []
    else if deadline.any fun d => env.clock done ≥ d then .ok []
    else do
      let (keys, g') ← (env.select done).execute drawFuel g
      let rest ← runLoop env target deadline drawFuel fuel (done + 1) g'
      return keys ++ rest

/-- The keys that one worker draws. -/
def runWorker (phase : PhaseConfig) (env : Env) (fuel : ℕ) (workerCount workerIndex : ℤ) :
    Except Fault (List ℤ) :=
  let keyGen := KeyGenerator.forWorker phase.keyspace workerIndex workerCount
  let rps := workerRps phase workerCount workerIndex
  if phase.hasRpsLimit && rps = 0 then .ok []
  else
    let target := workerRequestTarget phase workerCount workerIndex
    let deadline := if phase.completion.isDurationBased
      then some (env.start + phase.completion.durationSeconds) else none
    runLoop env target deadline fuel fuel 0 keyGen

/-- The keys that all workers of a phase draw, each in its own process. -/
def phaseKeys (phase : PhaseConfig) (env : ℕ → Env) (fuel : ℕ) : Except Fault (List ℤ) :=
  Lib.Runs.collect (fun i => runWorker phase (env i) fuel (workerCount phase) i)
    (workerCount phase).toNat

end RespBench.Php
