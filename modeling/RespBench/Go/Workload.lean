import RespBench.Go.Split
import RespBench.Budget.Exact

/-!
# A phase of the Go engine

From the parsed configuration to the status of the row: `ParseWorkloadConfig` and `validateKnobs`,
the connections and the warm-up of `runPhase`, and `runWorkload`. Its workers are those of the
shared budget, with the clock that the deadline is compared with and with the panics that `recover`
counts. No interrupt arrives.
-/

namespace RespBench.Go
open RespBench.Lib

/-! ## The configuration -/

structure KeyspaceConfig where
  keysCount : ℤ
  generationAlg : String
  seed : Option ℤ

def KeyspaceConfig.SeedValue (k : KeyspaceConfig) : ℤ := k.seed.getD 12345
def KeyspaceConfig.IsSequentialInt (k : KeyspaceConfig) : Bool :=
  k.generationAlg = "" || k.generationAlg = "sequential_int"

/-- A phase with what only the engine reads of it. -/
structure Phase extends PhaseConfig where
  id : String
  keyspace : KeyspaceConfig

structure DriverConfig where
  commandTimeoutMs : Option ℤ

/-- The range of an `int`. -/
def IsInt (z : ℤ) : Prop := -2 ^ 63 ≤ z ∧ z < 2 ^ 63

instance (z : ℤ) : Decidable (IsInt z) := by
  unfold IsInt
  infer_instance

/-- The numbers of an unmarshalled phase: `json.Unmarshal` rejects what does not fit its field. -/
structure Phase.Fits (p : Phase) : Prop where
  connections : IsInt p.connections
  cpsLimit : IsInt p.cpsLimit
  rpsLimit : IsInt p.rpsLimit
  pipelineDepth : IsInt p.pipelineDepth
  warmupRequests : ∀ n ∈ p.warmupRequests, IsInt n
  seconds : IsInt p.completion.seconds
  requests : IsInt p.completion.requests
  keysCount : IsInt p.keyspace.keysCount
  seed : ∀ n ∈ p.keyspace.seed, IsInt n

/-- The defaults of a phase. -/
def Phase.withDefaults (p : Phase) : Phase :=
  { p with
    cpsLimit := if p.cpsLimit = 0 then -1 else p.cpsLimit
    rpsLimit := if p.rpsLimit = 0 then -1 else p.rpsLimit
    pipelineDepth := if p.pipelineDepth = 0 then 1 else p.pipelineDepth }

/-- The phases of a workload, once they are unmarshalled. -/
def ParseWorkloadConfig (phases : List Phase) : List Phase := phases.map Phase.withDefaults

def validateKnobs (driver : DriverConfig) (phases : List Phase) : Except String Unit := do
  if driver.commandTimeoutMs.any (· < 0) then
    throw "command_timeout_ms must be >= 0"
  phases.forM fun p => do
    if p.pipelineDepth < 0 then
      throw s!"phase {p.id}: pipeline_depth must be >= 1"
    if p.commands.isEmpty then
      throw s!"phase {p.id}: commands must not be empty"

/-- The phases of the workloads that the engine runs. -/
def Accepted (phase : Phase) : Prop :=
  ∃ driver phases, (∀ p ∈ phases, p.Fits) ∧ validateKnobs driver (ParseWorkloadConfig phases)
    = .ok () ∧
    phase ∈ ParseWorkloadConfig phases

/-! ## Before the clock -/

def command.New : String → Except String Budget.Command
  | "get" => .ok .get
  | "set" => .ok .set
  | "ping" => .ok .ping
  | name => .error s!"unknown command {name.quote} (supported: get, set, ping)"

def command.NewAll (names : List String) : Except String (List Budget.Command) :=
  names.mapM command.New

/-- What the outside decides before the workload: the error of a connection, and the success of a
PING. -/
structure Outside where
  connectError : ℕ → Option String
  pingSucceeds : ℕ → ℕ → Bool

def Phase.workerCount (p : Phase) : ℤ := if p.connections < 1 then 1 else p.connections

def Phase.activeConns (p : Phase) : ℕ := (activeConnectionCount p.toPhaseConfig p.workerCount).toNat

/-- `CreateAndConnect`, for every active connection. -/
def Outside.connect (outside : Outside) (activeConns : ℕ) : Except String Unit :=
  (List.range activeConns).forM fun i =>
    match outside.connectError i with
    | none => .ok ()
    | some err => .error s!"create connection {i}: {err}"

def Outside.runWarmup (outside : Outside) (clients : ℕ) (warmupRequests : ℤ) : Except String Unit :=
  if warmupRequests ≤ 0 then .ok ()
  else if (List.range clients).all fun c =>
    (List.range warmupRequests.toNat).all (outside.pingSucceeds c) then
    .ok ()
  else .error "warmup PING failed"

/-- What `runPhase` and `runWorkload` do before any worker starts. -/
def setUp (outside : Outside) (phase : Phase) : Except String (List Budget.Command) := do
  outside.connect phase.activeConns
  outside.runWarmup phase.activeConns phase.EffectiveWarmupRequests
  command.NewAll phase.commands

/-! ## The workers -/

/-- What decides how the workers stop. -/
def CompletionConfig.kind (c : CompletionConfig) : Budget.Completion :=
  if c.IsRequestBased then .requests else if c.IsDurationBased then .duration else .other

/-- The phase as its workers read it. -/
def Phase.budget (p : Phase) (commands : List Budget.Command) : Budget.Phase where
  connections := p.activeConns
  depth := p.EffectivePipelineDepth.toNat
  completion := p.completion.kind
  requests := BitVec.ofInt 64 p.completion.requests
  commands := commands
  sequential := p.keyspace.IsSequentialInt
  keysCount := BitVec.ofInt 64 p.keyspace.keysCount
  seed := BitVec.ofInt 64 p.keyspace.SeedValue

/-- `time.Duration(seconds) * time.Second`, which wraps. -/
def Duration (seconds : ℤ) : ℤ := (seconds * 1000000000).bmod (2 ^ 64)

/-- The state that the workers share. The last field is history: how many requests were
begun before the deadline. -/
structure Shared (phase : Budget.Phase) where
  base : Budget.Shared .go phase
  clock : ℤ
  workerPanics : ℕ
  begun : ℕ

/-- A worker, and when it found its deadline passed. -/
structure Local where
  base : Budget.Local
  left : Option ℤ

inductive Event where
  | tick (nanos : ℕ)
  | panic
  | work (event : Budget.Event)

/-- Between the claim of a request and its record, a worker runs code that may panic. -/
def working : Budget.Pc → Bool
  | .claimed | .selected _ | .keyed _ _ | .executed _ => true
  | .top | .leaving | .done => false

section Machine
variable (phase : Budget.Phase) (fuel : ℕ) (deadline : ℤ)

def step (w : Budget.Worker phase) (event : Event) (s : Shared phase) (l : Local) :
    Option (Shared phase × Local) :=
  match event with
  | .tick nanos => some ({ s with clock := s.clock + nanos }, l)
  | .panic =>
    if working l.base.pc then
      some ({ s with workerPanics := s.workerPanics + 1 },
        { l with base := { l.base with pc := .leaving } })
    else none
  | .work (.clock expired) =>
    -- `!time.Now().Before(deadline)`
    if expired = decide (deadline ≤ s.clock) then
      (Budget.step .go phase fuel w (.clock expired) s.base l.base).map fun r =>
        if expired then ({ s with base := r.1 }, ⟨r.2, some s.clock⟩)
        else ({ s with base := r.1, begun := s.begun + 1 }, ⟨r.2, l.left⟩)
    else none
  | .work event =>
    (Budget.step .go phase fuel w event s.base l.base).map fun r =>
      ({ s with base := r.1 }, { l with base := r.2 })

end Machine

abbrev State (phase : Budget.Phase) := Pool.State (Budget.Worker phase) (Shared phase) Local

/-- The workers of a phase whose workload starts at some time. -/
def runWorkload (phase : Phase) (commands : List Budget.Command) (fuel : ℕ) (start : ℤ) :
    Pool (Budget.Worker (phase.budget commands)) (Shared (phase.budget commands)) Local Event where
  shared := ⟨(Budget.workload .go (phase.budget commands) fuel).shared, start, 0, 0⟩
  locals := fun w => ⟨(Budget.workload .go (phase.budget commands) fuel).locals w, none⟩
  step := step (phase.budget commands) fuel (start + Duration phase.completion.seconds)

/-- All workers have merged their collectors. -/
def Finished {phase : Budget.Phase} (s : State phase) : Prop := ∀ w, (s.locals w).base.pc = .done

instance {phase : Budget.Phase} (s : State phase) : Decidable (Finished s) := by
  unfold Finished
  infer_instance

/-! ## The row -/

inductive Status where
  | COMPLETED
  | ERROR
  | INTERRUPTED
deriving DecidableEq

def status (interrupted : Bool) (workerPanics : ℕ) (merged : Budget.Collector) : Status :=
  if interrupted then .INTERRUPTED
  else if workerPanics > 0 then .ERROR
  else if merged.totalRequests > 0 && merged.totalRequests = merged.totalErrors then .ERROR
  else .COMPLETED

/-- The row of a phase, with the times at which its workers found their deadline passed. -/
structure Row where
  status : Status
  merged : Budget.Collector
  left : Multiset (Option ℤ)

/-- The row of a phase whose workers are done. -/
def row {phase : Budget.Phase} (s : State phase) : Row where
  status := Go.status false s.shared.workerPanics s.shared.base.merged
  merged := s.shared.base.merged
  left := Finset.univ.val.map fun w => (s.locals w).left

/-- A condition on the steps of the workers. -/
abbrev Condition := ∀ phase : Budget.Phase, Budget.Worker phase → Event → State phase → Prop

/-- The rows that a phase may get, when the steps of its workers meet a condition. -/
inductive Reported (ok : Condition) (phase : Phase) (fuel : ℕ) (start : ℤ) : Row → Prop where
  | unready {outside message} : setUp outside phase = .error message →
    Reported ok phase fuel start ⟨.ERROR, ⟨0, 0⟩, 0⟩
  | ran {outside commands s} : setUp outside phase = .ok commands →
    (runWorkload phase commands fuel start).Within (ok (phase.budget commands)) s → Finished s →
    Reported ok phase fuel start (row s)

end RespBench.Go
