import Mathlib

/-!
# A phase of the Python engine

`_execute_phase` of the Python engine and what it calls, in a monad of exceptions that keeps the
state: the local variables of the coroutine live in the state, so an exception leaves them as they
are, and `_create_clients` keeps its list to itself until it returns. What the outside does (the
attempts to connect, the commands, the warmup, the workers, the closing of a client) is an
environment that raises where it wants.

`execute_phase_error` says what a phase that fails leaves behind, and `execute_phase_reported` what
one leaves whose workers fail in a way that `_run_workload` reports. `cleansUp_iff`: a phase that
fails cleans up exactly when no connection was open while the opening of one failed, no client
that is being closed raises more than an `Exception`, and the failure is not one that is reported.
The results file takes every row.
-/

namespace RespBench.Python

/-- What Python raises: an instance of `Exception`, or one of the exceptions that are not. -/
inductive PyException where
  | exception (message : String)
  | keyboardInterrupt
  | cancelledError
  | systemExit
deriving DecidableEq

/-- `except Exception` catches it. -/
def PyException.isException : PyException → Bool
  | .exception _ => true
  | _ => false

/-- `isinstance(exc, (KeyboardInterrupt, asyncio.CancelledError))`. -/
def PyException.interrupted (e : PyException) : Bool :=
  e = .keyboardInterrupt || e = .cancelledError

/-! ## The environment -/

/-- What the steps to one more connection raise: waiting in the limiter, the registry of drivers,
`connect` before it has opened the connection and after that (the redis-py client sends a PING), and
`prime`. -/
structure Attempt where
  acquire : Option PyException
  create : Option PyException
  connect : Option PyException
  ping : Option PyException
  prime : Option PyException

/-- What the workers do: constructing them, or one of them, may raise, and they record requests. -/
structure Workload where
  construct : Option PyException
  requests : ℕ
  errors : ℕ
  gather : Option PyException

structure Env where
  attempt : ℕ → Attempt
  create_all : Option PyException
  warmup : Option PyException
  workload : Workload
  close : ℕ → Option PyException
  sockets_per_client : ℕ → ℤ
  /-- Readings of the clock: before the workload, after a failure that came earlier, and at the
  end. -/
  startNow : ℤ
  lateNow : ℤ
  stopNow : ℤ

structure PhaseConfig where
  id : String
  connections : ℤ
  cps_limit : ℤ
  pipeline_depth : ℤ
  warmup_requests : ℤ

def PhaseConfig.has_cps_limit (phase : PhaseConfig) : Bool := phase.cps_limit > 0

def PhaseConfig.effective_pipeline_depth (phase : PhaseConfig) : ℤ :=
  if phase.pipeline_depth > 0 then phase.pipeline_depth else 1

/-! ## The state -/

/-- A row of the results file. -/
structure Row where
  phase_id : String
  status : String
  start_timestamp : Option ℤ
  finish_timestamp : Option ℤ
  connections : ℤ
  pipeline_depth : ℤ
  sockets_per_client : ℤ
  total_sockets : ℤ
  requests : ℕ
  errors : ℕ
deriving DecidableEq

structure State where
  /-- The clients whose connection has been opened in this phase, and those that were closed. -/
  opened : List ℕ
  closed : List ℕ
  rows : List Row
  had_error : Bool
  -- the local variables of `_execute_phase`, the collector among them
  clients : List ℕ
  status : String
  start_time : Option ℤ
  end_time : Option ℤ
  total_requests : ℕ
  total_errors : ℕ

/-- The state in which a phase begins, after the rows of the phases before it. -/
def State.begin (rows : List Row) (had_error : Bool) : State where
  opened := []
  closed := []
  rows := rows
  had_error := had_error
  clients := []
  status := "ERROR"
  start_time := none
  end_time := none
  total_requests := 0
  total_errors := 0

/-- Code that may raise. -/
abbrev Py := EStateM PyException State

def raise : Option PyException → Py Unit
  | none => pure ()
  | some e => throw e

/-! ## The phase -/

def create_and_connect (attempt : Attempt) (i : ℕ) : Py ℕ := do
  raise attempt.create
  raise attempt.connect
  modify fun s => { s with opened := s.opened ++ [i] }
  raise attempt.ping
  raise attempt.prime
  return i

/-- The loop of `_create_clients`: so many connections are left, and `clients` are open. -/
def create_clients (env : Env) (phase : PhaseConfig) : ℕ → List ℕ → Py (List ℕ)
  | 0, clients => return clients
  | left + 1, clients => do
    let i := clients.length
    if phase.has_cps_limit then raise (env.attempt i).acquire
    let client ← create_and_connect (env.attempt i) i
    create_clients env phase left (clients ++ [client])

/-- `_run_workload` reports some failures of the workers by the status that it returns. -/
def run_workload (workload : Workload) : Py String := do
  raise workload.construct
  modify fun s => { s with total_requests := workload.requests, total_errors := workload.errors }
  match workload.gather with
  | some e =>
    if e = .keyboardInterrupt then return "INTERRUPTED"
    else if e.isException then return "ERROR"
    else throw e
  | none =>
    let successes := (workload.requests : ℤ) - workload.errors
    if workload.requests > 0 && successes = 0 then return "ERROR" else return "COMPLETED"

def close_clients (env : Env) : List ℕ → Py Unit
  | [] => return
  | client :: clients => do
    modify fun s => { s with closed := s.closed ++ [client] }
    match env.close client with
    | some e => if !e.isException then throw e
    | none => pure ()
    close_clients env clients

def warmup (env : Env) (phase : PhaseConfig) : Py Unit :=
  if phase.warmup_requests > 0 then raise env.warmup else return

/-- What the guarded region of `_execute_phase` does with the clients. -/
def connected (env : Env) (phase : PhaseConfig) : Py Unit := do
  raise env.create_all
  warmup env phase
  modify fun s => { s with start_time := some env.startNow }
  let status ← run_workload env.workload
  modify fun s => { s with status := status }

/-- The guarded region of `_execute_phase`. -/
def guarded (env : Env) (phase : PhaseConfig) : Py Unit := do
  let clients ← create_clients env phase phase.connections.toNat []
  modify fun s => { s with clients := clients }
  connected env phase

/-- The row of a phase. -/
def phaseRow (env : Env) (phase : PhaseConfig) (s : State) : Row :=
  let sockets_per_client := s.clients.head?.elim 1 env.sockets_per_client
  { phase_id := phase.id
    status := s.status
    start_timestamp := s.start_time
    finish_timestamp := s.end_time
    connections := phase.connections
    pipeline_depth := phase.effective_pipeline_depth
    sockets_per_client := sockets_per_client
    total_sockets := phase.connections * sockets_per_client
    requests := s.total_requests
    errors := s.total_errors }

/-- The `finally` clause. -/
def finish (env : Env) : Py Unit := do
  modify fun s => { s with start_time := s.start_time.or (some env.lateNow) }
  modify fun s => { s with end_time := some env.stopNow }
  close_clients env (← get).clients

/-- The row is written after the clean-up, and the failure raised again. -/
def report (env : Env) (phase : PhaseConfig) (failure : Option PyException) : Py Unit := do
  modify fun s => { s with had_error := s.had_error || s.status ≠ "COMPLETED" }
  modify fun s => { s with rows := s.rows ++ [phaseRow env phase s] }
  raise failure

def execute_phase (env : Env) (phase : PhaseConfig) : Py Unit := do
  let failure ← tryCatch (do guarded env phase; return none) fun e => do
    modify fun s => { s with status := if e.interrupted then "INTERRUPTED" else "ERROR" }
    return some e
  finish env
  report env phase failure

/-! ## The failures of a phase -/

/-- What an attempt raises, with or without a limiter. -/
def Attempt.failure (limited : Bool) (a : Attempt) : Option PyException :=
  (if limited then a.acquire else none).or (a.create.or (a.connect.or (a.ping.or a.prime)))

/-- An attempt gets as far as to open its connection. -/
def Attempt.connects (limited : Bool) (a : Attempt) : Bool :=
  ((if limited then a.acquire else none).or (a.create.or a.connect)).isNone

section Phase
variable (env : Env) (phase : PhaseConfig)

/-- What the attempt to open a connection raises. -/
def attemptFailure (i : ℕ) : Option PyException := (env.attempt i).failure phase.has_cps_limit

/-- All connections are opened. -/
def AllOpen : Prop := ∀ i < phase.connections.toNat, attemptFailure env phase i = none

/-- A stage of the phase raises: the opening of the connection with index `k`, the creation of the
commands, the warmup, the construction of the workers, or one of the workers. -/
inductive Fails : PyException → Prop where
  | opening {k e} :
    k < phase.connections.toNat →
    (∀ i < k, attemptFailure env phase i = none) →
    attemptFailure env phase k = some e →
    Fails e
  | commands {e} :
    AllOpen env phase →
    env.create_all = some e →
    Fails e
  | warmup {e} :
    AllOpen env phase →
    env.create_all = none →
    phase.warmup_requests > 0 →
    env.warmup = some e →
    Fails e
  | construct {e} :
    AllOpen env phase →
    env.create_all = none →
    (phase.warmup_requests > 0 → env.warmup = none) →
    env.workload.construct = some e →
    Fails e
  | workload {e} :
    AllOpen env phase →
    env.create_all = none →
    (phase.warmup_requests > 0 → env.warmup = none) →
    env.workload.construct = none →
    env.workload.gather = some e →
    Fails e

/-- The clean-up after a failure: every client that was opened is closed once, one row is written,
with a status other than `COMPLETED` and with both timestamps, and the failure is raised again. -/
def CleansUp (rows : List Row) (had_error : Bool) (e : PyException) : Prop :=
  ∃ s row, (execute_phase env phase).run (.begin rows had_error) = .error e s ∧
    s.opened.Nodup ∧ s.closed.Perm s.opened ∧ s.rows = rows ++ [row] ∧ row.status ≠ "COMPLETED" ∧
    row.start_timestamp.isSome ∧ row.finish_timestamp.isSome

/-- When the opening of a connection fails, none is open. -/
def OpensNone : Prop :=
  ∀ k < phase.connections.toNat, (∀ i < k, attemptFailure env phase i = none) →
    attemptFailure env phase k ≠ none →
      k = 0 ∧ (env.attempt 0).connects phase.has_cps_limit = false

/-- When all connections are open, closing one of them raises no more than an `Exception`. -/
def ClosesQuietly : Prop :=
  AllOpen env phase → ∀ i < phase.connections.toNat, ∀ e, env.close i = some e → e.isException

/-- The workers are started, and one of them raises what `_run_workload` reports by its status: a
`KeyboardInterrupt` or an `Exception`. -/
structure Reported (e : PyException) : Prop where
  allOpen : AllOpen env phase
  commands : env.create_all = none
  warmup : phase.warmup_requests > 0 → env.warmup = none
  construct : env.workload.construct = none
  gather : env.workload.gather = some e
  caught : e = .keyboardInterrupt ∨ e.isException

/-- No failure is reported by the status alone. -/
def ReportsNone : Prop := ∀ e, ¬ Reported env phase e

end Phase

/-! ## Opening and closing -/

variable {env : Env} {phase : PhaseConfig} {e : PyException}

/-- Nothing is raised without a failure. -/
@[simp] lemma run_raise_none (s : State) : (raise none).run s = .ok () s := rfl

/-- A failure is raised. -/
@[simp] lemma run_raise_some (e : PyException) (s : State) :
    (raise (some e)).run s = .error e s := rfl

/-- What is thrown ends the action. -/
@[simp] lemma run_throw {α : Type} (e : PyException) (s : State) :
    (throw e : Py α).run s = .error e s := rfl

/-- A handler sees what was thrown. -/
@[simp] lemma run_tryCatch {α : Type} (x : Py α) (handle : PyException → Py α) (s : State) :
    (tryCatch x handle).run s = match x.run s with
      | .ok a s => .ok a s
      | .error e s => (handle e).run s := by
  change EStateM.tryCatch x handle s = _
  unfold EStateM.tryCatch EStateM.run
  cases x s <;> rfl

/-- After a failure nothing is done. -/
lemma run_raise_bind {α : Type} (failure : Option PyException) (f : Unit → Py α) (s : State) :
    (raise failure >>= f).run s = failure.elim ((f ()).run s) fun e => .error e s := by
  cases failure <;> rfl

/-- What an attempt raises before its connection is open. -/
def Attempt.refusal (limited : Bool) (a : Attempt) : Option PyException :=
  (if limited then a.acquire else none).or (a.create.or a.connect)

/-- An attempt fails when it is refused, when its ping fails, or when its first command does. -/
lemma Attempt.failure_eq (limited : Bool) (a : Attempt) :
    a.failure limited = (a.refusal limited).or (a.ping.or a.prime) := by
  rw [Attempt.failure, Attempt.refusal, Option.or_assoc, Option.or_assoc]

/-- The next client is attempted, and then the others. -/
lemma create_clients_succ (left : ℕ) (clients : List ℕ) (s : State) :
    (create_clients env phase (left + 1) clients).run s
      = ((env.attempt clients.length).refusal phase.has_cps_limit).elim
          ((raise ((env.attempt clients.length).ping.or (env.attempt clients.length).prime) >>=
              fun _ => create_clients env phase left (clients ++ [clients.length])).run
            { s with opened := s.opened ++ [clients.length] })
          fun e => .error e s := by
  have hlimit : ∀ f : Unit → Py (List ℕ),
      (if phase.has_cps_limit then raise (env.attempt clients.length).acquire >>= f else f ())
        = raise (if phase.has_cps_limit then (env.attempt clients.length).acquire else none)
            >>= f := by
    intro f
    split <;> rfl
  rw [create_clients, Attempt.refusal]
  refine (congrArg (fun x => EStateM.run x s) (hlimit fun _ => do
    let client ← create_and_connect (env.attempt clients.length) clients.length
    create_clients env phase left (clients ++ [client]))).trans ?_
  rw [run_raise_bind]
  cases (if phase.has_cps_limit then (env.attempt clients.length).acquire else none) with
  | some e => rfl
  | none =>
    simp only [Option.elim_none, Option.none_or, create_and_connect, bind_assoc]
    rw [run_raise_bind]
    cases (env.attempt clients.length).create with
    | some e => rfl
    | none =>
      rw [Option.elim_none, Option.none_or, run_raise_bind]
      cases (env.attempt clients.length).connect with
      | some e => rfl
      | none => cases (env.attempt clients.length).ping <;> rfl

/-- A client that connects is followed by the others. -/
lemma create_clients_succ_ok (left : ℕ) {clients : List ℕ} (s : State)
    (h : attemptFailure env phase clients.length = none) :
    (create_clients env phase (left + 1) clients).run s
      = (create_clients env phase left (clients ++ [clients.length])).run
          { s with opened := s.opened ++ [clients.length] } := by
  rw [attemptFailure, Attempt.failure_eq, Option.or_eq_none_iff] at h
  rw [create_clients_succ, h.1, h.2]
  rfl

/-- The next connection cannot be opened, or not be primed. -/
lemma create_clients_succ_error (left : ℕ) {clients : List ℕ} (s : State)
    (h : attemptFailure env phase clients.length = some e) :
    (create_clients env phase (left + 1) clients).run s
      = .error e { s with opened := s.opened ++
          if (env.attempt clients.length).connects phase.has_cps_limit then [clients.length]
            else [] } := by
  rw [attemptFailure, Attempt.failure_eq] at h
  rw [create_clients_succ, Attempt.connects, ← Attempt.refusal]
  cases hrefusal : (env.attempt clients.length).refusal phase.has_cps_limit with
  | some e' =>
    rw [hrefusal] at h
    cases h
    simp
  | none =>
    rw [hrefusal, Option.none_or] at h
    rw [h]
    rfl

/-- Clients that all connect are all opened. -/
lemma create_clients_ok {n m : ℕ} (s : State)
    (h : ∀ i < n, attemptFailure env phase (m + i) = none) :
    (create_clients env phase n (List.range m)).run s
      = .ok (List.range (m + n)) { s with opened := s.opened ++ List.range' m n } := by
  induction n generalizing m s with
  | zero => simp [create_clients]
  | succ n ih =>
    have hnext : ∀ i < n, attemptFailure env phase (m + 1 + i) = none := by
      intro i hi
      rw [Nat.add_right_comm, Nat.add_assoc]
      exact h (i + 1) (by omega)
    rw [create_clients_succ_ok n s (by simpa using h 0 (by omega)), List.length_range,
      ← List.range_succ, ih _ hnext, List.range'_succ, Nat.add_right_comm, Nat.add_assoc]
    simp

/-- The opening of one of the connections that are left fails. -/
lemma create_clients_error {n m k : ℕ} (s : State) (hk : k < n)
    (h : ∀ i < k, attemptFailure env phase (m + i) = none)
    (he : attemptFailure env phase (m + k) = some e) :
    (create_clients env phase n (List.range m)).run s
      = .error e { s with opened := s.opened ++ List.range' m k ++
          if (env.attempt (m + k)).connects phase.has_cps_limit then [m + k] else [] } := by
  induction k generalizing n m s with
  | zero =>
    obtain ⟨n, rfl⟩ : ∃ n', n = n' + 1 := ⟨n - 1, by omega⟩
    rw [create_clients_succ_error n s (by simpa using he), List.length_range]
    simp
  | succ k ih =>
    obtain ⟨n, rfl⟩ : ∃ n', n = n' + 1 := ⟨n - 1, by omega⟩
    have hnext : ∀ i < k, attemptFailure env phase (m + 1 + i) = none := by
      intro i hi
      rw [Nat.add_right_comm, Nat.add_assoc]
      exact h (i + 1) (by omega)
    have hindex : m + (k + 1) = m + 1 + k := by omega
    rw [hindex] at he ⊢
    rw [create_clients_succ_ok n s (by simpa using h 0 (by omega)), List.length_range,
      ← List.range_succ, ih _ (by omega) hnext he, List.range'_succ]
    simp

/-- A warmup that does not fail changes nothing. -/
lemma run_warmup (h : phase.warmup_requests > 0 → env.warmup = none) (s : State) :
    (warmup env phase).run s = .ok () s := by
  unfold warmup
  split
  · next hpos => rw [h hpos, run_raise_none]
  · rfl

/-- When no client raises more than an `Exception`, all are closed. -/
lemma close_clients_ok {clients : List ℕ} (s : State)
    (h : ∀ i ∈ clients, ∀ e, env.close i = some e → e.isException) :
    (close_clients env clients).run s = .ok () { s with closed := s.closed ++ clients } := by
  induction clients generalizing s with
  | nil => simp [close_clients]
  | cons client clients ih =>
    have hrest : ∀ i ∈ clients, ∀ e, env.close i = some e → e.isException := fun i hi =>
      h i (List.mem_cons_of_mem _ hi)
    rw [close_clients]
    cases hclose : env.close client with
    | none => simp [ih _ hrest]
    | some e => simp [ih _ hrest, h client List.mem_cons_self e hclose]

/-- Otherwise the first of them that does ends the clean-up. -/
lemma close_clients_error {clients : List ℕ} {i : ℕ} (s : State) (hi : i ∈ clients)
    (hclose : env.close i = some e) (he : e.isException = false) :
    ∃ e' s', (close_clients env clients).run s = .error e' s' ∧ s'.rows = s.rows := by
  induction clients generalizing s with
  | nil => cases hi
  | cons client clients ih =>
    rw [close_clients]
    cases hc : env.close client with
    | none =>
      rcases List.mem_cons.mp hi with rfl | hi
      · rw [hclose] at hc
        cases hc
      · obtain ⟨e', s', hrun, hrows⟩ := ih { s with closed := s.closed ++ [client] } hi
        exact ⟨e', s', by simpa using hrun, hrows⟩
    | some e₁ =>
      cases hquiet : e₁.isException with
      | false => exact ⟨e₁, { s with closed := s.closed ++ [client] }, by simp [hquiet], rfl⟩
      | true =>
        rcases List.mem_cons.mp hi with rfl | hi
        · rw [hclose] at hc
          cases hc
          rw [he] at hquiet
          cases hquiet
        · obtain ⟨e', s', hrun, hrows⟩ := ih { s with closed := s.closed ++ [client] } hi
          exact ⟨e', s', by simpa [hquiet] using hrun, hrows⟩

/-! ## What a failed phase leaves behind -/

/-- The guarded region has failed: `opened` are the connections that were opened, and `clients`
those that `_execute_phase` knows of. -/
def GuardedFails (env : Env) (phase : PhaseConfig) (e : PyException)
    (opened clients : List ℕ) : Prop :=
  ∀ rows had_error, ∃ s, (guarded env phase).run (.begin rows had_error) = .error e s ∧
    s.opened = opened ∧ s.closed = [] ∧ s.rows = rows ∧ s.clients = clients

/-- The state in which all connections are open. -/
def State.connected (phase : PhaseConfig) (rows : List Row) (had_error : Bool) : State :=
  { State.begin rows had_error with
    opened := List.range phase.connections.toNat
    clients := List.range phase.connections.toNat }

/-- With all connections open, `_execute_phase` goes on with all clients. -/
lemma guarded_run (hopen : AllOpen env phase) (rows : List Row) (had_error : Bool) :
    (guarded env phase).run (.begin rows had_error)
      = (connected env phase).run (.connected phase rows had_error) := by
  have hrun := create_clients_ok (m := 0) (n := phase.connections.toNat) (.begin rows had_error)
    fun i hi => (congrArg _ (Nat.zero_add i)).trans (hopen i hi)
  rw [List.range_zero] at hrun
  rw [guarded, EStateM.run_bind, hrun]
  simp [State.connected, State.begin, List.range_eq_range']

/-- A failure while connections are opened: `_execute_phase` knows of none of them. -/
lemma guarded_opening {k : ℕ} (hk : k < phase.connections.toNat)
    (hbefore : ∀ i < k, attemptFailure env phase i = none)
    (he : attemptFailure env phase k = some e) :
    GuardedFails env phase e
      (List.range k ++ if (env.attempt k).connects phase.has_cps_limit then [k] else []) [] := by
  intro rows had_error
  have hrun := create_clients_error (m := 0) (.begin rows had_error) hk (by simpa using hbefore)
    (by simpa using he)
  rw [List.range_zero, Nat.zero_add, ← List.range_eq_range'] at hrun
  exact ⟨_, by rw [guarded, EStateM.run_bind, hrun], rfl, rfl, rfl, rfl⟩

/-- A failure after that is raised, unless it is reported: all connections are open, and
`_execute_phase` knows of all of them. -/
lemma guarded_after (h : Fails env phase e) (hopen : AllOpen env phase)
    (hraised : ¬ Reported env phase e) :
    GuardedFails env phase e (List.range phase.connections.toNat)
      (List.range phase.connections.toNat) := by
  intro rows had_error
  rw [guarded_run hopen]
  cases h with
  | opening hk _ he =>
    rw [hopen _ hk] at he
    cases he
  | commands _ hcreate =>
    exact ⟨.connected phase rows had_error, by simp [connected, hcreate], rfl, rfl, rfl, rfl⟩
  | warmup _ hcreate hpos hwarmup =>
    exact ⟨.connected phase rows had_error, by simp [connected, hcreate, warmup, hpos, hwarmup],
      rfl, rfl, rfl, rfl⟩
  | construct _ hcreate hwarmup hconstruct =>
    exact ⟨{ State.connected phase rows had_error with start_time := some env.startNow },
      by simp [connected, hcreate, run_warmup hwarmup, run_workload, hconstruct],
      rfl, rfl, rfl, rfl⟩
  | workload _ hcreate hwarmup hconstruct hgather =>
    have hcaught : ¬ (e = .keyboardInterrupt ∨ e.isException) := fun hcaught =>
      hraised ⟨hopen, hcreate, hwarmup, hconstruct, hgather, hcaught⟩
    obtain ⟨hkey, hquiet⟩ := not_or.mp hcaught
    exact ⟨{ State.connected phase rows had_error with
        start_time := some env.startNow
        total_requests := env.workload.requests
        total_errors := env.workload.errors },
      by simp [connected, hcreate, run_warmup hwarmup, run_workload, hconstruct, hgather, hkey,
        hquiet],
      rfl, rfl, rfl, rfl⟩

/-- The state after workers whose failure is reported. -/
def State.reported (env : Env) (phase : PhaseConfig) (rows : List Row) (had_error : Bool)
    (e : PyException) : State :=
  { State.connected phase rows had_error with
    start_time := some env.startNow
    total_requests := env.workload.requests
    total_errors := env.workload.errors
    status := if e = .keyboardInterrupt then "INTERRUPTED" else "ERROR" }

/-- A failure that is reported leaves the guarded region without an exception. -/
lemma guarded_reported (h : Reported env phase e) (rows : List Row) (had_error : Bool) :
    (guarded env phase).run (.begin rows had_error) = .ok ()
    (.reported env phase rows had_error e) := by
  have hworkload : ∀ s, (run_workload env.workload).run s
      = .ok (if e = .keyboardInterrupt then "INTERRUPTED" else "ERROR")
          { s with
            total_requests := env.workload.requests
            total_errors := env.workload.errors } := by
    intro s
    rcases h.caught with rfl | hquiet
    · simp [run_workload, h.construct, h.gather]
    · by_cases hkey : e = .keyboardInterrupt <;>
        simp [run_workload, h.construct, h.gather, hquiet, hkey]
  rw [guarded_run h.allOpen]
  simp only [connected, h.commands, run_raise_none, EStateM.run_bind, run_warmup h.warmup,
    EStateM.run_modify, hworkload]
  rfl

/-- A client that raises more than an `Exception` when it is closed ends the `finally` clause. -/
lemma finish_error {i : ℕ} (s : State) (hi : i ∈ s.clients) (hclose : env.close i = some e)
    (he : e.isException = false) :
    ∃ e' s', (finish env).run s = .error e' s' ∧ s'.rows = s.rows := by
  obtain ⟨e', s', hclosing, hrows⟩ := close_clients_error
    { s with
      start_time := s.start_time.or (some env.lateNow)
      end_time := some env.stopNow } hi hclose he
  refine ⟨e', s', ?_, hrows⟩
  simp only [finish, EStateM.run_bind, EStateM.run_modify, EStateM.run_get, hclosing]

/-- Otherwise the clause closes all clients. -/
lemma finish_ok (s : State) (hclose : ∀ i ∈ s.clients, ∀ e, env.close i = some e → e.isException) :
    (finish env).run s = .ok ()
      { s with
        closed := s.closed ++ s.clients
        start_time := s.start_time.or (some env.lateNow)
        end_time := some env.stopNow } := by
  have hclosing := close_clients_ok
    { s with
      start_time := s.start_time.or (some env.lateNow)
      end_time := some env.stopNow } hclose
  simp only [finish, EStateM.run_bind, EStateM.run_modify, EStateM.run_get, hclosing]

/-- A phase that fails closes the clients that it knows of, writes its row and raises the failure
again, if no client raises more than an `Exception`. -/
theorem execute_phase_error {opened clients : List ℕ}
    (h : GuardedFails env phase e opened clients)
    (hclose : ∀ i ∈ clients, ∀ e, env.close i = some e → e.isException) (rows : List Row)
    (had_error : Bool) :
    ∃ s row, (execute_phase env phase).run (.begin rows had_error) = .error e s ∧
      s.opened = opened ∧ s.closed = clients ∧ s.rows = rows ++ [row] ∧
      row.status = (if e.interrupted then "INTERRUPTED" else "ERROR") ∧
      row.start_timestamp.isSome ∧ row.finish_timestamp = some env.stopNow := by
  obtain ⟨s, hrun, hopened, hclosed, rfl, rfl⟩ := h rows had_error
  have hfinish := finish_ok
    { s with status := if e.interrupted then "INTERRUPTED" else "ERROR" } hclose
  rw [execute_phase, EStateM.run_bind, run_tryCatch, EStateM.run_bind, hrun]
  simp only [EStateM.run_bind, EStateM.run_modify, EStateM.run_pure, hfinish, report,
    run_raise_some]
  refine ⟨_, _, rfl, hopened, ?_, rfl, rfl, ?_, rfl⟩
  · simp [hclosed]
  · simp [phaseRow]

/-- If a client does, no row is written. -/
theorem execute_phase_interrupted {opened clients : List ℕ}
    (h : GuardedFails env phase e opened clients) {i : ℕ} (hi : i ∈ clients) {e' : PyException}
    (hclose : env.close i = some e') (he' : e'.isException = false) (rows : List Row)
    (had_error : Bool) :
    ∃ e' s, (execute_phase env phase).run (.begin rows had_error) = .error e' s ∧
      s.rows = rows := by
  obtain ⟨s, hrun, -, -, rfl, rfl⟩ := h rows had_error
  obtain ⟨e'', s', hfinish, hrows⟩ := finish_error
    { s with status := if e.interrupted then "INTERRUPTED" else "ERROR" } hi hclose he'
  refine ⟨e'', s', ?_, hrows⟩
  rw [execute_phase, EStateM.run_bind, run_tryCatch, EStateM.run_bind, hrun]
  simp only [EStateM.run_bind, EStateM.run_modify, EStateM.run_pure, hfinish]

/-- A failure of the workers that is reported is cleaned up as well. It is not raised again, but the
engine notes the error. -/
theorem execute_phase_reported (h : Reported env phase e)
    (hclose : ∀ i < phase.connections.toNat, ∀ e, env.close i = some e → e.isException)
    (rows : List Row) (had_error : Bool) :
    ∃ s row, (execute_phase env phase).run (.begin rows had_error) = .ok () s ∧
      s.opened = List.range phase.connections.toNat ∧
      s.closed = List.range phase.connections.toNat ∧ s.rows = rows ++ [row] ∧
      row.status = (if e = .keyboardInterrupt then "INTERRUPTED" else "ERROR") ∧
      row.start_timestamp = some env.startNow ∧ row.finish_timestamp = some env.stopNow ∧
      s.had_error := by
  have hfinish := finish_ok (.reported env phase rows had_error e) fun i hi =>
    hclose i (List.mem_range.mp hi)
  rw [execute_phase, EStateM.run_bind, run_tryCatch, EStateM.run_bind, guarded_reported h]
  simp only [EStateM.run_bind, EStateM.run_modify, EStateM.run_pure, hfinish, report]
  refine ⟨_, _, rfl, rfl, rfl, rfl, rfl, rfl, rfl, ?_⟩
  simp only [State.reported]
  split <;> simp

/-- If a client raises more than an `Exception` then, no row is written. -/
lemma execute_phase_reported_interrupted (h : Reported env phase e) {i : ℕ}
    (hi : i < phase.connections.toNat) {e' : PyException} (hclose : env.close i = some e')
    (he' : e'.isException = false) (rows : List Row) (had_error : Bool) :
    ∃ e' s, (execute_phase env phase).run (.begin rows had_error) = .error e' s ∧
      s.rows = rows := by
  obtain ⟨e'', s', hfinish, hrows⟩ := finish_error (.reported env phase rows had_error e)
    (List.mem_range.mpr hi) hclose he'
  refine ⟨e'', s', ?_, hrows⟩
  rw [execute_phase, EStateM.run_bind, run_tryCatch, EStateM.run_bind, guarded_reported h]
  simp only [EStateM.run_bind, EStateM.run_pure, hfinish]

/-- What is reported is what the phase fails with. -/
lemma Fails.eq_of_reported {e' : PyException} (h : Fails env phase e)
    (hreported : Reported env phase e') : e = e' := by
  obtain ⟨hopen, hcommands, hwarmup, hconstruct, hgather, -⟩ := hreported
  cases h with
  | opening hk _ he => simp [hopen _ hk] at he
  | commands _ he => simp [hcommands] at he
  | warmup _ _ hpos he => simp [hwarmup hpos] at he
  | construct _ _ _ he => simp [hconstruct] at he
  | workload _ _ _ _ he => exact Option.some.inj (he.symm.trans hgather)

/-- A phase whose failure is reported does not raise it again. -/
lemma not_cleansUp_of_reported (h : Reported env phase e) (rows : List Row) (had_error : Bool) :
    ¬ CleansUp env phase rows had_error e := by
  rintro ⟨s, row, hrun, -, -, hrows, -⟩
  by_cases hclose : ∀ i < phase.connections.toNat, ∀ e, env.close i = some e → e.isException
  · obtain ⟨s', row', hrun', -⟩ := execute_phase_reported h hclose rows had_error
    rw [hrun'] at hrun
    cases hrun
  · push Not at hclose
    obtain ⟨i, hi, e', he', hquiet⟩ := hclose
    obtain ⟨e'', s', hrun', hrows'⟩ := execute_phase_reported_interrupted h hi he'
      (by simpa using hquiet) rows had_error
    rw [hrun'] at hrun
    cases hrun
    rw [hrows'] at hrows
    exact absurd hrows (by simp)

/-- A phase that fails while connections are opened cleans up exactly when none is open. -/
lemma cleansUp_opening {k : ℕ} (hk : k < phase.connections.toNat)
    (hbefore : ∀ i < k, attemptFailure env phase i = none)
    (he : attemptFailure env phase k = some e) (rows : List Row) (had_error : Bool) :
    CleansUp env phase rows had_error e ↔ OpensNone env phase := by
  obtain ⟨s, row, hrun, hopened, hclosed, hrows, hstatus, hstart, hfinish⟩ :=
    execute_phase_error (guarded_opening hk hbefore he) (by simp) rows had_error
  constructor
  · rintro ⟨s', row', hrun', -, hperm, -⟩
    rw [hrun] at hrun'
    cases hrun'
    rw [hopened, hclosed, List.nil_perm, List.append_eq_nil_iff, List.range_eq_nil] at hperm
    obtain ⟨rfl, hconnects⟩ := hperm
    intro k' hk' hbefore' hfail'
    obtain rfl : k' = 0 := by
      by_contra hpos
      rw [hbefore' 0 (by omega)] at he
      cases he
    exact ⟨rfl, by simpa using hconnects⟩
  · intro hnone
    obtain ⟨rfl, hconnects⟩ := hnone k hk hbefore (by simp [he])
    rw [hconnects] at hopened
    refine ⟨s, row, hrun, by simp [hopened], by simp [hopened, hclosed], hrows, ?_, hstart,
      by rw [hfinish]; rfl⟩
    rw [hstatus]
    split <;> decide

/-- A phase that fails after that cleans up exactly when no client raises more than an `Exception`
when it is closed, unless the failure is reported. -/
lemma cleansUp_after (h : Fails env phase e) (hopen : AllOpen env phase)
    (hraised : ¬ Reported env phase e) (rows : List Row) (had_error : Bool) :
    CleansUp env phase rows had_error e ↔ ClosesQuietly env phase := by
  have hguarded := guarded_after h hopen hraised
  constructor
  · rintro ⟨s, row, hrun, -, -, hrows, -⟩ _ i hi e' hclose
    by_contra hquiet
    obtain ⟨e'', s', hrun', hrows'⟩ := execute_phase_interrupted hguarded
      (List.mem_range.mpr hi) hclose (by simpa using hquiet) rows had_error
    rw [hrun'] at hrun
    cases hrun
    rw [hrows'] at hrows
    exact absurd hrows (by simp)
  · intro hquiet
    obtain ⟨s, row, hrun, hopened, hclosed, hrows, hstatus, hstart, hfinish⟩ :=
      execute_phase_error hguarded (fun i hi => hquiet hopen i (List.mem_range.mp hi)) rows
        had_error
    refine ⟨s, row, hrun, ?_, ?_, hrows, ?_, hstart, by rw [hfinish]; rfl⟩
    · rw [hopened]
      exact List.nodup_range
    · rw [hopened, hclosed]
    · rw [hstatus]
      split <;> decide

/-- A phase that fails cleans up exactly when no connection was open while the opening
of one failed, no client raises more than an `Exception` when it is closed, and the
failure is not reported. -/
theorem cleansUp_iff (env : Env) (phase : PhaseConfig) (rows : List Row) (had_error : Bool)
    (e : PyException) (h : Fails env phase e) :
    CleansUp env phase rows had_error e ↔
      OpensNone env phase ∧ ClosesQuietly env phase ∧ ReportsNone env phase := by
  by_cases hopen : AllOpen env phase
  · have hnone : OpensNone env phase := fun k hk _ hfail => absurd (hopen k hk) hfail
    by_cases hreported : Reported env phase e
    · exact iff_of_false (not_cleansUp_of_reported hreported rows had_error) fun ⟨_, _, hreports⟩ =>
        hreports e hreported
    · have hreports : ReportsNone env phase := fun e' he' =>
        hreported (h.eq_of_reported he' ▸ he')
      rw [cleansUp_after h hopen hreported, iff_true_intro hnone, iff_true_intro hreports,
        true_and, and_true]
  · have hquiet : ClosesQuietly env phase := fun hall => absurd hall hopen
    have hreports : ReportsNone env phase := fun _ he => hopen he.allOpen
    cases h with
    | opening hk hbefore he =>
      rw [cleansUp_opening hk hbefore he, and_iff_left ⟨hquiet, hreports⟩]
    | commands hall _ => exact absurd hall hopen
    | warmup hall _ _ _ => exact absurd hall hopen
    | construct hall _ _ _ => exact absurd hall hopen
    | workload hall _ _ _ _ => exact absurd hall hopen

/-! ## Two connections, the second of which is refused -/

def refusal : PyException := .exception "Connection refused"

/-- The first attempt succeeds, and the second one fails to connect. -/
def refusingEnv : Env where
  attempt i := ⟨none, none, if i = 1 then some refusal else none, none, none⟩
  create_all := none
  warmup := none
  workload := ⟨none, 0, 0, none⟩
  close _ := none
  sockets_per_client _ := 1
  startNow := 0
  lateNow := 0
  stopNow := 0

def twoConnections : PhaseConfig := ⟨"steady", 2, -1, 1, 1⟩

/-- The first connection stays open. -/
theorem refusingEnv_not_cleansUp :
    Fails refusingEnv twoConnections refusal ∧
    ¬ CleansUp refusingEnv twoConnections [] false refusal := by
  have hopen : ∀ i < 1, attemptFailure refusingEnv twoConnections i = none := by
    intro i hi
    obtain rfl : i = 0 := by omega
    rfl
  have hfail : attemptFailure refusingEnv twoConnections 1 = some refusal := rfl
  refine ⟨.opening (k := 1) (by decide) hopen hfail, ?_⟩
  rintro ⟨s, row, hrun, -, hperm, -⟩
  obtain ⟨s', row', hrun', hopened, hclosed, -⟩ :=
    execute_phase_error (guarded_opening (k := 1) (by decide) hopen hfail) (by simp) [] false
  rw [hrun'] at hrun
  cases hrun
  rw [hopened, hclosed] at hperm
  exact absurd hperm.length_eq (by decide)

/-- With one connection, whose attempt fails, there is nothing to close. -/
theorem cleansUp_single :
    CleansUp { refusingEnv with attempt := fun _ => ⟨none, none, some refusal, none, none⟩ }
      { twoConnections with connections := 1 } [] false refusal := by
  refine (cleansUp_iff _ _ [] false refusal (.opening (k := 0) (by decide) (by simp) rfl)).mpr ⟨?_,
    ?_, ?_⟩
  · intro k hk _ _
    obtain rfl : k = 0 := Nat.lt_one_iff.mp hk
    exact ⟨rfl, rfl⟩
  · intro _ i _ e he
    cases he
  · intro e he
    cases he.gather

end RespBench.Python
