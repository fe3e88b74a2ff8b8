import RespBench.Lib.Tickets
import RespBench.Metrics.Collector

/-!
# The C# sync loop

The tasks of `ExecuteWorkload` in `RunSyncLoop`, one request at a time each, and the status of the
phase. A command may throw: its keys are generated outside of its `try` block. A worker that throws
stops the others through `Running`, and its task is faulted. A step of a worker is one atomic
operation on the shared state, or one on its own; how long the rate limiter takes does not matter
here, nor what the commands are.

A request-based phase is simulated by the office of `RespBench.Lib.Tickets`
(`office_of_workload`): a claim takes a ticket, `metrics.Record` spends it, and an exception loses
it. `workload_settles` says what a phase that has ended has done, and `stops_after_failure` how
much it still does after a worker has thrown.
-/

namespace RespBench.CSharp.SyncLoop
open RespBench.Lib
open RespBench.Lib.Tickets (Book Counter Place office)
open RespBench.Metrics (CommandResult)

/-- What the workers read of their phase: how many clients there are, and `totalTargetRequests`,
which is -1 unless the phase is request-based. -/
structure Phase where
  workers : ℕ
  totalTargetRequests : ℤ

/-- Where a worker is. -/
inductive Pc where
  -- `while (Volatile.Read(ref state.Running) == 1)`
  | check
  -- `UtcNow >= endTimeMs`
  | deadline
  -- `Interlocked.Increment(ref state.RequestCount) - 1`
  | claim
  -- `claimed >= totalTargetRequests`
  | compare (claimed : ℤ)
  -- `Interlocked.Decrement(ref state.RequestCount)`
  | undo
  -- `await rateLimiter.Acquire()`, `selector.Select()` and `await command.Execute(client, keyGen)`
  | execute
  -- `metrics.Record(result)`
  | record (result : CommandResult)
  -- `Interlocked.Increment(ref state.RequestCount)` of a phase without target
  | count
  -- `Interlocked.Exchange(ref state.Running, 0)`
  | failing
  | completed
  | faulted
deriving DecidableEq

/-- The shared state. `recorded` lists the calls of `metrics.Record`, the newest last. `claims` and
`thrown` are history: how many requests were claimed, and how many commands threw. -/
structure Shared where
  requestCount : ℤ
  running : Bool
  recorded : List CommandResult
  claims : ℕ
  thrown : ℕ
deriving DecidableEq

/-- The next operation of a worker, the reading of the clock against the end time, or the end of a
command: with a result, or with an exception. -/
inductive Event where
  | run
  | time (expired : Bool)
  | result (result : CommandResult)
  | exception
deriving DecidableEq

section Machine
variable (phase : Phase)

/-- One operation of a worker. -/
def run (s : Shared) : Pc → Option (Shared × Pc)
  | .check => some (s, if s.running then .deadline else .completed)
  | .claim =>
    if phase.totalTargetRequests > 0 then
      some ({ s with
          requestCount := s.requestCount + 1
          claims := if s.requestCount < phase.totalTargetRequests then s.claims + 1 else s.claims },
        .compare s.requestCount)
    else some (s, .execute)
  | .compare claimed => some (s, if claimed ≥ phase.totalTargetRequests then .undo else .execute)
  | .undo => some ({ s with requestCount := s.requestCount - 1 }, .completed)
  | .record result => some ({ s with recorded := s.recorded ++ [result] }, .count)
  | .count =>
    some ({ s with
      requestCount := if phase.totalTargetRequests ≤ 0 then s.requestCount + 1
        else s.requestCount }, .check)
  | .failing => some ({ s with running := false }, .faulted)
  | _ => none

/-- One event of a worker. The end time of a request-based phase is never reached. -/
def step (event : Event) (s : Shared) (pc : Pc) : Option (Shared × Pc) :=
  match event, pc with
  | .run, pc => run phase s pc
  | .time expired, .deadline =>
    if expired then if phase.totalTargetRequests > 0 then none else some (s, .completed)
      else some (s, .claim)
  | .result result, .execute => some (s, .record result)
  | .exception, .execute => some ({ s with thrown := s.thrown + 1 }, .failing)
  | _, _ => none

end Machine

/-- The workers of a phase. -/
def workload (phase : Phase) : Pool (Fin phase.workers) Shared Pc Event where
  shared := ⟨0, true, [], 0, 0⟩
  locals := fun _ => .check
  step := fun _ => step phase

/-- What `ExecuteWorkload` returns when all tasks have ended. -/
def status {n : ℕ} (tasks : Fin n → Pc) : String :=
  let hasFailures := (List.finRange n).any fun w => tasks w = .faulted
  if hasFailures then "ERROR" else "COMPLETED"

/-- A task has ended. -/
def Pc.ended : Pc → Bool
  | .completed => true
  | .faulted => true
  | _ => false

/-! ## Steps -/

section
variable {phase : Phase}

/-- The steps of a worker, one rule for each. -/
inductive Steps (phase : Phase) : Shared → Pc → Shared → Pc → Prop where
  | enter {s} : s.running = true → Steps phase s .check s .deadline
  | leave {s} : s.running = false → Steps phase s .check s .completed
  | clock {s} : Steps phase s .deadline s .claim
  | expire {s} : phase.totalTargetRequests ≤ 0 → Steps phase s .deadline s .completed
  | claim {s} : 0 < phase.totalTargetRequests → s.requestCount < phase.totalTargetRequests →
    Steps phase s .claim { s with requestCount := s.requestCount + 1, claims := s.claims + 1 }
      (.compare s.requestCount)
  | overclaim {s} : 0 < phase.totalTargetRequests → phase.totalTargetRequests ≤ s.requestCount →
    Steps phase s .claim { s with requestCount := s.requestCount + 1 } (.compare s.requestCount)
  | go {s} : phase.totalTargetRequests ≤ 0 → Steps phase s .claim s .execute
  | accept {s claimed} : claimed < phase.totalTargetRequests →
    Steps phase s (.compare claimed) s .execute
  | reject {s claimed} : phase.totalTargetRequests ≤ claimed →
    Steps phase s (.compare claimed) s .undo
  | undo {s} : Steps phase s .undo { s with requestCount := s.requestCount - 1 } .completed
  | result {s} (result : CommandResult) : Steps phase s .execute s (.record result)
  | exception {s} : Steps phase s .execute { s with thrown := s.thrown + 1 } .failing
  | record {s result} : Steps phase s (.record result)
    { s with recorded := s.recorded ++ [result] } .count
  | count {s} : phase.totalTargetRequests ≤ 0 →
    Steps phase s .count { s with requestCount := s.requestCount + 1 } .check
  | next {s} : 0 < phase.totalTargetRequests → Steps phase s .count s .check
  | stop {s} : Steps phase s .failing { s with running := false } .faulted

/-- Every operation of a worker follows a rule. -/
lemma steps_of_run {s t : Shared} {pc pc' : Pc} (h : run phase s pc = some (t, pc')) :
    Steps phase s pc t pc' := by
  cases pc with
  | check =>
    cases hrunning : s.running <;> simp only [run, hrunning] at h <;> cases h
    · exact .leave hrunning
    · exact .enter hrunning
  | claim =>
    simp only [run] at h
    split at h
    next htarget =>
      split at h <;> cases h
      next hleft => exact .claim htarget hleft
      next hspent => exact .overclaim htarget (not_lt.mp hspent)
    next hnone =>
      cases h
      exact .go (not_lt.mp hnone)
  | compare claimed =>
    simp only [run] at h
    split at h <;> cases h
    next hge => exact .reject hge
    next hlt => exact .accept (not_le.mp hlt)
  | undo =>
    cases h
    exact .undo
  | record result =>
    cases h
    exact .record
  | count =>
    simp only [run] at h
    split at h <;> cases h
    next hnone => exact .count hnone
    next htarget => exact .next (not_le.mp htarget)
  | failing =>
    cases h
    exact .stop
  | _ => cases h

/-- Every step of a worker follows a rule. -/
lemma steps_of_step {event : Event} {s t : Shared} {pc pc' : Pc}
    (h : step phase event s pc = some (t, pc')) :
    Steps phase s pc t pc' := by
  cases event with
  | run => exact steps_of_run h
  | time expired =>
    cases pc <;> simp only [step, reduceCtorEq] at h
    split at h
    next =>
      split at h <;> cases h
      next hnone => exact .expire (not_lt.mp hnone)
    next =>
      cases h
      exact .clock
  | result result =>
    cases pc <;> cases h
    exact .result result
  | exception =>
    cases pc <;> cases h
    exact .exception

variable {σ : Pool.State (Fin phase.workers) Shared Pc}

/-! ## The counter -/

/-- A worker that claimed too much and has not undone it. -/
def overclaims (phase : Phase) : Pc → ℕ
  | .compare claimed => if phase.totalTargetRequests ≤ claimed then 1 else 0
  | .undo => 1
  | _ => 0

section RequestBased
variable (hT : 0 < phase.totalTargetRequests)
include hT

/-- What a step does to the counter. -/
lemma draws_of_steps {s t : Shared} {pc pc' : Pc} (h : Steps phase s pc t pc') :
    Tickets.Draws phase.totalTargetRequests s.requestCount s.claims (overclaims phase pc)
      t.requestCount t.claims
      (overclaims phase pc') := by
  cases h with
  | expire hnone => exact absurd hT (not_lt.mpr hnone)
  | go hnone => exact absurd hT (not_lt.mpr hnone)
  | count hnone => exact absurd hT (not_lt.mpr hnone)
  | claim _ hlt =>
    simp only [overclaims, if_neg (not_le.mpr hlt)]
    exact .claim hlt
  | overclaim _ hle =>
    simp only [overclaims, if_pos hle]
    exact .overclaim hle
  | accept hlt =>
    simp only [overclaims, if_neg (not_le.mpr hlt)]
    exact .rest
  | reject hle =>
    simp only [overclaims, if_pos hle]
    exact .rest
  | undo => exact .undo
  | _ => exact .rest

/-- The workers of a request-based phase draw their tickets from `RequestCount`. -/
def counter : Counter (workload phase) phase.totalTargetRequests where
  count := Shared.requestCount
  claims := Shared.claims
  excess := overclaims phase
  target_nonneg := hT.le
  count_init := rfl
  claims_init := rfl
  excess_init := fun _ => rfl
  draws := fun _ hstep => draws_of_steps hT (steps_of_step hstep)

/-- The counter is the number of claims, and one more for every claim too much that is not
undone. -/
lemma requestCount_eq (h : (workload phase).Reachable σ) :
    σ.shared.requestCount = σ.shared.claims + ∑ w, (overclaims phase (σ.locals w) : ℤ) :=
  (counter hT).count_eq h

/-- There are at most as many claims as the target, and a claim too much means that there are as
many. -/
lemma claims_le (h : (workload phase).Reachable σ) :
    σ.shared.claims ≤ σ.shared.requestCount ∧ σ.shared.claims ≤ phase.totalTargetRequests ∧
      (σ.shared.claims < σ.shared.requestCount → σ.shared.claims = phase.totalTargetRequests) :=
  ⟨(counter hT).claims_le_count h, (counter hT).claims_le h⟩

/-- The counter exceeds the target by the number of workers at most: a `long` while that is below
2^63. -/
lemma requestCount_bounds (h : (workload phase).Reachable σ) :
    0 ≤ σ.shared.requestCount ∧ σ.shared.requestCount ≤ phase.totalTargetRequests
      + phase.workers := by
  have hbounds := (counter hT).count_bounds h
  rwa [Fintype.card_fin] at hbounds

end RequestBased

/-! ## Failures -/

/-- The workers whose command threw. -/
def Pc.threw : Pc → ℕ
  | .failing => 1
  | .faulted => 1
  | _ => 0

/-- Every exception is that of a worker. -/
lemma thrown_eq (h : (workload phase).Reachable σ) : σ.shared.thrown = ∑ w, (σ.locals w).threw := by
  have hbook := Pool.balance (P := workload phase) (fun s => s.thrown) (fun _ => 0) Pc.threw ?_ ?_ h
  · rwa [Nat.zero_add] at hbook
  · simp [workload, Pc.threw]
  · intro σ w e t pc' rest _ hstep hbook
    have hsteps := steps_of_step hstep
    generalize σ.locals w = pc at hsteps hbook
    cases hsteps <;> simp only [Pc.threw] at hbook ⊢ <;> omega

/-- The workers are only stopped when a command threw. -/
lemma thrown_pos (h : (workload phase).Reachable σ) (hrunning : σ.shared.running = false) :
    0 < σ.shared.thrown := by
  refine Pool.reachable_induction (P := workload phase) (I := fun σ => σ.shared.running = false →
    0 < σ.shared.thrown)
    (fun hrunning => nomatch hrunning) ?_ h hrunning
  intro σ w e σ' hσ ih hnext
  have hthrown := thrown_eq hσ
  have hsteps := steps_of_step (Pool.next_eq_some hnext).1
  generalize σ'.locals w = pc', σ'.shared = t at hsteps
  generalize hpc : σ.locals w = pc at hsteps
  cases hsteps with
  | stop =>
    -- it is the worker itself that threw
    intro _
    have hle : (σ.locals w).threw ≤ ∑ w, (σ.locals w).threw :=
      Finset.single_le_sum (f := fun w => (σ.locals w).threw) (fun _ _ => Nat.zero_le _)
        (Finset.mem_univ w)
    have hthrew : (σ.locals w).threw = 1 := by rw [hpc]; rfl
    rw [hthrew, ← hthrown] at hle
    exact hle
  | exception => exact fun _ => Nat.succ_pos _
  | _ => exact ih

/-! ## Simulation -/

/-- The claims, the records and the exceptions, as a book of tickets. -/
def Shared.book (phase : Phase) (s : Shared) : Book :=
  ⟨phase.totalTargetRequests.toNat - s.claims, s.recorded.length, s.thrown⟩

/-- A worker that has claimed a request holds it until it is recorded, or until its command
throws. -/
def Pc.place (phase : Phase) : Pc → Place
  | .compare claimed => if phase.totalTargetRequests ≤ claimed then .idle else .holding
  | .execute => .holding
  | .record _ => .holding
  | .failing => .stopped
  | .completed => .stopped
  | .faulted => .stopped
  | _ => .idle

/-- A request-based phase is simulated by an office with as many tickets as its target. -/
theorem office_of_workload (hT : 0 < phase.totalTargetRequests) (h : (workload phase).Reachable σ) :
    (office (Fin phase.workers) phase.totalTargetRequests.toNat).Reachable
      ⟨σ.shared.book phase, fun w => (σ.locals w).place phase⟩ := by
  refine h.simulates (Shared.book phase) (Pc.place phase) rfl ?_
  intro σ w e t pc' hσ hstep
  obtain ⟨hcount, hclaims, -⟩ := claims_le hT hσ
  have hover : overclaims phase (σ.locals w) = 1 → σ.shared.claims = phase.totalTargetRequests :=
    (counter hT).claims_eq_of_excess hσ
  have hrunning := thrown_pos hσ
  have hsteps := steps_of_step hstep
  generalize σ.locals w = pc at hsteps hover
  cases hsteps with
  | leave hstopped => exact Tickets.alone_stop (.inr (hrunning hstopped))
  | expire hnone => exact absurd hT (not_lt.mpr hnone)
  | claim _ hlt =>
    have hbook : ({ σ.shared with requestCount := σ.shared.requestCount + 1, claims :=
      σ.shared.claims + 1 } : Shared).book
        phase = { σ.shared.book phase with left := (σ.shared.book phase).left - 1 } := rfl
    rw [hbook]
    simp only [Pc.place, if_neg (not_le.mpr hlt)]
    exact Tickets.alone_take (b := σ.shared.book phase) (by simp only [Shared.book]; omega)
  | overclaim _ hle =>
    simp only [Pc.place, if_pos hle]
    exact .refl
  | go hnone => exact absurd hT (not_lt.mpr hnone)
  | accept hlt =>
    simp only [Pc.place, if_neg (not_le.mpr hlt)]
    exact .refl
  | reject hle =>
    simp only [Pc.place, if_pos hle]
    exact .refl
  | undo =>
    have hspent := hover rfl
    exact Tickets.alone_stop (b := σ.shared.book phase) (.inl (by simp only [Shared.book]; omega))
  | exception => exact Tickets.alone_lose
  | record =>
    have hbook : ∀ result,
      ({ σ.shared with recorded := σ.shared.recorded ++ [result] } : Shared).book phase
        = { σ.shared.book phase with spent := (σ.shared.book phase).spent + 1 } := fun result => by
      simp only [Shared.book, List.length_append, List.length_singleton]
    rw [hbook]
    exact Tickets.alone_spend
  | count hnone => exact absurd hT (not_lt.mpr hnone)
  | _ => exact .refl

/-! ## Progress -/

/-- What a worker can still do without a claim. -/
def Pc.weight (phase : Phase) : Pc → ℕ
  | .check => 5
  | .deadline => 4
  | .claim => 3
  | .compare claimed => if phase.totalTargetRequests ≤ claimed then 2 else 9
  | .undo => 1
  | .execute => 8
  | .record _ => 7
  | .count => 6
  | .failing => 1
  | .completed => 0
  | .faulted => 0

/-- What a phase can still do. -/
def measure (phase : Phase) (σ : Pool.State (Fin phase.workers) Shared Pc) : ℕ :=
  8 * (phase.totalTargetRequests.toNat - σ.shared.claims) + ∑ w, (σ.locals w).weight phase

/-- Every step of a request-based phase brings it nearer to its end. -/
lemma measure_lt (hT : 0 < phase.totalTargetRequests) (h : (workload phase).Reachable σ)
    {w : Fin phase.workers} {e : Event} {σ' : Pool.State (Fin phase.workers) Shared Pc}
    (hnext : (workload phase).next w e σ = some σ') :
    measure phase σ' < measure phase σ := by
  obtain ⟨hcount, hclaims, -⟩ := claims_le hT h
  obtain ⟨rest, hbefore, hafter⟩ := Pool.next_sum hnext fun _ => Pc.weight phase
  have hsteps := steps_of_step (Pool.next_eq_some hnext).1
  rw [measure, measure, hbefore, hafter]
  generalize σ.locals w = pc, σ'.locals w = pc', σ'.shared = t at hsteps ⊢
  cases hsteps with
  | expire hnone => exact absurd hT (not_lt.mpr hnone)
  | go hnone => exact absurd hT (not_lt.mpr hnone)
  | count hnone => exact absurd hT (not_lt.mpr hnone)
  | claim _ hlt =>
    simp only [Pc.weight, if_neg (not_le.mpr hlt)]
    omega
  | overclaim _ hle =>
    simp only [Pc.weight, if_pos hle]
    omega
  | accept hlt =>
    simp only [Pc.weight, if_neg (not_le.mpr hlt)]
    omega
  | reject hle =>
    simp only [Pc.weight, if_pos hle]
    omega
  | _ =>
    simp only [Pc.weight]
    omega

/-- A task that has not ended can go on. -/
lemma exists_step (phase : Phase) (s : Shared) {pc : Pc} (hpc : ¬ pc.ended) :
    ∃ event r, step phase event s pc = some r := by
  cases pc with
  | deadline => exact ⟨.time false, _, rfl⟩
  | execute => exact ⟨.exception, _, rfl⟩
  | claim =>
    refine ⟨.run, ?_⟩
    simp only [step, run]
    split <;> exact ⟨_, rfl⟩
  | completed => exact absurd rfl hpc
  | faulted => exact absurd rfl hpc
  | _ => exact ⟨.run, _, rfl⟩

/-! ## After a failure -/

/-- A worker that has passed the check of `Running`, and has not recorded its request. -/
def Pc.inRound : Pc → ℕ
  | .deadline => 1
  | .claim => 1
  | .compare _ => 1
  | .execute => 1
  | .record _ => 1
  | _ => 0

/-- Once the workers are stopped, a request is only recorded for a worker that was in its round. -/
lemma inRound_of_next {w : Fin phase.workers} {e : Event}
    {σ' : Pool.State (Fin phase.workers) Shared Pc} (hrunning : σ.shared.running = false)
    (hnext : (workload phase).next w e σ = some σ') :
    σ'.shared.running = false ∧ σ'.shared.recorded.length + ∑ w, (σ'.locals w).inRound
      ≤ σ.shared.recorded.length + ∑ w, (σ.locals w).inRound := by
  obtain ⟨rest, hbefore, hafter⟩ := Pool.next_sum hnext fun _ => Pc.inRound
  have hsteps := steps_of_step (Pool.next_eq_some hnext).1
  rw [hbefore, hafter]
  generalize σ.locals w = pc, σ'.locals w = pc', σ'.shared = t at hsteps ⊢
  cases hsteps with
  | enter hgo => rw [hrunning] at hgo; cases hgo
  | record =>
    refine ⟨hrunning, ?_⟩
    simp only [List.length_append, List.length_singleton, Pc.inRound]
    omega
  | stop => exact ⟨rfl, le_rfl⟩
  | _ =>
    refine ⟨hrunning, ?_⟩
    simp only [Pc.inRound]
    omega

/-- The worker whose command threw is in no round. -/
lemma sum_inRound_lt (h : (workload phase).Reachable σ) (hrunning : σ.shared.running = false) :
    ∑ w, (σ.locals w).inRound < phase.workers := by
  have hpos := thrown_pos h hrunning
  rw [thrown_eq h] at hpos
  obtain ⟨w, -, hw⟩ := Finset.exists_ne_zero_of_sum_ne_zero hpos.ne'
  have hround : (σ.locals w).inRound = 0 := by
    cases hpc : σ.locals w <;> rw [hpc] at hw <;> first | rfl | exact absurd rfl hw
  have hlt := Pool.sum_lt_card (f := Pc.inRound) (s := σ)
    (fun pc => by unfold Pc.inRound; split <;> decide) hround
  rwa [Fintype.card_fin] at hlt

/-! ## The phase -/

/-- The phase is completed when no task is faulted. -/
lemma status_eq (tasks : Fin phase.workers → Pc) : status tasks = "COMPLETED" ↔ ∀ w,
    tasks w ≠ .faulted := by
  unfold status
  dsimp only
  split
  next hany =>
    obtain ⟨w, -, hw⟩ := List.any_eq_true.mp hany
    exact iff_of_false (by decide) fun hall => hall w (of_decide_eq_true hw)
  next hnone =>
    refine iff_of_true rfl fun w hw => hnone ?_
    exact List.any_eq_true.mpr ⟨w, List.mem_finRange w, decide_eq_true hw⟩

/-- The phase is completed when no command has thrown. -/
lemma thrown_of_status (h : (workload phase).Reachable σ) (hended : ∀ w, (σ.locals w).ended) :
    status σ.locals = "COMPLETED" ↔ σ.shared.thrown = 0 := by
  rw [status_eq, thrown_eq h, Finset.sum_eq_zero_iff]
  refine forall_congr' fun w => ?_
  have hw := hended w
  cases hpc : σ.locals w <;> rw [hpc] at hw <;> simp [Pc.threw, Pc.ended] at hw ⊢

end

/-- In every interleaving of the workers of a request-based phase, whatever their commands do, every
request of the target is still to be claimed, claimed by a worker, recorded, or lost to an
exception; the phase takes no more than a fixed number of steps, and does not get stuck before all
its tasks have ended; and then the counter says how many requests were recorded or lost, the phase
is reported as completed exactly when no command has thrown, and if it is, it has recorded as many
requests as its target says. -/
theorem workload_settles (phase : Phase) (hT : 0 < phase.totalTargetRequests)
    (hworkers : 0 < phase.workers) {σ : Pool.State (Fin phase.workers) Shared Pc}
    (h : (workload phase).Reachable σ) :
    phase.totalTargetRequests.toNat = (phase.totalTargetRequests.toNat - σ.shared.claims)
      + σ.shared.recorded.length
      + σ.shared.thrown + ∑ w, ((σ.locals w).place phase).held ∧
    (∀ events σ', (workload phase).run events σ = some σ' →
      events.length ≤ 8 * phase.totalTargetRequests.toNat + 5 * phase.workers) ∧
    ((∀ w e, (workload phase).next w e σ = none) → ∀ w, (σ.locals w).ended) ∧
    ((∀ w, (σ.locals w).ended) →
      σ.shared.requestCount = σ.shared.recorded.length + σ.shared.thrown ∧
      (status σ.locals = "COMPLETED" ↔ σ.shared.thrown = 0) ∧
      (status σ.locals = "COMPLETED" → σ.shared.recorded.length = phase.totalTargetRequests)) := by
  have hoffice := office_of_workload hT h
  have hconserved := Tickets.conserved hoffice
  refine ⟨hconserved, fun events σ' hrun => ?_, fun hstuck w => ?_, fun hended => ?_⟩
  · have hlength :=
      Pool.length_run_le (measure phase) (fun _ _ _ _ hσ hnext => measure_lt hT hσ hnext) h hrun
    have hmeasure : measure phase σ ≤ measure phase (workload phase).init :=
      Pool.reachable_induction (P := workload phase)
        (I := fun σ => measure phase σ ≤ measure phase (workload phase).init)
        le_rfl (fun _ _ _ _ hσ ih hnext => (measure_lt hT hσ hnext).le.trans ih) h
    have hinit : measure phase (workload phase).init = 8 * phase.totalTargetRequests.toNat + 5
      * phase.workers := by
      simp [measure, Pool.init, workload, Pc.weight, mul_comm]
    omega
  · by_contra hw
    obtain ⟨e, r, hstep⟩ := exists_step phase σ.shared hw
    have hnone := hstuck w e
    rw [Pool.next, Option.map_eq_none_iff] at hnone
    exact Option.some_ne_none r (hstep.symm.trans hnone)
  · have hstopped : ∀ w, (σ.locals w).place phase = .stopped := fun w => by
      have hw := hended w
      cases hpc : σ.locals w <;> rw [hpc] at hw <;> first | rfl | cases hw
    have hover : ∑ w, (overclaims phase (σ.locals w) : ℤ) = 0 := Finset.sum_eq_zero fun w _ => by
      have hw := hended w
      cases hpc : σ.locals w <;> rw [hpc] at hw <;> first | rfl | cases hw
    obtain ⟨hsettled, hspent⟩ := Tickets.spent_of_stopped hoffice hstopped
    have hcount := requestCount_eq hT h
    have hclaims := (claims_le hT h).2.1
    simp only [Shared.book] at hsettled hspent
    refine ⟨by omega, thrown_of_status h hended, fun hstatus => ?_⟩
    have hrecorded := hspent ⟨⟨0, hworkers⟩⟩ ((thrown_of_status h hended).mp hstatus)
    omega

/-- Two workers with a target of three. -/
def throwingPhase : Phase := ⟨2, 3⟩

def first (event : Event) : Fin throwingPhase.workers × Event := (⟨0, Nat.two_pos⟩, event)
def second (event : Event) : Fin throwingPhase.workers × Event := (⟨1, Nat.one_lt_two⟩, event)

/-- The first command of the first worker throws, while the second worker is in its round. -/
def throwingEvents : List (Fin throwingPhase.workers × Event) :=
  [first .run, second .run, first (.time false), first .run, second (.time false),
    first .run, second .run, first .exception, second .run, first .run]

/-- The second worker records its request, and finds that it has to stop. -/
def lastEvents : List (Fin throwingPhase.workers × Event) :=
  [second (.result ⟨"GET", 120, true⟩), second .run, second .run, second .run]

def throwingState : Pool.State (Fin throwingPhase.workers) Shared Pc :=
  ((workload throwingPhase).run throwingEvents (workload throwingPhase).init).get
    (by decide +kernel)

def throwingEnd : Pool.State (Fin throwingPhase.workers) Shared Pc :=
  ((workload throwingPhase).run lastEvents throwingState).get (by decide +kernel)

/-- The state after the exception is reachable. -/
lemma reachable_throwingState : (workload throwingPhase).Reachable throwingState :=
  Pool.Reachable.run .init (Option.some_get _).symm

/-- The last events lead to the end of the phase. -/
lemma run_lastEvents : (workload throwingPhase).run lastEvents throwingState = some throwingEnd :=
  (Option.some_get _).symm

/-- The phase has failed: one request was recorded, and one was lost. -/
theorem throwingEnd_settled :
    throwingEnd.shared.requestCount = 2 ∧ status throwingEnd.locals = "ERROR" ∧
      throwingEnd.shared.requestCount = throwingEnd.shared.recorded.length
        + throwingEnd.shared.thrown :=
  ⟨by decide +kernel, by decide +kernel, ((workload_settles throwingPhase (by decide) (by decide)
    (reachable_throwingState.run run_lastEvents)).2.2.2 (by decide +kernel)).1⟩

/-- Once a worker has stopped the others, whatever they do, fewer requests are recorded
than there are workers. -/
theorem stops_after_failure (phase : Phase) {σ σ' : Pool.State (Fin phase.workers) Shared Pc}
    (h : (workload phase).Reachable σ) (hrunning : σ.shared.running = false)
    {events : List (Fin phase.workers × Event)} (hrun : (workload phase).run events σ = some σ') :
    σ'.shared.recorded.length < σ.shared.recorded.length + phase.workers := by
  have hround := (h.run_induction (I := fun τ => τ.shared.running = false ∧
      τ.shared.recorded.length + ∑ w, (τ.locals w).inRound
        ≤ σ.shared.recorded.length + ∑ w, (σ.locals w).inRound)
    (fun _ _ _ _ _ hτ hnext =>
      have hstep := inRound_of_next hτ.1 hnext
      ⟨hstep.1, hstep.2.trans hτ.2⟩) hrun ⟨hrunning, le_rfl⟩).2
  have hlt := sum_inRound_lt h hrunning
  omega

/-- After the failure, one more request is recorded. -/
theorem throwingEnd_stopped :
    throwingState.shared.recorded = [] ∧ throwingEnd.shared.recorded = [⟨"GET", 120, true⟩] ∧
      throwingEnd.shared.recorded.length < throwingState.shared.recorded.length + 2 :=
  ⟨by decide +kernel, by decide +kernel,
    stops_after_failure throwingPhase reachable_throwingState (by decide +kernel) run_lastEvents⟩

end RespBench.CSharp.SyncLoop
