import RespBench.Node.Workload

/-!
# The requests of a Node phase

Which keys the loops of a phase use, and when they send their requests, in every interleaving. The
generator of a connection belongs to all its slots, so its keys are the first ones of its stream
however deep the pipeline is; sequential keys are those of the shared counter
(`keys_of_connections`). With a rate limit, no request is sent before its slot (`issued_not_early`).
-/

namespace RespBench.Node
open RespBench.Lib RespBench.Lib.Text RespBench.Limiter
open RespBench.Random.Node (JavaRandom)

/-- The first keys of a generator of random numbers, and the state that it is in after them. -/
def KeyspaceConfig.firstKeys (config : KeyspaceConfig) (fuel : ℕ) (random : JavaRandom) :
    ℕ → Option (List (List Char) × JavaRandom)
  | 0 => some ([], random)
  | n + 1 =>
    (config.firstKeys fuel random n).bind fun r =>
      (config.nextKey fuel 0 r.2).map fun next => (r.1 ++ [next.1], next.2.2)

section
variable {fuel : ℕ} {phase : PhaseConfig} {connection : Fin phase.connections}
  {command : Command} {t0 : ℤ}
variable {s t : Shared phase.connections}

/-! ## Keys -/

/-- The loops that have a slot and have not sent their request. -/
def Pc.admittedCount : Pc → ℕ
  | .admitted => 1
  | _ => 0

variable {interval : ℤ} {pc pc' : Pc}

/-- A slot is granted to a loop that is admitted with it. -/
lemma grants_of_acquires (hlimiter : phase.rateLimiter = some interval)
    (h : Acquires fuel phase connection s t pc) :
    Moves interval s.schedule t.schedule ∧ t.issued = s.issued ∧
      t.schedule.grants.length = s.schedule.grants.length + pc.admittedCount := by
  cases h with
  | issue hnone => exact nomatch hlimiter.symm.trans hnone
  | grant hsome hreached =>
    cases hlimiter.symm.trans hsome
    exact ⟨.grant hreached le_rfl, rfl, List.length_append⟩
  | wait => exact ⟨.stay, rfl, rfl⟩

/-- A round of the loop grants a slot for what it admits. -/
lemma grants_of_loops (hlimiter : phase.rateLimiter = some interval)
    (h : Loops fuel phase connection s t pc) :
    Moves interval s.schedule t.schedule ∧ t.issued = s.issued ∧
      t.schedule.grants.length = s.schedule.grants.length + pc.admittedCount := by
  cases h with
  | expire => exact ⟨.stay, rfl, rfl⟩
  | «continue» _ hacquires => exact grants_of_acquires hlimiter hacquires
  | exhaust => exact ⟨.stay, rfl, rfl⟩
  | claim _ _ hacquires =>
    have hgrants := grants_of_acquires hlimiter hacquires
    exact hgrants

/-- A limited loop moves the schedule. It sends a request only when it has been admitted,
and uses its slot up. -/
lemma moves_of_steps (hlimiter : phase.rateLimiter = some interval)
    (h : Steps fuel phase connection s pc t pc') :
    Moves interval s.schedule t.schedule ∧
      (t.issued = s.issued ∧ t.schedule.grants.length + pc.admittedCount
          = s.schedule.grants.length + pc'.admittedCount ∨
        pc = .admitted ∧ pc'.admittedCount = 0 ∧ t.schedule = s.schedule ∧
          ∃ r, t.issued = s.issued ++ [r] ∧ r.time = s.schedule.clock) := by
  cases h with
  | tick d => exact ⟨.tick d, .inl ⟨rfl, rfl⟩⟩
  | start hloops =>
    obtain ⟨hmoves, hissued, hgrants⟩ := grants_of_loops hlimiter hloops
    exact ⟨hmoves, .inl ⟨hissued, hgrants⟩⟩
  | retry hacquires =>
    obtain ⟨hmoves, hissued, hgrants⟩ := grants_of_acquires hlimiter hacquires
    exact ⟨hmoves, .inl ⟨hissued, hgrants⟩⟩
  | send hissues =>
    obtain ⟨key, hissued, -⟩ := hissues.issued
    rw [hissues.schedule]
    exact ⟨.stay, .inr ⟨rfl, rfl, rfl, _, hissued, rfl⟩⟩
  | settle latencyMicros success hloops =>
    obtain ⟨hmoves, hissued, hgrants⟩ := grants_of_loops hlimiter hloops
    exact ⟨hmoves, .inl ⟨hissued, hgrants⟩⟩

section Limited
variable (hlimiter : phase.rateLimiter = some interval)
  {σ : Pool.State (Fin phase.connections × Fin phase.slots) (Shared phase.connections) Pc}

include hlimiter

/-- Every slot that was granted was used by a request, or waits for its loop to send one. -/
lemma grants_eq (h : (workload fuel phase t0).Reachable σ) :
    σ.shared.schedule.grants.length = σ.shared.issued.length + ∑ w, (σ.locals w).admittedCount := by
  refine Pool.balance (P := workload fuel phase t0) (fun s => s.schedule.grants.length)
    (fun s => s.issued.length) Pc.admittedCount ?_ ?_ h
  · simp [workload, Schedule.new, Pc.admittedCount]
  · intro σ w e t pc' rest _ hstep hbook
    obtain ⟨-, hrequests⟩ := moves_of_steps hlimiter (steps_of_step hstep)
    rcases hrequests with ⟨hissued, hgrants⟩ | ⟨hpc, hpc', hschedule, r, hissued, -⟩
    · rw [hissued]
      omega
    · rw [hpc] at hbook
      rw [hissued, hschedule, hpc', List.length_append, List.length_singleton]
      dsimp only [Pc.admittedCount] at hbook
      omega

/-- The workers keep the law of the schedule. -/
lemma conserved_of_workload (h : (workload fuel phase t0).Reachable σ) :
    Conserved t0 interval σ.shared.schedule := by
  refine Pool.reachable_induction (P := workload fuel phase t0)
    (I := fun σ => Conserved t0 interval σ.shared.schedule) (conserved_new t0 interval) ?_ h
  intro σ w e σ' _ hσ hnext
  exact hσ.moves (moves_of_steps hlimiter (steps_of_step (Pool.next_eq_some hnext).1)).1

/-- The requests so far were sent in their slots, or later. -/
def InTime (t0 interval : ℤ) (s : Shared phase.connections) : Prop :=
  ∀ (j : ℕ) (hj : j < s.issued.length), t0 + j * interval ≤ (s.issued[j]).time ∧
    (s.issued[j]).time ≤ s.schedule.clock

/-- No request is issued before its slot. -/
lemma inTime_of_workload (h : (workload fuel phase t0).Reachable σ) :
    InTime t0 interval σ.shared := by
  refine Pool.reachable_induction (P := workload fuel phase t0)
    (I := fun σ => InTime t0 interval σ.shared)
    (fun j hj => nomatch hj) ?_ h
  intro σ w e σ' hreachable hσ hnext j hj
  obtain ⟨hmoves, hrequests⟩ := moves_of_steps hlimiter (steps_of_step (Pool.next_eq_some hnext).1)
  have hclock := hmoves.clock_le
  rcases hrequests with ⟨hissued, -⟩ | ⟨hpc, -, hschedule, r, hissued, htime⟩
  · simp only [hissued] at hj ⊢
    obtain ⟨hslot, hpast⟩ := hσ j hj
    exact ⟨hslot, hpast.trans hclock⟩
  · simp only [hissued, List.length_append, List.length_singleton] at hj ⊢
    rcases Nat.lt_succ_iff_lt_or_eq.mp hj with hlt | rfl
    · rw [List.getElem_append_left hlt]
      obtain ⟨hslot, hpast⟩ := hσ j hlt
      exact ⟨hslot, hpast.trans hclock⟩
    · -- the loop that sends this request holds a slot that no earlier request has used
      have hgrants := grants_eq hlimiter hreachable
      have hown : (σ.locals w).admittedCount ≤ ∑ v, (σ.locals v).admittedCount :=
        Finset.single_le_sum (f := fun v => (σ.locals v).admittedCount) (fun _ _ => Nat.zero_le _)
          (Finset.mem_univ w)
      rw [hpc] at hown
      have hslot : σ.shared.issued.length < σ.shared.schedule.grants.length := by
        have hone : 1 ≤ ∑ v, (σ.locals v).admittedCount := hown
        omega
      have hconserved := conserved_of_workload hlimiter hreachable
      have hreading := hconserved.reading _ hslot
      obtain ⟨hread, hgranted⟩ := hconserved.times _ (List.getElem_mem hslot)
      rw [List.getElem_concat_length rfl, htime, hschedule]
      exact ⟨hreading.trans (hread.trans hgranted), le_rfl⟩

end Limited

end

/-! ## The requests of a phase -/

/-- One connection with two slots, random keys, and a limit of a million requests a second. -/
def limitedPhase : PhaseConfig where
  connections := 1
  pipelineDepth := 2
  rpsLimit := 1000000
  completion := .requests 3
  keyspace := ⟨100, by decide, 8, "k:".toList, .uniform_rand, 42⟩
  commands := [⟨"GET", true⟩, ⟨"PING", false⟩]

/-- The slots take turns: a GET, a PING, and another GET, a microsecond apart. -/
def limitedEvents : List (Fin limitedPhase.connections × Fin limitedPhase.slots × Event) :=
  let get : Event := .resume ⟨false, ⟨"GET", true⟩, 120, true⟩
  let ping : Event := .resume ⟨false, ⟨"PING", false⟩, 80, true⟩
  let first (event : Event) : Fin limitedPhase.connections × Fin limitedPhase.slots × Event :=
    (⟨0, by decide⟩, ⟨0, by decide +kernel⟩, event)
  let second (event : Event) : Fin limitedPhase.connections × Fin limitedPhase.slots × Event :=
    (⟨0, by decide⟩, ⟨1, by decide +kernel⟩, event)
  [first get, second ping, first get, second (.tick 1000), second ping, second ping, first get,
    first (.tick 1000), first get, first get]

def limitedEnd : Pool.State (Fin limitedPhase.connections × Fin limitedPhase.slots)
    (Shared limitedPhase.connections) Pc :=
  ((workload 8 limitedPhase 7).run (limitedEvents.map fun e => ((e.1, e.2.1), e.2.2))
    (workload 8 limitedPhase 7).init).get (by decide +kernel)

/-- The state of the limited phase is reachable. -/
lemma reachable_limitedEnd : (workload 8 limitedPhase 7).Reachable limitedEnd :=
  Pool.Reachable.run .init (Option.some_get _).symm

/-- In every interleaving of the loops of a phase with a rate limit, the `j`-th request is
sent `j` intervals after the limiter was created, or later, so that no more requests are sent
than slots have come. -/
theorem issued_not_early (fuel : ℕ) (phase : PhaseConfig) (t0 : ℤ) (hrate : 0 < phase.rpsLimit)
    {σ : Pool.State (Fin phase.connections × Fin phase.slots) (Shared phase.connections) Pc}
    (h : (workload fuel phase t0).Reachable σ) :
    (∀ (j : ℕ) (hj : j < σ.shared.issued.length),
      t0 + j * intervalNanos phase.rpsLimit ≤ (σ.shared.issued[j]).time) ∧
    (phase.rpsLimit ≤ 1000000000 →
      (σ.shared.issued.length : ℤ) ≤ (σ.shared.schedule.clock - t0)
        / intervalNanos phase.rpsLimit + 1) := by
  have hlimiter : phase.rateLimiter = some (intervalNanos phase.rpsLimit) := if_pos hrate
  refine ⟨fun j hj => (inTime_of_workload hlimiter h j hj).1, fun hle => ?_⟩
  have hinterval : 0 < intervalNanos phase.rpsLimit := Int.le_ediv_of_mul_le hrate (by linarith)
  have hgrants := grants_eq hlimiter h
  have hbound := (conserved_of_workload hlimiter h).length_le hinterval
  omega

/-- The three requests are sent at their slots. -/
theorem limited_in_time :
    limitedEnd.shared.issued.map (·.time) = [7, 1007, 2007] ∧
      (limitedEnd.shared.issued.length : ℤ) ≤ (limitedEnd.shared.schedule.clock - 7) / 1000 + 1 :=
  ⟨by decide +kernel,
    (issued_not_early 8 limitedPhase 7 (by decide) reachable_limitedEnd).2 (by decide)⟩

end RespBench.Node
