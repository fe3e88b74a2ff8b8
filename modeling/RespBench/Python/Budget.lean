import RespBench.Lib.Tickets
import RespBench.Python.Phase
import RespBench.Python.Turns
import RespBench.Random.Parity

/-!
# The budget of a Python phase

A request-based phase in every order in which the loop resumes its workers. Their pool is simulated
by the office of `RespBench.Lib.Tickets`: the budget is a number of tickets, a claim takes one, and
a recorded request spends it, also when the command raised (`office_of_workers`). `exists_progress`
says that no worker is stuck, if the draws of keys return (`KeyspaceConfig.Narrow`), and
`budget_completed` with which status the phase ends.
-/

namespace RespBench.Python.EventLoop
open RespBench.Lib RespBench.Limiter
open RespBench.Lib.Tickets (Book Place office)
open RespBench.Metrics.Eager (MetricsCollector)

/-- The budget and the records, as a book of tickets. The workers count on when the
target has been reached. -/
def Shared.book {phase : Phase} (target_requests : ℕ) (s : Shared phase) : Book :=
  ⟨target_requests - s.request_budget, s.collector.totalRequests, 0⟩

/-- A worker that has claimed a request holds it until it is recorded. -/
def Pc.place : Pc → Place
  | .created => .idle
  | .top => .idle
  | .acquire => .holding
  | .sleep _ => .holding
  | .select => .holding
  | .execute _ => .holding
  | .suspended _ => .holding
  | .pause _ => .idle
  | .done => .stopped

/-- How far a worker is from its next claim, or from its end. -/
def Pc.weight : Pc → ℕ
  | .created => 2
  | .top => 1
  | .acquire => 5
  | .sleep _ => 6
  | .select => 4
  | .execute _ => 3
  | .suspended _ => 4
  | .pause _ => 2
  | .done => 0

section
variable {fuel : ℕ} {phase : Phase} {w : phase.Worker} {target_requests : ℕ}
variable {s t : Shared phase} {l k : Local}

/-! ## Simulation -/

/-- Waking up does not change what a worker holds. -/
lemma place_of_awake {now : ℤ} {pc pc' : Pc} (h : awake now pc = some pc') :
    pc'.place = pc.place := by
  cases pc <;> simp only [awake, reduceCtorEq, Option.some.injEq] at h
  case created =>
    cases h
    rfl
  case sleep =>
    split at h <;> cases h
    rfl
  case suspended =>
    cases h
    rfl
  case pause =>
    split at h <;> cases h
    rfl

/-- A claimed request is held. -/
lemma place_claimed (phase : Phase) : (claimed phase).place = .holding := by
  unfold claimed
  split <;> rfl

/-- After a round, a worker holds nothing. -/
lemma place_finish (command : String) (outcome : Outcome) (s : Shared phase) (l : Local) :
    (finish command outcome s l).2.pc.place = .idle := by
  rcases finish_cases command outcome s l with ⟨-, -, -, hlocal⟩ | ⟨-, -, hlocal⟩ | ⟨-,
    -, hlocal⟩ <;>
    rw [hlocal] <;> rfl

/-- What a worker of a request-based phase does in a step, a worker of the office can do. -/
lemma alone_of_steps (htarget : phase.target_requests = some target_requests)
    (h : Steps fuel phase w s l t k) :
    (office phase.Worker target_requests).Alone w (s.book target_requests, l.pc.place)
    (t.book target_requests, k.pc.place) := by
  cases h with
  | tick d => exact .refl
  | resume _ hawake =>
    rw [place_of_awake hawake]
    exact .refl
  | claim _ hpc htarget' hleft =>
    cases htarget.symm.trans htarget'
    have hbook : ({ s with request_budget := s.request_budget + 1 } : Shared phase).book
      target_requests
        = { s.book target_requests with left := (s.book target_requests).left - 1 } := rfl
    rw [hpc, place_claimed, hbook]
    exact Tickets.alone_take (Nat.sub_pos_of_lt hleft)
  | refuse _ hpc htarget' hspent =>
    cases htarget.symm.trans htarget'
    have hbook : ({ s with request_budget := s.request_budget + 1, running := none } : Shared
      phase).book target_requests
        = s.book target_requests := by
      rw [Shared.book, Shared.book, Nat.sub_eq_zero_of_le hspent,
        Nat.sub_eq_zero_of_le (Nat.le_succ_of_le hspent)]
    rw [hbook, hpc]
    exact Tickets.alone_stop (.inl (Nat.sub_eq_zero_of_le hspent))
  | go _ _ hnone => exact nomatch htarget.symm.trans hnone
  | expire _ _ hnone => exact nomatch htarget.symm.trans hnone
  | grant _ hpc =>
    rw [hpc]
    exact .refl
  | wait _ hpc =>
    rw [hpc]
    exact .refl
  | select _ hpc =>
    rw [hpc]
    exact .refl
  | suspend _ hpc =>
    rw [hpc]
    exact .refl
  | @finish command outcome _ hpc =>
    obtain ⟨hcollector, -, -, hbudget⟩ := finish_shared command outcome s l
    have hbook : (finish command outcome s l).1.book target_requests
        = { s.book target_requests with spent := (s.book target_requests).spent + 1 } := by
      rw [Shared.book, hcollector, hbudget]
      rfl
    rw [hpc, place_finish, hbook]
    exact Tickets.alone_spend

/-! ## Draws -/

/-- All random numbers come from states of 48 bits. -/
def Represented (s : Shared phase) : Prop :=
  ∀ connection, ∃ x < 2 ^ 48, s.random connection = Random.pythonRep x

variable (extra : ℕ)

/-- The next key comes after `2 ^ 48` rounds at the latest. -/
lemma next_key_ok {config : KeyspaceConfig} (hvalid : config.Valid) (hnarrow : config.Narrow)
    (counter : ℕ) {x : ℕ} (hx : x < 2 ^ 48) :
    ∃ key counter', ∃ x' < 2 ^ 48,
      KeyGenerator.next_key (2 ^ 48 + extra) ⟨config, counter, Random.pythonRep x⟩
        = .ok (key, ⟨config, counter', Random.pythonRep x'⟩) := by
  unfold KeyGenerator.next_key KeyspaceConfig.is_sequential_int
  cases halg : config.generation_alg with
  | sequential_int => exact ⟨_, _, x, hx, rfl⟩
  | uniform_rand =>
    have hpos := hvalid.1
    have hlt := hnarrow halg
    let bound : Random.Bound := ⟨config.keys_count.toNat, by omega, by omega⟩
    have hcount : ((config.keys_count.toNat : ℕ) : ℤ) = config.keys_count :=
      Int.toNat_of_nonneg (by omega)
    obtain ⟨⟨v, x'⟩, hdraw⟩ := Random.draw_ok bound x
    have hnext : Random.Python.JavaRandom.next_int (2 ^ 48 + extra) config.keys_count
        (Random.pythonRep x) = .ok ((v : ℤ), Random.pythonRep x') := by
      have h := Random.pythonPort_refines.nextInt_eq (2 ^ 48 + extra) bound x hx
      rw [hdraw] at h
      rw [← hcount]
      exact h
    refine ⟨format_key config ((v : ℤ) % config.keys_count), counter, x',
      Random.draw_lt (hdraw extra), ?_⟩
    dsimp only
    rw [hnext]
    rfl

/-- The end of a request leaves the generators. -/
lemma finish_random (command : String) (outcome : Outcome) (s : Shared phase) (l : Local) :
    (finish command outcome s l).1.random = s.random := by
  unfold finish
  dsimp only
  split
  · split <;> rfl
  · rfl

/-- A draw leaves the others alone. -/
lemma represented_of_steps (hnarrow : phase.keyspace.Narrow) (hs : Represented s)
    (h : Steps (2 ^ 48 + extra) phase w s l t k) : Represented t := by
  cases h with
  | select _ _ hkey =>
    intro connection
    by_cases hconnection : connection = w.1
    · subst hconnection
      obtain ⟨x, hx, hrandom⟩ := hs w.1
      obtain ⟨key', counter', x', hx', hnext⟩ :=
        next_key_ok extra phase.keyspace_valid hnarrow s.shared_counter hx
      rw [hrandom, hnext] at hkey
      cases hkey
      exact ⟨x', hx', Function.update_self _ _ _⟩
    · obtain ⟨x, hx, hrandom⟩ := hs connection
      exact ⟨x, hx, (Function.update_of_ne hconnection _ _).trans hrandom⟩
  | @finish command outcome =>
    unfold Represented
    rw [finish_random]
    exact hs
  | _ => exact hs

/-! ## Progress -/

/-- The state after some time. -/
def Shared.after (s : Shared phase) (d : ℕ) : Shared phase :=
  { s with schedule := s.schedule.tick d }

/-- A worker that has the loop can go on, as soon as its slot has come, and is nearer to its end
then. -/
lemma exists_advance (htarget : phase.target_requests = some target_requests)
    (hnarrow : phase.keyspace.Narrow) (hs : Represented s) (hl : Polite phase w s l)
    (hrunning : s.running = some w) :
    ∃ d event t k, step (2 ^ 48 + extra) phase w event (s.after d) l = some (t, k) ∧
      6 * (target_requests - t.request_budget) + k.pc.weight
        < 6 * (target_requests - s.request_budget) + l.pc.weight := by
  have hactive := hl.running.mp hrunning
  have hrunning' : ∀ d, (s.after d).running = some w := fun _ => hrunning
  cases hpc : l.pc <;> rw [hpc] at hactive <;> cases hactive
  case top =>
    by_cases hspent : (s.after 0).request_budget ≥ target_requests
    · refine ⟨0, .run false,
        { s.after 0 with request_budget := s.request_budget + 1, running := none },
        { l with pc := .done }, ?_, ?_⟩
      · simp only [step, hrunning', if_true, advance, hpc, htarget, if_pos hspent]
        rfl
      · simp only [Pc.weight]
        omega
    · refine ⟨0, .run false, { s.after 0 with request_budget := s.request_budget + 1 },
        { l with pc := claimed phase }, ?_, ?_⟩
      · simp only [step, hrunning', if_true, advance, hpc, htarget, if_neg hspent]
        rfl
      · have hweight : (claimed phase).weight ≤ 5 := by
          unfold claimed
          split <;> decide
        have hleft : s.request_budget < target_requests := not_le.mp hspent
        change 6 * (target_requests - (s.request_budget + 1)) + (claimed phase).weight
          < 6 * (target_requests - s.request_budget) + 1
        omega
  case acquire =>
    obtain ⟨interval, hinterval⟩ := Option.isSome_iff_exists.mp (hl.limited (by rw [hpc]; rfl))
    let d := (s.schedule.nextAllowed - s.schedule.clock).toNat
    have hreached : (s.after d).schedule.clock ≥ (s.after d).schedule.nextAllowed := by
      simp only [Shared.after, Schedule.tick, d]
      omega
    refine ⟨d, .run false, { s.after d with
      schedule := (s.after d).schedule.grant interval (s.after d).schedule.clock },
        { l with pc := .select }, ?_, ?_⟩
    · simp only [step, hrunning', if_true, advance, hpc, hinterval, if_pos hreached]
    · exact Nat.lt_succ_self _
  case select =>
    obtain ⟨command, hcommand⟩ := List.exists_mem_of_ne_nil _ phase.commands_ne_nil
    obtain ⟨x, hx, hrandom⟩ := hs w.1
    obtain ⟨key, counter', x', -, hnext⟩ :=
      next_key_ok extra phase.keyspace_valid hnarrow s.shared_counter hx
    rw [← hrandom] at hnext
    refine ⟨0, .select command, { s.after 0 with
      shared_counter := counter'
      random := Function.update s.random w.1 (Random.pythonRep x') },
      { l with pc := .execute command }, ?_, Nat.lt_succ_self _⟩
    have hdraw : next_key (2 ^ 48 + extra) phase w.1 (s.after 0) = some { s.after 0 with
        shared_counter := counter'
        random := Function.update s.random w.1 (Random.pythonRep x') } := by
      simp only [next_key, Shared.after, hnext]
      rfl
    simp only [step, hrunning', hpc, hcommand, and_self, if_true, hdraw, Option.map_some]
  case execute command =>
    refine ⟨0, .finish (.result 0 true), (finish command (.result 0 true) (s.after 0) l).1,
      (finish command (.result 0 true) (s.after 0) l).2,
        by simp only [step, hpc, hrunning', if_true], ?_⟩
    have hweight : (finish command (.result 0 true) (s.after 0) l).2.pc.weight ≤ 2 := by
      rcases finish_cases command (.result 0 true) (s.after 0) l with
        ⟨-, -, -, hlocal⟩ | ⟨-, -, hlocal⟩ | ⟨-, -, hlocal⟩ <;> rw [hlocal]
          <;> simp only [Pc.weight, Nat.reduceLeDiff, le_refl]
    rw [(finish_shared command (.result 0 true) (s.after 0) l).2.2.2]
    exact Nat.add_lt_add_left (Nat.lt_succ_of_le hweight) _

/-- When nobody has the loop, a worker that is not done can be resumed, as soon as it has slept. -/
lemma exists_resume (hl : Polite phase w s l) (hfree : s.running = none) (hdone : l.pc ≠ .done) :
    ∃ d event t k, step fuel phase w event (s.after d) l = some (t, k) ∧
      6 * (target_requests - t.request_budget) + k.pc.weight
        < 6 * (target_requests - s.request_budget) + l.pc.weight := by
  have hrests : ¬ l.pc.active := fun hactive => by
    rw [hl.running.mpr hactive] at hfree
    cases hfree
  have hawake : ∃ d pc, awake (s.after d).schedule.clock l.pc = some pc ∧
    pc.weight < l.pc.weight := by
    cases hpc : l.pc <;> rw [hpc] at hrests hdone
    case created => exact ⟨0, .top, rfl, Nat.lt_succ_self _⟩
    case sleep until_ =>
      refine ⟨(until_ - s.schedule.clock).toNat, .acquire, if_pos ?_, Nat.lt_succ_self _⟩
      simp only [Shared.after, Schedule.tick]
      omega
    case suspended command => exact ⟨0, .execute command, rfl, Nat.lt_succ_self _⟩
    case pause until_ =>
      refine ⟨(until_ - s.schedule.clock).toNat, .top, if_pos ?_, Nat.lt_succ_self _⟩
      simp only [Shared.after, Schedule.tick]
      omega
    case done => exact absurd rfl hdone
    all_goals exact absurd rfl hrests
  obtain ⟨d, pc, hpc, hweight⟩ := hawake
  refine ⟨d, .resume, { s.after d with running := some w, served := 0 }, { l with pc := pc }, ?_,
    Nat.add_lt_add_left hweight _⟩
  have hfree' : (s.after d).running = none := hfree
  simp only [step, if_pos hfree', hpc, Option.map_some]

end

/-! ## The phase -/

section Reachable
variable {fuel : ℕ} {phase : Phase} {t0 : ℤ} {target_requests : ℕ}
  {σ : Pool.State phase.Worker (Shared phase) Local}

/-- A request-based phase is simulated by an office with as many tickets as its target says. -/
theorem office_of_workers (htarget : phase.target_requests = some target_requests)
    (h : (workers fuel phase t0).Reachable σ) :
    (office phase.Worker target_requests).Reachable
      ⟨σ.shared.book target_requests, fun w => (σ.locals w).pc.place⟩ :=
  h.simulates (Shared.book target_requests) (fun l => l.pc.place) rfl fun _ _ _ _ _ _ hstep =>
    alone_of_steps htarget (steps_of_step hstep)

variable (extra : ℕ)

/-- The generators stay in their 48 bits. -/
lemma represented_of_workers (hnarrow : phase.keyspace.Narrow)
    (h : (workers (2 ^ 48 + extra) phase t0).Reachable σ) : Represented σ.shared := by
  refine Pool.reachable_induction (P := workers (2 ^ 48 + extra) phase t0)
    (I := fun σ => Represented σ.shared) (fun connection => ?_) ?_ h
  · exact ⟨_, Random.scramble_lt _,
      congrArg Random.Python.JavaRandom.mk (Random.int_scramble_ofInt _)⟩
  · intro σ w e σ' _ hσ hnext
    exact represented_of_steps extra hnarrow hσ (steps_of_step (Pool.next_eq_some hnext).1)

/-- From every state that some worker has not ended in, a worker can go on. -/
lemma exists_progress (htarget : phase.target_requests = some target_requests)
    (hnarrow : phase.keyspace.Narrow) (h : (workers (2 ^ 48 + extra) phase t0).Reachable σ)
    (hstuck : ¬ ∀ w, (σ.locals w).pc = .done) :
    ∃ events σ', (workers (2 ^ 48 + extra) phase t0).run events σ = some σ' ∧
      6 * (target_requests - σ'.shared.request_budget) + ∑ w, (σ'.locals w).pc.weight
        < 6 * (target_requests - σ.shared.request_budget) + ∑ w, (σ.locals w).pc.weight := by
  have hpolite := polite_of_workers h
  obtain ⟨w, d, event, t, k, hstep, hlt⟩ : ∃ w d event t k,
      step (2 ^ 48 + extra) phase w event (σ.shared.after d) (σ.locals w) = some (t, k) ∧
        6 * (target_requests - t.request_budget) + k.pc.weight
          < 6 * (target_requests - σ.shared.request_budget) + (σ.locals w).pc.weight := by
    cases hrunning : σ.shared.running with
    | some w =>
      exact ⟨w, exists_advance extra htarget hnarrow (represented_of_workers extra hnarrow h)
        (hpolite w) hrunning⟩
    | none =>
      obtain ⟨w, hw⟩ := not_forall.mp hstuck
      exact ⟨w, exists_resume (hpolite w) hrunning hw⟩
  refine ⟨_, _, Pool.run_of_events (w := w) (t := t) (l := k) [.tick d, event] ?_,
    Pool.sum_update_lt (f := fun l : Local => l.pc.weight) hlt⟩
  rw [List.foldlM_cons]
  refine Option.bind_eq_some_iff.mpr ⟨_, rfl, ?_⟩
  rw [List.foldlM_cons]
  exact Option.bind_eq_some_iff.mpr ⟨_, hstep, rfl⟩

end Reachable

/-- The status that `_run_workload` returns when none of its workers has raised. -/
lemma run_workload_of_totals (requests errors : ℕ) (s : Python.State) :
    ∃ t, (run_workload ⟨none, requests, errors, none⟩).run s
      = .ok (if 0 < requests ∧ errors = requests then "ERROR" else "COMPLETED") t := by
  have hstatus : (decide (requests > 0) && decide ((requests : ℤ) - errors = 0))
      = decide (0 < requests ∧ errors = requests) := by
    rw [Bool.decide_and]
    congr 2
    exact propext ⟨fun heq => by omega, fun heq => by omega⟩
  simp only [run_workload, run_raise_none, EStateM.run_bind, EStateM.run_modify, hstatus,
    decide_eq_true_eq]
  split
  · exact ⟨_, rfl⟩
  · exact ⟨_, rfl⟩

/-- In every order in which the loop resumes the workers of a request-based phase whose random keys
are fewer than `2 ^ 31`, every request of its target is still to be claimed, claimed by a worker, or
recorded, and the accounts of the collector agree; from every state the phase can come to its end;
and when all its workers are done, it has recorded as many requests as its target says, and is
completed unless all of them failed. -/
theorem budget_completed (extra : ℕ) (phase : Phase) (t0 : ℤ) {target_requests : ℕ}
    (htarget : phase.target_requests = some target_requests) (hnarrow : phase.keyspace.Narrow)
    {σ : Pool.State phase.Worker (Shared phase) Local}
    (h : (workers (2 ^ 48 + extra) phase t0).Reachable σ) :
    (target_requests = (target_requests - σ.shared.request_budget)
      + σ.shared.collector.totalRequests
        + ∑ w, (σ.locals w).pc.place.held ∧
      σ.shared.collector.Accounts) ∧
    (∃ events σ', (workers (2 ^ 48 + extra) phase t0).run events σ = some σ' ∧
      ∀ w, (σ'.locals w).pc = .done) ∧
    ((∀ w, (σ.locals w).pc = .done) →
      σ.shared.collector.totalRequests = target_requests ∧
      ∀ s, ∃ t,
        (run_workload ⟨none, σ.shared.collector.totalRequests,
          σ.shared.collector.totalErrors, none⟩).run s
          = .ok (if 0 < target_requests ∧ σ.shared.collector.totalErrors
            = target_requests then "ERROR"
              else "COMPLETED") t) := by
  have hoffice := office_of_workers htarget h
  have haccounts := accounts_of_workers h
  refine ⟨⟨Tickets.conserved hoffice, haccounts⟩, ?_, fun hdone => ?_⟩
  · exact Pool.exists_run_of_progress
      (fun σ => 6 * (target_requests - σ.shared.request_budget) + ∑ w, (σ.locals w).pc.weight)
      (fun _ hσ hstuck => exists_progress extra htarget hnarrow hσ hstuck) h
  · have hstopped : ∀ w, (σ.locals w).pc.place = .stopped := fun w => by rw [hdone w]; rfl
    have hspent : σ.shared.collector.totalRequests = target_requests :=
      (Tickets.spent_of_stopped hoffice hstopped).2
        ⟨⟨0, phase.connections_pos⟩, ⟨0, phase.effective_pipeline_depth_pos⟩⟩ rfl
    have hstatus :=
      run_workload_of_totals σ.shared.collector.totalRequests σ.shared.collector.totalErrors
    rw [hspent] at hstatus ⊢
    exact ⟨rfl, hstatus⟩

/-- Two connections with two slots each, a limit of a thousand requests a second, and a target of
three. -/
def limitedPhase : Phase where
  connections := 2
  connections_pos := Nat.two_pos
  effective_pipeline_depth := 2
  effective_pipeline_depth_pos := Nat.two_pos
  rps_limit := 1000
  target_requests := some 3
  commands := ["GET", "SET"]
  commands_ne_nil := List.cons_ne_nil "GET" ["SET"]
  keyspace := thousandKeys
  keyspace_valid := thousandKeys_valid

/-- The phase can come to its end, and has recorded three requests then. -/
theorem limitedPhase_completed :
    ∃ events σ, (workers (2 ^ 48 + 0) limitedPhase 7).run events
        (workers (2 ^ 48 + 0) limitedPhase 7).init = some σ ∧
      (∀ w, (σ.locals w).pc = .done) ∧ σ.shared.collector.totalRequests = 3 := by
  have hnarrow : limitedPhase.keyspace.Narrow := fun _ => by decide
  have hcompleted := fun σ => budget_completed 0 limitedPhase 7 rfl hnarrow (σ := σ)
  obtain ⟨-, ⟨events, σ, hrun, hdone⟩, -⟩ := hcompleted _ .init
  exact ⟨events, σ, hrun, hdone, ((hcompleted σ (Pool.Reachable.run .init hrun)).2.2 hdone).1⟩

end RespBench.Python.EventLoop
