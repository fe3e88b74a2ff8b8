import RespBench.Python.EventLoop

/-!
# The turns of the Python workers

What the workers do with the event loop, in every order in which the loop resumes them.
`steps_of_step` is the inversion of their steps. `Polite` says that a worker gives the loop back
after so many requests, and `BacksOff` that it slows down while its requests fail.
`workers_take_turns` and `failing_phase_slows` are what follows for a phase.
-/

namespace RespBench.Python.EventLoop
open RespBench.Lib RespBench.Limiter
open RespBench.Metrics.Eager (MetricsCollector)

/-! ## Steps -/

section Relation
variable (fuel : ℕ) (phase : Phase) (w : phase.Worker)

/-- The steps of a worker, one rule for each. -/
inductive Steps : Shared phase → Local → Shared phase → Local → Prop where
  | tick {s l} (d : ℕ) : Steps s l { s with schedule := s.schedule.tick d } l
  | resume {s l pc} : s.running = none → awake s.schedule.clock l.pc = some pc →
    Steps s l { s with running := some w, served := 0 } { l with pc := pc }
  | claim {s l target_requests} : s.running = some w → l.pc = .top →
    phase.target_requests = some target_requests →
    s.request_budget < target_requests →
    Steps s l { s with request_budget := s.request_budget + 1 } { l with pc := claimed phase }
  | refuse {s l target_requests} : s.running = some w → l.pc = .top →
    phase.target_requests = some target_requests →
    target_requests ≤ s.request_budget →
    Steps s l { s with request_budget := s.request_budget + 1, running := none }
      { l with pc := .done }
  | go {s l} : s.running = some w → l.pc = .top → phase.target_requests = none →
    Steps s l s { l with pc := claimed phase }
  | expire {s l} : s.running = some w → l.pc = .top → phase.target_requests = none →
    Steps s l { s with running := none } { l with pc := .done }
  | grant {s l interval} : s.running = some w → l.pc = .acquire →
    s.schedule.nextAllowed ≤ s.schedule.clock →
    Steps s l { s with schedule := s.schedule.grant interval s.schedule.clock }
      { l with pc := .select }
  | wait {s l until_} : s.running = some w → l.pc = .acquire →
    Steps s l { s with running := none } { l with pc := .sleep until_ }
  | select {s l command key g} : s.running = some w → l.pc = .select →
    KeyGenerator.next_key fuel ⟨phase.keyspace, s.shared_counter, s.random w.1⟩ = .ok (key, g) →
    Steps s l
      { s with
        shared_counter := g.sequential_counter
        random := Function.update s.random w.1 g.random }
      { l with pc := .execute command }
  | suspend {s l command} : s.running = some w → l.pc = .execute command →
    Steps s l { s with running := none } { l with pc := .suspended command }
  | finish {s l command outcome} : s.running = some w → l.pc = .execute command →
    Steps s l (finish command outcome s l).1 (finish command outcome s l).2

variable {fuel} {phase} {w} {s t : Shared phase} {l k : Local} {event : Event}

/-- A draw that returns has not failed. -/
lemma ok_of_toOption {ε α : Type} {x : Except ε α} {a : α} (h : x.toOption = some a) :
    x = .ok a := by
  cases x with
  | error e => cases h
  | ok b => exact congrArg _ (Option.some.inj h)

/-- Every operation of a running worker follows a rule. -/
lemma steps_of_advance {expired : Bool} (hrunning : s.running = some w)
    (h : advance phase expired s l = some (t, k)) :
    Steps fuel phase w s l t k := by
  rw [advance] at h
  split at h
  next hpc =>
    split at h
    next target_requests htarget =>
      split at h <;> cases h
      next hspent => exact .refuse hrunning hpc htarget hspent
      next hleft => exact .claim hrunning hpc htarget (not_le.mp hleft)
    next htarget =>
      split at h <;> cases h
      next => exact .expire hrunning hpc htarget
      next => exact .go hrunning hpc htarget
  next hpc =>
    split at h
    next => cases h
    next interval =>
      split at h <;> cases h
      next hreached => exact .grant hrunning hpc hreached
      next => exact .wait hrunning hpc
  next => cases h

/-- Every step of a worker follows a rule. -/
theorem steps_of_step (h : step fuel phase w event s l = some (t, k)) :
    Steps fuel phase w s l t k := by
  cases event with
  | tick d =>
    cases h
    exact .tick d
  | resume =>
    simp only [step] at h
    split at h
    next hfree =>
      obtain ⟨pc, hpc, heq⟩ := Option.map_eq_some_iff.mp h
      cases heq
      exact .resume hfree hpc
    next => cases h
  | run expired =>
    simp only [step] at h
    split at h
    next hrunning => exact steps_of_advance hrunning h
    next => cases h
  | select command =>
    simp only [step] at h
    split at h
    next hselect =>
      obtain ⟨u, hdraw, heq⟩ := Option.map_eq_some_iff.mp h
      cases heq
      obtain ⟨⟨key, g⟩, hkey, rfl⟩ := Option.map_eq_some_iff.mp hdraw
      exact .select hselect.1 hselect.2.1 (ok_of_toOption hkey)
    next => cases h
  | suspend =>
    simp only [step] at h
    split at h
    next command hpc =>
      split at h <;> cases h
      next hrunning => exact .suspend hrunning hpc
    next => cases h
  | finish outcome =>
    simp only [step] at h
    split at h
    next command hpc =>
      split at h
      next hrunning =>
        obtain rfl : (finish command outcome s l).1 = t := congrArg Prod.fst (Option.some.inj h)
        obtain rfl : (finish command outcome s l).2 = k := congrArg Prod.snd (Option.some.inj h)
        exact .finish hrunning hpc
      next => cases h
    next => cases h

end Relation

/-! ## What a finished request leaves behind -/

section Finish
variable {phase : Phase} {s : Shared phase} {l : Local} {command : String} {outcome : Outcome}

/-- The end of a round, in its three cases: the worker goes on, yields, or backs off. -/
lemma finish_cases (command : String) (outcome : Outcome) (s : Shared phase) (l : Local) :
    (outcome.success ∧ l.since_yield + 1 < YIELD_EVERY_N_REQUESTS ∧
      (finish command outcome s l).1.running = s.running ∧
      (finish command outcome s l).2
        = { l with pc := .top, since_yield := l.since_yield + 1, consecutive_failures := 0 }) ∨
    (outcome.success ∧ (finish command outcome s l).1.running = none ∧
      (finish command outcome s l).2
        = { l with pc := .pause s.schedule.clock, since_yield := 0, consecutive_failures := 0 }) ∨
    (!outcome.success ∧ (finish command outcome s l).1.running = none ∧
      (finish command outcome s l).2
        = { pc := .pause (s.schedule.clock + backoff (l.consecutive_failures + 1))
            since_yield := 0
            consecutive_failures := l.consecutive_failures + 1
            failing_since := if l.consecutive_failures = 0 then s.schedule.clock
              else l.failing_since }) := by
  cases hsuccess : outcome.success with
  | true =>
    by_cases hyield : l.since_yield + 1 ≥ YIELD_EVERY_N_REQUESTS
    · refine .inr (.inl ⟨rfl, ?_, ?_⟩) <;> simp only [finish, hsuccess, if_true, if_pos hyield]
    · refine .inl ⟨rfl, not_le.mp hyield, ?_, ?_⟩
        <;> simp only [finish, hsuccess, if_true, if_neg hyield]
  | false => refine .inr (.inr ⟨rfl, ?_, ?_⟩) <;> simp only [finish, hsuccess,
      Bool.false_eq_true, if_false]

/-- Whatever happens next, the request is recorded. -/
lemma finish_shared (command : String) (outcome : Outcome) (s : Shared phase) (l : Local) :
    (finish command outcome s l).1.collector = record s.collector (outcome.toResult command) ∧
      (finish command outcome s l).1.served = s.served + 1 ∧
      (finish command outcome s l).1.schedule = s.schedule ∧
      (finish command outcome s l).1.request_budget = s.request_budget := by
  unfold finish
  dsimp only
  split
  · split <;> exact ⟨rfl, rfl, rfl, rfl⟩
  · exact ⟨rfl, rfl, rfl, rfl⟩

end Finish

/-! ## Turns -/

/-- A worker in these places has the loop. -/
def Pc.active : Pc → Bool
  | .top => true
  | .acquire => true
  | .select => true
  | .execute _ => true
  | _ => false

/-- A worker in these places waits for the limiter. -/
def Pc.acquiring : Pc → Bool
  | .acquire => true
  | .sleep _ => true
  | _ => false

/-- What a worker knows of the loop: it is in the middle of a round exactly when it has the
loop, it waits for the limiter only if there is one, and it has not finished more requests in
its turn than it counts. -/
structure Polite (phase : Phase) (w : phase.Worker) (s : Shared phase) (l : Local) : Prop where
  running : s.running = some w ↔ l.pc.active
  limited : l.pc.acquiring → phase.rate_limiter.isSome
  since_yield : l.since_yield < YIELD_EVERY_N_REQUESTS
  served : s.running = some w → s.served ≤ l.since_yield

section Turns
variable {fuel : ℕ} {phase : Phase} {w v : phase.Worker} {s t : Shared phase} {l k : Local}

/-- A worker that wakes up is active. -/
lemma active_of_awake {now : ℤ} {pc pc' : Pc} (h : awake now pc = some pc') :
    pc'.active ∧ (pc'.acquiring → pc.acquiring) := by
  cases pc <;> simp only [awake, reduceCtorEq, Option.some.injEq] at h
  case created =>
    cases h
    exact ⟨rfl, nofun⟩
  case sleep =>
    split at h <;> cases h
    exact ⟨rfl, fun _ => rfl⟩
  case suspended =>
    cases h
    exact ⟨rfl, nofun⟩
  case pause =>
    split at h <;> cases h
    exact ⟨rfl, nofun⟩

/-- A worker keeps its manners. -/
lemma Polite.steps (hl : Polite phase w s l) (h : Steps fuel phase w s l t k) :
    Polite phase w t k := by
  cases h with
  | tick d => exact ⟨hl.running, hl.limited, hl.since_yield, hl.served⟩
  | resume hfree hawake =>
    obtain ⟨hactive, hacquiring⟩ := active_of_awake hawake
    exact ⟨iff_of_true rfl hactive, fun h => hl.limited (hacquiring h), hl.since_yield,
      fun _ => Nat.zero_le _⟩
  | claim hrunning =>
    refine ⟨iff_of_true hrunning ?_, fun h => ?_, hl.since_yield, hl.served⟩
    · unfold claimed
      split <;> rfl
    · by_contra hnone
      simp [claimed, hnone, Pc.acquiring] at h
  | refuse => exact ⟨iff_of_false nofun nofun, nofun, hl.since_yield, nofun⟩
  | go hrunning =>
    refine ⟨iff_of_true hrunning ?_, fun h => ?_, hl.since_yield, hl.served⟩
    · unfold claimed
      split <;> rfl
    · by_contra hnone
      simp [claimed, hnone, Pc.acquiring] at h
  | expire => exact ⟨iff_of_false nofun nofun, nofun, hl.since_yield, nofun⟩
  | grant hrunning => exact ⟨iff_of_true hrunning rfl, nofun, hl.since_yield, hl.served⟩
  | wait _ hpc => exact ⟨iff_of_false nofun nofun, fun _ => hl.limited (by rw [hpc]; rfl),
      hl.since_yield, nofun⟩
  | select hrunning => exact ⟨iff_of_true hrunning rfl, nofun, hl.since_yield, hl.served⟩
  | suspend => exact ⟨iff_of_false nofun nofun, nofun, hl.since_yield, nofun⟩
  | @finish command outcome hrunning hpc =>
    have hserved := (finish_shared command outcome s l).2.1
    rcases finish_cases command outcome s l with ⟨-, hlt, hkeeps, hlocal⟩ | ⟨-, hfree, hlocal⟩ | ⟨-,
      hfree, hlocal⟩
    · rw [hlocal]
      refine ⟨iff_of_true (hkeeps.trans hrunning) rfl, nofun, hlt, fun _ => ?_⟩
      rw [hserved]
      exact Nat.succ_le_succ (hl.served hrunning)
    · rw [hlocal]
      exact ⟨iff_of_false (by rw [hfree]; nofun) nofun, nofun, Nat.succ_pos _, by rw [hfree]; nofun⟩
    · rw [hlocal]
      exact ⟨iff_of_false (by rw [hfree]; nofun) nofun, nofun, Nat.succ_pos _, by rw [hfree]; nofun⟩

/-- What a step does to the loop, as the others see it: it goes to the worker or to nobody, unless
the step is only time. -/
lemma running_of_steps (h : Steps fuel phase w s l t k) :
    (t.running = s.running ∧ t.served = s.served) ∨
      ((s.running = none ∨ s.running = some w) ∧ (t.running = none ∨ t.running = some w)) := by
  cases h with
  | tick d => exact .inl ⟨rfl, rfl⟩
  | resume hfree => exact .inr ⟨.inl hfree, .inr rfl⟩
  | refuse hrunning => exact .inr ⟨.inr hrunning, .inl rfl⟩
  | expire hrunning => exact .inr ⟨.inr hrunning, .inl rfl⟩
  | wait hrunning => exact .inr ⟨.inr hrunning, .inl rfl⟩
  | suspend hrunning => exact .inr ⟨.inr hrunning, .inl rfl⟩
  | @finish command outcome hrunning hpc =>
    rcases finish_cases command outcome s l with ⟨-, -, hkeeps, -⟩ | ⟨-, hfree, -⟩ | ⟨-, hfree, -⟩
    · exact .inr ⟨.inr hrunning, .inr (hkeeps.trans hrunning)⟩
    · exact .inr ⟨.inr hrunning, .inl hfree⟩
    · exact .inr ⟨.inr hrunning, .inl hfree⟩
  | _ => exact .inl ⟨rfl, rfl⟩

/-- The others keep theirs while it steps. -/
lemma Polite.others (hk : Polite phase v s k) (hv : v ≠ w) {l' : Local}
    (h : Steps fuel phase w s l t l') :
    Polite phase v t k := by
  have hne : ∀ {o : Option phase.Worker}, o = none ∨ o = some w → o ≠ some v := by
    rintro o (rfl | rfl) heq
    · cases heq
    · exact hv (Option.some.inj heq).symm
  rcases running_of_steps h with ⟨hrunning, hserved⟩ | ⟨hbefore, hafter⟩
  · exact ⟨by rw [hrunning]; exact hk.running, hk.limited, hk.since_yield,
      by rw [hrunning, hserved]; exact hk.served⟩
  · refine ⟨iff_of_false (hne hafter) fun hactive => hne hbefore (hk.running.mpr hactive),
      hk.limited, hk.since_yield, fun hrunning => absurd hrunning (hne hafter)⟩

/-- Nobody finishes more requests in a turn than it may. -/
lemma served_of_steps (hl : Polite phase w s l) (hserved : s.served ≤ YIELD_EVERY_N_REQUESTS)
    (h : Steps fuel phase w s l t k) : t.served ≤ YIELD_EVERY_N_REQUESTS := by
  cases h with
  | resume => exact Nat.zero_le _
  | @finish command outcome hrunning hpc =>
    rw [(finish_shared command outcome s l).2.1]
    exact (Nat.succ_le_succ (hl.served hrunning)).trans hl.since_yield
  | _ => exact hserved

end Turns

/-! ## Failures -/

/-- How long a worker has slept after so many consecutive failures. -/
def backoffTotal (n : ℕ) : ℤ := ∑ i ∈ Finset.range n, backoff (i + 1)

/-- One more failure adds its backoff. -/
lemma backoffTotal_succ (n : ℕ) : backoffTotal (n + 1) = backoffTotal n + backoff (n + 1) :=
  Finset.sum_range_succ _ _

/-- From the 57th failure on, a worker sleeps for the maximum. -/
lemma backoff_eq {n : ℕ} (h : 57 ≤ n) : backoff n = MAX_FAILURE_BACKOFF := by
  unfold backoff MAX_FAILURE_BACKOFF CONSECUTIVE_FAILURE_BACKOFF_AFTER
  rw [if_pos (by omega)]
  omega

/-- The failures that cost nothing or less than the maximum save a worker no more than
31.5 times the maximum. -/
lemma le_backoffTotal (n : ℕ) : MAX_FAILURE_BACKOFF * n - 1575000000 ≤ backoffTotal n := by
  have hfirst : ∀ n ≤ 57, MAX_FAILURE_BACKOFF * n - 1575000000 ≤ backoffTotal n := by decide +kernel
  rcases le_total n 57 with hn | hn
  · exact hfirst n hn
  · induction n, hn using Nat.le_induction with
    | base => exact hfirst 57 le_rfl
    | succ n hn ih =>
      rw [backoffTotal_succ, backoff_eq (by omega)]
      push_cast
      linarith

/-- When a worker can record its next request at the earliest. -/
def Pc.earliest (now : ℤ) : Pc → ℤ
  | .pause until_ => until_
  | _ => now

/-- A worker whose requests keep failing has slept between them. -/
structure BacksOff (t0 : ℤ) {phase : Phase} (s : Shared phase) (l : Local) : Prop where
  started : t0 ≤ s.schedule.clock
  since : t0 ≤ l.failing_since
  elapsed : 0 < l.consecutive_failures →
    l.failing_since + backoffTotal (l.consecutive_failures - 1) ≤ s.schedule.clock
  earliest : 0 < l.consecutive_failures →
    l.failing_since + backoffTotal l.consecutive_failures ≤ l.pc.earliest s.schedule.clock

section Failures
variable {fuel : ℕ} {phase : Phase} {w : phase.Worker} {t0 : ℤ} {s t : Shared phase} {l k : Local}

/-- A worker wakes up when its time has come. -/
lemma earliest_le_of_awake {now : ℤ} {pc pc' : Pc} (h : awake now pc = some pc') :
    pc.earliest now ≤ now ∧ pc'.earliest now = now := by
  cases pc <;> simp only [awake, reduceCtorEq, Option.some.injEq] at h
  case created =>
    cases h
    exact ⟨le_rfl, rfl⟩
  case sleep =>
    split at h <;> cases h
    exact ⟨le_rfl, rfl⟩
  case suspended =>
    cases h
    exact ⟨le_rfl, rfl⟩
  case pause =>
    split at h <;> cases h
    exact ⟨‹_›, rfl⟩

/-- The clock does not go back. -/
lemma clock_le_of_steps (h : Steps fuel phase w s l t k) : s.schedule.clock ≤ t.schedule.clock := by
  cases h with
  | tick d => exact Int.le_add_of_nonneg_right (Int.natCast_nonneg d)
  | @finish command outcome => rw [(finish_shared command outcome s l).2.2.1]
  | _ => exact le_rfl

/-- The steps of the others, which let the clock go on at most, change nothing. -/
lemma BacksOff.clock (hl : BacksOff t0 s l) (h : s.schedule.clock ≤ t.schedule.clock) :
    BacksOff t0 t l := by
  refine ⟨hl.started.trans h, hl.since, fun hfailed => (hl.elapsed hfailed).trans h,
    fun hfailed => ?_⟩
  refine (hl.earliest hfailed).trans ?_
  unfold Pc.earliest
  split
  · exact le_rfl
  · exact h

/-- Nor does a step of the worker that has not to do with its requests, if it does
not end its sleep early. -/
lemma BacksOff.goes (hl : BacksOff t0 s l) (h : s.schedule.clock ≤ t.schedule.clock)
    {pc : Pc} (hpc : l.pc.earliest s.schedule.clock ≤ pc.earliest t.schedule.clock) :
    BacksOff t0 t { l with pc := pc } :=
  ⟨hl.started.trans h, hl.since, fun hfailed => (hl.elapsed hfailed).trans h,
    fun hfailed => (hl.earliest hfailed).trans hpc⟩

/-- A worker that backs off goes on to do so. -/
lemma BacksOff.steps (hl : BacksOff t0 s l) (h : Steps fuel phase w s l t k) : BacksOff t0 t k := by
  have hclock := clock_le_of_steps h
  cases h with
  | tick d => exact hl.clock hclock
  | resume _ hawake =>
    obtain ⟨hbefore, hafter⟩ := earliest_le_of_awake hawake
    exact hl.goes hclock (hbefore.trans hafter.ge)
  | claim _ hpc =>
    refine hl.goes hclock ?_
    rw [hpc, claimed]
    split <;> exact le_rfl
  | refuse _ hpc => exact hl.goes hclock (by rw [hpc]; exact le_rfl)
  | go _ hpc =>
    refine hl.goes hclock ?_
    rw [hpc, claimed]
    split <;> exact le_rfl
  | expire _ hpc => exact hl.goes hclock (by rw [hpc]; exact le_rfl)
  | grant _ hpc => exact hl.goes hclock (by rw [hpc]; exact le_rfl)
  | wait _ hpc => exact hl.goes hclock (by rw [hpc]; exact le_rfl)
  | select _ hpc => exact hl.goes hclock (by rw [hpc]; exact le_rfl)
  | suspend _ hpc => exact hl.goes hclock (by rw [hpc]; exact le_rfl)
  | @finish command outcome _ hpc =>
    have hschedule := (finish_shared command outcome s l).2.2.1
    have hstarted : t0 ≤ (finish command outcome s l).1.schedule.clock := hl.started.trans hclock
    rcases finish_cases command outcome s l with ⟨-, -, -, hlocal⟩ | ⟨-, -, hlocal⟩ | ⟨-, -, hlocal⟩
    · rw [hlocal]
      exact ⟨hstarted, hl.since, fun hfailed => absurd hfailed (lt_irrefl 0),
        fun hfailed => absurd hfailed (lt_irrefl 0)⟩
    · rw [hlocal]
      exact ⟨hstarted, hl.since, fun hfailed => absurd hfailed (lt_irrefl 0),
        fun hfailed => absurd hfailed (lt_irrefl 0)⟩
    · -- another failure: the first one, or one more after the sleeps of those before it
      rw [hlocal]
      rcases Nat.eq_zero_or_pos l.consecutive_failures with hzero | hpos
      · refine ⟨hstarted, ?_, fun _ => ?_, fun _ => ?_⟩
        · simpa only [hzero, if_true] using hl.started
        · simp only [hzero, if_true, hschedule, backoffTotal, Finset.range_zero, Finset.sum_empty,
            add_zero, Nat.zero_add, Nat.sub_self, le_refl]
        · simp only [hzero, if_true, Pc.earliest, Nat.zero_add, backoffTotal, Finset.range_one,
            Finset.sum_singleton, le_refl]
      · have hearliest := hl.earliest hpos
        rw [hpc] at hearliest
        refine ⟨hstarted, ?_, fun _ => ?_, fun _ => ?_⟩
        · simpa only [hpos.ne', if_false] using hl.since
        · simpa only [hpos.ne', if_false, hschedule, Nat.add_sub_cancel, Pc.earliest]
            using hearliest
        · simp only [hpos.ne', if_false, Pc.earliest, backoffTotal_succ]
          rw [← add_assoc]
          exact add_le_add_left hearliest _

/-- The consecutive failures of a worker are bounded by the time that has passed
since the first of them. -/
lemma BacksOff.failures_le (hl : BacksOff t0 s l) (hfailed : 0 < l.consecutive_failures) :
    MAX_FAILURE_BACKOFF * l.consecutive_failures - 1625000000 ≤ s.schedule.clock
      - l.failing_since := by
  have helapsed := hl.elapsed hfailed
  have hbackoff := le_backoffTotal (l.consecutive_failures - 1)
  rw [Nat.cast_sub hfailed] at hbackoff
  rw [MAX_FAILURE_BACKOFF] at hbackoff ⊢
  push_cast at hbackoff
  linarith

end Failures

section Reachable
variable {fuel : ℕ} {phase : Phase} {t0 : ℤ} {σ : Pool.State phase.Worker (Shared phase) Local}

/-- In every reachable state every worker knows where the loop is. -/
lemma polite_of_workers (h : (workers fuel phase t0).Reachable σ) (w : phase.Worker) :
    Polite phase w σ.shared (σ.locals w) :=
  Pool.knows_induction (P := workers fuel phase t0) (K := Polite phase)
    (fun _ => ⟨iff_of_false nofun nofun, nofun, Nat.succ_pos _, nofun⟩)
    (fun _ _ _ _ _ _ hl hstep => hl.steps (steps_of_step hstep))
    (fun _ _ _ _ _ _ _ _ hv _ hstep hk => hk.others hv (steps_of_step hstep)) h w

/-- The running worker yields in time. -/
lemma served_le (h : (workers fuel phase t0).Reachable σ) :
    σ.shared.served ≤ YIELD_EVERY_N_REQUESTS := by
  refine Pool.reachable_induction (P := workers fuel phase t0)
    (I := fun σ => σ.shared.served ≤ YIELD_EVERY_N_REQUESTS) (Nat.zero_le _) ?_ h
  intro σ w e σ' hreachable hserved hnext
  exact served_of_steps (polite_of_workers hreachable w) hserved
    (steps_of_step (Pool.next_eq_some hnext).1)

/-- Every worker backs off after its failures. -/
lemma backsOff_of_workers (h : (workers fuel phase t0).Reachable σ) (w : phase.Worker) :
    BacksOff t0 σ.shared (σ.locals w) :=
  Pool.knows_induction (P := workers fuel phase t0) (K := fun _ => BacksOff t0)
    (fun _ => ⟨le_rfl, le_rfl, fun hfailed => absurd hfailed (lt_irrefl 0),
      fun hfailed => absurd hfailed (lt_irrefl 0)⟩)
    (fun _ _ _ _ _ _ hl hstep => hl.steps (steps_of_step hstep))
    (fun _ _ _ _ _ _ _ _ _ _ hstep hk => hk.clock (clock_le_of_steps (steps_of_step hstep))) h w

/-- What a step records: nothing, or the request that the worker finishes. -/
lemma collector_of_steps {w : phase.Worker} {s t : Shared phase} {l k : Local}
    (h : Steps fuel phase w s l t k) :
    t.collector = s.collector ∧ k.consecutive_failures = l.consecutive_failures ∨
      ∃ (command : String) (outcome : Outcome),
      t.collector = record s.collector (outcome.toResult command) ∧
        k.consecutive_failures = if outcome.success then 0 else l.consecutive_failures + 1 := by
  cases h with
  | @finish command outcome =>
    refine .inr ⟨command, outcome, (finish_shared command outcome s l).1, ?_⟩
    rcases finish_cases command outcome s l with ⟨hsuccess, -, -, hlocal⟩ | ⟨hsuccess, -,
      hlocal⟩ | ⟨hfailed, -, hlocal⟩
    · rw [hlocal, hsuccess]
      rfl
    · rw [hlocal, hsuccess]
      rfl
    · rw [hlocal, Bool.not_eq_true' .. |>.mp hfailed]
      rfl
  | _ => exact .inl ⟨rfl, rfl⟩

/-- A result has the success of its outcome. -/
lemma success_toResult (command : String) (outcome : Outcome) :
    (outcome.toResult command).success = outcome.success := by
  cases outcome <;> rfl

/-- The collector accounts for itself. -/
lemma accounts_of_workers (h : (workers fuel phase t0).Reachable σ) :
    σ.shared.collector.Accounts := by
  refine Pool.reachable_induction (P := workers fuel phase t0)
    (I := fun σ => σ.shared.collector.Accounts)
    MetricsCollector.accounts_new ?_ h
  intro σ w e σ' _ hσ hnext
  rcases collector_of_steps (steps_of_step (Pool.next_eq_some hnext).1)
    with ⟨hcollector, -⟩ | ⟨command, outcome, hcollector, -⟩
  · rw [hcollector]
    exact hσ
  · rw [hcollector]
    exact hσ.record _ _

/-- While every request fails, each of them is one of the consecutive failures of a worker. -/
lemma failures_of_workers (h : (workers fuel phase t0).Reachable σ)
    (hfailed : σ.shared.collector.totalErrors = σ.shared.collector.totalRequests) :
    σ.shared.collector.totalErrors = ∑ w, (σ.locals w).consecutive_failures := by
  refine Pool.reachable_induction (P := workers fuel phase t0)
    (I := fun σ => σ.shared.collector.totalErrors = σ.shared.collector.totalRequests →
      σ.shared.collector.totalErrors = ∑ w, (σ.locals w).consecutive_failures) ?_ ?_ h hfailed
  · intro _
    exact (Finset.sum_eq_zero fun _ _ => rfl).symm
  · intro σ w e σ' hσ ih hnext hfailed
    obtain ⟨rest, hbefore, hafter⟩ := Pool.next_sum hnext fun _ l => l.consecutive_failures
    have hle := (accounts_of_workers hσ).totalErrors_le
    rcases collector_of_steps (steps_of_step (Pool.next_eq_some hnext).1) with
      ⟨hcollector, hfailures⟩ | ⟨command, outcome, hcollector, hfailures⟩
    · rw [hcollector] at hfailed ⊢
      rw [ih hfailed, hbefore, hafter, hfailures]
    · rw [hcollector] at hfailed ⊢
      simp only [record, MetricsCollector.record, success_toResult] at hfailed ⊢
      cases hsuccess : outcome.success with
      | true =>
        rw [hsuccess, if_pos rfl] at hfailed
        omega
      | false =>
        rw [hsuccess] at hfailed hfailures
        simp only [Bool.false_eq_true, if_false] at hfailed hfailures ⊢
        rw [ih (by omega), hbefore, hafter, hfailures]
        omega

end Reachable

/-! ## Results -/

/-- In every order in which the loop resumes the workers, at most one of them is in the middle of a
round, it has finished no more than 64 requests since it got the loop, and a worker whose last `n`
requests have failed has taken at least `50 n - 1625` milliseconds for them. -/
theorem workers_take_turns (fuel : ℕ) (phase : Phase) (t0 : ℤ)
    {σ : Pool.State phase.Worker (Shared phase) Local} (h : (workers fuel phase t0).Reachable σ) :
    (∀ v w, (σ.locals v).pc.active → (σ.locals w).pc.active → v = w) ∧
    σ.shared.served ≤ YIELD_EVERY_N_REQUESTS ∧
    ∀ w, 0 < (σ.locals w).consecutive_failures → t0 ≤ (σ.locals w).failing_since ∧
      MAX_FAILURE_BACKOFF * (σ.locals w).consecutive_failures - 1625000000
        ≤ σ.shared.schedule.clock - (σ.locals w).failing_since := by
  refine ⟨fun v w hv hw => ?_, served_le h, fun w hfailed => ?_⟩
  · have hrunning := (polite_of_workers h v).running.mpr hv
    rw [(polite_of_workers h w).running.mpr hw] at hrunning
    exact (Option.some.inj hrunning).symm
  · have hbacks := backsOff_of_workers h w
    exact ⟨hbacks.since, hbacks.failures_le hfailed⟩

/-- A thousand random keys. -/
def thousandKeys : KeyspaceConfig := ⟨1000, 16, "key:".toList, .uniform_rand, none⟩

/-- The keyspace of the example is valid. -/
lemma thousandKeys_valid : thousandKeys.Valid := ⟨by decide, by decide⟩

/-- A duration-based phase of one connection with two slots, whose connection fails. -/
def failingPhase : Phase where
  connections := 1
  connections_pos := Nat.one_pos
  effective_pipeline_depth := 2
  effective_pipeline_depth_pos := Nat.two_pos
  rps_limit := -1
  target_requests := none
  commands := ["GET"]
  commands_ne_nil := List.cons_ne_nil "GET" []
  keyspace := thousandKeys
  keyspace_valid := thousandKeys_valid

def first : failingPhase.Worker := (⟨0, Nat.one_pos⟩, ⟨0, Nat.two_pos⟩)
def second : failingPhase.Worker := (⟨0, Nat.one_pos⟩, ⟨1, Nat.one_lt_two⟩)

/-- The slots fail in turn, the first one twice: without suspending, and when it is resumed. -/
def failingEvents : List (failingPhase.Worker × Event) :=
  [(first, .resume), (first, .run false), (first, .select "GET"), (first, .finish .exception),
    (second, .resume), (second, .run false), (second, .select "GET"),
    (second, .finish (.result 120 false)), (first, .tick 5), (first, .resume), (first, .run false),
    (first, .select "GET"), (first, .suspend), (second, .tick 40), (first, .resume),
      (first, .finish .exception)]

def failingEnd : Pool.State failingPhase.Worker (Shared failingPhase) Local :=
  ((workers 8 failingPhase 7).run failingEvents
    (workers 8 failingPhase 7).init).get (by decide +kernel)

/-- The state of the failing phase is reachable. -/
lemma reachable_failingEnd : (workers 8 failingPhase 7).Reachable failingEnd :=
  Pool.Reachable.run .init (Option.some_get _).symm

/-- The first slot has two failures behind it. -/
theorem failingEnd_turns :
    (failingEnd.locals first).consecutive_failures = 2 ∧
      MAX_FAILURE_BACKOFF * (2 : ℕ) - 1625000000
        ≤ failingEnd.shared.schedule.clock - (failingEnd.locals first).failing_since := by
  have htwo : (failingEnd.locals first).consecutive_failures = 2 := by decide +kernel
  have hturns :=
    ((workers_take_turns 8 failingPhase 7 reachable_failingEnd).2.2 first
    (by rw [htwo]; exact Nat.two_pos)).2
  rw [htwo] at hturns
  exact ⟨htwo, hturns⟩

/-- A phase in which every request fails, however many of them return at once, records no more
errors than one for each worker in every 50 milliseconds, beyond the first 32.5 of each. -/
theorem failing_phase_slows (fuel : ℕ) (phase : Phase) (t0 : ℤ)
    {σ : Pool.State phase.Worker (Shared phase) Local} (h : (workers fuel phase t0).Reachable σ)
    (hfailed : σ.shared.collector.totalErrors = σ.shared.collector.totalRequests) :
    MAX_FAILURE_BACKOFF * σ.shared.collector.totalErrors
      ≤ phase.connections * phase.effective_pipeline_depth
        * (σ.shared.schedule.clock - t0 + 1625000000) := by
  have hworker : ∀ w, MAX_FAILURE_BACKOFF * ((σ.locals w).consecutive_failures : ℤ)
      ≤ σ.shared.schedule.clock - t0 + 1625000000 := by
    intro w
    have hbacks := backsOff_of_workers h w
    have hstarted := hbacks.started
    have hsince := hbacks.since
    rcases Nat.eq_zero_or_pos (σ.locals w).consecutive_failures with hzero | hpos
    · rw [hzero, Nat.cast_zero, mul_zero]
      linarith
    · have hfailures := hbacks.failures_le hpos
      linarith
  rw [failures_of_workers h hfailed, Nat.cast_sum]
  calc MAX_FAILURE_BACKOFF * ∑ w, ((σ.locals w).consecutive_failures : ℤ)
      = ∑ w, MAX_FAILURE_BACKOFF * ((σ.locals w).consecutive_failures : ℤ) := Finset.mul_sum _ _ _
    _ ≤ ∑ _w : phase.Worker, (σ.shared.schedule.clock - t0 + 1625000000) :=
      Finset.sum_le_sum fun w _ => hworker w
    _ = phase.connections * phase.effective_pipeline_depth
      * (σ.shared.schedule.clock - t0 + 1625000000) := by
        rw [Finset.sum_const, nsmul_eq_mul, Finset.card_univ, Fintype.card_prod, Fintype.card_fin,
          Fintype.card_fin, Nat.cast_mul]

/-- All three requests of the failing connection are errors. -/
theorem failingEnd_slows :
    failingEnd.shared.collector.totalErrors = 3 ∧
      MAX_FAILURE_BACKOFF * failingEnd.shared.collector.totalErrors
        ≤ 1 * 2 * (failingEnd.shared.schedule.clock - 7 + 1625000000) :=
  ⟨by decide +kernel, failing_phase_slows 8 failingPhase 7 reachable_failingEnd (by decide +kernel)⟩

end RespBench.Python.EventLoop
