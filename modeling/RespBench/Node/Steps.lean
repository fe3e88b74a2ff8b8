import RespBench.Node.Engine

/-!
# What the Node loops do

Inversion of the stretches of a loop, one relation for each function: `Issues` for `issue`,
`Acquires` for `acquire`, `Loops` for the top of the loop, and `Steps` for a whole stretch.
`steps_of_step` is what everything else about the loops rests on, and `requests_induction` the rule
for what only sending a request changes.
-/

namespace RespBench.Node
open RespBench.Lib RespBench.Limiter
open RespBench.Metrics (CommandResult)

/-! ## Stretches -/

section Relations
variable {fuel : ℕ} {phase : PhaseConfig} {connection : Fin phase.connections} {command : Command}

variable (fuel phase connection)

/-- A request was sent, with the next key if its command consumes one. -/
structure Issues (command : Command) (s t : Shared phase.connections) : Prop where
  command_mem : command ∈ phase.commands
  remaining : t.remaining = s.remaining
  schedule : t.schedule = s.schedule
  collector : t.collector = s.collector
  others : ∀ v ≠ connection, t.random v = s.random v
  issued : ∃ key, t.issued = s.issued ++ [⟨connection, command, key, s.schedule.clock⟩] ∧
    if command.usesKey then
      phase.keyspace.nextKey fuel s.counter (s.random connection)
        = some (key, t.counter, t.random connection)
    else key = [] ∧ t.counter = s.counter ∧ t.random = s.random

inductive Acquires : Shared phase.connections → Shared phase.connections → Pc → Prop where
  | issue {s t command} : phase.rateLimiter = none → Issues fuel phase connection command s t →
    Acquires s t (.flight command)
  | grant {s interval} : phase.rateLimiter = some interval →
    s.schedule.nextAllowed ≤ s.schedule.clock →
    Acquires s { s with schedule := s.schedule.grant interval s.schedule.clock } .admitted
  | wait {s interval} : phase.rateLimiter = some interval →
    s.schedule.clock < s.schedule.nextAllowed →
    Acquires s s .acquiring

inductive Loops : Shared phase.connections → Shared phase.connections → Pc → Prop where
  | expire {s} : phase.completion = .duration → Loops s s .done
  | continue {s t pc} : phase.completion = .duration →
    Acquires fuel phase connection s t pc → Loops s t pc
  | exhaust {s requests} : phase.completion = .requests requests → s.remaining ≤ 0 → Loops s s .done
  | claim {s t pc requests} : phase.completion = .requests requests → 0 < s.remaining →
    Acquires fuel phase connection { s with remaining := lower s.remaining } t pc → Loops s t pc

inductive Steps : Shared phase.connections → Pc → Shared phase.connections → Pc → Prop where
  | tick {s pc} (d : ℕ) : Steps s pc { s with schedule := s.schedule.tick d } pc
  | start {s t pc} : Loops fuel phase connection s t pc → Steps s .start t pc
  | retry {s t pc} : Acquires fuel phase connection s t pc → Steps s .acquiring t pc
  | send {s t command} : Issues fuel phase connection command s t →
    Steps s .admitted t (.flight command)
  | settle {s t pc command} (latencyMicros : ℤ) (success : Bool) :
    Loops fuel phase connection
      { s with collector := record s.collector ⟨command.name, latencyMicros, success⟩ } t pc →
    Steps s (.flight command) t pc

variable {fuel phase connection}
variable {s t : Shared phase.connections} {pc pc' : Pc} {event : Event}

/-- Issuing a request follows a rule. -/
lemma issues_of_issue (h : issue fuel phase connection command s = some (t, pc)) :
    Issues fuel phase connection command s t ∧ pc = .flight command := by
  rw [issue] at h
  split at h
  next => cases h
  next hmem =>
    split at h
    next huses =>
      obtain ⟨⟨key, counter, random⟩, hkey, heq⟩ := Option.map_eq_some_iff.mp h
      cases heq
      refine ⟨⟨not_not.mp hmem, rfl, rfl, rfl, fun v hv => Function.update_of_ne hv _ _, key,
        rfl, ?_⟩, rfl⟩
      dsimp only
      rw [if_pos huses, hkey, Function.update_self]
    next huses =>
      cases h
      refine ⟨⟨not_not.mp hmem, rfl, rfl, rfl, fun _ _ => rfl, [], rfl, ?_⟩, rfl⟩
      rw [if_neg huses]
      exact ⟨rfl, rfl, rfl⟩

/-- Acquiring a slot follows a rule. -/
lemma acquires_of_acquire (h : acquire fuel phase connection command s = some (t, pc)) :
    Acquires fuel phase connection s t pc := by
  rw [acquire] at h
  split at h
  next hlimiter =>
    obtain ⟨hissues, rfl⟩ := issues_of_issue h
    exact .issue hlimiter hissues
  next interval hlimiter =>
    split at h <;> cases h
    next hreached => exact .grant hlimiter hreached
    next hearly => exact .wait hlimiter (not_le.mp hearly)

/-- A round of the loop follows a rule. -/
lemma loops_of_loop {reading : Reading} (h : loop fuel phase connection reading s = some (t, pc)) :
    Loops fuel phase connection s t pc := by
  rw [loop] at h
  split at h
  next hcompletion =>
    split at h
    next =>
      cases h
      exact .expire hcompletion
    next => exact .continue hcompletion (acquires_of_acquire h)
  next requests hcompletion =>
    split at h
    next hexhausted =>
      cases h
      exact .exhaust hcompletion hexhausted
    next hleft => exact .claim hcompletion (not_le.mp hleft) (acquires_of_acquire h)

/-- Every step of a loop follows a rule. -/
theorem steps_of_step (h : step fuel phase connection event s pc = some (t, pc')) :
    Steps fuel phase connection s pc t pc' := by
  cases event with
  | tick d =>
    cases h
    exact .tick d
  | resume reading =>
    cases pc with
    | start => exact .start (loops_of_loop h)
    | acquiring => exact .retry (acquires_of_acquire h)
    | admitted =>
      obtain ⟨hissues, rfl⟩ := issues_of_issue h
      exact .send hissues
    | flight command => exact .settle reading.latencyMicros reading.success (loops_of_loop h)
    | done => cases h

/-! ## What the loops leave alone -/

/-- The two states have sent the same requests. -/
structure SameRequests (s t : Shared phase.connections) : Prop where
  counter : t.counter = s.counter
  random : t.random = s.random
  issued : t.issued = s.issued

/-- Until a loop sends a request, the keys and the requests stay as they are. -/
lemma issues_of_acquires {I : Shared phase.connections → Prop}
    (h : Acquires fuel phase connection s t pc)
    (hissues : ∀ {s t command}, I s → Issues fuel phase connection command s t → I t)
    (hsame : ∀ {s t}, I s → SameRequests s t → I t) (hs : I s) : I t := by
  cases h with
  | issue _ hissue => exact hissues hs hissue
  | grant => exact hsame hs ⟨rfl, rfl, rfl⟩
  | wait => exact hs

/-- What issuing preserves, a round of the loop preserves. -/
lemma issues_of_loops {I : Shared phase.connections → Prop} (h : Loops fuel phase connection s t pc)
    (hissues : ∀ {s t command}, I s → Issues fuel phase connection command s t → I t)
    (hsame : ∀ {s t}, I s → SameRequests s t → I t) (hs : I s) : I t := by
  cases h with
  | expire => exact hs
  | «continue» _ hacquires => exact issues_of_acquires hacquires hissues hsame hs
  | exhaust => exact hs
  | claim _ _ hacquires =>
    exact issues_of_acquires hacquires hissues hsame (hsame hs ⟨rfl, rfl, rfl⟩)

/-- What holds initially of the keys and the requests, and is preserved whenever one is sent, holds
in every reachable state. -/
theorem requests_induction {t0 : ℤ} {I : Shared phase.connections → Prop}
    (hinit : I (workload fuel phase t0).shared)
    (hissues : ∀ {connection command s t}, I s → Issues fuel phase connection command s t → I t)
    (hsame : ∀ {s t}, I s → SameRequests s t → I t)
    {σ : Pool.State (Fin phase.connections × Fin phase.slots) (Shared phase.connections) Pc}
    (h : (workload fuel phase t0).Reachable σ) : I σ.shared := by
  refine Pool.reachable_induction (P := workload fuel phase t0)
    (I := fun σ => I σ.shared) hinit ?_ h
  intro σ w e σ' _ hσ hnext
  have hsteps := steps_of_step (Pool.next_eq_some hnext).1
  generalize σ.locals w = pc at hsteps
  generalize σ'.locals w = pc' at hsteps
  generalize σ'.shared = t at hsteps ⊢
  cases hsteps with
  | tick d => exact hsame hσ ⟨rfl, rfl, rfl⟩
  | start hloops => exact issues_of_loops hloops hissues hsame hσ
  | retry hacquires => exact issues_of_acquires hacquires hissues hsame hσ
  | send hissue => exact hissues hσ hissue
  | settle latencyMicros success hloops =>
    exact issues_of_loops hloops hissues hsame (hsame hσ ⟨rfl, rfl, rfl⟩)

end Relations

end RespBench.Node
