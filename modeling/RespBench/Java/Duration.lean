import RespBench.Limiter.Java

/-!
# Duration phases with a rate limit

The workers of a duration-based phase in the Java engine that has a rate limit: `runSyncLoop` with
the end time that `executeWorkload` computes, and the limiter that they share. A worker compares
the clock with the end time and then waits in the limiter for as long as it takes; when it gets its
slot it issues its request, whatever the time is. So the phase ends when the last of the waiting
workers got a slot. `threeWorkers_late` is a phase of three workers whose last request comes two
intervals after the end time. In general it comes before the end time plus one interval for every
connection (`duration_bounded`).

Commands complete at once and no worker throws, so that `running` stays true. Time passes anyhow in
a run of the pool, and in a prompt run (`Prompt`) only while all workers sleep.
-/

namespace RespBench.Java.Duration
open RespBench.Lib
open RespBench.Limiter (Schedule Grant Conserved intervalNanos)

/-- What the workers read of their phase, and when it runs: the limiter is created at `created`, the
end time is computed `setup` nanoseconds later, and `System.currentTimeMillis` counts from `epoch`
nanoseconds before the zero of `System.nanoTime`. -/
structure Phase where
  connections : ℕ
  rpsLimit : ℤ
  durationSeconds : ℤ
  created : ℤ
  setup : ℕ
  epoch : ℤ

namespace Phase
variable (phase : Phase)

def start : ℤ := phase.created + phase.setup

/-- `System.currentTimeMillis`, when `System.nanoTime` is `clock`. -/
def currentTimeMillis (clock : ℤ) : ℤ := (clock + phase.epoch) / 1000000

def endTimeMs : ℤ := phase.currentTimeMillis phase.start + phase.durationSeconds * 1000

/-- The time of the clock when `endTimeMs` comes. -/
def endNanos : ℤ := phase.endTimeMs * 1000000 - phase.epoch

/-- The interval of the limiter. -/
def interval : ℤ := intervalNanos phase.rpsLimit

end Phase

/-- Where a worker is. -/
inductive Pc
  -- `System.currentTimeMillis() >= endTimeMs`
  | deadline
  -- `rateLimiter.acquire()`
  | acquire (pc : Limiter.Java.Pc)
  -- `command.execute(client, keyGen).join()`
  | execute
  -- `requestCount.incrementAndGet()`
  | count
  | done
deriving DecidableEq

/-- The shared state. `issued` lists the times at which requests were issued. -/
structure Shared where
  schedule : Schedule
  requestCount : ℤ
  issued : List ℤ
deriving DecidableEq

/-- What happens to a worker: time passes, or it goes on. -/
inductive Event
  | tick (d : ℕ)
  | run
deriving DecidableEq

/-- The next operation of a worker. -/
def advance (phase : Phase) (s : Shared) : Pc → Option (Shared × Pc)
  | .deadline =>
    if phase.currentTimeMillis s.schedule.clock ≥ phase.endTimeMs then some (s, .done)
    else some (s, .acquire (.read .acquire))
  | .acquire pc => (Limiter.Java.advance phase.interval s.schedule pc).map fun result =>
    ({ s with schedule := result.1 }, if result.2 = .idle then .execute else .acquire result.2)
  | .execute => some ({ s with issued := s.issued ++ [s.schedule.clock] }, .count)
  | .count => some ({ s with requestCount := s.requestCount + 1 }, .deadline)
  | .done => none

def step (phase : Phase) (e : Event) (s : Shared) (pc : Pc) : Option (Shared × Pc) :=
  match e with
  | .tick d => some ({ s with schedule := s.schedule.tick d }, pc)
  | .run => advance phase s pc

/-- `executeWorkload` of a duration-based phase, from the time when the end time is computed. -/
def workload (phase : Phase) : Pool (Fin phase.connections) Shared Pc Event where
  shared := ⟨(Schedule.new phase.created).tick phase.setup, 0, []⟩
  locals _ := .deadline
  step _ := step phase

/-- A worker sleeps until a later time, or is done. -/
def rests (clock : ℤ) : Pc → Bool
  | .acquire (.sleep wakeup) => clock ≤ wakeup
  | .done => true
  | _ => false

/-- A worker does not sleep, or its time has come. -/
def awake (clock : ℤ) : Pc → Bool
  | .acquire (.sleep wakeup) => wakeup ≤ clock
  | _ => true

/-- Steps that take no time: time passes only while all workers rest, and a worker that sleeps goes
on when its time has come. -/
def Prompt {phase : Phase} (w : Fin phase.connections) (e : Event)
    (σ : Pool.State (Fin phase.connections) Shared Pc) : Prop :=
  match e with
  | .tick d => ∀ v, rests (σ.shared.schedule.clock + d) (σ.locals v)
  | .run => awake σ.shared.schedule.clock (σ.locals w)

instance {phase : Phase} (w : Fin phase.connections) (e : Event)
    (σ : Pool.State (Fin phase.connections) Shared Pc) : Decidable (Prompt w e σ) :=
  match e with
  | .tick d => inferInstanceAs (Decidable (∀ v, rests (σ.shared.schedule.clock + d) (σ.locals v)))
  | .run => inferInstanceAs (Decidable (awake σ.shared.schedule.clock (σ.locals w) = true))

variable {phase : Phase}

/-! ## The end time -/

/-- The end time in milliseconds, on the clock of nanoseconds. -/
lemma endTime_iff (clock : ℤ) :
    phase.currentTimeMillis clock ≥ phase.endTimeMs ↔ phase.endNanos ≤ clock := by
  rw [Phase.currentTimeMillis, Phase.endNanos, ge_iff_le, Int.le_ediv_iff_mul_le (by norm_num)]
  omega

/-- The phase starts before its end. -/
lemma start_lt_endNanos (hduration : 0 < phase.durationSeconds) : phase.start < phase.endNanos := by
  rw [Phase.endNanos, Phase.endTimeMs, Phase.currentTimeMillis]
  omega

/-- An interval is not negative. -/
lemma interval_nonneg (hrps : 0 < phase.rpsLimit) : 0 ≤ phase.interval :=
  Int.ediv_nonneg (by norm_num) hrps.le

/-! ## What a step does -/

/-- A thread waits in `acquire`. -/
def Waiting : Limiter.Java.Pc → Prop
  | .read call => call = .acquire
  | .load call _ => call = .acquire
  | .swap call _ _ => call = .acquire
  | .sleep _ => True
  | .idle => False

/-- A thread that waits goes on waiting, or gets its slot. -/
lemma advance_waiting {interval : ℤ} {s s' : Schedule} {l l' : Limiter.Java.Pc} (hl : Waiting l)
    (h : Limiter.Java.advance interval s l = some (s', l')) :
    (s' = s ∧ Waiting l') ∨
      ∃ now, l = .swap .acquire now s.nextAllowed ∧ s' = s.grant interval now ∧ l' = .idle := by
  cases l with
  | idle => exact hl.elim
  | read call =>
    cases h
    exact .inl ⟨rfl, hl⟩
  | load call now =>
    obtain rfl : call = .acquire := hl
    rw [Limiter.Java.advance] at h
    split at h
    all_goals
      cases h
      exact .inl ⟨rfl, by simp [Waiting]⟩
  | swap call now next =>
    obtain rfl : call = .acquire := hl
    rw [Limiter.Java.advance] at h
    split at h
    next hsame =>
      cases h
      exact .inr ⟨now, by rw [hsame], rfl, rfl⟩
    next =>
      cases h
      exact .inl ⟨rfl, rfl⟩
  | sleep wakeup =>
    cases h
    exact .inl ⟨rfl, rfl⟩

/-- The steps of a worker. -/
inductive Steps (phase : Phase) (s : Shared) : Event → Pc → Shared → Pc → Prop
  | tick (d : ℕ) {pc : Pc} : Steps phase s (.tick d) pc { s with schedule := s.schedule.tick d } pc
  | stop : Steps phase s .run .deadline s .done
  | enter : s.schedule.clock < phase.endNanos →
    Steps phase s .run .deadline s (.acquire (.read .acquire))
  | wait {l l' : Limiter.Java.Pc} : Limiter.Java.advance phase.interval s.schedule l
    = some (s.schedule, l') →
      Waiting l' → Steps phase s .run (.acquire l) s (.acquire l')
  | grant {now : ℤ} : Steps phase s .run (.acquire (.swap .acquire now s.schedule.nextAllowed))
      { s with schedule := s.schedule.grant phase.interval now } .execute
  | execute : Steps phase s .run .execute { s with issued := s.issued ++ [s.schedule.clock] } .count
  | count : Steps phase s .run .count { s with requestCount := s.requestCount + 1 } .deadline

/-- What a worker knows of the limiter while it waits. -/
def Knows (s : Shared) : Pc → Prop
  | .acquire l => Waiting l ∧ Limiter.Java.Knows s.schedule l
  | _ => True

variable {s s' : Shared} {e : Event} {pc pc' : Pc}

/-- A step is one of these. -/
theorem steps_of_step (hknows : Knows s pc) (h : step phase e s pc = some (s', pc')) :
    Steps phase s e pc s' pc' := by
  cases e with
  | tick d =>
    cases h
    exact .tick d
  | run =>
    change advance phase s pc = _ at h
    cases pc with
    | deadline =>
      rw [advance] at h
      split at h
      next =>
        cases h
        exact .stop
      next hbefore =>
        cases h
        exact .enter (not_le.mp fun hle => hbefore ((endTime_iff _).mpr hle))
    | acquire l =>
      obtain ⟨⟨schedule, l'⟩, hadvance, hresult⟩ := Option.map_eq_some_iff.mp h
      obtain ⟨rfl, rfl⟩ := Prod.mk.inj hresult
      rcases advance_waiting hknows.1 hadvance with ⟨rfl, hwaiting⟩ | ⟨now, rfl, rfl, rfl⟩
      · rw [if_neg (by rintro rfl; exact hwaiting.elim)]
        exact .wait hadvance hwaiting
      · rw [if_pos rfl]
        exact .grant
    | execute =>
      cases h
      exact .execute
    | count =>
      cases h
      exact .count
    | done => exact nomatch h

/-- What a worker knows stays true, as long as the clock does not go back. -/
lemma knows_mono (hclock : s.schedule.clock ≤ s'.schedule.clock) (h : Knows s pc) :
    Knows s' pc := by
  cases pc with
  | acquire l => exact ⟨h.1, Limiter.Java.knows_mono hclock h.2⟩
  | _ => trivial

/-- A step moves the schedule, and leaves the worker with what it needs to know. -/
lemma Steps.moves (hknows : Knows s pc) (h : Steps phase s e pc s' pc') :
    Limiter.Moves phase.interval s.schedule s'.schedule ∧ Knows s' pc' := by
  cases h with
  | tick d => exact ⟨.tick d, knows_mono (by simp) hknows⟩
  | stop => exact ⟨.stay, trivial⟩
  | enter => exact ⟨.stay, rfl, trivial⟩
  | wait hadvance hwaiting =>
    exact ⟨.stay, hwaiting, (Limiter.Java.moves_of_advance hknows.2 hadvance).2.1⟩
  | grant => exact ⟨.grant hknows.2.2 hknows.2.1, trivial⟩
  | execute => exact ⟨.stay, trivial⟩
  | count => exact ⟨.stay, trivial⟩

section Runs
variable {σ σ' : Pool.State (Fin phase.connections) Shared Pc} {w : Fin phase.connections}

/-- The workers know what they need to know, and move the schedule. -/
lemma knowing (phase : Phase) :
    (workload phase).Knowing (fun _ => Knows) fun s t =>
      Limiter.Moves phase.interval s.schedule t.schedule where
  init _ := trivial
  step hknows hstep :=
    have ⟨hmoves, hknows'⟩ := (steps_of_step hknows hstep).moves hknows
    ⟨hmoves, hknows', fun _ _ _ => knows_mono hmoves.clock_le⟩

/-- Every event follows a rule. -/
lemma steps (h : (workload phase).Reachable σ) (hnext : (workload phase).next w e σ = some σ') :
    Steps phase σ.shared e (σ.locals w) σ'.shared (σ'.locals w) :=
  steps_of_step ((knowing phase).knows h w) (Pool.next_eq_some hnext).1

/-- The workers keep the law of the schedule. -/
lemma conserved (h : (workload phase).Reachable σ) :
    Conserved phase.created phase.interval σ.shared.schedule :=
  (knowing phase).invariant (I := fun s => Conserved phase.created phase.interval s.schedule)
    ((Limiter.conserved_new _ _).moves (.tick phase.setup)) Conserved.moves h

end Runs

/-! ## Slots before the end -/

/-- The workers that wait for a slot are counted. -/
def waits : Pc → ℤ
  | .acquire _ => 1
  | _ => 0

/-- A worker waits or does not. -/
lemma waits_bounds (pc : Pc) : 0 ≤ waits pc ∧ waits pc ≤ 1 := by
  cases pc <;> simp [waits]

/-- The end time plus one interval for every connection. -/
def Phase.bound (phase : Phase) : ℤ := phase.endNanos + phase.connections * phase.interval

/-- If every waiting worker takes one of the next slots, the last of them lies before the
bound: a worker that begins to wait does so before the end time, when the next slot is at
most one interval away. -/
lemma Steps.debt (h : Steps phase s e pc s' pc') (hinterval : 0 ≤ phase.interval)
    (hconserved : Conserved phase.created phase.interval s.schedule) {rest : ℤ}
    (hrest : waits pc' + rest ≤ phase.connections)
    (hdebt : s.schedule.nextAllowed + (waits pc + rest) * phase.interval < phase.bound
      + phase.interval) :
    s'.schedule.nextAllowed + (waits pc' + rest) * phase.interval < phase.bound
      + phase.interval := by
  cases h with
  | enter hbefore =>
    have hnext := hconserved.nextAllowed_le hinterval
    have hslots := mul_le_mul_of_nonneg_right hrest hinterval
    rw [Phase.bound]
    linarith
  | @grant now =>
    dsimp only [Schedule.grant, waits] at hdebt ⊢
    linarith
  | _ => exact hdebt

section Runs
variable {σ σ' : Pool.State (Fin phase.connections) Shared Pc} {w : Fin phase.connections}

/-- The slots that are granted and those that are waited for lie before the bound. -/
structure Bounded (phase : Phase) (σ : Pool.State (Fin phase.connections) Shared Pc) : Prop where
  debt : σ.shared.schedule.nextAllowed + (∑ v, waits (σ.locals v)) * phase.interval < phase.bound
    + phase.interval
  slot : ∀ g ∈ σ.shared.schedule.grants, g.slot < phase.bound

/-- No more workers wait than there are connections. -/
lemma sum_waits_le (σ : Pool.State (Fin phase.connections) Shared Pc) :
    ∑ v, waits (σ.locals v) ≤ phase.connections := by
  have hle := Finset.sum_le_card_nsmul Finset.univ (fun v => waits (σ.locals v)) 1
    fun v _ => (waits_bounds (σ.locals v)).2
  simpa using hle

/-- A waiting worker is among those that wait. -/
lemma waits_le_sum (σ : Pool.State (Fin phase.connections) Shared Pc) (w : Fin phase.connections) :
    waits (σ.locals w) ≤ ∑ v, waits (σ.locals v) :=
  Finset.single_le_sum (f := fun v => waits (σ.locals v)) (fun v _ => (waits_bounds (σ.locals v)).1)
    (Finset.mem_univ w)

/-- A granted slot lies before the bound. -/
lemma Steps.slot (h : Steps phase s e pc s' pc') (hinterval : 0 ≤ phase.interval) {rest : ℤ}
    (hrest : 0 ≤ rest) (hdebt : s.schedule.nextAllowed + (waits pc + rest) * phase.interval
      < phase.bound + phase.interval)
    (hslot : ∀ g ∈ s.schedule.grants, g.slot < phase.bound) :
    ∀ g ∈ s'.schedule.grants, g.slot < phase.bound := by
  cases h with
  | @grant now =>
    intro g hg
    rw [Limiter.Schedule.grant_grants, List.mem_append, List.mem_singleton] at hg
    rcases hg with hg | rfl
    · exact hslot g hg
    · have hothers := mul_nonneg hrest hinterval
      dsimp only [waits] at hdebt ⊢
      linarith
  | _ => exact hslot

/-- Every reachable state is bounded. -/
theorem bounded (hrps : 0 < phase.rpsLimit) (hduration : 0 < phase.durationSeconds)
    (h : (workload phase).Reachable σ) : Bounded phase σ := by
  have hinterval := interval_nonneg hrps
  refine Pool.reachable_induction (P := workload phase) (I := Bounded phase) ⟨?_, nofun⟩ ?_ h
  · have hstart := start_lt_endNanos hduration
    have hcreated : phase.created ≤ phase.start := by
      rw [Phase.start]
      omega
    have hslots : 0 ≤ (phase.connections : ℤ) * phase.interval := mul_nonneg (by omega) hinterval
    simp only [workload, Pool.init, waits, Finset.sum_const_zero, zero_mul, add_zero,
      Schedule.tick, Schedule.new, Phase.bound]
    linarith
  · intro σ w e σ' hreach hbounded hnext
    have hsteps := steps hreach hnext
    obtain ⟨rest, hbefore, hafter⟩ := Pool.next_sum hnext fun _ => waits
    have hsum := sum_waits_le σ'
    have hself := waits_le_sum σ w
    have hdebt := hbounded.debt
    rw [hbefore] at hdebt hself
    rw [hafter] at hsum
    refine ⟨?_, hsteps.slot hinterval (by omega) hdebt hbounded.slot⟩
    rw [hafter]
    exact hsteps.debt hinterval (conserved hreach) hsum hdebt

end Runs

/-! ## Requests of prompt runs -/

/-- In a prompt run a worker has just read the clock when it compares it, sleeps no longer than
until the next slot, and issues its request before the bound. -/
def Timely (phase : Phase) (s : Shared) : Pc → Prop
  | .acquire (.load _ now) => now = s.schedule.clock
  | .acquire (.sleep wakeup) => wakeup ≤ s.schedule.nextAllowed
  | .execute => s.schedule.clock < phase.bound
  | _ => True

/-- What is timely stays timely while no time passes. -/
lemma timely_mono (hclock : s'.schedule.clock = s.schedule.clock)
    (hnext : s.schedule.nextAllowed ≤ s'.schedule.nextAllowed) (h : Timely phase s pc) :
    Timely phase s' pc := by
  cases pc with
  | acquire l =>
    cases l with
    | load call now => exact h.trans hclock.symm
    | sleep wakeup => exact le_trans h hnext
    | _ => trivial
  | execute => exact hclock.trans_lt h
  | _ => trivial

/-- A worker that rests has a slot to wait for, or is done, and is timely at any time. -/
lemma timely_of_rests {clock : ℤ} (hrests : rests clock pc) (h : Timely phase s pc) (d : ℕ) :
    Timely phase { s with schedule := s.schedule.tick d } pc ∧
    (pc = .done ∨ clock ≤ s.schedule.nextAllowed) := by
  cases pc with
  | done => exact ⟨trivial, .inl rfl⟩
  | acquire l =>
    cases l with
    | sleep wakeup => exact ⟨h, .inr (le_trans (of_decide_eq_true hrests) h)⟩
    | _ => exact nomatch hrests
  | _ => exact nomatch hrests

/-- A step without delay leaves its worker timely, when the clock is at the start or has not
passed the next slot. -/
lemma Steps.timely (h : Steps phase s .run pc s' pc') (hinterval : 0 ≤ phase.interval)
    (hduration : 0 < phase.durationSeconds) (hknows : Knows s pc)
    (hclock : s.schedule.clock = phase.start ∨
      s.schedule.clock ≤ s.schedule.nextAllowed ∨ pc = .done)
    (hslot : ∀ g ∈ s'.schedule.grants, g.slot < phase.bound) (htimely : Timely phase s pc) :
    Timely phase s' pc' := by
  cases h with
  | @wait l l' hadvance hwaiting =>
    cases l with
    | idle => exact nomatch hadvance
    | read call =>
      obtain ⟨-, rfl⟩ := Prod.mk.inj (Option.some.inj hadvance)
      exact rfl
    | load call now =>
      obtain rfl : call = .acquire := hknows.1
      obtain rfl : now = s.schedule.clock := htimely
      rw [Limiter.Java.advance] at hadvance
      split at hadvance
      · obtain ⟨-, rfl⟩ := Prod.mk.inj (Option.some.inj hadvance)
        trivial
      · obtain ⟨-, rfl⟩ := Prod.mk.inj (Option.some.inj hadvance)
        exact (add_sub_cancel _ _).le
    | swap call now next =>
      obtain rfl : call = .acquire := hknows.1
      rw [Limiter.Java.advance] at hadvance
      split at hadvance
      · obtain ⟨-, rfl⟩ := Prod.mk.inj (Option.some.inj hadvance)
        exact hwaiting.elim
      · obtain ⟨-, rfl⟩ := Prod.mk.inj (Option.some.inj hadvance)
        trivial
    | sleep wakeup =>
      obtain ⟨-, rfl⟩ := Prod.mk.inj (Option.some.inj hadvance)
      trivial
  | @grant now =>
    rcases hclock with hstart | hnext | hdone
    · have hend := start_lt_endNanos hduration
      have hslots : 0 ≤ (phase.connections : ℤ) * phase.interval := mul_nonneg (by omega) hinterval
      change s.schedule.clock < phase.bound
      rw [Phase.bound]
      linarith
    · exact hnext.trans_lt (hslot ⟨s.schedule.nextAllowed, now, s.schedule.clock⟩ (by simp))
    · exact nomatch hdone
  | _ => trivial

/-- A request is issued while its worker is timely. -/
lemma Steps.issued (h : Steps phase s e pc s' pc') (htimely : Timely phase s pc)
    (hissued : ∀ t ∈ s.issued, t < phase.bound) : ∀ t ∈ s'.issued, t < phase.bound := by
  cases h with
  | execute =>
    intro t ht
    rcases List.mem_append.mp ht with ht | ht
    · exact hissued t ht
    · obtain rfl := List.mem_singleton.mp ht
      exact htimely
  | _ => exact hissued

/-- Only a tick moves the clock. -/
lemma Steps.clock_eq (h : Steps phase s .run pc s' pc') : s'.schedule.clock = s.schedule.clock := by
  cases h <;> rfl

/-- The next slot does not go back. -/
lemma Steps.nextAllowed_le (h : Steps phase s e pc s' pc') (hinterval : 0 ≤ phase.interval) :
    s.schedule.nextAllowed ≤ s'.schedule.nextAllowed := by
  cases h with
  | grant => exact le_add_of_nonneg_right hinterval
  | _ => exact le_rfl

section Runs
variable {σ σ' : Pool.State (Fin phase.connections) Shared Pc} {w : Fin phase.connections}

/-- What holds in prompt runs: time has not passed since the start, or the clock has not passed the
next slot, or all workers are done. -/
structure OnTime (phase : Phase) (σ : Pool.State (Fin phase.connections) Shared Pc) : Prop where
  clock : σ.shared.schedule.clock = phase.start ∨
    σ.shared.schedule.clock ≤ σ.shared.schedule.nextAllowed ∨
    ∀ v, σ.locals v = .done
  timely : ∀ v, Timely phase σ.shared (σ.locals v)
  issued : ∀ t ∈ σ.shared.issued, t < phase.bound

/-- While all workers rest, the clock does not pass the next slot. -/
lemma OnTime.tick {d : ℕ} (h : OnTime phase σ) (hprompt : Prompt w (.tick d) σ)
    (hnext : (workload phase).next w (.tick d) σ = some σ') : OnTime phase σ' := by
  obtain ⟨hstep, hothers⟩ := Pool.next_eq_some hnext
  obtain ⟨hshared, hself⟩ := Prod.mk.inj (Option.some.inj hstep)
  have hlocals : ∀ v, σ'.locals v = σ.locals v := fun v => by
    by_cases hv : v = w
    · rw [hv, hself]
    · exact hothers v hv
  have hrests := fun v => timely_of_rests (hprompt v) (h.timely v) d
  refine ⟨.inr ?_, fun v => ?_, ?_⟩
  · by_cases hdone : ∀ v, σ.locals v = .done
    · exact .inr fun v => (hlocals v).trans (hdone v)
    · obtain ⟨v, hv⟩ := not_forall.mp hdone
      rw [← hshared]
      exact .inl ((hrests v).2.resolve_left hv)
  · rw [hlocals, ← hshared]
    exact (hrests v).1
  · rw [← hshared]
    exact h.issued

/-- A step that takes no time keeps the workers timely. -/
lemma OnTime.run (h : OnTime phase σ) (hinterval : 0 ≤ phase.interval)
    (hduration : 0 < phase.durationSeconds) (hreach : (workload phase).Reachable σ)
    (hslot : ∀ g ∈ σ'.shared.schedule.grants, g.slot < phase.bound)
    (hnext : (workload phase).next w .run σ = some σ') : OnTime phase σ' := by
  have hsteps := steps hreach hnext
  have hothers := (Pool.next_eq_some hnext).2
  have hknows := (knowing phase).knows hreach w
  have hclock := hsteps.clock_eq
  have hcursor := hsteps.nextAllowed_le hinterval
  refine ⟨?_, fun v => ?_, hsteps.issued (h.timely w) h.issued⟩
  · rcases h.clock with hstart | hle | hdone
    · exact .inl (hclock.trans hstart)
    · exact .inr (.inl (hclock.trans_le (hle.trans hcursor)))
    · rw [hdone w] at hsteps
      exact nomatch hsteps
  · by_cases hv : v = w
    · subst hv
      exact hsteps.timely hinterval hduration hknows
        (h.clock.imp_right (Or.imp_right fun hdone => hdone v)) hslot
        (h.timely v)
    · rw [hothers v hv]
      exact timely_mono hclock hcursor (h.timely v)

/-- In every prompt run the grants are on time. -/
theorem onTime (hrps : 0 < phase.rpsLimit) (hduration : 0 < phase.durationSeconds)
    (h : (workload phase).Within Prompt σ) : OnTime phase σ := by
  have hinterval := interval_nonneg hrps
  refine Pool.within_induction (P := workload phase) (I := OnTime phase) ⟨.inl rfl,
    fun _ => trivial, nofun⟩ ?_ h
  intro σ w e σ' hwithin honTime hprompt hnext
  have hreach := hwithin.reachable
  cases e with
  | tick d => exact honTime.tick hprompt hnext
  | run => exact honTime.run hinterval hduration hreach (bounded hrps hduration
      (hreach.next hnext)).slot hnext

end Runs

/-! ## The result -/

/-- In all interleavings the slots of a phase lie before its end time plus one interval for every
connection. If time passes only while workers sleep, so do its requests. -/
theorem duration_bounded (phase : Phase) (hrps : 0 < phase.rpsLimit)
    (hduration : 0 < phase.durationSeconds) :
    (∀ σ, (workload phase).Reachable σ → ∀ g ∈ σ.shared.schedule.grants,
      g.slot < phase.endNanos + phase.connections * phase.interval) ∧
    ∀ σ, (workload phase).Within Prompt σ → ∀ t ∈ σ.shared.issued,
      t < phase.endNanos + phase.connections * phase.interval :=
  ⟨fun _ h => (bounded hrps hduration h).slot, fun _ h => (onTime hrps hduration h).issued⟩

/-! ### Three workers -/

/-- A phase of one second and one request per second, for three workers. -/
def threeWorkers : Phase := ⟨3, 1, 1, 0, 0, 0⟩

/-- All three pass the check at the start. The first takes the slot of the start, and passes the
check again; then each takes one of the next three slots. -/
def lateRun : List (Fin threeWorkers.connections × Event) :=
  let worker (w : Fin 3) (n : ℕ) : List (Fin 3 × Event) := List.replicate n (w, .run)
  let first : Fin 3 := ⟨0, Nat.zero_lt_succ 2⟩
  let second : Fin 3 := ⟨1, Nat.one_lt_succ_succ 1⟩
  let third : Fin 3 := ⟨2, Nat.lt_succ_self 2⟩
  worker first 9 ++ worker second 3 ++ worker third 3 ++ [(first, .tick 1000000000)] ++
    worker first 7 ++ worker second 3 ++ worker third 3 ++ [(first, .tick 1000000000)] ++
    worker second 7 ++ worker third 3 ++ [(first, .tick 1000000000)] ++ worker third 7

def lateEnd : Pool.State (Fin threeWorkers.connections) Shared Pc :=
  ((workload threeWorkers).runIf Prompt lateRun (workload threeWorkers).init).get
    (by decide +kernel)

/-- The late run is prompt. -/
lemma within_lateEnd : (workload threeWorkers).Within Prompt lateEnd :=
  Pool.Within.runIf .init (Option.some_get _).symm

/-- The last request of this phase comes before the end time plus three intervals. -/
theorem lateEnd_bounded : lateEnd.shared.issued = [0, 1000000000, 2000000000, 3000000000] ∧
    3000000000 < threeWorkers.endNanos + threeWorkers.connections * threeWorkers.interval := by
  have hbound := (duration_bounded threeWorkers (by decide) (by decide)).2 lateEnd within_lateEnd
  exact ⟨by decide +kernel, hbound 3000000000 (by decide +kernel)⟩

/-- It comes two intervals after the end time. -/
theorem threeWorkers_late :
    ¬ ∀ phase : Phase, 0 < phase.rpsLimit → 0 < phase.durationSeconds →
      ∀ σ, (workload phase).Within Prompt σ → ∀ t ∈ σ.shared.issued,
      t ≤ phase.endNanos + phase.interval := by
  intro h
  have hle := h threeWorkers (by decide) (by decide) lateEnd within_lateEnd 3000000000
    (by decide +kernel)
  exact absurd hle (by decide +kernel)

end RespBench.Java.Duration
