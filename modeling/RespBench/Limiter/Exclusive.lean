import RespBench.Limiter.Schedule

/-!
# The Go, PHP and Python limiters

`RateLimiter` of the Go, PHP and Python engines. They compare the clock with `nextAllowed` and
advance it while nobody else does: in Go the goroutine holds a mutex, in Python the event loop runs
one coroutine until it awaits, and a PHP limiter belongs to one process. A caller *enters* when it
gets this hold and *leaves* when it gives it up, to return or to sleep. As in Java, how long it
sleeps does not matter. PHP alone has `tryAcquire`.
-/

namespace RespBench.Limiter.Exclusive
open RespBench.Lib

/-- The limiter, and who holds it. -/
structure Shared (ι : Type*) where
  schedule : Schedule
  owner : Option ι

/-- Where a caller is. -/
inductive Pc
  | idle
  -- `r.mu.Lock()`
  | enter (call : Call)
  -- `now := nowNanos()`
  | read (call : Call)
  -- `now >= r.nextAllowed`
  | compare (call : Call) (now : ℤ)
  -- `r.nextAllowed += r.intervalNanos`, where `r.nextAllowed` was `next`
  | store (now next : ℤ)
  -- `r.mu.Unlock()`, and then `time.Sleep(time.Duration(wait))`, or `return`
  | leave (wait : Option ℤ)
  | sleep (wakeup : ℤ)
deriving DecidableEq

/-- What happens to a caller: time passes, it calls the limiter, or it goes on. -/
inductive Event
  | tick (d : ℕ)
  | call (call : Call)
  | run
deriving DecidableEq

variable {ι : Type*}

/-- The next operation of a caller. -/
def advance (intervalNanos : ℤ) (w : ι) (s : Shared ι) : Pc → Option (Shared ι × Pc)
  | .idle => none
  | .enter call => if s.owner = none then some ({ s with owner := some w }, .read call) else none
  | .read call => some (s, .compare call s.schedule.clock)
  | .compare call now =>
    if now ≥ s.schedule.nextAllowed then some (s, .store now s.schedule.nextAllowed)
    else
      match call with
      | .acquire => some (s, .leave (some (s.schedule.nextAllowed - now)))
      | .tryAcquire => some (s, .leave none)
  | .store now next =>
    some ({ s with schedule :=
      { s.schedule with
        nextAllowed := next + intervalNanos
        grants := s.schedule.grants ++ [⟨next, now, s.schedule.clock⟩] } }, .leave none)
  | .leave none => some ({ s with owner := none }, .idle)
  | .leave (some wait) => some ({ s with owner := none }, .sleep (s.schedule.clock + wait))
  | .sleep _ => some (s, .enter .acquire)

def step (calls : Call → Bool) (intervalNanos : ℤ) (w : ι) (e : Event) (s : Shared ι) (pc : Pc) :
    Option (Shared ι × Pc) :=
  match e, pc with
  | .tick d, pc => some ({ s with schedule := s.schedule.tick d }, pc)
  | .call call, .idle => if calls call then some (s, .enter call) else none
  | .run, pc => advance intervalNanos w s pc
  | _, _ => none

/-- Callers `ι` that share a limiter created at `t0`, of which they can ask for `calls`. -/
def pool (ι : Type*) (calls : Call → Bool) (t0 intervalNanos : ℤ) : Pool ι (Shared ι) Pc Event where
  shared := ⟨.new t0, none⟩
  locals _ := .idle
  step := step calls intervalNanos

/-- The goroutines of the Go engine. -/
def goPool (ι : Type*) (t0 intervalNanos : ℤ) : Pool ι (Shared ι) Pc Event :=
  pool ι (· = .acquire) t0 intervalNanos

/-- The coroutines of the Python engine. -/
def pythonPool (ι : Type*) (t0 intervalNanos : ℤ) : Pool ι (Shared ι) Pc Event :=
  pool ι (· = .acquire) t0 intervalNanos

/-- A process of the PHP engine. -/
def phpPool (t0 intervalNanos : ℤ) : Pool Unit (Shared Unit) Pc Event :=
  pool Unit (fun _ => true) t0 intervalNanos

/-! ## What a step does -/

/-- What a caller knows between entering and leaving: it holds the limiter, its reading of the clock
is not in the future, and `nextAllowed` is still what it has compared with it. -/
def Knows (w : ι) (s : Shared ι) : Pc → Prop
  | .read _ => s.owner = some w
  | .compare _ now => s.owner = some w ∧ now ≤ s.schedule.clock
  | .store now next =>
    s.owner = some w ∧ now ≤ s.schedule.clock ∧ next ≤ now ∧ s.schedule.nextAllowed = next
  | .leave _ => s.owner = some w
  | _ => True

variable {calls : Call → Bool} {interval : ℤ} {w v : ι} {s s' : Shared ι}
  {pc pc' k : Pc} {e : Event}

/-- What a caller knows stays true while time passes. -/
lemma knows_tick (d : ℕ) (h : Knows w s pc) :
    Knows w { s with schedule := s.schedule.tick d } pc := by
  cases pc with
  | compare call now => exact ⟨h.1, h.2.trans (by simp)⟩
  | store now next => exact ⟨h.1, h.2.1.trans (by simp), h.2.2⟩
  | _ => exact h

/-- What a caller knows needs nobody else to hold the limiter. -/
lemma knows_of_not_owner (howner : s.owner ≠ some v) (h : Knows v s k) (s' : Shared ι) :
    Knows v s' k := by
  cases k with
  | read call => exact absurd h howner
  | compare call now => exact absurd h.1 howner
  | store now next => exact absurd h.1 howner
  | leave wait => exact absurd h howner
  | _ => trivial

/-- The next operation of a caller takes a slot. -/
def granting : Pc → Bool
  | .store _ _ => true
  | _ => false

/-- A caller moves the schedule, and knows what it needs to know next. Unless it takes a slot, it
leaves the schedule as it is. The others still know what they know. -/
theorem moves_of_advance (hknows : Knows w s pc) (h : advance interval w s pc = some (s', pc')) :
    Moves interval s.schedule s'.schedule ∧ Knows w s' pc' ∧
    (granting pc = false → s'.schedule = s.schedule) ∧
      ∀ v k, v ≠ w → Knows v s k → Knows v s' k := by
  have hothers : s.owner = some w → ∀ v k, v ≠ w → Knows v s k → Knows v s' k :=
    fun howner v k hv hk =>
    knows_of_not_owner (fun h => hv (Option.some.inj (h.symm.trans howner))) hk s'
  cases pc with
  | idle => exact nomatch h
  | enter call =>
    rw [advance] at h
    split at h
    next hfree =>
      cases h
      exact ⟨.stay, rfl, fun _ => rfl, fun v k _ hk =>
        knows_of_not_owner (by rw [hfree]; exact nofun) hk _⟩
    next => exact nomatch h
  | read call =>
    cases h
    exact ⟨.stay, ⟨hknows, le_rfl⟩, fun _ => rfl, fun _ _ _ hk => hk⟩
  | compare call now =>
    unfold advance at h
    dsimp only at h
    split at h
    next hreached =>
      cases h
      exact ⟨.stay, ⟨hknows.1, hknows.2, hreached, rfl⟩, fun _ => rfl, fun _ _ _ hk => hk⟩
    next =>
      cases call with
      | acquire =>
        cases h
        exact ⟨.stay, hknows.1, fun _ => rfl, fun _ _ _ hk => hk⟩
      | tryAcquire =>
        cases h
        exact ⟨.stay, hknows.1, fun _ => rfl, fun _ _ _ hk => hk⟩
  | store now next =>
    obtain ⟨howner, hnow, hnext, hsame⟩ := hknows
    cases h
    subst hsame
    exact ⟨.grant hnext hnow, howner, nofun, hothers howner⟩
  | leave wait =>
    cases wait with
    | none =>
      cases h
      exact ⟨.stay, trivial, fun _ => rfl, hothers hknows⟩
    | some wait =>
      cases h
      exact ⟨.stay, trivial, fun _ => rfl, hothers hknows⟩
  | sleep wakeup =>
    cases h
    exact ⟨.stay, trivial, fun _ => rfl, fun _ _ _ hk => hk⟩

/-- What a step does to the schedule, to its caller and to the others. -/
theorem moves_of_step (hknows : Knows w s pc) (h : step calls interval w e s pc = some (s', pc')) :
    Moves interval s.schedule s'.schedule ∧ Knows w s' pc' ∧
      (s'.schedule.grants ≠ s.schedule.grants → e = .run ∧ granting pc) ∧
      ∀ v k, v ≠ w → Knows v s k → Knows v s' k := by
  cases e with
  | tick d =>
    cases h
    exact ⟨.tick d, knows_tick d hknows, fun hgrants => absurd rfl hgrants,
      fun v k _ hk => knows_tick d hk⟩
  | run =>
    obtain ⟨hmoves, hknows', hstays, hothers⟩ := moves_of_advance hknows h
    refine ⟨hmoves, hknows', fun hgrants => ⟨rfl, ?_⟩, hothers⟩
    by_contra hno
    exact hgrants (congrArg Schedule.grants (hstays (Bool.eq_false_of_not_eq_true hno)))
  | call call =>
    cases pc with
    | idle =>
      rw [step] at h
      split at h
      · cases h
        exact ⟨.stay, trivial, fun hgrants => absurd rfl hgrants, fun _ _ _ hk => hk⟩
      · exact nomatch h
    | _ => exact nomatch h

section Runs
variable [DecidableEq ι] {t0 : ℤ} {σ : Pool.State ι (Shared ι) Pc}

/-- The callers know what they need to know, and move the schedule. -/
lemma knowing (ι : Type*) [DecidableEq ι] (calls : Call → Bool) (t0 interval : ℤ) :
    (pool ι calls t0 interval).Knowing Knows fun s t => Moves interval s.schedule t.schedule where
  init _ := trivial
  step hknows hstep :=
    have ⟨hmoves, hknows', _, hothers⟩ := moves_of_step hknows hstep
    ⟨hmoves, hknows', hothers⟩

/-- The callers keep the law of the schedule. -/
theorem conserved (h : (pool ι calls t0 interval).Reachable σ) :
    Conserved t0 interval σ.shared.schedule :=
  (knowing ι calls t0 interval).invariant (I := fun s => Conserved t0 interval s.schedule)
    (conserved_new t0 interval)
    Conserved.moves h

end Runs

end RespBench.Limiter.Exclusive
