import RespBench.Limiter.Schedule

/-!
# The Java limiter

`RateLimiter` of the Java engine: `acquire` and `tryAcquire` over one `AtomicLong`, called by any
number of threads. A step of a thread is one reading of the clock, one load, or one compare-and-set,
so that the reading and the loaded value may be stale when the thread compares them. How long a
thread sleeps does not matter, since it reads the clock again.
-/

namespace RespBench.Limiter.Java
open RespBench.Lib

/-- Where a thread is. -/
inductive Pc
  | idle
  -- `long now = System.nanoTime()`
  | read (call : Call)
  -- `long next = nextAllowedNanos.get()`, and `now >= next`
  | load (call : Call) (now : ℤ)
  -- `nextAllowedNanos.compareAndSet(next, next + intervalNanos)`
  | swap (call : Call) (now next : ℤ)
  -- `Thread.sleep(waitMs, waitNanoRemainder)`, which should last until this time
  | sleep (wakeup : ℤ)
deriving DecidableEq

/-- What happens to a thread: time passes, it calls the limiter, it goes on, or it is
interrupted. -/
inductive Event
  | tick (d : ℕ)
  | call (call : Call)
  | run
  | interrupt
deriving DecidableEq

/-- The next operation of a thread. -/
def advance (intervalNanos : ℤ) (s : Schedule) : Pc → Option (Schedule × Pc)
  | .idle => none
  | .read call => some (s, .load call s.clock)
  | .load call now =>
    if now ≥ s.nextAllowed then some (s, .swap call now s.nextAllowed)
    else
      match call with
      | .acquire => some (s, .sleep (s.clock + (s.nextAllowed - now)))
      | .tryAcquire => some (s, .idle)
  | .swap call now next =>
    if s.nextAllowed = next then some (s.grant intervalNanos now, .idle)
    else
      match call with
      | .acquire => some (s, .read .acquire)
      | .tryAcquire => some (s, .idle)
  | .sleep _ => some (s, .read .acquire)

def step (intervalNanos : ℤ) (e : Event) (s : Schedule) (pc : Pc) : Option (Schedule × Pc) :=
  match e, pc with
  | .tick d, pc => some (s.tick d, pc)
  | .call call, .idle => some (s, .read call)
  | .run, pc => advance intervalNanos s pc
  | .interrupt, .sleep _ => some (s, .idle)
  | _, _ => none

/-- Threads `ι` that share a limiter created at `t0`. -/
def pool (ι : Type*) (t0 intervalNanos : ℤ) : Pool ι Schedule Pc Event where
  shared := .new t0
  locals _ := .idle
  step _ := step intervalNanos

/-! ## What a step does -/

/-- What a thread knows: the clock has not gone back behind its reading, which has reached the slot
that it tries to take. -/
def Knows (s : Schedule) : Pc → Prop
  | .load _ now => now ≤ s.clock
  | .swap _ now next => now ≤ s.clock ∧ next ≤ now
  | _ => True

variable {interval : ℤ} {s s' : Schedule} {pc pc' : Pc} {e : Event}

/-- What a thread knows stays true, as long as the clock does not go back. -/
lemma knows_mono (hclock : s.clock ≤ s'.clock) (h : Knows s pc) : Knows s' pc := by
  cases pc with
  | load call now => exact le_trans h hclock
  | swap call now next => exact ⟨le_trans h.1 hclock, h.2⟩
  | _ => trivial

/-- The next operation of a thread takes a slot. -/
def granting (s : Schedule) : Pc → Bool
  | .swap _ _ next => s.nextAllowed = next
  | _ => false

/-- A thread moves the schedule, and knows what it needs to know next. Unless it takes a slot, it
leaves the schedule as it is. -/
theorem moves_of_advance (hknows : Knows s pc) (h : advance interval s pc = some (s', pc')) :
    Moves interval s s' ∧ Knows s' pc' ∧ (granting s pc = false → s' = s) := by
  cases pc with
  | idle => exact nomatch h
  | read call =>
    cases h
    exact ⟨.stay, le_rfl, fun _ => rfl⟩
  | load call now =>
    unfold advance at h
    dsimp only at h
    split at h
    next hreached =>
      cases h
      exact ⟨.stay, ⟨hknows, hreached⟩, fun _ => rfl⟩
    next =>
      cases call with
      | acquire =>
        cases h
        exact ⟨.stay, trivial, fun _ => rfl⟩
      | tryAcquire =>
        cases h
        exact ⟨.stay, trivial, fun _ => rfl⟩
  | swap call now next =>
    obtain ⟨hnow, hnext⟩ := hknows
    unfold advance at h
    dsimp only at h
    split at h
    next hsame =>
      cases h
      exact ⟨.grant (hsame ▸ hnext) hnow, trivial, fun hno => absurd hsame (of_decide_eq_false hno)⟩
    next =>
      cases call with
      | acquire =>
        cases h
        exact ⟨.stay, trivial, fun _ => rfl⟩
      | tryAcquire =>
        cases h
        exact ⟨.stay, trivial, fun _ => rfl⟩
  | sleep wakeup =>
    cases h
    exact ⟨.stay, trivial, fun _ => rfl⟩

/-- What a step does to the schedule and to its thread. -/
theorem moves_of_step (hknows : Knows s pc) (h : step interval e s pc = some (s', pc')) :
    Moves interval s s' ∧ Knows s' pc' ∧ (s'.grants ≠ s.grants → e = .run ∧ granting s pc) := by
  cases e with
  | tick d =>
    cases h
    exact ⟨.tick d, knows_mono (by simp) hknows, fun hgrants => absurd rfl hgrants⟩
  | run =>
    obtain ⟨hmoves, hknows', hstays⟩ := moves_of_advance hknows h
    refine ⟨hmoves, hknows', fun hgrants => ⟨rfl, ?_⟩⟩
    by_contra hno
    exact hgrants (congrArg Schedule.grants (hstays (Bool.eq_false_of_not_eq_true hno)))
  | call call =>
    cases pc with
    | idle =>
      cases h
      exact ⟨.stay, trivial, fun hgrants => absurd rfl hgrants⟩
    | _ => exact nomatch h
  | interrupt =>
    cases pc with
    | sleep wakeup =>
      cases h
      exact ⟨.stay, trivial, fun hgrants => absurd rfl hgrants⟩
    | _ => exact nomatch h

section Runs
variable {ι : Type*} [DecidableEq ι] {t0 : ℤ} {σ : Pool.State ι Schedule Pc}

/-- The threads know what they need to know, and move the schedule. -/
lemma knowing (ι : Type*) [DecidableEq ι] (t0 interval : ℤ) :
    (pool ι t0 interval).Knowing (fun _ => Knows) (Moves interval) where
  init _ := trivial
  step hknows hstep :=
    have ⟨hmoves, hknows', _⟩ := moves_of_step hknows hstep
    ⟨hmoves, hknows', fun _ _ _ => knows_mono hmoves.clock_le⟩

/-- The threads keep the law of the schedule. -/
theorem conserved (h : (pool ι t0 interval).Reachable σ) : Conserved t0 interval σ.shared :=
  (knowing ι t0 interval).invariant (conserved_new t0 interval) Conserved.moves h

end Runs

end RespBench.Limiter.Java
