import RespBench.Limiter.Schedule

/-!
# The Rust limiter

`RateLimiter::acquire` of the Rust engine. Unlike the others, a thread reserves its slot
first, the later one of the cursor and its reading of the clock, and then sleeps until the
slot comes. The reading may be stale and the compare-and-set may fail; still the cursor is
always one interval behind the last slot (`Spaced`), so that slots keep their distance also
after a pause (`slots_spaced`).
-/

namespace RespBench.Limiter.Rust
open RespBench.Lib

/-- An `acquire` that has returned: its slot, and when it returned. -/
structure Return where
  slot : ℤ
  time : ℤ
deriving DecidableEq

structure Shared where
  schedule : Schedule
  returned : List Return
deriving DecidableEq

/-- Where a thread is. -/
inductive Pc
  | idle
  -- `let now = self.now_nanos()`
  | read
  -- `let next = self.next_allowed_nanos.load(Ordering::Acquire)`
  | load (now : ℤ)
  -- `compare_exchange(next, slot + self.interval_nanos, ..)` with `slot = next.max(now)`
  | swap (now next : ℤ)
  -- `if wait > 0` with `wait = slot - now`
  | settle (slot wait : ℤ)
  -- `std::thread::sleep`, which lasts at least until this time
  | sleep (slot wakeup : ℤ)
deriving DecidableEq

/-- What happens to a thread: time passes, it calls `acquire`, or it goes on. -/
inductive Event
  | tick (d : ℕ)
  | acquire
  | run
deriving DecidableEq

namespace Shared
variable (s : Shared)

def tick (d : ℕ) : Shared := { s with schedule := s.schedule.tick d }

/-- A caller who read `now` reserves a slot. -/
def reserve (intervalNanos now : ℤ) : Shared :=
  let slot := max s.schedule.nextAllowed now
  { s with schedule :=
    { s.schedule with
      nextAllowed := slot + intervalNanos
      grants := s.schedule.grants ++ [⟨slot, now, s.schedule.clock⟩] } }

/-- The call with this slot returns. -/
def finish (slot : ℤ) : Shared := { s with returned := s.returned ++ [⟨slot, s.schedule.clock⟩] }

end Shared

/-- The next operation of a thread. -/
def advance (intervalNanos : ℤ) (s : Shared) : Pc → Option (Shared × Pc)
  | .idle => none
  | .read => some (s, .load s.schedule.clock)
  | .load now => some (s, .swap now s.schedule.nextAllowed)
  | .swap now next =>
    if s.schedule.nextAllowed = next then
      some (s.reserve intervalNanos now, .settle (max next now) (max next now - now))
    else some (s, .read)
  | .settle slot wait =>
    if wait > 0 then some (s, .sleep slot (s.schedule.clock + wait))
      else some (s.finish slot, .idle)
  | .sleep slot wakeup => if wakeup ≤ s.schedule.clock then some (s.finish slot, .idle) else none

def step (intervalNanos : ℤ) (e : Event) (s : Shared) (pc : Pc) : Option (Shared × Pc) :=
  match e, pc with
  | .tick d, pc => some (s.tick d, pc)
  | .acquire, .idle => some (s, .read)
  | .run, pc => advance intervalNanos s pc
  | _, _ => none

/-- Threads `ι` that share a limiter. Its times count from its creation. -/
def pool (ι : Type*) (intervalNanos : ℤ) : Pool ι Shared Pc Event where
  shared := ⟨.new 0, []⟩
  locals _ := .idle
  step _ := step intervalNanos

/-! ## What a step does -/

/-- What can happen to the limiter. -/
inductive Moves (interval : ℤ) (s : Shared) : Shared → Prop
  | stay : Moves interval s s
  | tick (d : ℕ) : Moves interval s (s.tick d)
  | reserve {now : ℤ} : now ≤ s.schedule.clock → Moves interval s (s.reserve interval now)
  | finish {slot : ℤ} : slot ∈ s.schedule.grants.map Grant.slot → slot ≤ s.schedule.clock →
      Moves interval s (s.finish slot)

/-- What a thread knows: its reading is not in the future, and it has reserved its slot, which will
have come when it wakes up. -/
def Knows (s : Shared) : Pc → Prop
  | .load now => now ≤ s.schedule.clock
  | .swap now _ => now ≤ s.schedule.clock
  | .settle slot wait => slot ∈ s.schedule.grants.map Grant.slot ∧ slot ≤ s.schedule.clock + wait
  | .sleep slot wakeup => slot ∈ s.schedule.grants.map Grant.slot ∧ slot ≤ wakeup
  | _ => True

variable {interval : ℤ} {s s' : Shared} {pc pc' : Pc} {e : Event}

/-- The clock does not go back. -/
lemma Moves.clock_le (h : Moves interval s s') : s.schedule.clock ≤ s'.schedule.clock := by
  cases h with
  | tick d => simp [Shared.tick]
  | _ => exact le_rfl

/-- A reserved slot stays reserved. -/
lemma Moves.mem_slots (h : Moves interval s s') {slot : ℤ}
    (hslot : slot ∈ s.schedule.grants.map Grant.slot) :
    slot ∈ s'.schedule.grants.map Grant.slot := by
  cases h with
  | @reserve now hnow =>
    rw [Shared.reserve, List.map_append]
    exact List.mem_append_left _ hslot
  | _ => exact hslot

/-- What a thread knows stays true. -/
lemma Moves.knows (h : Moves interval s s') (hknows : Knows s pc) : Knows s' pc := by
  have hclock := h.clock_le
  cases pc with
  | load now => exact le_trans hknows hclock
  | swap now next => exact le_trans hknows hclock
  | settle slot wait => exact ⟨h.mem_slots hknows.1, hknows.2.trans (add_le_add_left hclock wait)⟩
  | sleep slot wakeup => exact ⟨h.mem_slots hknows.1, hknows.2⟩
  | _ => trivial

/-- A thread moves the limiter, and knows what it needs to know next. -/
theorem moves_of_advance (hknows : Knows s pc) (h : advance interval s pc = some (s', pc')) :
    Moves interval s s' ∧ Knows s' pc' := by
  cases pc with
  | idle => exact nomatch h
  | read =>
    cases h
    exact ⟨.stay, le_rfl⟩
  | load now =>
    cases h
    exact ⟨.stay, hknows⟩
  | swap now next =>
    have hnow : now ≤ s.schedule.clock := hknows
    rw [advance] at h
    split at h
    next hsame =>
      cases h
      refine ⟨.reserve hnow, ?_, ?_⟩
      · rw [Shared.reserve, List.map_append, hsame]
        exact List.mem_append_right _ List.mem_cons_self
      · dsimp only [Shared.reserve]
        omega
    next =>
      cases h
      exact ⟨.stay, trivial⟩
  | settle slot wait =>
    obtain ⟨hslot, hle⟩ := hknows
    rw [advance] at h
    split at h
    next =>
      cases h
      exact ⟨.stay, hslot, hle⟩
    next hwait =>
      cases h
      exact ⟨.finish hslot (by omega), trivial⟩
  | sleep slot wakeup =>
    obtain ⟨hslot, hle⟩ := hknows
    rw [advance] at h
    split at h
    next hawake =>
      cases h
      exact ⟨.finish hslot (hle.trans hawake), trivial⟩
    next => exact nomatch h

/-- What a step does to the limiter and to its thread. -/
theorem moves_of_step (hknows : Knows s pc) (h : step interval e s pc = some (s', pc')) :
    Moves interval s s' ∧ Knows s' pc' := by
  cases e with
  | tick d =>
    cases h
    have hmoves : Moves interval s (s.tick d) := .tick d
    exact ⟨hmoves, hmoves.knows hknows⟩
  | run => exact moves_of_advance hknows h
  | acquire =>
    cases pc with
    | idle =>
      cases h
      exact ⟨.stay, trivial⟩
    | _ => exact nomatch h

/-! ## The distance of slots -/

/-- The slots keep their distance, the cursor is behind them, and no call has
returned before its slot. -/
structure Spaced (interval : ℤ) (s : Shared) : Prop where
  spaced : s.schedule.grants.Pairwise fun a b => a.slot + interval ≤ b.slot
  cursor : ∀ g ∈ s.schedule.grants, g.slot + interval ≤ s.schedule.nextAllowed
  returned : ∀ r ∈ s.returned, r.slot ∈ s.schedule.grants.map Grant.slot ∧ r.slot ≤ r.time

/-- A new limiter has kept the distance. -/
lemma spaced_init (interval : ℤ) : Spaced interval ⟨.new 0, []⟩ :=
  ⟨.nil, nofun, nofun⟩

/-- The distance is kept. -/
theorem Spaced.moves (hinterval : 0 ≤ interval) (hs : Spaced interval s) (h : Moves interval s s') :
    Spaced interval s' := by
  cases h with
  | stay => exact hs
  | tick d => exact ⟨hs.spaced, hs.cursor, hs.returned⟩
  | @reserve now hnow =>
    have hmoves : Moves interval s (s.reserve interval now) := .reserve hnow
    have hle : s.schedule.nextAllowed ≤ max s.schedule.nextAllowed now := le_max_left _ _
    refine ⟨?_, fun g hg => ?_, fun r hr => ?_⟩
    · refine List.pairwise_append.mpr ⟨hs.spaced, List.pairwise_singleton _ _, fun a ha b hb => ?_⟩
      obtain rfl := List.mem_singleton.mp hb
      exact (hs.cursor a ha).trans hle
    · rcases List.mem_append.mp hg with hg | hg
      · exact ((hs.cursor g hg).trans hle).trans (le_add_of_nonneg_right hinterval)
      · obtain rfl := List.mem_singleton.mp hg
        exact le_rfl
    · obtain ⟨hslot, htime⟩ := hs.returned r hr
      exact ⟨hmoves.mem_slots hslot, htime⟩
  | finish hslot htime =>
    refine ⟨hs.spaced, hs.cursor, fun r hr => ?_⟩
    rcases List.mem_append.mp hr with hr | hr
    · exact hs.returned r hr
    · obtain rfl := List.mem_singleton.mp hr
      exact ⟨hslot, htime⟩

section Runs
variable {ι : Type*} [DecidableEq ι] {σ : Pool.State ι Shared Pc}

/-- The threads know what they need to know, and move the limiter. -/
lemma knowing (ι : Type*) [DecidableEq ι] (interval : ℤ) :
    (pool ι interval).Knowing (fun _ => Knows) (Moves interval) where
  init _ := trivial
  step hknows hstep :=
    have ⟨hmoves, hknows'⟩ := moves_of_step hknows hstep
    ⟨hmoves, hknows', fun _ _ _ => hmoves.knows⟩

/-- In every reachable state the slots have kept their distance. -/
lemma spaced (hinterval : 0 ≤ interval) (h : (pool ι interval).Reachable σ) :
    Spaced interval σ.shared :=
  (knowing ι interval).invariant (spaced_init interval) (Spaced.moves hinterval) h

end Runs

/-- An interval of a rate up to one per nanosecond lasts. -/
lemma intervalNanos_pos {ratePerSecond : ℤ} (hlow : 1 ≤ ratePerSecond)
    (hhigh : ratePerSecond ≤ 10 ^ 9) :
    1 ≤ intervalNanos ratePerSecond :=
  Int.le_ediv_of_mul_le (by omega) (by omega)

/-- In all runs the slots of any two calls are at least one interval apart, they increase in the
order of reservation, and no call returns before its slot. -/
theorem slots_spaced (ι : Type*) [DecidableEq ι] {ratePerSecond : ℤ} (hlow : 1 ≤ ratePerSecond)
    (hhigh : ratePerSecond ≤ 10 ^ 9) {σ : Pool.State ι Shared Pc}
    (h : (pool ι (intervalNanos ratePerSecond)).Reachable σ) :
    (σ.shared.schedule.grants.Pairwise fun a b => a.slot + intervalNanos ratePerSecond ≤ b.slot) ∧
      (σ.shared.schedule.grants.Pairwise fun a b => a.slot < b.slot) ∧
      ∀ r ∈ σ.shared.returned, r.slot ∈ σ.shared.schedule.grants.map Grant.slot ∧
      r.slot ≤ r.time := by
  have hpos := intervalNanos_pos hlow hhigh
  have hspaced := spaced (by omega) h
  exact ⟨hspaced.spaced, hspaced.spaced.imp fun hab => by omega, hspaced.returned⟩

/-! ### A race after a pause -/

/-- Two threads race for the first slot after a pause, and the one that loses it
sleeps until the next. -/
def race : List (Fin 2 × Event) :=
  let first (events : List Event) : List (Fin 2 × Event) := events.map (⟨0, Nat.zero_lt_two⟩, ·)
  let second (events : List Event) : List (Fin 2 × Event) := events.map (⟨1, Nat.one_lt_two⟩, ·)
  first [.tick 5000000000, .acquire, .run, .run] ++ second [.acquire, .run, .run] ++
    first [.run, .run] ++
    second [.run, .run, .run, .run, .run, .tick 1000000000, .run]

def raceEnd : Pool.State (Fin 2) Shared Pc :=
  ((pool (Fin 2) (intervalNanos 1)).run race (pool (Fin 2) (intervalNanos 1)).init).get
    (by decide +kernel)

/-- Both have returned, one second apart. -/
theorem raceEnd_spaced :
    raceEnd.shared.returned = [⟨5000000000, 5000000000⟩, ⟨6000000000, 6000000000⟩] ∧
      raceEnd.shared.schedule.grants.Pairwise fun a b => a.slot + intervalNanos 1 ≤ b.slot := by
  have hrun : (pool (Fin 2) (intervalNanos 1)).run race (pool (Fin 2) (intervalNanos 1)).init
    = some raceEnd :=
    (Option.some_get _).symm
  exact ⟨by decide +kernel,
    (slots_spaced (Fin 2) (by decide) (by decide) (Pool.Reachable.run .init hrun)).1⟩

end RespBench.Limiter.Rust
