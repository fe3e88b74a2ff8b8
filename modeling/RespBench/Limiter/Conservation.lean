import RespBench.Limiter.Java
import RespBench.Limiter.Exclusive

/-!
# Conservation of slots

The law of the schedule for the Java limiter, with its compare-and-set, and for the Go limiter, with
its mutex: in every interleaving the slots are granted one after the other, none before it has come.
Both are instances of `Conserved.moves`.
-/

namespace RespBench.Limiter
open RespBench.Lib

/-- In all runs of the Java and Go limiters, slots are granted in their order, each to a caller who
has read a time that is not before it, so that no more are granted than have come. -/
theorem schedule_conserved (ι : Type*) [DecidableEq ι] (t0 interval : ℤ)
    (hinterval : 0 < interval) :
    (∀ σ, (Java.pool ι t0 interval).Reachable σ → Conserved t0 interval σ.shared ∧
      (σ.shared.grants.length : ℤ) ≤ (σ.shared.clock - t0) / interval + 1) ∧
    ∀ σ, (Exclusive.goPool ι t0 interval).Reachable σ → Conserved t0 interval σ.shared.schedule ∧
      (σ.shared.schedule.grants.length : ℤ) ≤ (σ.shared.schedule.clock - t0) / interval + 1 := by
  constructor
  · intro σ h
    have hconserved := Java.conserved h
    exact ⟨hconserved, hconserved.length_le hinterval⟩
  · intro σ h
    have hconserved := Exclusive.conserved h
    exact ⟨hconserved, hconserved.length_le hinterval⟩

/-! ### A race for a slot -/

/-- Two threads read the clock and load the same slot. One takes it, the other gives up, waits for
the next slot, and takes it late. -/
def javaRace : List (Fin 2 × Java.Event) :=
  let first (events : List Java.Event) : List (Fin 2 × Java.Event) :=
    events.map (⟨0, Nat.zero_lt_two⟩, ·)
  let second (events : List Java.Event) : List (Fin 2 × Java.Event) :=
    events.map (⟨1, Nat.one_lt_two⟩, ·)
  first [.call .acquire, .run, .run] ++ second [.call .tryAcquire, .run, .run] ++ first [.run] ++
    second [.run, .call .acquire, .run, .run, .tick 1500, .run, .run, .run, .run]

def javaRaceEnd : Pool.State (Fin 2) Schedule Java.Pc :=
  ((Java.pool (Fin 2) 7 1000).run javaRace (Java.pool (Fin 2) 7 1000).init).get (by decide +kernel)

/-- Two goroutines call the limiter, one waits for the other, and for its slot. -/
def goRace : List (Fin 2 × Exclusive.Event) :=
  let first (events : List Exclusive.Event) : List (Fin 2 × Exclusive.Event) :=
    events.map (⟨0, Nat.zero_lt_two⟩, ·)
  let second (events : List Exclusive.Event) : List (Fin 2 × Exclusive.Event) :=
    events.map (⟨1, Nat.one_lt_two⟩, ·)
  first [.call .acquire, .run] ++ second [.call .acquire] ++ first [.run, .run, .run, .run] ++
    second [.run, .run, .run, .run, .tick 1500, .run, .run, .run, .run, .run, .run]

def goRaceEnd : Pool.State (Fin 2) (Exclusive.Shared (Fin 2)) Exclusive.Pc :=
  ((Exclusive.goPool (Fin 2) 7 1000).run goRace (Exclusive.goPool (Fin 2) 7 1000).init).get
    (by decide +kernel)

/-- Both end with two grants, of the slots 7 and 1007. -/
theorem race_conserved :
    Conserved 7 1000 javaRaceEnd.shared ∧ javaRaceEnd.shared.grants
      = [⟨7, 7, 7⟩, ⟨1007, 1507, 1507⟩] ∧
      Conserved 7 1000 goRaceEnd.shared.schedule ∧
      goRaceEnd.shared.schedule.grants = [⟨7, 7, 7⟩, ⟨1007, 1507, 1507⟩] := by
  obtain ⟨hjava, hgo⟩ := schedule_conserved (Fin 2) 7 1000 (by decide)
  have hjavaRun : (Java.pool (Fin 2) 7 1000).run javaRace (Java.pool (Fin 2) 7 1000).init
    = some javaRaceEnd :=
    (Option.some_get _).symm
  have hgoRun : (Exclusive.goPool (Fin 2) 7 1000).run goRace (Exclusive.goPool (Fin 2) 7 1000).init
      = some goRaceEnd := (Option.some_get _).symm
  exact ⟨(hjava _ (Pool.Reachable.run .init hjavaRun)).1, by decide +kernel,
    (hgo _ (Pool.Reachable.run .init hgoRun)).1, by decide +kernel⟩

end RespBench.Limiter
