import RespBench.Limiter.Conservation

/-!
# Bursts

The limiters advance `nextAllowed` from the slot that was granted, not from the time at which it was
granted. After a pause, or a warmup between the creation of the limiter and its first use,
`nextAllowed` lies behind the clock, and all the slots since then are granted at once: in every
engine two calls after such a pause are granted at the same time (`pause_bursts`). As long as no
slot is granted after its time, grants are one interval apart (`punctual_no_burst`).
-/

namespace RespBench.Limiter
open RespBench.Lib

/-- Successive grants are at least one interval apart. -/
def NoBurst (interval : ℤ) (s : Schedule) : Prop :=
  ∀ (k : ℕ) (h : k + 1 < s.grants.length), (s.grants[k]).time + interval ≤ (s.grants[k + 1]).time

/-- Every slot was granted at its time. -/
def OnTime (s : Schedule) : Prop := ∀ g ∈ s.grants, g.time = g.slot

variable {t0 interval : ℤ} {s s' : Schedule}

/-- Slots that are granted at their times are one interval apart. -/
lemma OnTime.noBurst (htime : OnTime s) (hs : Conserved t0 interval s) : NoBurst interval s := by
  intro k hk
  rw [htime _ (List.getElem_mem _), htime _ (List.getElem_mem _), hs.slot, hs.slot]
  push_cast
  linarith

/-- A step grants no slot after its time, if it grants one only while the clock has not passed
it. -/
lemma OnTime.moves (htime : OnTime s) (h : Moves interval s s')
    (hpunctual : s'.grants ≠ s.grants → s.clock ≤ s.nextAllowed) : OnTime s' := by
  cases h with
  | stay => exact htime
  | tick d => exact htime
  | @grant now hslot hnow =>
    have hclock := hpunctual (by simp)
    intro g hg
    rw [Schedule.grant_grants, List.mem_append, List.mem_singleton] at hg
    rcases hg with hg | rfl
    · exact htime g hg
    · exact le_antisymm hclock (hslot.trans hnow)

/-! ## Punctual runs -/

/-- If the next operation of a thread takes a slot, the clock has not passed it. -/
def Java.Punctual {ι : Type*} (w : ι) (e : Java.Event) (σ : Pool.State ι Schedule Java.Pc) : Prop :=
  e = .run ∧ Java.granting σ.shared (σ.locals w) → σ.shared.clock ≤ σ.shared.nextAllowed

/-- If the next operation of a caller takes a slot, the clock has not passed it. -/
def Exclusive.Punctual {ι : Type*} (w : ι) (e : Exclusive.Event)
    (σ : Pool.State ι (Exclusive.Shared ι) Exclusive.Pc) : Prop :=
  e = .run ∧ Exclusive.granting (σ.locals w) →
    σ.shared.schedule.clock ≤ σ.shared.schedule.nextAllowed

instance {ι : Type*} (w : ι) (e : Java.Event) (σ : Pool.State ι Schedule Java.Pc) :
    Decidable (Java.Punctual w e σ) :=
  inferInstanceAs (Decidable (_ → _))

instance {ι : Type*} (w : ι) (e : Exclusive.Event)
    (σ : Pool.State ι (Exclusive.Shared ι) Exclusive.Pc) :
    Decidable (Exclusive.Punctual w e σ) :=
  inferInstanceAs (Decidable (_ → _))

section Runs
variable {ι : Type*} [DecidableEq ι]

/-- In a punctual run of the Java limiter there is no burst. -/
lemma Java.noBurst {σ : Pool.State ι Schedule Java.Pc}
    (h : (Java.pool ι t0 interval).Within Java.Punctual σ) :
    NoBurst interval σ.shared := by
  have htime : OnTime σ.shared := by
    refine Pool.within_induction (P := Java.pool ι t0 interval) (I := fun σ => OnTime σ.shared)
      (fun g hg => nomatch hg) ?_ h
    intro σ w e σ' hwithin htime hpunctual hnext
    obtain ⟨hmoves, -, hgrants⟩ := Java.moves_of_step
      ((Java.knowing ι t0 interval).knows hwithin.reachable w) (Pool.next_eq_some hnext).1
    exact htime.moves hmoves fun hne => hpunctual (hgrants hne)
  exact htime.noBurst (Java.conserved h.reachable)

/-- In a punctual run of an exclusive limiter there is no burst. -/
lemma Exclusive.noBurst {calls : Call → Bool} {σ : Pool.State ι (Exclusive.Shared ι) Exclusive.Pc}
    (h : (Exclusive.pool ι calls t0 interval).Within Exclusive.Punctual σ) :
    NoBurst interval σ.shared.schedule := by
  have htime : OnTime σ.shared.schedule := by
    refine Pool.within_induction (P := Exclusive.pool ι calls t0 interval)
      (I := fun σ => OnTime σ.shared.schedule) (fun g hg => nomatch hg) ?_ h
    intro σ w e σ' hwithin htime hpunctual hnext
    obtain ⟨hmoves, -, hgrants, -⟩ :=
      Exclusive.moves_of_step ((Exclusive.knowing ι calls t0 interval).knows hwithin.reachable w)
        (Pool.next_eq_some hnext).1
    exact htime.moves hmoves fun hne => hpunctual (hgrants hne)
  exact htime.noBurst (Exclusive.conserved h.reachable)

end Runs

/-- In every engine, runs in which no slot is granted after its time have no bursts. -/
theorem punctual_no_burst (ι : Type*) [DecidableEq ι] (t0 ratePerSecond : ℤ) :
    let interval := intervalNanos ratePerSecond
    (∀ σ, (Java.pool ι t0 interval).Within Java.Punctual σ → NoBurst interval σ.shared) ∧
      (∀ σ, (Exclusive.goPool ι t0 interval).Within Exclusive.Punctual σ →
        NoBurst interval σ.shared.schedule) ∧
      (∀ σ, (Exclusive.phpPool t0 interval).Within Exclusive.Punctual σ →
        NoBurst interval σ.shared.schedule) ∧
      ∀ σ, (Exclusive.pythonPool ι t0 interval).Within Exclusive.Punctual σ →
        NoBurst interval σ.shared.schedule :=
  ⟨fun _ => Java.noBurst, fun _ => Exclusive.noBurst, fun _ => Exclusive.noBurst,
    fun _ => Exclusive.noBurst⟩

/-! ### A saturated caller -/

/-- A thread calls the limiter twice, and wakes up when its second slot comes. -/
def Java.saturated : List (Unit × Java.Event) :=
  [.call .acquire, .run, .run, .run, .call .acquire, .run, .run, .tick 1000000000, .run, .run, .run,
    .run].map ((), ·)

/-- The same for the other engines. -/
def Exclusive.saturated : List (Unit × Exclusive.Event) :=
  [.call .acquire, .run, .run, .run, .run, .run, .call .acquire, .run, .run, .run, .run,
    .tick 1000000000, .run, .run, .run, .run, .run, .run].map ((), ·)

def Java.saturatedEnd : Pool.State Unit Schedule Java.Pc :=
  ((Java.pool Unit 0 (intervalNanos 1)).runIf Java.Punctual Java.saturated
    (Java.pool Unit 0 (intervalNanos 1)).init).get (by decide +kernel)

def Exclusive.saturatedEnd (P : Pool Unit (Shared Unit) Pc Event)
    (h : (P.runIf Punctual saturated P.init).isSome) : Pool.State Unit (Shared Unit) Pc :=
  (P.runIf Punctual saturated P.init).get h

/-- The saturated run of the Java limiter is punctual. -/
lemma Java.within_saturatedEnd :
    (Java.pool Unit 0 (intervalNanos 1)).Within Java.Punctual Java.saturatedEnd :=
  Pool.Within.runIf .init (Option.some_get _).symm

/-- The saturated run of an exclusive limiter is punctual. -/
lemma Exclusive.within_saturatedEnd {P : Pool Unit (Shared Unit) Pc Event}
    (h : (P.runIf Punctual saturated P.init).isSome) : P.Within Punctual (saturatedEnd P h) :=
  Pool.Within.runIf .init (Option.some_get _).symm

/-- The two grants are one interval apart. -/
theorem saturated_no_burst :
    NoBurst 1000000000 Java.saturatedEnd.shared ∧ Java.saturatedEnd.shared.grants.length = 2 ∧
      NoBurst 1000000000 (Exclusive.saturatedEnd (Exclusive.goPool Unit 0 (intervalNanos 1))
        (by decide +kernel)).shared.schedule ∧
      NoBurst 1000000000 (Exclusive.saturatedEnd (Exclusive.phpPool 0 (intervalNanos 1))
        (by decide +kernel)).shared.schedule ∧
      NoBurst 1000000000 (Exclusive.saturatedEnd (Exclusive.pythonPool Unit 0 (intervalNanos 1))
        (by decide +kernel)).shared.schedule := by
  obtain ⟨hjava, hgo, hphp, hpython⟩ := punctual_no_burst Unit 0 1
  exact ⟨hjava _ Java.within_saturatedEnd, by decide +kernel,
    hgo _ (Exclusive.within_saturatedEnd _), hphp _ (Exclusive.within_saturatedEnd _),
      hpython _ (Exclusive.within_saturatedEnd _)⟩

/-! ### A pause -/

/-- Two calls, five seconds after the limiter was created. -/
def Java.paused : List (Unit × Java.Event) :=
  [.tick 5000000000, .call .acquire, .run, .run, .run, .call .acquire, .run, .run, .run].map ((), ·)

/-- The same for the other engines. -/
def Exclusive.paused : List (Unit × Exclusive.Event) :=
  [.tick 5000000000, .call .acquire, .run, .run, .run, .run, .run, .call .acquire, .run,
    .run, .run, .run, .run].map ((), ·)

/-- Two grants at the same time are a burst. -/
lemma bursts {s : Schedule}
    (h : s.grants = [⟨0, 5000000000, 5000000000⟩, ⟨1000000000, 5000000000, 5000000000⟩]) :
    ¬ NoBurst (intervalNanos 1) s := by
  obtain ⟨clock, nextAllowed, grants⟩ := s
  obtain rfl : grants = _ := h
  intro hburst
  have hle : (5000000000 : ℤ) + intervalNanos 1 ≤ 5000000000 := hburst 0 Nat.one_lt_two
  exact absurd hle (by decide)

/-- A run that ends with such grants. -/
lemma bursts_of_run {S L E : Type*} {P : Pool Unit S L E} (schedule : S → Schedule)
    (events : List (Unit × E))
    (h : (P.run events P.init).map (fun σ => (schedule σ.shared).grants) = some
      [⟨0, 5000000000, 5000000000⟩, ⟨1000000000, 5000000000, 5000000000⟩]) :
    ¬ ∀ σ, P.Reachable σ → NoBurst (intervalNanos 1) (schedule σ.shared) := by
  intro hall
  obtain ⟨σ, hrun, hgrants⟩ := Option.map_eq_some_iff.mp h
  exact bursts hgrants (hall σ (Pool.Reachable.run .init hrun))

/-- With a rate of one per second, both calls are granted at once, in every engine. -/
theorem pause_bursts :
    (¬ ∀ σ, (Java.pool Unit 0 (intervalNanos 1)).Reachable σ → NoBurst (intervalNanos 1) σ.shared) ∧
      (¬ ∀ σ, (Exclusive.goPool Unit 0 (intervalNanos 1)).Reachable σ →
        NoBurst (intervalNanos 1) σ.shared.schedule) ∧
      (¬ ∀ σ, (Exclusive.phpPool 0 (intervalNanos 1)).Reachable σ →
        NoBurst (intervalNanos 1) σ.shared.schedule) ∧
      ¬ ∀ σ, (Exclusive.pythonPool Unit 0 (intervalNanos 1)).Reachable σ →
        NoBurst (intervalNanos 1) σ.shared.schedule := by
  refine ⟨?_, ?_, ?_, ?_⟩
  · exact bursts_of_run id Java.paused (by decide +kernel)
  · exact bursts_of_run Exclusive.Shared.schedule Exclusive.paused (by decide +kernel)
  · exact bursts_of_run Exclusive.Shared.schedule Exclusive.paused (by decide +kernel)
  · exact bursts_of_run Exclusive.Shared.schedule Exclusive.paused (by decide +kernel)

end RespBench.Limiter
