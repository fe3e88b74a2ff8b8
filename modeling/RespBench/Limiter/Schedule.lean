import RespBench.Lib.Pool

/-!
# The schedule of a rate limiter

The limiters of the engines keep one number: `nextAllowed`, the time from which on the next
operation is allowed. A grant takes this time as its slot and advances it by an interval.
What callers do to the schedule is one of three things (`Moves`): nothing, let time pass,
or grant a slot that a reading of the clock has reached. From this alone follows the law of
the schedule (`Conserved.moves`), whatever the engine does to make the reading, the
comparison and the advance atomic.

The grants are history: the slot, the reading that reached it, and the time at which it was granted.
Times are integers, in nanoseconds, which do not overflow.
-/

namespace RespBench.Limiter

/-- `1_000_000_000 / ratePerSecond`. -/
def intervalNanos (ratePerSecond : ℤ) : ℤ := 1000000000 / ratePerSecond

structure Grant where
  slot : ℤ
  reading : ℤ
  time : ℤ
deriving DecidableEq

/-- What a caller asks for: to wait for its slot, or to have it at once or not at all. -/
inductive Call
  | acquire
  | tryAcquire
deriving DecidableEq

/-- A limiter, with the clock, and the grants in their order. -/
structure Schedule where
  clock : ℤ
  nextAllowed : ℤ
  grants : List Grant
deriving DecidableEq

namespace Schedule
variable (s : Schedule)

/-- A limiter that is created now: its first operation is allowed at once. -/
def new (now : ℤ) : Schedule := ⟨now, now, []⟩

/-- Time passes. -/
def tick (d : ℕ) : Schedule := { s with clock := s.clock + d }

/-- `nextAllowed` is the slot of a caller who read `now`, and is advanced. -/
def grant (interval now : ℤ) : Schedule :=
  { s with
    nextAllowed := s.nextAllowed + interval
    grants := s.grants ++ [⟨s.nextAllowed, now, s.clock⟩] }

/-- The clock of a schedule after some time. -/
@[simp] lemma tick_clock (d : ℕ) : (s.tick d).clock = s.clock + d := rfl
/-- The next slot after a grant. -/
@[simp] lemma grant_nextAllowed (interval now : ℤ) :
    (s.grant interval now).nextAllowed = s.nextAllowed + interval := rfl
/-- The grants after a grant. -/
@[simp] lemma grant_grants (interval now : ℤ) :
    (s.grant interval now).grants = s.grants ++ [⟨s.nextAllowed, now, s.clock⟩] := rfl

end Schedule

/-- What can happen to a schedule. -/
inductive Moves (interval : ℤ) (s : Schedule) : Schedule → Prop
  | stay : Moves interval s s
  | tick (d : ℕ) : Moves interval s (s.tick d)
  | grant {now : ℤ} : s.nextAllowed ≤ now → now ≤ s.clock → Moves interval s (s.grant interval now)

variable {t0 interval : ℤ} {s s' : Schedule}

/-- The clock does not go back. -/
lemma Moves.clock_le (h : Moves interval s s') : s.clock ≤ s'.clock := by
  cases h with
  | tick d => simp
  | _ => exact le_rfl

/-! ## The law of the schedule -/

/-- A schedule that started at `t0` has granted its slots one after the other, none twice and none
skipped, each to a caller whose reading of the clock had reached it. -/
structure Conserved (t0 interval : ℤ) (s : Schedule) : Prop where
  started : t0 ≤ s.clock
  nextAllowed : s.nextAllowed = t0 + s.grants.length * interval
  slot : ∀ (k : ℕ) (h : k < s.grants.length), (s.grants[k]).slot = t0 + k * interval
  reading : ∀ (k : ℕ) (h : k < s.grants.length), t0 + k * interval ≤ (s.grants[k]).reading
  times : ∀ g ∈ s.grants, g.reading ≤ g.time ∧ g.time ≤ s.clock

/-- A new schedule obeys the law. -/
lemma conserved_new (t0 interval : ℤ) : Conserved t0 interval (.new t0) where
  started := le_rfl
  nextAllowed := by simp [Schedule.new]
  slot _ h := nomatch h
  reading _ h := nomatch h
  times _ h := nomatch h

/-- The law is kept. -/
theorem Conserved.moves (hs : Conserved t0 interval s) (h : Moves interval s s') :
    Conserved t0 interval s' := by
  cases h with
  | stay => exact hs
  | tick d =>
    refine ⟨?_, hs.nextAllowed, hs.slot, hs.reading, fun g hg => ?_⟩
    · have := hs.started
      rw [Schedule.tick_clock]
      omega
    · have := hs.times g hg
      rw [Schedule.tick_clock]
      omega
  | @grant now hslot hnow =>
    refine ⟨hs.started, ?_, fun k hk => ?_, fun k hk => ?_, fun g hg => ?_⟩
    · rw [Schedule.grant_nextAllowed, hs.nextAllowed, Schedule.grant_grants, List.length_append,
        List.length_singleton]
      push_cast
      ring
    · simp only [Schedule.grant_grants, List.length_append, List.length_singleton] at hk ⊢
      rcases Nat.lt_succ_iff_lt_or_eq.mp hk with hlt | rfl
      · rw [List.getElem_append_left hlt]
        exact hs.slot k hlt
      · rw [List.getElem_concat_length rfl]
        exact hs.nextAllowed
    · simp only [Schedule.grant_grants, List.length_append, List.length_singleton] at hk ⊢
      rcases Nat.lt_succ_iff_lt_or_eq.mp hk with hlt | rfl
      · rw [List.getElem_append_left hlt]
        exact hs.reading k hlt
      · rw [List.getElem_concat_length rfl, ← hs.nextAllowed]
        exact hslot
    · rw [Schedule.grant_grants, List.mem_append, List.mem_singleton] at hg
      rcases hg with hg | rfl
      · exact hs.times g hg
      · exact ⟨hnow, le_rfl⟩

/-- No more slots are granted than have come. -/
theorem Conserved.length_le (hs : Conserved t0 interval s) (hinterval : 0 < interval) :
    (s.grants.length : ℤ) ≤ (s.clock - t0) / interval + 1 := by
  rcases Nat.eq_zero_or_pos s.grants.length with hzero | hpos
  · have := Int.ediv_nonneg (sub_nonneg.mpr hs.started) hinterval.le
    omega
  · have hlast : s.grants.length - 1 < s.grants.length := by omega
    have hslot := hs.reading _ hlast
    have htime := hs.times _ (List.getElem_mem hlast)
    have hle : ((s.grants.length - 1 : ℕ) : ℤ) ≤ (s.clock - t0) / interval :=
      Int.le_ediv_of_mul_le hinterval (by omega)
    omega

/-- The next slot is at most one interval away. -/
lemma Conserved.nextAllowed_le (hs : Conserved t0 interval s) (hinterval : 0 ≤ interval) :
    s.nextAllowed ≤ s.clock + interval := by
  rw [hs.nextAllowed]
  rcases Nat.eq_zero_or_pos s.grants.length with hzero | hpos
  · have := hs.started
    rw [hzero]
    push_cast
    linarith
  · have hlast : s.grants.length - 1 < s.grants.length := by omega
    have hslot := hs.reading _ hlast
    have htime := hs.times _ (List.getElem_mem hlast)
    have hcast : ((s.grants.length - 1 : ℕ) : ℤ) = s.grants.length - 1 := by omega
    rw [hcast] at hslot
    linarith

end RespBench.Limiter
