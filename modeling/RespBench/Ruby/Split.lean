import RespBench.Ruby.Workers

/-!
# The division among the forked processes

Every forked process rounds its share of the requests and of the rate up, so the shares add up to
what the phase configures only when nothing is rounded: `target_sum_iff` for the requests,
`rate_sum_iff` for the rate, and both together in `splitCorrect_iff`.
-/

namespace RespBench.Ruby
open RespBench.Lib
open RespBench.Random (Fault)

/-- The forked processes of a phase together are given exactly its requests and at most its rate. -/
def SplitCorrect (phase : PhaseConfig) : Prop :=
  ∃ target rate, my_target phase.completion (num_processes phase) = some target ∧
    my_rps phase (num_processes phase) = .ok (some rate) ∧
    ∑ _i ∈ Finset.range (num_processes phase).toNat, target = phase.completion.total_requests ∧
    ∑ _i ∈ Finset.range (num_processes phase).toNat, rate ≤ phase.rps_limit

/-- The shares of a rate do not exceed it: below `2 ^ 53`, where every integer is a double, the rate
is a multiple of the number of processes; from there on the quotient of the doubles must not exceed
the integer quotient. -/
def RateFits (rps_limit num_processes : ℤ) : Prop :=
  if rps_limit < 2 ^ 53 then num_processes ∣ rps_limit
  else ∃ rate quotient, Binary64.round rps_limit = some rate ∧
    Binary64.round (rate / num_processes) = some quotient ∧
    quotient ≤ (rps_limit / num_processes : ℤ)

/-- Rounded-up shares of an integer add up to it exactly when nothing is rounded. -/
lemma target_sum_iff {n : ℤ} (hn : 0 < n) (R : ℤ) :
    n * (R / n + if R % n > 0 then 1 else 0) = R ↔ n ∣ R := by
  have hdiv := Int.mul_ediv_add_emod R n
  have hmod := Int.emod_nonneg R hn.ne'
  have hlt := Int.emod_lt_of_pos R hn
  rw [Int.dvd_iff_emod_eq_zero, mul_add]
  split <;> omega

/-- Rounded-up shares of an integer stay within it exactly when nothing is rounded. -/
lemma ceil_sum_iff {n : ℤ} (hn : 0 < n) (R : ℤ) : n * ⌈(R : ℚ) / n⌉ ≤ R ↔ n ∣ R := by
  have hn' : (0 : ℚ) < n := by exact_mod_cast hn
  constructor
  · intro h
    have hle : (R : ℚ) ≤ n * ⌈(R : ℚ) / n⌉ := by
      rw [← div_le_iff₀' hn']
      exact Int.le_ceil _
    exact ⟨_, le_antisymm (by exact_mod_cast hle) h⟩
  · rintro ⟨q, rfl⟩
    rw [Int.cast_mul, mul_div_cancel_left₀ _ hn'.ne', Int.ceil_intCast]

/-- A share of the rate times the number of processes stays within the rate exactly when the
quotient stays below the integer quotient. -/
lemma ceil_mul_le_iff {n : ℤ} (hn : 0 < n) (R : ℤ) (q : ℚ) :
    n * ⌈q⌉ ≤ R ↔ q ≤ (R / n : ℤ) := by
  rw [← Int.ceil_le, Int.le_ediv_iff_mul_le hn, mul_comm]

section Rate
variable {phase : PhaseConfig} {n : ℤ}

/-- A positive rate is a limit. -/
lemma has_rps_limit_of_pos (hrps : 0 < phase.rps_limit) : phase.has_rps_limit :=
  decide_eq_true hrps

/-- The rate share below `2 ^ 53` is the exact quotient rounded up. -/
lemma my_rps_small (hrps : 0 < phase.rps_limit) (hsmall : phase.rps_limit < 2 ^ 53) (hn : 0 < n)
    (hn' : n < 2 ^ 53) : my_rps phase n = .ok (some ⌈(phase.rps_limit : ℚ) / n⌉) := by
  obtain ⟨r, hr⟩ := Int.eq_ofNat_of_zero_le hrps.le
  obtain ⟨k, rfl⟩ := Int.eq_ofNat_of_zero_le hn.le
  obtain ⟨q, hq, hceil⟩ := Binary64.ceil_round_div (n := r) (k := k) (by omega) (by omega)
    (by omega) (by omega)
  have hround := Binary64.round_natCast (n := r) (by omega)
  rw [my_rps, if_pos (has_rps_limit_of_pos hrps), hr]
  simp only [Int.cast_natCast, hround, hq, hceil]

/-- The processes together stay within the rate exactly when it fits. -/
lemma rate_sum_iff (hrps : 0 < phase.rps_limit) (hn : 0 < n) (hn' : n < 2 ^ 53) :
    (∃ rate, my_rps phase n = .ok (some rate) ∧ n * rate ≤ phase.rps_limit) ↔
      RateFits phase.rps_limit n := by
  unfold RateFits
  split
  · next hsmall =>
    rw [my_rps_small hrps hsmall hn hn', ← ceil_sum_iff hn]
    constructor
    · rintro ⟨rate, hrate, hle⟩
      cases hrate
      exact hle
    · exact fun h => ⟨_, rfl, h⟩
  · rw [my_rps, if_pos (has_rps_limit_of_pos hrps)]
    cases hround : Binary64.round phase.rps_limit with
    | none => simp
    | some rate =>
      cases hquot : Binary64.round (rate / n) with
      | none => simp [hquot]
      | some quotient => simp [hquot, ceil_mul_le_iff hn]

end Rate

/-- With more than one connection there are at least two processes. -/
lemma num_processes_bounds {phase : PhaseConfig} (h : 1 < phase.connections) :
    1 < num_processes phase ∧ num_processes phase ≤ 16 := by
  unfold num_processes MAX_PROCESSES
  omega

/-- The processes of a request-based phase are given exactly its requests and at most its rate
exactly when the number of processes divides the requests and the rate fits. -/
theorem splitCorrect_iff (phase : PhaseConfig) (hconn : 1 < phase.connections)
    (hreq : ¬ phase.completion.duration_based) (hrps : 0 < phase.rps_limit) :
    SplitCorrect phase ↔ num_processes phase ∣ phase.completion.total_requests ∧
      RateFits phase.rps_limit (num_processes phase) := by
  obtain ⟨hlow, hhigh⟩ := num_processes_bounds hconn
  have hpos : 0 < num_processes phase := by omega
  have hsum : ∀ x : ℤ, ∑ _i ∈ Finset.range (num_processes phase).toNat, x
      = num_processes phase * x := by
    intro x
    rw [Finset.sum_const, Finset.card_range, nsmul_eq_mul, Int.natCast_toNat_eq_self.mpr hpos.le]
  unfold SplitCorrect
  simp only [hsum, my_target, if_neg hreq, Option.some.injEq]
  rw [← rate_sum_iff hrps hpos (by omega), ← target_sum_iff hpos]
  constructor
  · rintro ⟨target, rate, rfl, hrate, htarget, hle⟩
    exact ⟨htarget, rate, hrate, hle⟩
  · rintro ⟨htarget, rate, hrate, hle⟩
    exact ⟨_, rate, rfl, hrate, htarget, hle⟩

/-- Eight requests on four connections with eight requests per second. -/
def dividedPhase : PhaseConfig :=
  ⟨4, 8, ⟨.requests, none, some 8⟩, ⟨8, .sequential_int, none⟩⟩

/-- Each of its processes is given two requests and two requests per second. -/
theorem dividedPhase_splitCorrect : SplitCorrect dividedPhase :=
  (splitCorrect_iff dividedPhase (by decide) (by decide) (by decide)).mpr ⟨by decide, by
    rw [RateFits, if_pos (by decide)]
    decide⟩

/-- Ten requests on four connections with two requests per second. -/
def unevenPhase : PhaseConfig :=
  ⟨4, 2, ⟨.requests, none, some 10⟩, ⟨10, .sequential_int, none⟩⟩

/-- Its processes are given twelve requests and four requests per second. -/
theorem unevenPhase_not_splitCorrect :
    1 < unevenPhase.connections ∧ ¬ unevenPhase.completion.duration_based ∧
      0 < unevenPhase.rps_limit ∧ ¬ SplitCorrect unevenPhase := by
  refine ⟨by decide, by decide, by decide, ?_⟩
  rintro ⟨target, rate, htarget, _, hsum, _⟩
  obtain rfl : target = 3 := Option.some.inj (htarget.symm.trans rfl)
  exact absurd hsum (by decide)

end RespBench.Ruby
