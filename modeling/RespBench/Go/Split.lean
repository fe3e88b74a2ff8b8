import RespBench.Go.Config
import RespBench.Php.Coverage

/-!
# The division of a phase in PHP and Go

`rps_limit` and, in PHP, the requests are divided among the active workers. PHP divides by the
number of active workers and Go by the number of all of them, with the same shares
(`share_min`). A limiter for a rate of zero would be no limiter at all, so it matters that every
active worker has a positive share.
-/

namespace RespBench.Php
open RespBench.Lib.Share

structure RateLimiter where
  ratePerSecond : ℤ
  intervalNanos : ℤ
  nextAllowedNanos : ℤ

/-- No limiter means no limit. -/
def RateLimiter.create (monotonicNanos ratePerSecond : ℤ) : Option RateLimiter :=
  if ratePerSecond ≤ 0 then none
  else some ⟨ratePerSecond, (1000000000 : ℤ).tdiv ratePerSecond, monotonicNanos⟩

/-- A limiter is created for a positive rate only. -/
lemma RateLimiter.create_eq_none (now rate : ℤ) : RateLimiter.create now rate = none ↔
    rate ≤ 0 := by
  unfold create
  split <;> simp [*]

variable {phase : PhaseConfig} {W : ℕ}

/-- With a rate limit, as many workers are active as have a rate of at least 1. -/
lemma activeWorkerCount_limited (hW : 0 < W) (hlim : phase.hasRpsLimit) :
    activeWorkerCount phase W = min (W : ℤ) phase.rpsLimit := by
  have hrps := rpsLimit_pos hlim
  rw [activeWorkerCount, if_pos hlim]
  omega

/-- The rate of an active worker is its share among the active ones. -/
lemma workerRps_eq (hW : 0 < W) {rps : ℕ} (hrps : phase.rpsLimit = rps) {i : ℕ}
    (hi : i < min W rps) :
    workerRps phase W i = (share rps (min W rps) i : ℕ) := by
  have hlim : phase.hasRpsLimit := by
    rw [PhaseConfig.hasRpsLimit, hrps]
    simp only [decide_eq_true_eq]
    omega
  rw [workerRps, hlim, activeWorkerCount_limited hW hlim, hrps, ← Nat.cast_min]
  simp only [Bool.not_true, Bool.false_eq_true, if_false]
  rw [if_neg (by omega), splitShare_eq]

/-- The request target of a worker: its share among the active ones, or nothing. -/
lemma workerRequestTarget_eq (hreq : phase.completion.isRequestBased) {active R : ℕ}
    (hactive : activeWorkerCount phase W = active)
    (hR : phase.completion.totalRequests = R) (i : ℕ) :
    workerRequestTarget phase W i
      = some (if i < active then ((share R active i : ℕ) : ℤ) else 0) := by
  rw [workerRequestTarget, hreq, hactive, hR]
  simp only [Bool.not_true, Bool.false_eq_true, if_false, splitShare_eq]
  split_ifs <;> first | rfl | omega

end RespBench.Php

namespace RespBench.Go
open RespBench.Lib.Share

structure RateLimiter where
  intervalNanos : ℤ
  nextAllowed : ℤ

/-- A nil limiter means no limit. -/
def NewRateLimiter (nowNanos ratePerSecond : ℤ) : Option RateLimiter :=
  if ratePerSecond ≤ 0 then none else some ⟨(1000000000 : ℤ).tdiv ratePerSecond, nowNanos⟩

def activeConnectionCount (phase : PhaseConfig) (workerCount : ℤ) : ℤ :=
  if phase.HasRpsLimit && phase.rpsLimit < workerCount then
    if phase.rpsLimit < 1 then 1 else phase.rpsLimit
  else workerCount

def splitShare (total workerCount workerIndex : ℤ) : ℤ :=
  if workerCount ≤ 0 then 0
  else
    let base := total.tdiv workerCount
    if workerIndex < total.tmod workerCount then base + 1 else base

def connectionRps (phase : PhaseConfig) (workerCount connIdx : ℤ) : ℤ :=
  if !phase.HasRpsLimit then -1 else splitShare phase.rpsLimit workerCount connIdx

/-- A limiter is created for a positive rate only. -/
lemma NewRateLimiter_eq_none (now rate : ℤ) : NewRateLimiter now rate = none ↔ rate ≤ 0 := by
  unfold NewRateLimiter
  split <;> simp [*]

variable {phase : PhaseConfig} {W : ℕ}

/-- With a rate limit, as many connections are active as have a rate of at least 1. -/
lemma activeConnectionCount_limited (hlim : phase.HasRpsLimit) :
    activeConnectionCount phase W = min (W : ℤ) phase.rpsLimit := by
  have hrps : 0 < phase.rpsLimit := by simpa [PhaseConfig.HasRpsLimit] using hlim
  rw [activeConnectionCount, hlim]
  simp only [Bool.true_and, decide_eq_true_eq]
  split_ifs <;> omega

/-- Dividing by the number of all connections gives an active one the same share as dividing by the
number of the active ones. -/
lemma connectionRps_eq (hW : 0 < W) {rps : ℕ} (hrps : phase.rpsLimit = rps) {i : ℕ}
    (hi : i < min W rps) :
    connectionRps phase W i = (share rps (min W rps) i : ℕ) := by
  have hlim : phase.HasRpsLimit := by
    rw [PhaseConfig.HasRpsLimit, hrps]
    simp only [decide_eq_true_eq]
    omega
  have hshare : Php.splitShare rps W i = (share rps W i : ℕ) := Php.splitShare_eq rps W i
  rw [connectionRps, hlim, hrps, share_min hi, ← hshare]
  simp only [Bool.not_true, Bool.false_eq_true, if_false]
  rw [splitShare, if_neg (by omega), Php.splitShare]

/-! ## Even shares -/

/-- The rates of the active ones among `W` workers divide a limit evenly, and none of them is
zero. -/
structure RateSplit (W : ℕ) (rpsLimit active : ℤ) (rps : ℕ → ℤ) : Prop where
  active_eq : active = min (W : ℤ) rpsLimit
  even : Even rpsLimit active.toNat rps
  pos : ∀ i : ℕ, (i : ℤ) < active → 1 ≤ rps i

/-- The targets of `W` workers divide the requests, evenly among the active ones. -/
structure TargetSplit (W : ℕ) (requests active : ℤ) (target : ℕ → ℤ) : Prop where
  sum_eq : ∑ i ∈ Finset.range W, target i = requests
  even : Even requests active.toNat target
  idle : ∀ i : ℕ, active ≤ i → target i = 0

/-- Shares of the rate divide it among the active workers. -/
lemma RateSplit.of_share (hW : 0 < W) {rps : ℕ} (hrps : 0 < rps) {active : ℤ}
    (hactive : active = min (W : ℤ) rps) {rate : ℕ → ℤ}
    (hrate : ∀ i < min W rps, rate i = (share rps (min W rps) i : ℕ)) :
    RateSplit W rps active rate where
  active_eq := hactive
  even := by
    rw [hactive, ← Nat.cast_min, Int.toNat_natCast]
    exact (share_even (lt_min hW hrps) rps).congr hrate
  pos i hi := by
    rw [hrate i (by omega)]
    exact_mod_cast share_pos (lt_min hW hrps) (min_le_right W rps) i

/-- Shares of the requests divide them among the active workers. -/
lemma TargetSplit.of_share {active : ℕ} (hpos : 0 < active) (hle : active ≤ W) (R : ℕ) :
    TargetSplit W R active fun i => if i < active then ((share R active i : ℕ) : ℤ) else 0 where
  sum_eq := by
    rw [← Finset.sum_subset (Finset.range_mono hle), ← (share_even hpos R).sum_eq]
    · exact Finset.sum_congr rfl fun i hi => if_pos (Finset.mem_range.mp hi)
    · intro i _ hi
      exact if_neg (by simpa using hi)
  even := (share_even hpos R).congr fun i hi => if_pos hi
  idle i hi := if_neg (by omega)

/-- For every number of workers, PHP and Go divide every limit evenly and without a rate of zero,
and PHP divides the requests. -/
theorem split_even (W : ℕ) (hW : 1 ≤ W) :
    (∀ phase : Php.PhaseConfig, phase.hasRpsLimit →
      RateSplit W phase.rpsLimit (Php.activeWorkerCount phase W)
      (fun i => Php.workerRps phase W i) ∧
      ∀ (now : ℤ) (i : ℕ), i < Php.activeWorkerCount phase W →
        Php.RateLimiter.create now (Php.workerRps phase W i) ≠ none) ∧
    (∀ phase : Php.PhaseConfig, phase.completion.isRequestBased →
      0 ≤ phase.completion.totalRequests →
      ∃ target : ℕ → ℤ, (∀ i : ℕ, Php.workerRequestTarget phase W i = some (target i)) ∧
        TargetSplit W phase.completion.totalRequests (Php.activeWorkerCount phase W) target) ∧
    (∀ phase : PhaseConfig, phase.HasRpsLimit →
      RateSplit W phase.rpsLimit (activeConnectionCount phase W)
      (fun i => connectionRps phase W i) ∧
      ∀ (now : ℤ) (i : ℕ), i < activeConnectionCount phase W →
        NewRateLimiter now (connectionRps phase W i) ≠ none) := by
  refine ⟨fun phase hlim => ?_, fun phase hreq hR => ?_, fun phase hlim => ?_⟩
  · have hpos : 0 < phase.rpsLimit := Php.rpsLimit_pos hlim
    obtain ⟨rps, hrps⟩ := Int.eq_ofNat_of_zero_le hpos.le
    have hactive := Php.activeWorkerCount_limited hW hlim
    rw [hrps] at hactive ⊢
    have hsplit := RateSplit.of_share hW (by omega) hactive fun i => Php.workerRps_eq hW hrps
    refine ⟨hsplit, fun now i hi hnone => ?_⟩
    have := hsplit.pos i hi
    rw [Php.RateLimiter.create_eq_none] at hnone
    omega
  · obtain ⟨R, hR⟩ := Int.eq_ofNat_of_zero_le hR
    have hbounds : 1 ≤ Php.activeWorkerCount phase W ∧ Php.activeWorkerCount phase W ≤ W := by
      unfold Php.activeWorkerCount
      split <;> omega
    obtain ⟨active, hactive⟩ :=
      Int.eq_ofNat_of_zero_le (show 0 ≤ Php.activeWorkerCount phase W by omega)
    refine ⟨_, Php.workerRequestTarget_eq hreq hactive hR, ?_⟩
    rw [hactive] at hbounds
    rw [hR, hactive]
    exact TargetSplit.of_share (by exact_mod_cast hbounds.1) (by exact_mod_cast hbounds.2) R
  · have hpos : 0 < phase.rpsLimit := by simpa [PhaseConfig.HasRpsLimit] using hlim
    obtain ⟨rps, hrps⟩ := Int.eq_ofNat_of_zero_le hpos.le
    have hactive := activeConnectionCount_limited (W := W) hlim
    rw [hrps] at hactive ⊢
    have hsplit := RateSplit.of_share hW (by omega) hactive fun i => connectionRps_eq hW hrps
    refine ⟨hsplit, fun now i hi hnone => ?_⟩
    have := hsplit.pos i hi
    rw [NewRateLimiter_eq_none] at hnone
    omega

/-- Three connections with a limit of two requests per second. -/
def limitedPhase : PhaseConfig where
  connections := 3
  cpsLimit := -1
  rpsLimit := 2
  pipelineDepth := 1
  warmupRequests := none
  completion := ⟨"requests", 0, 10⟩
  commands := ["get"]

/-- Two of its connections run, each with a limiter. -/
theorem split_even_limitedPhase :
    RateSplit 3 2 (activeConnectionCount limitedPhase 3) (fun i => connectionRps limitedPhase 3 i) ∧
      ∀ (now : ℤ) (i : ℕ), i < activeConnectionCount limitedPhase 3 →
        NewRateLimiter now (connectionRps limitedPhase 3 i) ≠ none :=
  (split_even 3 (by decide)).2.2 limitedPhase (by decide)

end RespBench.Go
