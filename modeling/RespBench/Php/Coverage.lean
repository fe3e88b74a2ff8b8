import RespBench.Lib.Arcs
import RespBench.Lib.Share
import RespBench.Php.Workers

/-!
# Sequential keys of the PHP workers

The workers stride by the number of all workers, while the requests are divided among the active
ones. `phaseKeys_eq` computes what a phase draws, `phaseKeys_covers_iff` says when that is the key
set of one shared counter, and `not_covers_of_idle` that a phase with idle workers misses it in
every keyspace that does not wrap.
-/

namespace RespBench.Php
open RespBench.Random (Fault)
open RespBench.Lib.Arcs RespBench.Lib.Runs RespBench.Lib.Share

/-- The key set of one shared counter: `i mod keysCount` for the first `requests` values of `i`. -/
def sharedCounterKeys (requests keysCount : ℤ) : Multiset ℤ :=
  (Multiset.range requests.toNat).map fun i : ℕ => (i : ℤ) % keysCount

/-- Whatever the selected commands, as long as all of them consume a key, the workers together draw
the key set of one shared counter. -/
def Covers (phase : PhaseConfig) : Prop :=
  ∀ env : ℕ → Env, (∀ w n, ((env w).select n).consumesKey) →
    ∃ keys : List ℤ,
      (∀ extra, phaseKeys phase env (phase.completion.totalRequests.toNat + 1 + extra) = .ok keys) ∧
      (keys : Multiset ℤ) = sharedCounterKeys phase.completion.totalRequests
        phase.keyspace.keysCount

/-! ## What a worker draws -/

/-- The key of a strided generator after some steps. -/
def stridedKey (keysCount workerCount workerIndex step : ℕ) : ℕ :=
  (workerIndex + step * workerCount) % keysCount

/-- A sequential generator draws the next key of its stride. -/
lemma nextKey_sequential {k i n s : ℕ} (hk : 0 < k) {r : Random.Php.JavaRandom} (fuel : ℕ) :
    KeyGenerator.nextKey fuel ⟨k, true, i, n, s, r⟩
      = .ok ((stridedKey k n i s : ℕ), ⟨k, true, i, n, (s + 1 : ℕ), r⟩) := by
  have hmod : ∀ a : ℕ, intMod a k = .ok ((a % k : ℕ) : ℤ) := by
    intro a
    rw [intMod, if_neg (by omega), ← Int.ofNat_tmod]
  rw [KeyGenerator.nextKey, if_pos rfl]
  dsimp only
  rw [show (i : ℤ) + s * n = ((i + s * n : ℕ) : ℤ) from by push_cast; rfl, hmod, ok_bind, hmod,
    ok_bind, Nat.mod_mod]
  rfl

/-- The loop draws one key for each request that is left. -/
lemma runLoop_sequential {env : Env} (henv : ∀ n, (env.select n).consumesKey) {k i n : ℕ}
    (hk : 0 < k) {r : Random.Php.JavaRandom} (target : ℤ) (drawFuel : ℕ) {fuel done s : ℕ}
    (hfuel : (target - done).toNat < fuel) :
    runLoop env (some target) none drawFuel fuel done ⟨k, true, i, n, s, r⟩
      = .ok ((List.range (target - done).toNat).map fun j => (stridedKey k n i (s + j) : ℤ)) := by
  induction fuel generalizing done s with
  | zero => omega
  | succ fuel ih =>
    rw [runLoop]
    by_cases h : (done : ℤ) ≥ target
    · rw [if_pos (by simpa using h), show (target - done).toNat = 0 from by omega]
      rfl
    · rw [if_neg (by simpa using h), if_neg (by simp)]
      have hleft : (target - done).toNat = (target - (done + 1 : ℕ)).toNat + 1 := by
        push_cast
        omega
      rw [Command.execute, if_pos (henv done), nextKey_sequential hk]
      simp only [ok_bind, pure, Except.pure]
      rw [ih (by omega), hleft, List.range_succ_eq_map]
      simp only [ok_bind, List.map_cons, List.map_map, List.singleton_append, add_zero,
        Function.comp_def, Nat.succ_eq_add_one, Nat.add_right_comm s 1, Nat.add_assoc]

/-! ## What a phase draws -/

/-- The shares are those of an even split. -/
lemma splitShare_eq (R n i : ℕ) : splitShare R n i = (share R n i : ℕ) := by
  rw [splitShare, share, ← Int.ofNat_tdiv, ← Int.ofNat_tmod]
  simp only [Nat.cast_lt]
  split <;> simp

/-- `splitShare` as a number of rounds; a negative total gives none. -/
lemma splitShare_toNat (R : ℤ) (n i : ℕ) : (splitShare R n i).toNat = share R.toNat n i := by
  rcases le_or_gt 0 R with h | h
  · obtain ⟨m, rfl⟩ := Int.eq_ofNat_of_zero_le h
    rw [splitShare_eq]
    rfl
  · obtain ⟨m, rfl⟩ : ∃ m : ℕ, R = -m := ⟨(-R).toNat, by omega⟩
    rw [splitShare, Int.neg_tdiv, Int.neg_tmod, ← Int.ofNat_tdiv, ← Int.ofNat_tmod,
      show (-(m : ℤ)).toNat = 0 from by omega, share, Nat.zero_div, Nat.zero_mod, if_neg (by omega),
      if_neg (by omega)]
    generalize m / n = q
    omega

section Phase
variable {phase : PhaseConfig}

/-- The number of workers as a natural number. -/
def workers (phase : PhaseConfig) : ℕ := (workerCount phase).toNat

/-- The number of active workers as a natural number. -/
def activeWorkers (phase : PhaseConfig) : ℕ := (activeWorkerCount phase (workerCount phase)).toNat

/-- The number of the workers, as a natural number. -/
lemma workerCount_eq : workerCount phase = (workers phase : ℕ) := by
  unfold workers workerCount
  omega

/-- The number of the active workers, as a natural number. -/
lemma activeWorkerCount_eq :
    activeWorkerCount phase (workers phase : ℕ) = (activeWorkers phase : ℕ) := by
  rw [activeWorkers, workerCount_eq, Int.toNat_of_nonneg]
  unfold activeWorkerCount
  split <;> omega

/-- There is a worker. -/
lemma workers_pos : 0 < workers phase := by
  unfold workers workerCount
  omega

/-- There is an active worker. -/
lemma activeWorkers_pos : 0 < activeWorkers phase := by
  have h : 0 < workers phase := workers_pos
  have h' : activeWorkerCount phase (workers phase : ℕ) = (activeWorkers phase : ℕ) :=
    activeWorkerCount_eq
  unfold activeWorkerCount at h'
  split at h' <;> omega

/-- No more workers are active than there are. -/
lemma activeWorkers_le : activeWorkers phase ≤ workers phase := by
  have h : 0 < workers phase := workers_pos
  have h' : activeWorkerCount phase (workers phase : ℕ) = (activeWorkers phase : ℕ) :=
    activeWorkerCount_eq
  unfold activeWorkerCount at h'
  split at h' <;> omega

/-- A rate limit is positive. -/
lemma rpsLimit_pos (hlim : phase.hasRpsLimit) : 0 < phase.rpsLimit := by
  simpa [PhaseConfig.hasRpsLimit] using hlim

/-- Every worker is active exactly when there is no limit below the number of workers. -/
lemma activeWorkers_eq_iff :
    activeWorkers phase = workers phase ↔ ¬ phase.hasRpsLimit ∨
    workerCount phase ≤ phase.rpsLimit := by
  have h : 0 < workers phase := workers_pos
  have h' : activeWorkerCount phase (workers phase : ℕ) = (activeWorkers phase : ℕ) :=
    activeWorkerCount_eq
  rw [workerCount_eq]
  unfold activeWorkerCount at h'
  by_cases hlim : phase.hasRpsLimit
  · have hrps := rpsLimit_pos hlim
    rw [if_pos hlim] at h'
    simp only [hlim, not_true_eq_false, false_or]
    omega
  · rw [if_neg hlim] at h'
    simp only [hlim, Bool.false_eq_true, not_false_eq_true, true_or, iff_true]
    omega

/-- Only a limit leaves a worker idle. -/
lemma hasRpsLimit_of_idle {i : ℕ} (hi : i < workers phase) (hidle : activeWorkers phase ≤ i) :
    phase.hasRpsLimit := by
  by_contra hno
  have := activeWorkers_eq_iff.mpr (Or.inl hno)
  omega

/-- An active worker has a positive rate share. -/
lemma workerRps_active {i : ℕ} (hlim : phase.hasRpsLimit) (hi : i < activeWorkers phase) :
    workerRps phase (workers phase : ℕ) i ≠ 0 := by
  have hA : 0 < activeWorkers phase := activeWorkers_pos
  have hrps := rpsLimit_pos hlim
  have hle : (activeWorkers phase : ℤ) ≤ phase.rpsLimit := by
    rw [← activeWorkerCount_eq, activeWorkerCount, if_pos hlim]
    exact max_le hrps (min_le_right _ _)
  rw [workerRps, hlim, activeWorkerCount_eq]
  simp only [Bool.not_true, Bool.false_eq_true, if_false]
  rw [if_neg (by omega)]
  obtain ⟨m, hm⟩ := Int.eq_ofNat_of_zero_le hrps.le
  rw [hm, splitShare_eq]
  have : 1 ≤ m / activeWorkers phase := Nat.div_pos (by omega) hA
  unfold share
  omega

/-- An active worker does not return before its loop. -/
lemma not_returns_of_active {i : ℕ} (hi : i < activeWorkers phase) :
    ¬ (phase.hasRpsLimit && decide (workerRps phase (workers phase : ℕ) i = 0)) = true := by
  by_cases hlim : phase.hasRpsLimit
  · simpa [hlim] using workerRps_active hlim hi
  · simp [hlim]

/-- An idle worker does. -/
lemma returns_of_idle {i : ℕ} (hi : activeWorkers phase ≤ i) (hlim : phase.hasRpsLimit) :
    (phase.hasRpsLimit && decide (workerRps phase (workers phase : ℕ) i = 0)) = true := by
  have hrps : workerRps phase (workers phase : ℕ) i = 0 := by
    rw [workerRps, hlim, activeWorkerCount_eq]
    simp only [Bool.not_true, Bool.false_eq_true, if_false]
    rw [if_pos (by omega)]
  simp [hlim, hrps]

/-- The keys of an active worker's stride, one for each request of its share. -/
def strideKeys (phase : PhaseConfig) (k i : ℕ) : List ℤ :=
  (List.range (share phase.completion.totalRequests.toNat (activeWorkers phase) i)).map
    fun j => (stridedKey k (workers phase) i j : ℤ)

/-- An active worker draws the keys of its stride. -/
lemma runWorker_active {env : Env} (henv : ∀ n, (env.select n).consumesKey)
    (hreq : phase.completion.isRequestBased) (hseq : phase.keyspace.isSequentialInt) {k : ℕ}
    (hk : 0 < k) (hcount : phase.keyspace.keysCount = k) {i : ℕ} (hi : i < activeWorkers phase)
    (extra : ℕ) :
    runWorker phase env (phase.completion.totalRequests.toNat + 1 + extra) (workerCount phase) i
      = .ok (strideKeys phase k i) := by
  have hdur : phase.completion.isDurationBased = false := by
    unfold CompletionConfig.isRequestBased at hreq
    unfold CompletionConfig.isDurationBased
    rw [of_decide_eq_true hreq]
    rfl
  have hgen : KeyGenerator.forWorker phase.keyspace i (workers phase : ℕ)
      = ⟨k, true, i, (workers phase : ℕ), (0 : ℕ), (KeyGenerator.forWorker phase.keyspace i
          (workers phase : ℕ)).random⟩ := by
    have h : 0 < workers phase := workers_pos
    simp only [KeyGenerator.forWorker, KeyGenerator.new, hcount, hseq,
      KeyGenerator.mk.injEq, true_and]
    exact ⟨by omega, by omega, rfl, trivial⟩
  have htarget : workerRequestTarget phase (workers phase : ℕ) i
      = some (splitShare phase.completion.totalRequests (activeWorkers phase : ℕ) i) := by
    rw [workerRequestTarget, hreq, activeWorkerCount_eq]
    simp only [Bool.not_true, Bool.false_eq_true, if_false]
    rw [if_neg (by omega)]
  have hshare := share_le hi phase.completion.totalRequests.toNat
  rw [workerCount_eq, runWorker]
  dsimp only
  rw [if_neg (not_returns_of_active hi), htarget, hdur, hgen, if_neg (by simp),
    runLoop_sequential henv hk]
  · simp only [Nat.cast_zero, sub_zero, splitShare_toNat, zero_add, strideKeys]
  · simp only [Nat.cast_zero, sub_zero, splitShare_toNat]
    omega

/-- An idle worker draws no keys. -/
lemma runWorker_idle (env : Env) {i : ℕ} (hi : activeWorkers phase ≤ i) (hlim : phase.hasRpsLimit)
    (fuel : ℕ) :
    runWorker phase env fuel (workerCount phase) i = .ok [] := by
  rw [workerCount_eq, runWorker]
  dsimp only
  rw [if_pos (returns_of_idle hi hlim)]

/-- The keys that a worker of the phase draws. -/
def workerKeys (phase : PhaseConfig) (k i : ℕ) : List ℤ :=
  if i < activeWorkers phase then strideKeys phase k i else []

/-- A worker draws the keys of its share. -/
lemma runWorker_eq {env : Env} (henv : ∀ n, (env.select n).consumesKey)
    (hreq : phase.completion.isRequestBased) (hseq : phase.keyspace.isSequentialInt) {k : ℕ}
    (hk : 0 < k) (hcount : phase.keyspace.keysCount = k) {i : ℕ} (hi : i < workers phase)
    (extra : ℕ) :
    runWorker phase env (phase.completion.totalRequests.toNat + 1 + extra) (workerCount phase) i
      = .ok (workerKeys phase k i) := by
  unfold workerKeys
  split
  · next h => exact runWorker_active henv hreq hseq hk hcount h extra
  · next h =>
    exact runWorker_idle env (not_lt.mp h) (hasRpsLimit_of_idle hi (not_lt.mp h)) _

/-- A phase draws the strided keys of the active workers, dealt in rounds. -/
theorem phaseKeys_eq {env : ℕ → Env} (henv : ∀ w n, ((env w).select n).consumesKey)
    (hreq : phase.completion.isRequestBased) (hseq : phase.keyspace.isSequentialInt) {k : ℕ}
    (hk : 0 < k) (hcount : phase.keyspace.keysCount = k) :
    ∃ keys : List ℤ,
      (∀ extra, phaseKeys phase env (phase.completion.totalRequests.toNat + 1 + extra) = .ok keys) ∧
      (keys : Multiset ℤ) = ((Multiset.range phase.completion.totalRequests.toNat).map fun j =>
        stridedKey k (workers phase) (j % activeWorkers phase) (j / activeWorkers phase)).map
          Nat.cast := by
  refine ⟨(List.range (workers phase)).flatMap (workerKeys phase k), fun extra => ?_, ?_⟩
  · exact collect_ok fun i hi => runWorker_eq (henv i) hreq hseq hk hcount hi extra
  · have hidle : ∀ i ∈ Finset.range (workers phase), i ∉ Finset.range (activeWorkers phase) →
        (workerKeys phase k i : Multiset ℤ) = 0 := by
      intro i _ hi
      rw [workerKeys, if_neg (by simpa using hi)]
      rfl
    have hactive : ∀ i ∈ Finset.range (activeWorkers phase),
        (workerKeys phase k i : Multiset ℤ) = strideKeys phase k i := by
      intro i hi
      rw [workerKeys, if_pos (Finset.mem_range.mp hi)]
    rw [coe_flatMap_range, ← Finset.sum_subset (Finset.range_mono activeWorkers_le) hidle,
      Finset.sum_congr rfl hactive, Multiset.map_map]
    exact dealt activeWorkers_pos (fun i j => (stridedKey k (workers phase) i j : ℤ)) _

/-! ## When the key set is covered -/

/-- The gaps between the rounds of the active workers close up modulo `keysCount`: the numbers at
which a round resumes, together with the number of requests, are those at which a round breaks off,
together with the end of the last round. -/
def GapsClose (keysCount workers active requests : ℕ) : Prop :=
  residues keysCount ((Multiset.range (requests / active)).map (fun t => (t + 1) * workers)
      + {requests})
    = residues keysCount ((Multiset.range (requests / active)).map (fun t => t * workers + active)
      + {requests / active * workers + requests % active})

instance (keysCount workers active requests : ℕ) :
    Decidable (GapsClose keysCount workers active requests) := by
  unfold GapsClose
  infer_instance

/-- Without idle workers the gaps close. -/
lemma gapsClose_self (k : ℕ) {n : ℕ} (R : ℕ) : GapsClose k n n R := by
  unfold GapsClose
  simp only [Nat.add_one_mul, Nat.div_add_mod']

/-- With at most one round there is nothing to close. -/
lemma gapsClose_of_le (k n : ℕ) {a R : ℕ} (hR : R ≤ a) : GapsClose k n a R := by
  unfold GapsClose
  rcases hR.lt_or_eq with h | rfl
  · rw [Nat.div_eq_of_lt h, Nat.mod_eq_of_lt h]
    simp
  · rcases Nat.eq_zero_or_pos R with rfl | h
    · simp
    · rw [Nat.div_self h, Nat.mod_self]
      simp [residues, add_comm]

/-- The phase draws the key set of one shared counter exactly when the gaps close up. -/
lemma covers_iff_gapsClose (hreq : phase.completion.isRequestBased)
    (hseq : phase.keyspace.isSequentialInt) {k : ℕ} (hk : 0 < k)
    (hcount : phase.keyspace.keysCount = k) :
    Covers phase ↔
      GapsClose k (workers phase) (activeWorkers phase) phase.completion.totalRequests.toNat := by
  have hshared : sharedCounterKeys phase.completion.totalRequests phase.keyspace.keysCount
      = (residues k (Multiset.range phase.completion.totalRequests.toNat)).map Nat.cast := by
    rw [sharedCounterKeys, hcount, residues, Multiset.map_map]
    rfl
  have hdrawn : (Multiset.range phase.completion.totalRequests.toNat).map (fun j =>
        stridedKey k (workers phase) (j % activeWorkers phase) (j / activeWorkers phase))
      = residues k (rounds (activeWorkers phase) (workers phase)
          phase.completion.totalRequests.toNat) := by
    rw [residues, rounds, Multiset.map_map]
    rfl
  rw [GapsClose, ← rounds_eq_iff hk activeWorkers_pos, ← hdrawn]
  constructor
  · intro h
    let env : ℕ → Env := fun _ => ⟨fun _ => .get, 0, fun _ => 0⟩
    have henv : ∀ i n, ((env i).select n).consumesKey := fun _ _ => rfl
    obtain ⟨keys, hrun, hkeys⟩ := h env henv
    obtain ⟨keys', hrun', hkeys'⟩ := phaseKeys_eq henv hreq hseq hk hcount
    obtain rfl : keys = keys' := Except.ok.inj ((hrun 0).symm.trans (hrun' 0))
    rw [hkeys', hshared] at hkeys
    exact Multiset.map_injective Nat.cast_injective hkeys
  · intro h env henv
    obtain ⟨keys, hrun, hkeys⟩ := phaseKeys_eq henv hreq hseq hk hcount
    exact ⟨keys, hrun, by rw [hkeys, h, hshared]⟩

end Phase

/-- A request-based phase with sequential keys draws the key set of one shared counter exactly when
no worker is idle, or one round of the active workers is enough, or the gaps left by the idle
workers happen to close up modulo `keys_count`. -/
theorem phaseKeys_covers_iff (phase : PhaseConfig) (hreq : phase.completion.isRequestBased)
    (hseq : phase.keyspace.isSequentialInt) (hK : 1 ≤ phase.keyspace.keysCount) :
    Covers phase ↔
      (¬ phase.hasRpsLimit ∨ workerCount phase ≤ phase.rpsLimit) ∨
      phase.completion.totalRequests ≤ activeWorkerCount phase (workerCount phase) ∨
      GapsClose phase.keyspace.keysCount.toNat (workerCount phase).toNat
        (activeWorkerCount phase (workerCount phase)).toNat
          phase.completion.totalRequests.toNat := by
  obtain ⟨k, hk⟩ := Int.eq_ofNat_of_zero_le (show 0 ≤ phase.keyspace.keysCount by omega)
  rw [covers_iff_gapsClose hreq hseq (by omega) hk, hk, ← activeWorkers_eq_iff]
  constructor
  · exact fun h => Or.inr (Or.inr h)
  · rintro (h | h | h)
    · rw [h]
      exact gapsClose_self _ _
    · apply gapsClose_of_le
      rw [workerCount_eq, activeWorkerCount_eq] at h
      omega
    · exact h

/-- Ten requests on three connections with a limit above them. -/
def evenPhase : PhaseConfig :=
  ⟨3, ⟨.requests, none, some 10⟩, ⟨4, .sequential_int, none⟩, 5⟩

/-- Its three workers draw the key set of one shared counter. -/
theorem phaseKeys_covers_evenPhase : Covers evenPhase :=
  (phaseKeys_covers_iff evenPhase rfl rfl (by decide)).mpr (Or.inl (Or.inr (by decide)))

/-- Four requests on four connections with a limit of one request per second. -/
def idlePhase : PhaseConfig :=
  ⟨4, ⟨.requests, none, some 4⟩, ⟨100, .sequential_int, none⟩, 1⟩

/-- Its only active worker draws the keys 0, 4, 8 and 12 instead of 0, 1, 2 and 3. -/
theorem idlePhase_not_covers :
    idlePhase.completion.isRequestBased ∧ idlePhase.keyspace.isSequentialInt ∧
      1 ≤ idlePhase.keyspace.keysCount ∧ ¬ Covers idlePhase := by
  refine ⟨rfl, rfl, by decide, fun h => ?_⟩
  obtain ⟨keys, hrun, hkeys⟩ := h (fun _ => ⟨fun _ => .get, 0, fun _ => 0⟩) (fun _ _ => rfl)
  have hdrawn : phaseKeys idlePhase (fun _ => ⟨fun _ => .get, 0, fun _ => 0⟩) 5
      = .ok [0, 4, 8, 12] := rfl
  obtain rfl : keys = [0, 4, 8, 12] := Except.ok.inj ((hrun 0).symm.trans hdrawn)
  exact absurd hkeys (by decide)

/-- With idle workers and more than one round, the phase misses the key set in every keyspace in
which no drawn key wraps. -/
theorem not_covers_of_idle (phase : PhaseConfig) (hreq : phase.completion.isRequestBased)
    (hseq : phase.keyspace.isSequentialInt) (hlim : phase.hasRpsLimit)
    (hidle : phase.rpsLimit < workerCount phase)
    (hR : activeWorkerCount phase (workerCount phase) < phase.completion.totalRequests)
    (hK : phase.completion.totalRequests * workerCount phase ≤ phase.keyspace.keysCount) :
    ¬ Covers phase := by
  have hpos : 0 < activeWorkers phase := activeWorkers_pos
  have hne : activeWorkers phase ≠ workers phase := by
    intro h
    rcases activeWorkers_eq_iff.mp h with h | h
    · exact h hlim
    · omega
  have hlt := lt_of_le_of_ne activeWorkers_le hne
  rw [workerCount_eq, activeWorkerCount_eq] at hR
  rw [workerCount_eq] at hK
  obtain ⟨R, hR'⟩ := Int.eq_ofNat_of_zero_le (show 0 ≤ phase.completion.totalRequests by omega)
  have hbound : 0 < R * workers phase := Nat.mul_pos (by omega) (by omega)
  obtain ⟨k, hk⟩ := Int.eq_ofNat_of_zero_le (show 0 ≤ phase.keyspace.keysCount by
    rw [hR'] at hK
    exact le_trans (by positivity) hK)
  rw [hR', hk] at hK
  norm_cast at hK
  rw [hR'] at hR
  norm_cast at hR
  rw [covers_iff_gapsClose hreq hseq (by omega) hk, hR', Int.toNat_natCast, GapsClose,
    ← rounds_eq_iff (by omega) hpos]
  -- the number of active workers is a key of the shared counter and lies in a gap
  intro h
  have hmem : activeWorkers phase % k ∈ residues k (Multiset.range R) :=
    Multiset.mem_map_of_mem _ (Multiset.mem_range.mpr hR)
  rw [← h, residues, rounds, Multiset.map_map] at hmem
  obtain ⟨j, hj, hkey⟩ := Multiset.mem_map.mp hmem
  have hjR := Multiset.mem_range.mp hj
  have hround : (j / activeWorkers phase + 1) * workers phase ≤ R * workers phase :=
    Nat.mul_le_mul_right _ ((Nat.div_le_self _ _).trans_lt hjR)
  have hself : workers phase ≤ R * workers phase := Nat.le_mul_of_pos_left _ (by omega)
  have hmod := Nat.mod_lt j hpos
  rw [Nat.add_one_mul] at hround
  have hwrap : j % activeWorkers phase + j / activeWorkers phase * workers phase < k := by omega
  have hactive : activeWorkers phase < k := by omega
  rw [Function.comp_apply, Nat.mod_eq_of_lt hwrap, Nat.mod_eq_of_lt hactive] at hkey
  rcases Nat.eq_zero_or_pos (j / activeWorkers phase) with h0 | h0
  · rw [h0, zero_mul] at hkey
    omega
  · have := Nat.mul_le_mul_right (workers phase) h0
    omega

end RespBench.Php
