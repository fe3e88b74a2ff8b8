import RespBench.Lib.Arcs
import RespBench.Lib.Share
import RespBench.Ruby.Workers

/-!
# Sequential keys of the Ruby workers

Every Ruby worker, process or thread, counts from zero. `forked_keys` and `threaded_keys` compute
what a phase draws, and `phase_keys_covers_iff` says when that is the key set of one shared counter.
-/

namespace RespBench.Ruby
open RespBench.Lib RespBench.Lib.Arcs RespBench.Lib.Runs RespBench.Lib.Share
open RespBench.Random (Fault)

/-- The key set of one shared counter: `i mod keys_count` for the first `requests` values of `i`. -/
def sharedCounterKeys (requests keys_count : ℤ) : Multiset ℤ :=
  (Multiset.range requests.toNat).map fun i : ℕ => (i : ℤ) % keys_count

/-- Whatever the selected commands and their outcomes, the workers together draw the key set of one
shared counter. -/
def Covers (mode : ConcurrencyMode) (phase : PhaseConfig) : Prop :=
  ∀ env : ℕ → Env, ∃ keys : List ℤ,
    (∀ extra, phase_keys mode phase env (phase.completion.total_requests.toNat + 1 + extra)
      = .ok keys) ∧
    (keys : Multiset ℤ)
      = sharedCounterKeys phase.completion.total_requests phase.keyspace.keys_count

/-! ## What a worker draws -/

/-- The first keys of a counter that starts at zero. -/
def counterKeys (k n : ℕ) : List ℤ := (List.range n).map fun j : ℕ => ((j % k : ℕ) : ℤ)

/-- A sequential generator draws the next key. -/
lemma next_key_sequential {k c : ℕ} (hk : 0 < k) {r : Random.Ruby.JavaRandom} (fuel : ℕ) :
    KeyGenerator.next_key fuel ⟨k, true, c, r⟩
      = .ok (((c % k : ℕ) : ℤ), ⟨k, true, (c + 1 : ℕ), r⟩) := by
  rw [KeyGenerator.next_key, if_pos rfl]
  dsimp only
  rw [modulo, if_neg (by omega), add_sub_cancel_right,
    Int.fmod_eq_emod_of_nonneg _ (by omega), ok_bind]
  rfl

/-- The loop draws one key for each request that is left. -/
lemma whileLoop_sequential {M : Type} (record : M → Command → Outcome → M) (env : Env) {k : ℕ}
    (hk : 0 < k) (r : Random.Ruby.JavaRandom) (target : ℤ) (drawFuel fuel count c : ℕ)
    (metrics : M) (keys : List ℤ) (hfuel : (target - count).toNat < fuel) :
    ∃ st, whileLoop (fun st => (st.count : ℤ) < target) record env drawFuel fuel
        ⟨count, ⟨k, true, c, r⟩, metrics, keys⟩ = .ok st ∧
      st.count = count + (target - count).toNat ∧
      st.keys = keys ++ (List.range (target - count).toNat).map fun j :
      ℕ => (((c + j) % k : ℕ) : ℤ) := by
  induction fuel generalizing count c metrics keys with
  | zero => omega
  | succ fuel ih =>
    rw [whileLoop]
    by_cases h : (count : ℤ) < target
    · have hleft : (target - count).toNat = (target - (count + 1 : ℕ)).toNat + 1 := by
        push_cast
        omega
      rw [if_pos (by simpa using h), LoopState.round, next_key_sequential hk, ok_bind]
      obtain ⟨st, hrun, hcount, hkeys⟩ := ih (count + 1) (c + 1)
        (record metrics (env.select count) (env.outcome count))
          (keys ++ [((c % k : ℕ) : ℤ)]) (by omega)
      refine ⟨st, hrun, by omega, ?_⟩
      rw [hkeys, hleft, List.range_succ_eq_map, List.append_assoc]
      simp only [List.map_cons, List.map_map, List.singleton_append, add_zero, Function.comp_def,
        Nat.succ_eq_add_one, Nat.add_right_comm c 1, Nat.add_assoc]
    · refine ⟨_, if_neg (by simpa using h), ?_, ?_⟩
      · dsimp only
        omega
      · rw [show (target - count).toNat = 0 from by omega]
        simp

/-- A worker with a target finishes as many requests and draws as many keys from zero on. -/
lemma requestLoop_sequential {M : Type} (record : M → Command → Outcome → M) (init : M) (env : Env)
    {keyspace : KeyspaceConfig} (hseq : keyspace.sequential_int) {k : ℕ} (hk : 0 < k)
    (hcount : keyspace.keys_count = k) (seed target : ℤ) (fuel : ℕ) (hfuel : target.toNat < fuel)
    (end_time : ℚ) :
    ∃ st, requestLoop record init env fuel (.create_with_seed keyspace seed) (some target) end_time
        = .ok st ∧ st.count = target.toNat ∧ st.keys = counterKeys k target.toNat := by
  have hgen : KeyGenerator.create_with_seed keyspace seed = ⟨k, true, (0 : ℕ), .new seed⟩ := by
    rw [KeyGenerator.create_with_seed, hcount, hseq]
    rfl
  obtain ⟨st, hrun, hst, hkeys⟩ := whileLoop_sequential record env hk (.new seed) target fuel
    fuel 0 0 init [] (by simpa using hfuel)
  refine ⟨st, ?_, by simpa using hst, by simpa [counterKeys] using hkeys⟩
  rw [requestLoop, hgen]
  exact hrun

/-! ## What a phase draws -/

/-- The rounded-up share of every process. -/
def roundedShare (R n : ℕ) : ℕ := R / n + if R % n > 0 then 1 else 0

/-- A rounded share is not larger than the whole. -/
lemma roundedShare_le {n : ℕ} (hn : 0 < n) (R : ℕ) : roundedShare R n ≤ R := by
  have hdiv := Nat.div_add_mod R n
  have hle : R / n ≤ n * (R / n) := Nat.le_mul_of_pos_left _ hn
  unfold roundedShare
  split <;> omega

/-- Rounded-up shares add up to the whole exactly when nothing is rounded. -/
lemma mul_roundedShare_iff {n : ℕ} (hn : 0 < n) (R : ℕ) : n * roundedShare R n = R ↔ n ∣ R := by
  have hdiv := Nat.div_add_mod R n
  have hlt := Nat.mod_lt R hn
  rw [Nat.dvd_iff_mod_eq_zero, roundedShare, mul_add]
  split <;> omega

section Phase
variable {phase : PhaseConfig}

/-- The number of requests as a natural number. -/
def requests (phase : PhaseConfig) : ℕ := phase.completion.total_requests.toNat

/-- The number of processes as a natural number. -/
def processes (phase : PhaseConfig) : ℕ := (num_processes phase).toNat

/-- The number of threads as a natural number. -/
def threads (phase : PhaseConfig) : ℕ := (thread_count phase).toNat

/-- The number of the processes, as a natural number. -/
lemma num_processes_eq (hconn : 1 < phase.connections) :
    num_processes phase = (processes phase : ℕ) ∧ 1 < processes phase := by
  unfold processes num_processes MAX_PROCESSES
  omega

/-- The number of the threads, as a natural number. -/
lemma thread_count_eq (hconn : 1 ≤ phase.connections) :
    thread_count phase = (threads phase : ℕ) ∧ 0 < threads phase := by
  unfold threads thread_count MAX_THREADS
  omega

/-- The target of a process is a rounded share. -/
lemma my_target_eq (hreq : ¬ phase.completion.duration_based) {n : ℕ} (hn : 0 < n) :
    ∃ target, my_target phase.completion n = some target ∧
      target.toNat = roundedShare (requests phase) n := by
  refine ⟨_, if_neg hreq, ?_⟩
  unfold requests roundedShare
  generalize phase.completion.total_requests = R
  rcases le_or_gt 0 R with h | h
  · obtain ⟨m, rfl⟩ := Int.eq_ofNat_of_zero_le h
    norm_cast
  · have hneg : R / n < 0 := Int.ediv_neg_of_neg_of_pos h (by omega)
    rw [Int.toNat_of_nonpos h.le, Nat.zero_div, Nat.zero_mod, if_neg (lt_irrefl 0)]
    split <;> omega

/-- The target of a thread is an even share. -/
lemma local_target_eq (hreq : ¬ phase.completion.duration_based) {n : ℕ} (hn : 0 < n) (i : ℕ) :
    ∃ target, local_target phase.completion n i = some target ∧
      target.toNat = share (requests phase) n i := by
  refine ⟨_, if_neg hreq, ?_⟩
  unfold requests share
  generalize phase.completion.total_requests = R
  rcases le_or_gt 0 R with h | h
  · obtain ⟨m, rfl⟩ := Int.eq_ofNat_of_zero_le h
    norm_cast
  · have hneg : R / n < 0 := Int.ediv_neg_of_neg_of_pos h (by omega)
    rw [Int.toNat_of_nonpos h.le, Nat.zero_div, Nat.zero_mod, if_neg (Nat.not_lt_zero _)]
    split <;> omega

/-- The rate of a process is a number when the limit is a finite double. -/
lemma my_rps_ok_iff (hconn : 1 < phase.connections) :
    (∃ rate, my_rps phase (num_processes phase) = .ok rate) ↔
      ¬ phase.has_rps_limit ∨ (Binary64.round phase.rps_limit).isSome := by
  unfold my_rps
  by_cases hlim : phase.has_rps_limit
  · rw [if_pos hlim]
    have hpos : (0 : ℚ) ≤ phase.rps_limit := by
      have : 0 < phase.rps_limit := by simpa [PhaseConfig.has_rps_limit] using hlim
      exact_mod_cast this.le
    cases hround : Binary64.round phase.rps_limit with
    | none => simp [hlim]
    | some rate =>
      obtain ⟨hn, hn1⟩ := num_processes_eq hconn
      have htwo : (2 : ℚ) ≤ num_processes phase := by
        rw [hn]
        exact_mod_cast hn1
      obtain ⟨quotient, hq⟩ := Option.isSome_iff_exists.mp
        (Binary64.round_div_isSome hpos hround htwo)
      simp [hq]
  · simp [hlim]

section Draws
variable (hreq : ¬ phase.completion.duration_based) (hseq : phase.keyspace.sequential_int) {k : ℕ}
  (hk : 0 < k) (hcount : phase.keyspace.keys_count = k)
include hreq hseq hk hcount

/-- Every process draws the keys of its rounded-up share. -/
lemma run_worker_process_keys (hconn : 1 < phase.connections) (env : Env) (i extra : ℕ) :
    (run_worker_process phase i env (requests phase + 1 + extra)).map Prod.snd
      = .ok (counterKeys k (roundedShare (requests phase) (processes phase))) := by
  obtain ⟨hn, hn1⟩ := num_processes_eq hconn
  obtain ⟨target, htarget, hshare⟩ := my_target_eq hreq (Nat.zero_lt_of_lt hn1)
  have hle := roundedShare_le (Nat.zero_lt_of_lt hn1) (requests phase)
  obtain ⟨st, hrun, -, hkeys⟩ := requestLoop_sequential
    (fun table name outcome => CmdTable.modify name (.record outcome) table) [] env hseq hk hcount
    (phase.keyspace.seed_value + i) target (requests phase + 1 + extra) (by omega)
    (env.start + phase.completion.duration_seconds)
  rw [run_worker_process, hn, htarget, run_request_loop, hrun, ok_bind, ← hshare, ← hkeys]
  rfl

/-- A thread draws the keys of its share. -/
lemma run_thread_keys (hconn : 1 ≤ phase.connections) (env : Env) {i : ℕ} (hi : i < threads phase)
    (extra : ℕ) :
    (run_thread phase i env (requests phase + 1 + extra)).map Prod.snd
      = .ok (counterKeys k (share (requests phase) (threads phase) i)) := by
  obtain ⟨hn, hpos⟩ := thread_count_eq hconn
  obtain ⟨target, htarget, hshare⟩ := local_target_eq hreq hpos i
  have hle := share_le hi (requests phase)
  obtain ⟨st, hrun, -, hkeys⟩ :=
    requestLoop_sequential ThreadLocalCollector.record ⟨0, 0, []⟩ env hseq
    hk hcount (phase.keyspace.seed_value + i) target (requests phase + 1 + extra) (by omega)
    (env.start + phase.completion.duration_seconds)
  rw [run_thread, hn, htarget, hrun, ok_bind, ← hshare, ← hkeys]
  rfl

/-- The keys of the forked mode. -/
lemma forked_keys {mode : ConcurrencyMode} (hmode : mode = .process ∧ phase.connections > 1)
    (hrate : ∃ rate, my_rps phase (num_processes phase) = .ok rate) (env : ℕ → Env) (extra : ℕ) :
    phase_keys mode phase env (requests phase + 1 + extra)
      = .ok ((List.range (processes phase)).flatMap
      fun _ => counterKeys k (roundedShare (requests phase) (processes phase))) := by
  obtain ⟨rate, hr⟩ := hrate
  rw [phase_keys, if_pos hmode, hr, ok_bind]
  exact collect_ok fun i _ => run_worker_process_keys hreq hseq hk hcount hmode.2 (env i) i extra

/-- The keys of the threaded mode. -/
lemma threaded_keys {mode : ConcurrencyMode} (hmode : ¬ (mode = .process ∧ phase.connections > 1))
    (hconn : 1 ≤ phase.connections) (env : ℕ → Env) (extra : ℕ) :
    phase_keys mode phase env (requests phase + 1 + extra)
      = .ok ((List.range (threads phase)).flatMap
      fun i => counterKeys k (share (requests phase) (threads phase) i)) := by
  obtain ⟨hn, hpos⟩ := thread_count_eq hconn
  rw [phase_keys, if_neg hmode, if_neg (by simp; omega)]
  exact collect_ok fun i hi => run_thread_keys hreq hseq hk hcount hconn (env i) hi extra

end Draws

/-- Counting from zero in several workers, as residues. -/
lemma coe_counterKeys (k n : ℕ) :
    (counterKeys k n : Multiset ℤ) = (residues k (Multiset.range n)).map Nat.cast := by
  rw [residues, Multiset.map_map]
  rfl

/-- The key set of one shared counter, as residues. -/
lemma sharedCounterKeys_eq {k : ℕ} (hcount : phase.keyspace.keys_count = k) :
    sharedCounterKeys phase.completion.total_requests phase.keyspace.keys_count
      = (residues k (Multiset.range (requests phase))).map Nat.cast := by
  rw [sharedCounterKeys, hcount, residues, Multiset.map_map]
  rfl

/-- Workers that count from zero cover the key set of one shared counter exactly when their residues
add up. -/
lemma covers_iff_residues {mode : ConcurrencyMode} {k n : ℕ} {len : ℕ → ℕ}
    (hcount : phase.keyspace.keys_count = k)
    (hrun : ∀ env extra, phase_keys mode phase env (requests phase + 1 + extra)
      = .ok ((List.range n).flatMap fun i => counterKeys k (len i))) :
    Covers mode phase ↔ ∑ i ∈ Finset.range n, residues k (Multiset.range (len i))
      = residues k (Multiset.range (requests phase)) := by
  have hkeys : (((List.range n).flatMap fun i => counterKeys k (len i) : List ℤ) : Multiset ℤ)
      = (∑ i ∈ Finset.range n, residues k (Multiset.range (len i))).map Nat.cast := by
    rw [coe_flatMap_range, ← Multiset.coe_mapAddMonoidHom, map_sum]
    exact Finset.sum_congr rfl fun i _ => coe_counterKeys k (len i)
  constructor
  · intro h
    obtain ⟨keys, hok, hset⟩ := h fun _ => ⟨fun _ => .get, fun _ => .raised, 0, fun _ => 0⟩
    obtain rfl := Except.ok.inj ((hok 0).symm.trans (hrun _ 0))
    rw [hkeys, sharedCounterKeys_eq hcount] at hset
    exact Multiset.map_injective Nat.cast_injective hset
  · intro h env
    exact ⟨_, hrun env, by rw [hkeys, h, sharedCounterKeys_eq hcount]⟩

end Phase

/-! ## When the key set is covered -/

/-- Equal initial segments wrap to the residues of `R` exactly when they are made of whole turns. -/
lemma equal_wraps_iff {K n : ℕ} (hK : 0 < K) (hn : 1 < n) (R : ℕ) :
    ∑ _i ∈ Finset.range n, residues K (Multiset.range (roundedShare R n))
      = residues K (Multiset.range R) ↔ n * K ∣ R := by
  have hpos : 0 < n := by omega
  have hwraps := wraps_eq_iff hK (Finset.range n) (fun _ => roundedShare R n)
  rw [Finset.sum_const (roundedShare R n), Finset.card_range, smul_eq_mul] at hwraps
  constructor
  · intro h
    have hsum : n * roundedShare R n = R := by
      have hcard := congrArg Multiset.card h
      simpa [residues] using hcard
    rw [hsum] at hwraps
    have hfew := hwraps.mp h
    rw [Finset.filter_const] at hfew
    have hdvd : K ∣ roundedShare R n := by
      by_contra hno
      rw [if_pos hno, Finset.card_range] at hfew
      omega
    rw [← hsum]
    exact Nat.mul_dvd_mul_left n hdvd
  · intro h
    have hsum := (mul_roundedShare_iff hpos R).mpr (dvd_of_mul_right_dvd h)
    have hdvd : K ∣ roundedShare R n := by
      rw [← hsum] at h
      exact Nat.dvd_of_mul_dvd_mul_left hpos h
    rw [hsum] at hwraps
    refine hwraps.mpr ?_
    rw [Finset.filter_const, if_neg (not_not.mpr hdvd), Finset.card_empty]
    exact Nat.zero_le 1

/-- At most one of the even shares of `R` items among `n` workers is not a multiple of `K`. -/
def SharesWrapOnce (K n R : ℕ) : Prop :=
  K = 1 ∨ n = 1 ∨ (K ∣ R / n ∧ R % n ≤ 1) ∨ (K ∣ R / n + 1 ∧ R % n = n - 1)

instance (K n R : ℕ) : Decidable (SharesWrapOnce K n R) := by unfold SharesWrapOnce; infer_instance

/-- The shares that are not multiples of `K`: the larger ones or the smaller ones. -/
lemma card_shares {n : ℕ} (hn : 0 < n) (K R : ℕ) :
    ((Finset.range n).filter fun i => ¬ K ∣ share R n i).card
      = (if K ∣ R / n + 1 then 0 else R % n) + if K ∣ R / n then 0 else n - R % n := by
  have hlarge : ∀ i ∈ Finset.range (R % n), (if ¬ K ∣ share R n i then 1 else 0)
      = if K ∣ R / n + 1 then 0 else 1 := by
    intro i hi
    rw [share, if_pos (Finset.mem_range.mp hi), ite_not]
  have hsmall : ∀ i ∈ Finset.Ico (R % n) n, (if ¬ K ∣ share R n i then 1 else 0)
      = if K ∣ R / n then 0 else 1 := by
    intro i hi
    have hle := (Finset.mem_Ico.mp hi).1
    rw [share, if_neg (show ¬ i < R % n by omega), add_zero, ite_not]
  rw [Finset.card_filter, ← Finset.sum_range_add_sum_Ico _ (Nat.mod_lt R hn).le,
    Finset.sum_congr rfl hlarge, Finset.sum_congr rfl hsmall, Finset.sum_const, Finset.sum_const,
    Finset.card_range, Nat.card_Ico]
  split_ifs <;> simp

/-- Even shares wrap to the residues of `R` exactly when at most one of them is not made of whole
turns. -/
lemma even_wraps_iff {K n : ℕ} (hK : 0 < K) (hn : 0 < n) (R : ℕ) :
    ∑ i ∈ Finset.range n, residues K (Multiset.range (share R n i))
      = residues K (Multiset.range R) ↔
      SharesWrapOnce K n R := by
  have hwraps := wraps_eq_iff hK (Finset.range n) (share R n)
  rw [sum_share hn, card_shares hn] at hwraps
  rw [hwraps, SharesWrapOnce]
  have hlt := Nat.mod_lt R hn
  have hone : K ∣ R / n → K ∣ R / n + 1 → K = 1 :=
    fun h h' => Nat.dvd_one.mp ((Nat.dvd_add_right h).mp h')
  by_cases hK1 : K = 1
  · subst hK1
    simp
  · by_cases hsmall : K ∣ R / n
    · have hlarge : ¬ K ∣ R / n + 1 := fun h => hK1 (hone hsmall h)
      simp only [hK1, hsmall, hlarge, if_true, if_false, true_and, false_and, false_or, or_false,
        add_zero]
      omega
    · by_cases hlarge : K ∣ R / n + 1
      · simp only [hK1, hsmall, hlarge, if_true, if_false, true_and, false_and, false_or, zero_add]
        omega
      · simp only [hK1, hsmall, hlarge, if_false, false_and, false_or, or_false]
        omega

/-- A request-based phase with sequential keys draws the key set of one shared counter exactly when,
for forked processes, the requests are a multiple of the number of processes times `keys_count` (and
the rate limit is a finite double), and for threads, at most one of the even shares is not a
multiple of `keys_count`. -/
theorem phase_keys_covers_iff (mode : ConcurrencyMode) (phase : PhaseConfig)
    (hreq : ¬ phase.completion.duration_based) (hseq : phase.keyspace.sequential_int)
    (hK : 1 ≤ phase.keyspace.keys_count) (hconn : 1 ≤ phase.connections) :
    Covers mode phase ↔
      if mode = .process ∧ phase.connections > 1 then
        (¬ phase.has_rps_limit ∨ (Binary64.round phase.rps_limit).isSome) ∧
          (num_processes phase).toNat * phase.keyspace.keys_count.toNat
            ∣ phase.completion.total_requests.toNat
      else
        SharesWrapOnce phase.keyspace.keys_count.toNat (thread_count phase).toNat
          phase.completion.total_requests.toNat := by
  obtain ⟨k, hk⟩ := Int.eq_ofNat_of_zero_le (show 0 ≤ phase.keyspace.keys_count by omega)
  have hkpos : 0 < k := by omega
  rw [hk, Int.toNat_natCast]
  split
  · next hmode =>
    rw [← my_rps_ok_iff hmode.2]
    obtain ⟨-, hn1⟩ := num_processes_eq hmode.2
    constructor
    · intro h
      obtain ⟨keys, hok, -⟩ := h fun _ => ⟨fun _ => .get, fun _ => .raised, 0, fun _ => 0⟩
      have hrate : ∃ rate, my_rps phase (num_processes phase) = .ok rate := by
        have hrun := hok 0
        rw [phase_keys, if_pos hmode] at hrun
        cases hr : my_rps phase (num_processes phase) with
        | error err => rw [hr] at hrun; cases hrun
        | ok rate => exact ⟨rate, rfl⟩
      refine ⟨hrate, (equal_wraps_iff hkpos hn1 _).mp ?_⟩
      refine (covers_iff_residues hk ?_).mp h
      exact fun env extra => forked_keys hreq hseq hkpos hk hmode hrate env extra
    · rintro ⟨hrate, hdvd⟩
      refine (covers_iff_residues hk fun env extra =>
        forked_keys hreq hseq hkpos hk hmode hrate env extra).mpr ?_
      exact (equal_wraps_iff hkpos hn1 _).mpr hdvd
  · next hmode =>
    obtain ⟨-, hpos⟩ := thread_count_eq hconn
    rw [covers_iff_residues hk fun env extra =>
      threaded_keys hreq hseq hkpos hk hmode hconn env extra]
    exact even_wraps_iff hkpos hpos _

/-- Eight requests over four keys on two connections. -/
def wholeTurnsPhase : PhaseConfig := ⟨2, -1, ⟨.requests, none, some 8⟩, ⟨4, .sequential_int, none⟩⟩

/-- Each of its processes draws every key once. -/
theorem wholeTurnsPhase_covers : Covers .process wholeTurnsPhase :=
  (phase_keys_covers_iff .process wholeTurnsPhase (by decide) rfl (by decide) (by decide)).mpr (by
    rw [if_pos (by decide)]
    decide)

/-- A populate phase: four requests over four keys on two connections. -/
def populatePhase : PhaseConfig := ⟨2, -1, ⟨.requests, none, some 4⟩, ⟨4, .sequential_int, none⟩⟩

/-- Its two processes, or its two threads, draw the keys 0 and 1 twice. -/
theorem populatePhase_not_covers :
    ¬ populatePhase.completion.duration_based ∧ populatePhase.keyspace.sequential_int ∧
      1 ≤ populatePhase.keyspace.keys_count ∧ 1 ≤ populatePhase.connections ∧
      ¬ Covers .process populatePhase ∧ ¬ Covers .thread populatePhase := by
  have hmiss : ∀ mode, phase_keys mode populatePhase
      (fun _ => ⟨fun _ => .get, fun _ => .raised, 0, fun _ => 0⟩) 5 = .ok [0, 1, 0, 1] →
      ¬ Covers mode populatePhase := by
    intro mode hdrawn h
    obtain ⟨keys, hrun, hkeys⟩ := h fun _ => ⟨fun _ => .get, fun _ => .raised, 0, fun _ => 0⟩
    obtain rfl : keys = [0, 1, 0, 1] := Except.ok.inj ((hrun 0).symm.trans hdrawn)
    exact absurd hkeys (by decide)
  exact ⟨by decide, rfl, by decide, by decide, hmiss .process rfl, hmiss .thread rfl⟩

end RespBench.Ruby
