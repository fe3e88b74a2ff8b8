import RespBench.Ruby.Coverage

/-!
# The status of a forked phase

The parent of a forked phase reads what its workers left in their pipes. `run_worker_process_total`
says what a delivered result counts, `total_requests_eq` adds the delivered results up, and
`honest_iff` says when the reported status can be trusted.
-/

namespace RespBench.Ruby
open RespBench.Lib RespBench.Lib.Runs
open RespBench.Random (Fault)

/-- A worker delivered a result that its parent can load. -/
def WorkerEnd.Delivered {phase : PhaseConfig} {i : ℕ} (e : WorkerEnd phase i) : Prop :=
  ∃ result, e.pipe_data = .loads result

/-- A phase that is reported as completed got a result from every worker, and its total is the sum
of the targets of the workers. -/
def Honest (phase : PhaseConfig) (ends : ∀ i, WorkerEnd phase i) : Prop :=
  (execute_forked_workload phase ends).1 = .COMPLETED →
    (∀ i < (num_processes phase).toNat, (ends i).Delivered) ∧
    ∃ target, my_target phase.completion (num_processes phase) = some target ∧
      ((execute_forked_workload phase ends).2.total_requests : ℤ)
        = ∑ _i ∈ Finset.range (num_processes phase).toNat, target

/-! ## What a delivered result counts -/

/-- A round finishes one request. -/
lemma round_count {M : Type} {record : M → Command → Outcome → M} {env : Env} {fuel : ℕ}
    {st st' : LoopState M} (h : st.round record env fuel = .ok st') : st'.count = st.count + 1 := by
  unfold LoopState.round at h
  cases hkey : st.key_gen.next_key fuel with
  | error err => rw [hkey] at h; cases h
  | ok r =>
    rw [hkey, ok_bind] at h
    cases h
    rfl

/-- A loop that returns has finished as many requests as its target. -/
lemma whileLoop_count {M : Type} {record : M → Command → Outcome → M} {env : Env} {target : ℤ}
    {drawFuel fuel : ℕ} {st st' : LoopState M} (hle : st.count ≤ target.toNat)
    (h : whileLoop (fun st => (st.count : ℤ) < target) record env drawFuel fuel st = .ok st') :
    st'.count = target.toNat := by
  induction fuel generalizing st with
  | zero => cases h
  | succ fuel ih =>
    rw [whileLoop] at h
    split at h
    · next hlt =>
      have hlt' : (st.count : ℤ) < target := by simpa using hlt
      cases hround : st.round record env drawFuel with
      | error err => rw [hround] at h; cases h
      | ok st₁ =>
        rw [hround, ok_bind] at h
        have hcount := round_count hround
        exact ih (by omega) h
    · next hge =>
      have hge' : ¬ (st.count : ℤ) < target := by simpa using hge
      cases h
      omega

/-- A delivered result counts the requests of its target. -/
lemma run_worker_process_total {phase : PhaseConfig} {i fuel : ℕ} {env : Env} {result : ResultData}
    {keys : List ℤ} {target : ℤ}
    (htarget : my_target phase.completion (num_processes phase) = some target)
    (h : run_worker_process phase i env fuel = .ok (result, keys)) :
    result.total_requests = target.toNat := by
  rw [run_worker_process, htarget, run_request_loop] at h
  cases hloop : requestLoop (fun table name outcome =>
    CmdTable.modify name (.record outcome) table) []
      env fuel (.create_with_seed phase.keyspace (phase.keyspace.seed_value + i)) (some target)
      (env.start + phase.completion.duration_seconds) with
  | error err => rw [hloop] at h; cases h
  | ok st =>
    rw [hloop, ok_bind] at h
    cases h
    exact whileLoop_count (Nat.zero_le _) hloop

/-! ## What the parent adds up -/

/-- When every worker delivered, the totals of the results that the parent reads add up to as many
targets. -/
lemma total_requests_eq {phase : PhaseConfig} {ends : ∀ i, WorkerEnd phase i} {target : ℤ}
    (htarget : my_target phase.completion (num_processes phase) = some target) {n : ℕ}
    (h : ∀ i < n, (ends i).Delivered) :
    ((read_results (fun i => (ends i).pipe_data) n).map ResultData.total_requests).sum
      = n * target.toNat := by
  induction n with
  | zero => rw [Nat.zero_mul]; rfl
  | succ n ih =>
    obtain ⟨result, hresult⟩ := h n (Nat.lt_succ_self n)
    have htotal : result.total_requests = target.toNat := by
      cases hend : ends n with
      | delivers r status run =>
        rw [hend] at hresult
        cases hresult
        obtain ⟨env, fuel, keys, hrun⟩ := run
        exact run_worker_process_total htarget hrun
      | dies status => rw [hend] at hresult; cases hresult
      | garbles message status => rw [hend] at hresult; cases hresult
    rw [read_results, hresult, List.map_append, List.sum_append, ih fun i hi => h i (by omega),
      Nat.add_one_mul]
    simp [htotal]

/-- The status of a forked request-based phase is honest exactly when every worker delivered a
result, or when the parent forked none because the rate limit is no finite double. -/
theorem honest_iff (phase : PhaseConfig) (hreq : ¬ phase.completion.duration_based)
    (hconn : 1 < phase.connections) (hR : 0 ≤ phase.completion.total_requests)
    (ends : ∀ i, WorkerEnd phase i) :
    Honest phase ends ↔
      (∀ i < (num_processes phase).toNat, (ends i).Delivered) ∨
      ¬ (¬ phase.has_rps_limit ∨ (Binary64.round phase.rps_limit).isSome) := by
  rw [← my_rps_ok_iff hconn]
  cases hrate : my_rps phase (num_processes phase) with
  | error err =>
    have hstatus : (execute_forked_workload phase ends).1 = .ERROR := by
      rw [execute_forked_workload, hrate]
    refine ⟨fun _ => Or.inr (by simp), fun _ h => ?_⟩
    rw [hstatus] at h
    cases h
  | ok rate =>
    have hstatus : (execute_forked_workload phase ends).1 = .COMPLETED := by
      rw [execute_forked_workload, hrate]
    have htotal : (execute_forked_workload phase ends).2.total_requests
        = ((read_results (fun i => (ends i).pipe_data) (num_processes phase).toNat).map
            ResultData.total_requests).sum := by
      rw [execute_forked_workload, hrate]
    constructor
    · exact fun h => Or.inl (h hstatus).1
    · rintro (h | h) -
      · obtain ⟨hn, hn1⟩ := num_processes_eq hconn
        have hnonneg : 0 ≤ phase.completion.total_requests / num_processes phase +
            if phase.completion.total_requests % num_processes phase > 0 then 1 else 0 := by
          have := Int.ediv_nonneg hR (show 0 ≤ num_processes phase by omega)
          split <;> omega
        refine ⟨h, _, if_neg hreq, ?_⟩
        rw [htotal, total_requests_eq (if_neg hreq) h, Finset.sum_const,
          Finset.card_range, nsmul_eq_mul, Nat.cast_mul, Int.toNat_of_nonneg hnonneg]
      · exact absurd ⟨rate, rfl⟩ h

/-- A run of the populate phase's workers in which every command fails. -/
def failingEnv : Env := ⟨fun _ => .get, fun _ => .raised, 0, fun _ => 0⟩

/-- A worker of the populate phase that delivers its two requests. -/
def deliveringEnd (i : ℕ) : WorkerEnd populatePhase i :=
  .delivers ⟨2, 2, [(.get, ⟨2, 2, []⟩)]⟩ 0 ⟨failingEnv, 5, [0, 1], rfl⟩

/-- Two workers that deliver make an honest phase. -/
theorem deliveringEnd_honest : Honest populatePhase deliveringEnd :=
  (honest_iff populatePhase (by decide) (by decide) (by decide) deliveringEnd).mpr
    (Or.inl fun _ _ => ⟨_, rfl⟩)

/-- The second worker of the populate phase dies on its connection. -/
def halfDeadEnds (i : ℕ) : WorkerEnd populatePhase i :=
  if i = 0 then deliveringEnd i else .dies 1

/-- The phase is still reported as completed. -/
theorem halfDeadEnds_not_honest :
    ¬ populatePhase.completion.duration_based ∧ 1 < populatePhase.connections ∧
      0 ≤ populatePhase.completion.total_requests ∧ ¬ Honest populatePhase halfDeadEnds := by
  refine ⟨by decide, by decide, by decide, fun h => ?_⟩
  obtain ⟨result, hresult⟩ := (h rfl).1 1 (by decide)
  cases hresult

end RespBench.Ruby
