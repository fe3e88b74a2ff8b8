import RespBench.Php.Coverage

/-!
# Warmup of the PHP workers

`warmup_requests` counts the PINGs of every connection before its first request. `runWarmup`
divides this number among all workers with `splitShare` instead, idle workers included.
`workerCalls` adds the calls of the client to the loop of `runWorker`, and `warmsUp_iff` says when
every requesting worker still sends the full number: the share of a worker is the whole only for
one worker or at most one PING.
-/

namespace RespBench.Php
open RespBench.Lib.Runs RespBench.Lib.Share

/-! ## The calls of a worker -/

/-- A call of the client: a PING of the warmup, or a command of the workload with the keys that it
draws. -/
inductive Call where
  | ping
  | command (c : Command) (keys : List ℤ)
deriving DecidableEq

def Call.keys : Call → List ℤ
  | .ping => []
  | .command _ keys => keys

/-- The calls of `runWarmup`. A failed PING is reported in its result only, which is not looked
at. -/
def runWarmup (warmupRequests workerCount workerIndex : ℤ) : List Call :=
  if warmupRequests ≤ 0 then []
  else List.replicate (splitShare warmupRequests workerCount workerIndex).toNat .ping

/-- The calls in the first rounds of the loop of `runWorker`; the worker dies when no key can be
drawn. -/
def loopCalls (env : Env) (target : Option ℤ) (deadline : Option ℚ) (drawFuel : ℕ) :
    ℕ → ℕ → KeyGenerator → List Call
  | 0, _, _ => []
  | rounds + 1, done, g =>
    if target.any fun t => (done : ℤ) ≥ t then []
    else if deadline.any fun d => env.clock done ≥ d then []
    else
      match (env.select done).execute drawFuel g with
      | .error _ => []
      | .ok (keys, g') =>
        .command (env.select done) keys :: loopCalls env target deadline drawFuel
          rounds (done + 1) g'

/-- The calls of one worker, up to a number of rounds of its loop. -/
def workerCalls (phase : PhaseConfig) (warmupRequests : ℤ) (env : Env) (fuel rounds : ℕ)
    (workerCount workerIndex : ℤ) : List Call :=
  let keyGen := KeyGenerator.forWorker phase.keyspace workerIndex workerCount
  let rps := workerRps phase workerCount workerIndex
  if phase.hasRpsLimit && rps = 0 then []
  else
    let target := workerRequestTarget phase workerCount workerIndex
    let deadline := if phase.completion.isDurationBased
      then some (env.start + phase.completion.durationSeconds) else none
    runWarmup warmupRequests workerCount workerIndex ++
      loopCalls env target deadline fuel rounds 0 keyGen

variable {phase : PhaseConfig} {env : Env} {target : Option ℤ} {deadline : Option ℚ}

/-- The calls of the loop draw the keys of the loop. -/
lemma runLoop_keys {drawFuel fuel done : ℕ} {g : KeyGenerator} {keys : List ℤ}
    (h : runLoop env target deadline drawFuel fuel done g = .ok keys) :
    (loopCalls env target deadline drawFuel fuel done g).flatMap Call.keys = keys := by
  induction fuel generalizing done g keys with
  | zero => cases h
  | succ fuel ih =>
    rw [runLoop] at h
    rw [loopCalls]
    by_cases htarget : target.any fun t => (done : ℤ) ≥ t
    · rw [if_pos htarget] at h ⊢
      cases h
      rfl
    · rw [if_neg htarget] at h ⊢
      by_cases hdeadline : deadline.any fun d => env.clock done ≥ d
      · rw [if_pos hdeadline] at h ⊢
        cases h
        rfl
      · rw [if_neg hdeadline] at h ⊢
        cases hexec : (env.select done).execute drawFuel g with
        | error e =>
          rw [hexec] at h
          cases h
        | ok drawn =>
          obtain ⟨drawnKeys, g'⟩ := drawn
          rw [hexec, ok_bind] at h
          dsimp only at h ⊢
          cases hrest : runLoop env target deadline drawFuel fuel (done + 1) g' with
          | error e =>
            rw [hrest] at h
            cases h
          | ok rest =>
            rw [hrest, ok_bind] at h
            cases h
            rw [List.flatMap_cons, ih hrest]
            rfl

/-- The calls of a worker draw the keys of `runWorker`, whatever the warmup. -/
theorem runWorker_keys {w : ℤ} {fuel : ℕ} {workerCount workerIndex : ℤ} {keys : List ℤ}
    (h : runWorker phase env fuel workerCount workerIndex = .ok keys) :
    (workerCalls phase w env fuel fuel workerCount workerIndex).flatMap Call.keys = keys := by
  have hwarmup : (runWarmup w workerCount workerIndex).flatMap Call.keys = [] := by
    refine List.flatMap_eq_nil_iff.mpr fun c hc => ?_
    unfold runWarmup at hc
    split at hc
    · exact absurd hc List.not_mem_nil
    · rw [List.eq_of_mem_replicate hc]
      rfl
  unfold runWorker at h
  unfold workerCalls
  dsimp only at h ⊢
  by_cases hidle : (phase.hasRpsLimit && decide (workerRps phase workerCount workerIndex = 0))
    = true
  · rw [if_pos hidle] at h ⊢
    cases h
    rfl
  · rw [if_neg hidle] at h ⊢
    rw [List.flatMap_append, hwarmup, List.nil_append]
    exact runLoop_keys h

/-- The request loop sends no PING. -/
lemma ping_notMem_loopCalls (drawFuel rounds done : ℕ) (g : KeyGenerator) :
    Call.ping ∉ loopCalls env target deadline drawFuel rounds done g := by
  induction rounds generalizing done g with
  | zero => exact List.not_mem_nil
  | succ rounds ih =>
    rw [loopCalls]
    split
    · exact List.not_mem_nil
    · split
      · exact List.not_mem_nil
      · split
        · exact List.not_mem_nil
        · exact List.not_mem_cons_of_ne_of_not_mem Call.noConfusion (ih _ _)

/-- A warmup sends its share of PINGs. -/
lemma runWarmup_eq (w : ℤ) (n i : ℕ) : runWarmup w n i
    = List.replicate (share w.toNat n i) .ping := by
  unfold runWarmup
  split
  · next h =>
    rw [Int.toNat_of_nonpos h, share, Nat.zero_div, Nat.zero_mod, if_neg (Nat.not_lt_zero i)]
    rfl
  · rw [splitShare_toNat]

/-! ## The workers that request -/

/-- The number of workers that have a request to issue. -/
def requestingWorkers (phase : PhaseConfig) : ℤ :=
  let active := activeWorkerCount phase (workerCount phase)
  if phase.completion.isRequestBased then min active phase.completion.totalRequests else active

/-- An idle worker makes no calls. -/
lemma workerCalls_idle (w : ℤ) (env : Env) (fuel rounds : ℕ) {i : ℕ} (hi : activeWorkers phase ≤ i)
    (hlim : phase.hasRpsLimit) :
    workerCalls phase w env fuel rounds (workerCount phase) i = [] := by
  rw [workerCount_eq, workerCalls]
  dsimp only
  rw [if_pos (returns_of_idle hi hlim)]

/-- An active worker warms up and enters the loop. -/
lemma workerCalls_active (w : ℤ) (env : Env) (fuel rounds : ℕ) {i : ℕ}
    (hi : i < activeWorkers phase) :
    workerCalls phase w env fuel rounds (workerCount phase) i
      = List.replicate (share w.toNat (workers phase) i) .ping ++
        loopCalls env (workerRequestTarget phase (workers phase : ℕ) i)
          (if phase.completion.isDurationBased
            then some (env.start + phase.completion.durationSeconds) else none)
          fuel rounds 0 (KeyGenerator.forWorker phase.keyspace i (workers phase : ℕ)) := by
  rw [workerCount_eq, workerCalls]
  dsimp only
  rw [if_neg (not_returns_of_active hi), runWarmup_eq]

/-- The target of an active worker is not reached at once exactly when it has a request to issue. -/
lemma target_reached_iff {i : ℕ} (hi : i < activeWorkers phase) :
    ¬ (workerRequestTarget phase (workers phase : ℕ) i).any (fun t => ((0 : ℕ) : ℤ) ≥ t) ↔
      (i : ℤ) < requestingWorkers phase := by
  unfold workerRequestTarget requestingWorkers
  dsimp only
  rw [workerCount_eq, activeWorkerCount_eq]
  by_cases hreq : phase.completion.isRequestBased
  · have hshare := splitShare_toNat phase.completion.totalRequests (activeWorkers phase) i
    have hpos := share_pos_iff (R := phase.completion.totalRequests.toNat) hi
    rw [if_neg (by simpa using hreq), if_neg (by omega), if_pos hreq, Option.any_some,
      decide_eq_true_eq]
    omega
  · rw [if_pos (by simpa using hreq), if_neg hreq, Option.any_none]
    simpa using hi

/-- Where a worker has a request to issue, some phase environment makes it issue one. -/
lemma exists_request (w : ℤ) {i : ℕ} (hi : (i : ℤ) < requestingWorkers phase) : ∃ env, ∀ fuel,
    workerCalls phase w env fuel 1 (workerCount phase) i
      = List.replicate (share w.toNat (workers phase) i) .ping ++ [.command .ping []] := by
  have hactive : i < activeWorkers phase := by
    unfold requestingWorkers at hi
    dsimp only at hi
    rw [workerCount_eq, activeWorkerCount_eq] at hi
    split at hi <;> omega
  refine ⟨⟨fun _ => .ping, 0, fun _ => phase.completion.durationSeconds - 1⟩, fun fuel => ?_⟩
  rw [workerCalls_active w _ fuel 1 hactive, loopCalls,
    if_neg ((target_reached_iff hactive).mpr hi), if_neg]
  · rfl
  · split <;> simp

/-- A worker that issues a request had one to issue. -/
lemma lt_requestingWorkers {w : ℤ} {fuel rounds i : ℕ} {c : Call} (hi : i < workers phase)
    (hc : c ∈ workerCalls phase w env fuel rounds (workerCount phase) i) (hne : c ≠ .ping) :
    i < activeWorkers phase ∧ (i : ℤ) < requestingWorkers phase := by
  rcases Nat.lt_or_ge i (activeWorkers phase) with hactive | hidle
  · refine ⟨hactive, ?_⟩
    by_contra hnone
    have hreached := not_not.mp (mt (target_reached_iff hactive).mp hnone)
    rw [workerCalls_active w env fuel rounds hactive] at hc
    rcases List.mem_append.mp hc with hc | hc
    · exact hne (List.eq_of_mem_replicate hc)
    · cases rounds with
      | zero => exact absurd hc List.not_mem_nil
      | succ rounds =>
        rw [loopCalls, if_pos hreached] at hc
        exact absurd hc List.not_mem_nil
  · rw [workerCalls_idle w env fuel rounds hidle (hasRpsLimit_of_idle hi hidle)] at hc
    exact absurd hc List.not_mem_nil

/-! ## Warmup -/

/-- Every worker that issues a request sends the given number of PINGs on its connection before, and
the requests, with the keys that they draw, are those of a phase without warmup. -/
structure WarmsUp (phase : PhaseConfig) (warmupRequests : ℤ) : Prop where
  first : ∀ env fuel rounds (i : ℕ), i < workerCount phase →
    (∃ c ∈ workerCalls phase warmupRequests env fuel rounds (workerCount phase) i, c ≠ .ping) →
    ∃ requests, workerCalls phase warmupRequests env fuel rounds (workerCount phase) i
      = List.replicate warmupRequests.toNat .ping ++ requests ∧ .ping ∉ requests
  keys : ∀ env fuel rounds (i : ℕ), i < workerCount phase →
    (workerCalls phase warmupRequests env fuel rounds (workerCount phase) i).filter (· ≠ .ping)
      = workerCalls phase 0 env fuel rounds (workerCount phase) i

/-- The warmup of any length leaves the requests and their keys as they are. -/
lemma filter_workerCalls (w : ℤ) (env : Env) (fuel rounds : ℕ) {i : ℕ} (hi : i < workers phase) :
    (workerCalls phase w env fuel rounds (workerCount phase) i).filter (· ≠ .ping)
      = workerCalls phase 0 env fuel rounds (workerCount phase) i := by
  rcases Nat.lt_or_ge i (activeWorkers phase) with hactive | hidle
  · have hnone : share (0 : ℤ).toNat (workers phase) i = 0 := by
      have := share_le hi 0
      exact Nat.le_zero.mp this
    rw [workerCalls_active w env fuel rounds hactive,
      workerCalls_active 0 env fuel rounds hactive, hnone, List.replicate_zero, List.nil_append,
      List.filter_append, List.filter_eq_nil_iff.mpr, List.nil_append, List.filter_eq_self.mpr]
    · intro c hc
      rw [decide_eq_true_eq]
      rintro rfl
      exact ping_notMem_loopCalls _ _ _ _ hc
    · intro c hc
      rw [List.eq_of_mem_replicate hc]
      decide
  · have hlim := hasRpsLimit_of_idle hi hidle
    rw [workerCalls_idle w env fuel rounds hidle hlim,
      workerCalls_idle 0 env fuel rounds hidle hlim]
    rfl

/-- A requesting worker sends its share only. -/
lemma WarmsUp.share_eq {w : ℤ} (h : WarmsUp phase w) {i : ℕ} (hi : i < workers phase)
    (hrequesting : (i : ℤ) < requestingWorkers phase) :
    share w.toNat (workers phase) i = w.toNat := by
  obtain ⟨env, hcalls⟩ := exists_request w hrequesting
  obtain ⟨requests, heq, hnone⟩ := h.first env 0 1 i (by rw [workerCount_eq]; omega)
    ⟨.command .ping [], by rw [hcalls]; exact List.mem_append_right _ List.mem_cons_self,
      Call.noConfusion⟩
  have hcount := congrArg (List.count Call.ping) ((hcalls 0).symm.trans heq)
  rw [List.count_append, List.count_append, List.count_replicate_self, List.count_replicate_self,
    List.count_eq_zero.mpr hnone] at hcount
  exact hcount

/-- No more workers send requests than there are. -/
lemma requestingWorkers_le : requestingWorkers phase ≤ workers phase := by
  have hle : activeWorkers phase ≤ workers phase := activeWorkers_le
  unfold requestingWorkers
  dsimp only
  rw [workerCount_eq, activeWorkerCount_eq]
  split <;> omega

/-- The workers warm up exactly when no PINGs are asked for, or there is a single worker, or no
worker issues a request, or one PING is asked for and only the first worker issues requests. -/
theorem warmsUp_iff (phase : PhaseConfig) {w : ℤ} (hw : 0 ≤ w) : WarmsUp phase w ↔
    w = 0 ∨ workerCount phase = 1 ∨ requestingWorkers phase ≤ 0 ∨
      (w = 1 ∧ requestingWorkers phase = 1) := by
  have hpos : 0 < workers phase := workers_pos
  have hle : requestingWorkers phase ≤ workers phase := requestingWorkers_le
  rw [workerCount_eq]
  constructor
  · intro h
    by_contra hnone
    push Not at hnone
    obtain ⟨hw0, hone, hreq, hlast⟩ := hnone
    have hfirst := (share_eq_self_iff hpos).mp (h.share_eq hpos hreq)
    have hsecond : 1 < requestingWorkers phase := by omega
    have hnext := (share_eq_self_iff (by omega)).mp (h.share_eq (i := 1) (by omega) hsecond)
    omega
  · intro h
    refine ⟨fun env fuel rounds i hi hc => ?_, fun env fuel rounds i hi => ?_⟩
    · obtain ⟨c, hc, hne⟩ := hc
      have hi' : i < workers phase := by
        rw [workerCount_eq] at hi
        omega
      obtain ⟨hactive, hrequesting⟩ := lt_requestingWorkers hi' hc hne
      have hshare : share w.toNat (workers phase) i = w.toNat := by
        rw [share_eq_self_iff hi']
        omega
      rw [workerCalls_active w env fuel rounds hactive, hshare]
      exact ⟨_, rfl, ping_notMem_loopCalls _ _ _ _⟩
    · rw [workerCount_eq] at hi
      exact filter_workerCalls w env fuel rounds (by omega)

/-- Ten requests on one connection, with three PINGs. -/
theorem single_warmsUp :
    WarmsUp ⟨1, ⟨.requests, none, some 10⟩, ⟨4, .sequential_int, none⟩, -1⟩ 3 :=
  (warmsUp_iff _ (by norm_num)).mpr (.inr (.inl (by decide)))

/-- Ten requests on two connections. -/
def twoConnections : PhaseConfig :=
  ⟨2, ⟨.requests, none, some 10⟩, ⟨4, .sequential_int, none⟩, -1⟩

/-- With the default of one PING the second worker sends none. -/
theorem twoConnections_not_warmsUp : ¬ WarmsUp twoConnections 1 ∧
    workerCalls twoConnections 1 ⟨fun _ => .get, 0, fun _ => 0⟩ 1 1 2 1 = [.command .get [1]] := by
  have hcalls : workerCalls twoConnections 1 ⟨fun _ => .get, 0, fun _ => 0⟩ 1 1
      (workerCount twoConnections) (1 : ℕ) = [.command .get [1]] := rfl
  refine ⟨fun h => ?_, hcalls⟩
  obtain ⟨requests, heq, -⟩ := h.first ⟨fun _ => .get, 0, fun _ => 0⟩ 1 1 1 (by decide)
    ⟨.command .get [1], by rw [hcalls]; exact List.mem_cons_self, Call.noConfusion⟩
  rw [hcalls] at heq
  exact Call.noConfusion (List.cons.inj heq).1

end RespBench.Php
