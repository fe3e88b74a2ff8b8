import RespBench.CSharp.Workers
import RespBench.Lib.Tickets

/-!
# The C# pipelined loop

What `RunPipelinedLoop` does to a request-based phase, in every interleaving and whatever the order
in which the tasks complete. `fits` is the window of a worker: how many tasks are pending at each
place of its loop. `tickets_eq` follows every claimed ticket to its record. `weight` is what a
worker can still do without claiming a request, so that every run is finite, and
`finished_of_stuck` says that a run only ends when all workers have left their loops.
`pipelined_sound` puts them together.
-/

namespace RespBench.CSharp
open RespBench.Lib
open RespBench.Lib.Tickets (Counter)

/-! ## What a step does -/

/-- The steps of a worker of a request-based phase, one rule for each. -/
inductive Steps (phase : Phase) : Shared → Local → Shared → Local → Prop where
  | round {s i p c} : i < phase.pipelineDepth →
    Steps phase s ⟨.fill i, p, c⟩ s ⟨.deadline (.fill i), p, c⟩
  | filled {s i p c} : phase.pipelineDepth ≤ i → Steps phase s ⟨.fill i, p, c⟩ s ⟨.event, p, c⟩
  | clock {s site p c} : Steps phase s ⟨.deadline site, p, c⟩ s ⟨.claim site, p, c⟩
  | claim {s site p c} : s.requestCount < phase.totalTargetRequests →
    Steps phase s ⟨.claim site, p, c⟩
      { s with requestCount := s.requestCount + 1, claims := s.claims + 1 }
      ⟨.compare site s.requestCount, p, c⟩
  | overclaim {s site p c} : phase.totalTargetRequests ≤ s.requestCount →
    Steps phase s ⟨.claim site, p, c⟩ { s with requestCount := s.requestCount + 1 }
      ⟨.compare site s.requestCount, p, c⟩
  | accept {s site claimed p c} : claimed < phase.totalTargetRequests →
    Steps phase s ⟨.compare site claimed, p, c⟩ s ⟨.submit site claimed, p, c⟩
  | reject {s site claimed p c} : phase.totalTargetRequests ≤ claimed →
    Steps phase s ⟨.compare site claimed, p, c⟩ s ⟨.undo site, p, c⟩
  | undo {s site p c} :
    Steps phase s ⟨.undo site, p, c⟩ { s with requestCount := s.requestCount - 1 } ⟨.event, p, c⟩
  | submit {s site ticket p c} :
    Steps phase s ⟨.submit site ticket, p, c⟩ s ⟨site.accepted, p ++ [ticket], c⟩
  | wait {s p c} : p ≠ [] → Steps phase s ⟨.event, p, c⟩ s ⟨.whenAny, p, c⟩
  | finish {s c} : Steps phase s ⟨.event, [], c⟩ s ⟨.done, [], c⟩
  | any {s ticket p c} : ticket ∈ p → (c.lookup ticket).isSome →
    Steps phase s ⟨.whenAny, p, c⟩ s ⟨.remove ticket, p, c⟩
  | remove {s ticket p c} :
    Steps phase s ⟨.remove ticket, p, c⟩ s ⟨.record ticket, p.erase ticket, c⟩
  | record {s ticket outcome p c} :
    Steps phase s ⟨.record ticket, p, c⟩
      { s with recorded := s.recorded ++ [(ticket, outcome)] } ⟨.count, p, c⟩
  | count {s p c} : Steps phase s ⟨.count, p, c⟩ s ⟨.recheck, p, c⟩
  | resume {s p c} : Steps phase s ⟨.recheck, p, c⟩ s ⟨.deadline .refill, p, c⟩
  | complete {s pc p c ticket outcome} : ticket ∈ p → c.lookup ticket = none →
    Steps phase s ⟨pc, p, c⟩ s ⟨pc, p, (ticket, outcome) :: c⟩

section
variable {phase : Phase}

/-- Every operation of a worker follows a rule, as long as `Running` is 1. -/
lemma steps_of_run (hT : 0 < phase.totalTargetRequests) {s t : Shared} {l k : Local}
    (hrun : s.running = true) (h : run phase s l = some (t, k)) : Steps phase s l t k := by
  obtain ⟨pc, p, c⟩ := l
  cases pc with
  | fill i =>
    simp only [run, hrun, and_true] at h
    split at h <;> cases h
    next hi => exact .round hi
    next hi => exact .filled (not_lt.mp hi)
  | deadline site => cases h
  | claim site =>
    simp only [run, if_pos hT] at h
    split at h <;> cases h
    next hlt => exact .claim hlt
    next hle => exact .overclaim (not_lt.mp hle)
  | compare site claimed =>
    simp only [run] at h
    split at h <;> cases h
    next hge => exact .reject hge
    next hlt => exact .accept (not_le.mp hlt)
  | undo site =>
    cases site <;> cases h <;> exact .undo
  | submit site ticket =>
    cases h
    exact .submit
  | event =>
    cases p with
    | nil =>
      cases h
      exact .finish
    | cons ticket p =>
      simp only [run, hrun, and_true, List.length_cons, Nat.zero_lt_succ, if_true] at h
      cases h
      exact .wait (List.cons_ne_nil _ _)
  | whenAny => cases h
  | remove ticket =>
    cases h
    exact .remove
  | record ticket =>
    obtain ⟨outcome, -, hr⟩ := Option.map_eq_some_iff.mp h
    cases hr
    exact .record
  | count =>
    simp only [run, if_neg (not_le.mpr hT)] at h
    cases h
    exact .count
  | recheck =>
    simp only [run, hrun, if_true] at h
    cases h
    exact .resume
  | done => cases h

/-- Every step of a request-based phase follows a rule, as long as `Running` is 1. -/
lemma steps_of_step (hT : 0 < phase.totalTargetRequests) {event : Event}
    {s t : Shared} {l k : Local} (hrun : s.running = true)
    (h : step phase event s l = some (t, k)) : Steps phase s l t k := by
  cases event with
  | run => exact steps_of_run hT hrun h
  | time expired =>
    obtain ⟨pc, p, c⟩ := l
    cases pc <;> simp only [step, if_pos hT, reduceCtorEq] at h
    split at h <;> cases h
    exact .clock
  | complete ticket outcome =>
    simp only [step] at h
    split at h <;> cases h
    next hpending => exact .complete hpending.1 hpending.2
  | any ticket =>
    obtain ⟨pc, p, c⟩ := l
    simp only [step] at h
    split at h
    next hany =>
      obtain ⟨hpc, hmem, hdone⟩ := hany
      cases hpc
      cases h
      exact .any hmem hdone
    next => cases h

variable {s : Pool.State (Fin phase.workers) Shared Local}

/-! ## The books of the workers -/

/-- A worker that claimed too much and has not undone it. -/
def overclaims (phase : Phase) (l : Local) : ℕ :=
  match l.pc with
  | .compare _ claimed => if phase.totalTargetRequests ≤ claimed then 1 else 0
  | .undo _ => 1
  | _ => 0

/-- The tickets that a worker claimed and has not recorded. -/
def held (phase : Phase) (l : Local) : Multiset ℤ :=
  match l.pc with
  | .compare _ claimed => if phase.totalTargetRequests ≤ claimed then l.pending else
      claimed ::ₘ (l.pending : Multiset ℤ)
  | .submit _ ticket => ticket ::ₘ (l.pending : Multiset ℤ)
  | .record ticket => ticket ::ₘ (l.pending : Multiset ℤ)
  | _ => l.pending

/-- What a step does to the counter. -/
lemma draws_of_steps {s t : Shared} {l k : Local} (h : Steps phase s l t k) :
    Tickets.Draws phase.totalTargetRequests s.requestCount s.claims (overclaims phase l)
      t.requestCount t.claims
      (overclaims phase k) := by
  cases h with
  | claim hlt =>
    simp only [overclaims, if_neg (not_le.mpr hlt)]
    exact .claim hlt
  | overclaim hle =>
    simp only [overclaims, if_pos hle]
    exact .overclaim hle
  | accept hlt =>
    simp only [overclaims, if_neg (not_le.mpr hlt)]
    exact .rest
  | reject hle =>
    simp only [overclaims, if_pos hle]
    exact .rest
  | undo => exact .undo
  | submit =>
    rename_i site _ _ _
    cases site <;> exact .rest
  | _ => exact .rest

/-- What a step does to the ticket of the worker that takes it, when a task that is removed was
pending. -/
lemma follows_of_steps {s t : Shared} {l k : Local} (h : Steps phase s l t k)
    (hpending : ∀ ticket, l.pc = .remove ticket → ticket ∈ l.pending) :
    Counter.Follows phase.totalTargetRequests s.requestCount s.claims (s.recorded.map Prod.fst)
    (held phase l)
      t.claims (t.recorded.map Prod.fst) (held phase k) := by
  cases h with
  | claim hlt =>
    simp only [held, if_neg (not_le.mpr hlt)]
    exact .claim hlt
  | accept hlt =>
    simp only [held, if_neg (not_le.mpr hlt)]
    exact .rest
  | overclaim hge | reject hge =>
    simp only [held, if_pos hge]
    exact .rest
  | submit =>
    rename_i site _ _ _
    cases site <;> simp only [held, Site.accepted, Pool.coe_concat] <;> exact .rest
  | remove =>
    have hmem := hpending _ rfl
    simp only [held, Multiset.cons_coe, ← Multiset.coe_eq_coe.mpr (List.perm_cons_erase hmem)]
    exact .rest
  | record =>
    simp only [held, List.map_append, List.map_cons, List.map_nil, Pool.coe_concat]
    exact .record rfl
  | _ => exact .rest

/-- The number of pending tasks of a worker that claims at a site. -/
def Site.Fits (phase : Phase) (s : Shared) (n : ℕ) : Site → Prop
  | .fill i => n = i ∧ i < phase.pipelineDepth
  | .refill => n < phase.pipelineDepth ∧
      (n + 1 = phase.pipelineDepth ∨ s.claims = phase.totalTargetRequests)

/-- The window of a worker: its pipeline is filled round by round, and stays filled
until no claim is left. -/
def Fits (phase : Phase) (s : Shared) (l : Local) : Prop :=
  match l.pc with
  | .fill i => l.pending.length = i ∧ i ≤ phase.pipelineDepth
  | .deadline site | .claim site | .submit site _ => site.Fits phase s l.pending.length
  | .compare site claimed => site.Fits phase s l.pending.length ∧
      (phase.totalTargetRequests ≤ claimed → s.claims = phase.totalTargetRequests)
  | .undo site => site.Fits phase s l.pending.length ∧ s.claims = phase.totalTargetRequests
  | .event => l.pending.length ≤ phase.pipelineDepth ∧
      (l.pending.length = phase.pipelineDepth ∨ s.claims = phase.totalTargetRequests)
  | .whenAny => l.pending ≠ [] ∧ l.pending.length ≤ phase.pipelineDepth ∧
      (l.pending.length = phase.pipelineDepth ∨ s.claims = phase.totalTargetRequests)
  | .remove ticket => (ticket ∈ l.pending ∧ (l.outcome ticket).isSome) ∧
      l.pending.length ≤ phase.pipelineDepth ∧
      (l.pending.length = phase.pipelineDepth ∨ s.claims = phase.totalTargetRequests)
  | .record ticket => (l.outcome ticket).isSome ∧ Site.refill.Fits phase s l.pending.length
  | .count | .recheck => Site.refill.Fits phase s l.pending.length
  | .done => l.pending = [] ∧ s.claims = phase.totalTargetRequests

section RequestBased
variable (hT : 0 < phase.totalTargetRequests)
include hT

/-- `Running` stays 1. -/
lemma running (h : (workload phase).Reachable s) : s.shared.running = true := by
  refine Pool.reachable_induction (P := workload phase)
    (I := fun s => s.shared.running = true) rfl ?_ h
  intro s w e s' _ hrun hnext
  have hstep := steps_of_step hT hrun (Pool.next_eq_some hnext).1
  generalize s.locals w = l, s'.locals w = k, s'.shared = t at hstep
  cases hstep <;> exact hrun

/-- Every step from a reachable state follows a rule. -/
lemma steps_of_next (h : (workload phase).Reachable s) {w : Fin phase.workers}
    {e : Event} {t : Shared} {k : Local}
    (hstep : (workload phase).step w e s.shared (s.locals w) = some (t, k)) :
    Steps phase s.shared (s.locals w) t k :=
  steps_of_step hT (running hT h) hstep

/-- The workers of a request-based phase draw their tickets from `RequestCount`. -/
def counter : Counter (workload phase) phase.totalTargetRequests where
  count := Shared.requestCount
  claims := Shared.claims
  excess := overclaims phase
  target_nonneg := hT.le
  count_init := rfl
  claims_init := rfl
  excess_init := fun _ => rfl
  draws := fun hs hstep => draws_of_steps (steps_of_next hT hs hstep)

/-- There are at most as many claims as the target, and a claim too much means that there are as
many. -/
theorem claims_le (h : (workload phase).Reachable s) :
    s.shared.claims ≤ s.shared.requestCount ∧ s.shared.claims ≤ phase.totalTargetRequests ∧
      (s.shared.claims < s.shared.requestCount → s.shared.claims = phase.totalTargetRequests) :=
  ⟨(counter hT).claims_le_count h, (counter hT).claims_le h⟩

/-- The counter exceeds the target by the number of workers at most: a `long` while that is below
2^63. -/
theorem requestCount_bounds (h : (workload phase).Reachable s) :
    0 ≤ s.shared.requestCount ∧ s.shared.requestCount ≤ phase.totalTargetRequests
      + phase.workers := by
  have hbounds := (counter hT).count_bounds h
  rwa [Fintype.card_fin] at hbounds

/-! ## The windows of the workers -/

omit hT in
/-- The window of a worker does not depend on what the others do. -/
lemma fits_mono {s t : Shared} {l : Local} (hclaims : s.claims = phase.totalTargetRequests →
    t.claims = phase.totalTargetRequests) (h : Fits phase s l) : Fits phase t l := by
  have hsite : ∀ {n} {site : Site}, site.Fits phase s n → site.Fits phase t n := by
    intro n site h
    cases site with
    | fill i => exact h
    | refill => exact ⟨h.1, h.2.imp_right hclaims⟩
  obtain ⟨pc, p, c⟩ := l
  cases pc with
  | fill i => exact h
  | deadline | claim | submit => exact hsite h
  | count | recheck => exact ⟨h.1, h.2.imp_right hclaims⟩
  | compare site claimed => exact ⟨hsite h.1, fun hle => hclaims (h.2 hle)⟩
  | undo site => exact ⟨hsite h.1, hclaims h.2⟩
  | event => exact ⟨h.1, h.2.imp_right hclaims⟩
  | whenAny | remove ticket => exact ⟨h.1, h.2.1, h.2.2.imp_right hclaims⟩
  | record ticket => exact ⟨h.1, hsite h.2⟩
  | done => exact ⟨h.1, hclaims h.2⟩

omit hT in
/-- A task that has an outcome keeps one when another completes. -/
lemma lookup_cons_isSome {c : List (ℤ × Outcome)} {ticket : ℤ} (entry : ℤ × Outcome)
    (h : (c.lookup ticket).isSome) : ((entry :: c).lookup ticket).isSome := by
  obtain ⟨t, outcome⟩ := entry
  rw [List.lookup_cons]
  split
  · rfl
  · exact h

omit hT in
/-- A worker keeps its window when it takes a step. -/
lemma fits_step {s t : Shared} {l k : Local} (hd : 0 < phase.pipelineDepth)
    (hle : s.claims ≤ s.requestCount) (hover : t.claims < t.requestCount →
      t.claims = phase.totalTargetRequests) (hstep : Steps phase s l t k)
    (h : Fits phase s l) : Fits phase t k := by
  cases hstep with
  | round hi => exact ⟨h.1, hi⟩
  | filled hi =>
    obtain ⟨hsize, hfill⟩ := h
    exact ⟨hsize.le.trans hfill, .inl (hsize.trans (le_antisymm hfill hi))⟩
  | claim hlt =>
    rename_i site p c
    refine ⟨?_, fun hge => by omega⟩
    cases site with
    | fill i => exact h
    | refill =>
      refine ⟨h.1, h.2.imp_right fun hall => ?_⟩
      omega
  | overclaim hge =>
    refine ⟨h, fun _ => hover ?_⟩
    dsimp only
    omega
  | accept => exact h.1
  | reject hge => exact ⟨h.1, h.2 hge⟩
  | undo =>
    rename_i site p c
    obtain ⟨hsite, hall⟩ := h
    cases site with
    | fill i => exact ⟨hsite.1.le.trans hsite.2.le, .inr hall⟩
    | refill => exact ⟨hsite.1.le, .inr hall⟩
  | submit =>
    rename_i site ticket p c
    have hlength : (p ++ [ticket]).length = p.length + 1 := List.length_append
    cases site with
    | fill i =>
      refine ⟨?_, h.2⟩
      dsimp only
      rw [hlength, h.1]
    | refill =>
      unfold Fits
      dsimp only [Site.accepted]
      rw [hlength]
      exact h
  | wait hne => exact ⟨hne, h⟩
  | finish => exact ⟨rfl, h.2.resolve_left hd.ne⟩
  | any hmem hdone => exact ⟨⟨hmem, hdone⟩, h.2⟩
  | remove =>
    obtain ⟨⟨hmem, hdone⟩, hsize, hfull⟩ := h
    have hlength := List.length_erase_add_one hmem
    dsimp only at hmem hsize hfull hlength
    rw [← hlength] at hsize hfull
    exact ⟨hdone, hsize, hfull⟩
  | record => exact h.2
  | complete hmem hnone =>
    rename_i pc p c ticket outcome
    cases pc with
    | remove ticket' => exact ⟨⟨h.1.1, lookup_cons_isSome _ h.1.2⟩, h.2⟩
    | record ticket' => exact ⟨lookup_cons_isSome _ h.1, h.2⟩
    | _ => exact h
  | _ => exact h

/-- Every worker keeps its window. -/
theorem fits (hd : 0 < phase.pipelineDepth) (h : (workload phase).Reachable s)
    (w : Fin phase.workers) :
    Fits phase s.shared (s.locals w) := by
  refine Pool.locals_induction (P := workload phase) (I := fun _ => Fits phase) ?_ ?_ ?_ h w
  · exact fun v => ⟨rfl, Nat.zero_le _⟩
  · intro s w e s' hs hs' hI hstep
    exact fits_step hd (claims_le hT hs).1 (claims_le hT hs').2.2 (steps_of_next hT hs hstep) hI
  · intro s w e s' v hs hs' _ hI hstep
    have hstep := steps_of_next hT hs hstep
    have hle := (claims_le hT hs').2.1
    refine fits_mono (fun hall => ?_) hI
    generalize s.locals w = l, s'.locals w = k at hstep
    generalize s'.shared = t at hstep hle ⊢
    cases hstep with
    | claim hlt =>
      dsimp only at hle
      omega
    | _ => exact hall

omit hT in
/-- A worker never has more tasks pending than its pipeline holds. -/
lemma Fits.length_le {s : Shared} {l : Local} (h : Fits phase s l) :
    l.pending.length ≤ phase.pipelineDepth := by
  have hsite : ∀ {n} {site : Site}, site.Fits phase s n → n ≤ phase.pipelineDepth := by
    intro n site h
    cases site with
    | fill i => exact h.1.le.trans h.2.le
    | refill => exact h.1.le
  obtain ⟨pc, p, c⟩ := l
  cases pc with
  | fill i => exact h.1.le.trans h.2
  | deadline | claim | submit => exact hsite h
  | compare | undo => exact hsite h.1
  | event => exact h.1
  | whenAny | remove => exact h.2.1
  | record => exact h.2.1.le
  | count | recheck => exact h.1.le
  | done => exact (congrArg List.length h.1).le.trans (Nat.zero_le _)

omit hT in
/-- A task that is removed is pending. -/
lemma Fits.mem_pending {s : Shared} {l : Local} {ticket : ℤ} (h : Fits phase s l)
    (hpc : l.pc = .remove ticket) :
    ticket ∈ l.pending := by
  obtain ⟨pc, p, c⟩ := l
  cases hpc
  exact h.1.1

/-- Every claimed ticket is recorded or held by a worker, and the claimed tickets are
consecutive. -/
theorem tickets_eq (hd : 0 < phase.pipelineDepth) (h : (workload phase).Reachable s) :
    (Multiset.range s.shared.claims).map (fun i : ℕ => (i : ℤ))
      = (s.shared.recorded.map Prod.fst : Multiset ℤ) + ∑ w, held phase (s.locals w) :=
  (counter hT).tickets_eq (fun s => (s.recorded.map Prod.fst : Multiset ℤ)) (held phase)
    ⟨rfl, fun _ => rfl⟩
    (fun hs hstep => follows_of_steps (steps_of_next hT hs hstep) fun _ hpc =>
      (fits hT hd hs _).mem_pending hpc) h

/-! ## Every run ends -/

/-- The tasks that have not completed. -/
def unfinished (l : Local) : List ℤ := l.pending.filter fun ticket => (l.outcome ticket).isNone

/-- How many steps a worker can take before it claims a request: a round of its event loop for every
pending task, the completion of every task, and the rest of its current round. -/
def weight (phase : Phase) (l : Local) : ℕ :=
  10 * l.pending.length + (unfinished l).length +
    match l.pc with
    | .fill _ => 7
    | .deadline _ => 6
    | .claim _ => 5
    | .compare _ claimed => if phase.totalTargetRequests ≤ claimed then 4 else 20
    | .undo _ => 3
    | .submit _ _ => 19
    | .event => 2
    | .whenAny => 1
    | .remove _ => 0
    | .record _ => 9
    | .count => 8
    | .recheck => 7
    | .done => 0

/-- What all workers can still do; a claim adds at most 16 steps. -/
def remaining (phase : Phase) (s : Pool.State (Fin phase.workers) Shared Local) : ℕ :=
  16 * (phase.totalTargetRequests.toNat - s.shared.claims) + ∑ w, weight phase (s.locals w)

omit hT in
/-- A new task has not completed or has an outcome of an earlier one. -/
lemma unfinished_append_le (pc : Pc) (p : List ℤ) (c : List (ℤ × Outcome)) (pc' : Pc) (ticket : ℤ) :
    (unfinished ⟨pc', p ++ [ticket], c⟩).length ≤ (unfinished ⟨pc, p, c⟩).length + 1 := by
  have hone : ([ticket].filter fun t => (c.lookup t).isNone).length ≤ 1 := List.length_filter_le _ _
  simp only [unfinished, Local.outcome, List.filter_append, List.length_append]
  omega

omit hT in
/-- The completion of a task leaves fewer of them unfinished. -/
lemma unfinished_complete_lt (pc : Pc) {p : List ℤ} {c : List (ℤ × Outcome)} {ticket : ℤ}
    (outcome : Outcome) (hmem : ticket ∈ p) (hnone : c.lookup ticket = none) :
    (unfinished ⟨pc, p, (ticket, outcome) :: c⟩).length < (unfinished ⟨pc, p, c⟩).length := by
  have hsub : ∀ t, ((((ticket, outcome) :: c).lookup t).isNone = true) →
      ((c.lookup t).isNone = true) := by
    intro t ht
    rw [List.lookup_cons] at ht
    split at ht
    · cases ht
    · exact ht
  have hlater : unfinished ⟨pc, p, (ticket, outcome) :: c⟩
      = (unfinished ⟨pc, p, c⟩).filter fun t => (((ticket, outcome) :: c).lookup t).isNone := by
    simp only [unfinished, Local.outcome, List.filter_filter]
    refine List.filter_congr fun t _ => ?_
    rw [Bool.eq_iff_iff, Bool.and_eq_true]
    exact ⟨fun ht => ⟨ht, hsub t ht⟩, And.left⟩
  rw [hlater]
  refine List.length_filter_lt_length_iff_exists.mpr ⟨ticket, ?_, ?_⟩
  · rw [unfinished, List.mem_filter]
    exact ⟨hmem, by rw [Local.outcome, hnone]; rfl⟩
  · simp

omit hT in
/-- A step of a worker uses up weight, or claims a request. -/
lemma weight_step {s t : Shared} {l k : Local} (hfits : Fits phase s l)
    (hstep : Steps phase s l t k) :
    (t.claims = s.claims ∧ weight phase k < weight phase l) ∨
      (t.claims = s.claims + 1 ∧ s.requestCount < phase.totalTargetRequests ∧
        weight phase k < weight phase l + 16) := by
  cases hstep with
  | claim hlt =>
    refine .inr ⟨rfl, hlt, ?_⟩
    simp only [weight, if_neg (not_le.mpr hlt), unfinished, Local.outcome]
    omega
  | overclaim hge =>
    refine .inl ⟨rfl, ?_⟩
    simp only [weight, if_pos hge, unfinished, Local.outcome]
    omega
  | accept hlt =>
    refine .inl ⟨rfl, ?_⟩
    simp only [weight, if_neg (not_le.mpr hlt), unfinished, Local.outcome]
    omega
  | reject hge =>
    refine .inl ⟨rfl, ?_⟩
    simp only [weight, if_pos hge, unfinished, Local.outcome]
    omega
  | submit =>
    rename_i site ticket p c
    refine .inl ⟨rfl, ?_⟩
    have hadded := unfinished_append_le (.submit site ticket) p c site.accepted ticket
    cases site <;> simp only [weight, Site.accepted, List.length_append, List.length_singleton]
      at hadded ⊢ <;>
      omega
  | finish =>
    refine .inl ⟨rfl, ?_⟩
    simp [weight, unfinished]
  | remove =>
    rename_i ticket p c
    refine .inl ⟨rfl, ?_⟩
    have hlength := List.length_erase_add_one hfits.1.1
    have hsub := ((List.erase_sublist (a := ticket) (l := p)).filter
      fun t => (c.lookup t).isNone).length_le
    simp only [weight, unfinished, Local.outcome] at hlength hsub ⊢
    omega
  | complete hmem hnone =>
    rename_i pc p c ticket outcome
    refine .inl ⟨rfl, ?_⟩
    have hlt := unfinished_complete_lt pc outcome hmem hnone
    simp only [weight]
    omega
  | _ =>
    refine .inl ⟨rfl, ?_⟩
    simp only [weight, unfinished, Local.outcome]
    omega

/-- No run goes on for ever. -/
theorem length_le (hd : 0 < phase.pipelineDepth) {events : List (Fin phase.workers × Event)}
    (h : (workload phase).run events (workload phase).init = some s) :
    events.length ≤ 16 * phase.totalTargetRequests.toNat + 7 * phase.workers := by
  have hdecreases : ∀ s w e s', (workload phase).Reachable s →
    (workload phase).next w e s = some s' →
      remaining phase s' < remaining phase s := by
    intro s w e s' hs hnext
    obtain ⟨rest, hbefore, hafter⟩ := Pool.next_sum hnext fun _ l => weight phase l
    have hle := (claims_le hT (hs.next hnext)).2.1
    rw [remaining, remaining, hbefore, hafter]
    rcases weight_step (fits hT hd hs w) (steps_of_next hT hs (Pool.next_eq_some hnext).1) with
      ⟨hclaims, hlt⟩ | ⟨hclaims, -, hlt⟩ <;> omega
  have hlength := Pool.length_run_le (remaining phase) hdecreases .init h
  have hinit : remaining phase (workload phase).init
      = 16 * phase.totalTargetRequests.toNat + 7 * phase.workers := by
    simp [remaining, workload, Pool.init, weight, unfinished, mul_comm]
  omega

/-- All workers have left their loops. -/
def Finished (s : Pool.State (Fin phase.workers) Shared Local) : Prop :=
  ∀ w, (s.locals w).pc = .done

omit hT in
instance : Decidable (Finished s) := by
  unfold Finished
  infer_instance

/-- Nothing can happen any more, neither a step of a worker nor the completion of a task. -/
def Stuck (s : Pool.State (Fin phase.workers) Shared Local) : Prop :=
  ∀ w e, (workload phase).next w e s = none

/-- When nothing can happen any more all workers have left their loops. -/
theorem finished_of_stuck (hd : 0 < phase.pipelineDepth) (h : (workload phase).Reachable s)
    (hstuck : Stuck s) : Finished s := by
  intro w
  have hfits := fits hT hd h w
  have hnone : ∀ e, step phase e s.shared (s.locals w) = none := fun e =>
    Option.map_eq_none_iff.mp (hstuck w e)
  generalize s.locals w = l at hfits hnone ⊢
  obtain ⟨pc, p, c⟩ := l
  cases pc with
  | done => rfl
  | deadline site => cases hnone (.time false)
  | claim site =>
    have hrun := hnone .run
    simp only [step, run, if_pos hT] at hrun
    cases hrun
  | whenAny =>
    -- some task is pending: it completes, or the worker goes on with it
    obtain ⟨ticket, hmem⟩ := List.exists_mem_of_ne_nil p hfits.1
    cases hdone : c.lookup ticket with
    | none =>
      have hcomplete := hnone (.complete ticket .faulted)
      simp only [step] at hcomplete
      rw [if_pos ⟨hmem, hdone⟩] at hcomplete
      cases hcomplete
    | some outcome =>
      have hany := hnone (.any ticket)
      simp only [step] at hany
      rw [if_pos ⟨trivial, hmem, Option.isSome_iff_exists.mpr ⟨outcome, hdone⟩⟩] at hany
      cases hany
  | record ticket =>
    have hrun := hnone .run
    exact absurd (Option.map_eq_none_iff.mp hrun) (Option.isSome_iff_ne_none.mp hfits.1)
  | _ => cases hnone .run

/-! ## The end of a phase -/

/-- When all workers have left their loops every request is recorded once. -/
theorem recorded_of_finished (hd : 0 < phase.pipelineDepth) (hW : 0 < phase.workers)
    (h : (workload phase).Reachable s) (hdone : Finished s) :
    (s.shared.recorded.map Prod.fst : Multiset ℤ)
      = (Multiset.range phase.totalTargetRequests.toNat).map fun i : ℕ => (i : ℤ) := by
  have hfits := fun w => fits hT hd h w
  simp only [Fits, hdone _] at hfits
  have hheld : ∑ w, held phase (s.locals w) = 0 :=
    Finset.sum_eq_zero fun w _ => by rw [held, hdone w, (hfits w).1, Multiset.coe_nil]
  have htickets := tickets_eq hT hd h
  rw [hheld, add_zero] at htickets
  rw [← htickets, ← (hfits ⟨0, hW⟩).2, Int.toNat_natCast]

end RequestBased

/-- What the loop promises in a state: at most the depth of the pipeline is pending, only claimed
requests are recorded and each of them once, nothing is pending when a worker has left its loop,
all workers have left their loops when nothing can happen any more, and then each request of the
target is recorded once. -/
structure Sound (phase : Phase) (s : Pool.State (Fin phase.workers) Shared Local) : Prop where
  bounded : ∀ w, (s.locals w).pending.length ≤ phase.pipelineDepth
  once : (s.shared.recorded.map Prod.fst : Multiset ℤ)
    ≤ (Multiset.range s.shared.claims).map fun i : ℕ => (i : ℤ)
  emptied : ∀ w, (s.locals w).pc = .done → (s.locals w).pending = []
  ends : Stuck s → Finished s
  exact : Finished s → (s.shared.recorded.map Prod.fst : Multiset ℤ)
      = (Multiset.range phase.totalTargetRequests.toNat).map (fun i : ℕ => (i : ℤ)) ∧
    s.shared.recorded.length = phase.totalTargetRequests

/-- The loop keeps its promises in every state of every run, and every run is finite. -/
theorem pipelined_sound (phase : Phase) (hd : 1 < phase.pipelineDepth)
    (hT : 0 < phase.totalTargetRequests) (hW : 0 < phase.workers) :
    (∀ s, (workload phase).Reachable s → Sound phase s) ∧
      ∀ events s, (workload phase).run events (workload phase).init = some s →
        events.length ≤ 16 * phase.totalTargetRequests.toNat + 7 * phase.workers := by
  have hd : 0 < phase.pipelineDepth := by omega
  refine ⟨fun s h => ⟨fun w => (fits hT hd h w).length_le, ?_, fun w hpc => ?_,
    finished_of_stuck hT hd h, fun hdone => ?_⟩, fun events s => length_le hT hd⟩
  · rw [tickets_eq hT hd h]
    exact Multiset.le_add_right _ _
  · have hfits := fits hT hd h w
    rw [Fits, hpc] at hfits
    exact hfits.1
  · have hrecorded := recorded_of_finished hT hd hW h hdone
    have hcard := congrArg Multiset.card hrecorded
    rw [Multiset.coe_card, List.length_map, Multiset.card_map, Multiset.card_range] at hcard
    exact ⟨hrecorded, by omega⟩

end

/-- Three requests for two workers, whose pipelines hold two. -/
def smallPhase : Phase := ⟨2, 2, 3⟩

/-- The first worker takes all requests, and the second of its tasks completes first, faulted. -/
def smallRun : List (Fin 2 × Event) :=
  let first (events : List Event) : List (Fin 2 × Event) := events.map (⟨0, Nat.zero_lt_two⟩, ·)
  let second (events : List Event) : List (Fin 2 × Event) := events.map (⟨1, Nat.one_lt_two⟩, ·)
  first [.run, .time false, .run, .run, .run, .run, .time false, .run, .run, .run, .run, .run] ++
    first [.complete 1 .faulted, .any 1, .run, .run, .run, .run, .time false, .run, .run,
      .run, .run] ++
    second [.run, .time false, .run, .run, .run, .run] ++
    first [.complete 0 (.result true), .any 0, .run, .run, .run, .run, .time false, .run, .run,
      .run, .run] ++
    first [.complete 2 (.result false), .any 2, .run, .run, .run, .run, .time false, .run,
      .run, .run, .run]

/-- The state that this run ends in. -/
def smallEnd : Pool.State (Fin smallPhase.workers) Shared Local :=
  ((workload smallPhase).run smallRun (workload smallPhase).init).get (by decide +kernel)

/-- Each request is recorded once. -/
theorem smallEnd_sound : Finished smallEnd ∧ smallEnd.shared.recorded.length = (3 : ℤ) ∧
    smallRun.length ≤ 62 := by
  have hrun : (workload smallPhase).run smallRun (workload smallPhase).init = some smallEnd :=
    (Option.some_get _).symm
  have hdone : Finished smallEnd := by decide +kernel
  obtain ⟨hsound, hlength⟩ := pipelined_sound smallPhase (by decide) (by decide) (by decide)
  exact ⟨hdone, ((hsound smallEnd (Pool.Reachable.run .init hrun)).exact hdone).2, hlength _ _ hrun⟩

end RespBench.CSharp
