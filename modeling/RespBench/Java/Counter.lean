import RespBench.Java.Workers
import RespBench.Lib.Tickets

/-!
# The claim counter

What `requestCount` says about a request-based phase, in every interleaving. `requestCount_eq` is
its book: the counter is the number of claims, and one more for every worker that claimed too much
and has not taken it back. `claims_le` bounds the claims, and `tickets_eq` follows every claimed
ticket to its record. `fits` says how many futures a worker has pending, and `claims_of_finished`
that all requests are claimed when all workers have left their loops.
-/

namespace RespBench.Java
open RespBench.Lib
open RespBench.Lib.Tickets (Counter)

/-! ## What a step does -/

/-- The steps of a worker of a request-based phase, one rule for each. -/
inductive Steps (phase : Phase) : Shared → Local → Shared → Local → Prop where
  | enter {s p c} : s.running = true → Steps phase s ⟨.top, p, c⟩ s ⟨.deadline .sync, p, c⟩
  | leave {s p c} : s.running = false → Steps phase s ⟨.top, p, c⟩ s ⟨.done, p, c⟩
  | round {s i p c} : i < phase.pipelineDepth → s.running = true →
    Steps phase s ⟨.fill i, p, c⟩ s ⟨.deadline (.fill i), p, c⟩
  | filled {s i p c} : ¬ (i < phase.pipelineDepth ∧ s.running = true) →
    Steps phase s ⟨.fill i, p, c⟩ s ⟨.event, p, c⟩
  | clock {s site p c} : Steps phase s ⟨.deadline site, p, c⟩ s ⟨.claim site, p, c⟩
  | claim {s site p c} : s.requestCount < phase.totalTargetRequests →
    Steps phase s ⟨.claim site, p, c⟩
      { s with requestCount := s.requestCount + 1, claims := s.claims + 1 }
      ⟨.compare site s.requestCount, p, c⟩
  | overclaim {s site p c} : phase.totalTargetRequests ≤ s.requestCount →
    Steps phase s ⟨.claim site, p, c⟩ { s with requestCount := s.requestCount + 1 }
      ⟨.compare site s.requestCount, p, c⟩
  | accept {s site claimed p c} : claimed < phase.totalTargetRequests →
    Steps phase s ⟨.compare site claimed, p, c⟩ s ⟨.submit site claimed, p, c⟩
  | reject {s site claimed p c} : phase.totalTargetRequests ≤ claimed →
    Steps phase s ⟨.compare site claimed, p, c⟩ s ⟨.undo site, p, c⟩
  | undo {s site p c} :
    Steps phase s ⟨.undo site, p, c⟩ { s with requestCount := s.requestCount - 1 }
      ⟨site.refused, p, c⟩
  | send {s ticket p c} : Steps phase s ⟨.submit .sync ticket, p, c⟩ s ⟨.join ticket, p, c⟩
  | fill {s i ticket p c} :
    Steps phase s ⟨.submit (.fill i) ticket, p, c⟩ s ⟨.fill (i + 1), p.add ticket, c⟩
  | refill {s it ticket p c} :
    Steps phase s ⟨.submit (.refill it) ticket, p, c⟩ s ⟨.scan it, p.add ticket, c⟩
  | join {s ticket p c} : Steps phase s ⟨.join ticket, p, c⟩ s ⟨.record .sync ticket, p, c⟩
  | wait {s p c} : p.elems ≠ [] → s.running = true → Steps phase s ⟨.event, p, c⟩ s ⟨.anyOf, p, c⟩
  | finish {s p c} : p.elems = [] ∨ s.running = false → Steps phase s ⟨.event, p, c⟩ s ⟨.done, p, c⟩
  | wake {s p c} : Steps phase s ⟨.anyOf, p, c⟩ s ⟨.scan p.iterator, p, c⟩
  | skip {s it ticket it'} {p : ArrayList ℤ} {c} : p.next it = .ok (ticket, it') →
    Steps phase s ⟨.scan it, p, c⟩ s ⟨.scan it', p, c⟩
  | remove {s it ticket it' it''} {p p' : ArrayList ℤ} {c} : p.next it = .ok (ticket, it') →
    p.remove it' = .ok (p', it'') →
    Steps phase s ⟨.scan it, p, c⟩ s ⟨.record (.refill it'') ticket, p', c⟩
  | fail {s it e} {p : ArrayList ℤ} {c} : p.hasNext it = true → p.next it = .error e →
    Steps phase s ⟨.scan it, p, c⟩ { s with running := false } ⟨.failed, p, c⟩
  | rest {s it p c} : Steps phase s ⟨.scan it, p, c⟩ s ⟨.event, p, c⟩
  | record {s site ticket outcome p c} :
    Steps phase s ⟨.record site ticket, p, c⟩
      { s with recorded := s.recorded ++ [(ticket, outcome)] } ⟨.count site, p, c⟩
  | count {s site p c} : Steps phase s ⟨.count site, p, c⟩ s ⟨site.recorded, p, c⟩
  | resume {s it p c} : s.running = true →
    Steps phase s ⟨.recheck it, p, c⟩ s ⟨.deadline (.refill it), p, c⟩
  | cease {s it p c} : s.running = false → Steps phase s ⟨.recheck it, p, c⟩ s ⟨.scan it, p, c⟩
  | complete {s pc p c ticket outcome} :
    Steps phase s ⟨pc, p, c⟩ s ⟨pc, p, (ticket, outcome) :: c⟩

section
variable {phase : Phase}

/-- The scan of the pending futures follows a rule. -/
lemma steps_of_scan {s t : Shared} {it : ArrayList.Itr} {p : ArrayList ℤ} {c : List (ℤ × Outcome)}
    {k : Local} (h : run phase s ⟨.scan it, p, c⟩ = some (t, k)) :
    Steps phase s ⟨.scan it, p, c⟩ t k := by
  simp only [run] at h
  split at h
  next hhas =>
    split at h
    next e hnext =>
      cases h
      exact .fail hhas hnext
    next ticket it' hnext =>
      obtain ⟨-, p', it'', hremove, -, -⟩ := ArrayList.remove_of_next hnext
      rw [hremove] at h
      split at h
      · cases h
        exact .remove hnext hremove
      · cases h
        exact .skip hnext
  next =>
    cases h
    exact .rest

/-- Every operation of a worker follows a rule. -/
lemma steps_of_run (hT : 0 < phase.totalTargetRequests) {s t : Shared} {l k : Local}
    (h : run phase s l = some (t, k)) : Steps phase s l t k := by
  obtain ⟨pc, p, c⟩ := l
  cases pc with
  | top =>
    cases hrun : s.running <;> simp only [run, hrun] at h <;> cases h
    · exact .leave hrun
    · exact .enter hrun
  | fill i =>
    simp only [run] at h
    split at h <;> cases h
    next hi => exact .round hi.1 hi.2
    next hi => exact .filled hi
  | deadline site => cases h
  | claim site =>
    simp only [run, if_pos hT] at h
    split at h <;> cases h
    next hlt => exact .claim hlt
    next hle => exact .overclaim (not_lt.mp hle)
  | compare site claimed =>
    simp only [run] at h
    split at h <;> cases h
    next hge => exact .reject hge
    next hlt => exact .accept (not_le.mp hlt)
  | undo site =>
    cases h
    exact .undo
  | submit site ticket =>
    cases site <;> cases h
    · exact .send
    · exact .fill
    · exact .refill
  | join ticket =>
    simp only [run] at h
    split at h <;> cases h
    exact .join
  | event =>
    by_cases hw : (!p.isEmpty) = true ∧ s.running = true
    · simp only [run, if_pos hw] at h
      cases h
      exact .wait (by simpa [ArrayList.isEmpty] using hw.1) hw.2
    · simp only [run, if_neg hw] at h
      cases h
      exact .finish (by simpa [ArrayList.isEmpty, or_iff_not_imp_left] using hw)
  | anyOf =>
    simp only [run] at h
    split at h <;> cases h
    exact .wake
  | scan it => exact steps_of_scan h
  | record site ticket =>
    obtain ⟨outcome, -, hr⟩ := Option.map_eq_some_iff.mp h
    cases hr
    exact .record
  | count site =>
    simp only [run, if_neg (not_le.mpr hT)] at h
    cases h
    exact .count
  | recheck it =>
    cases hrun : s.running <;> simp only [run, hrun] at h <;> cases h
    · exact .cease hrun
    · exact .resume hrun
  | done => cases h
  | failed => cases h

/-- Every event of a worker follows a rule. -/
lemma steps_of_step (hT : 0 < phase.totalTargetRequests) {event : Event}
    {s t : Shared} {l k : Local} (h : step phase event s l = some (t, k)) :
    Steps phase s l t k := by
  cases event with
  | run => exact steps_of_run hT h
  | time expired =>
    obtain ⟨pc, p, c⟩ := l
    cases pc <;> simp only [step, if_pos hT, reduceCtorEq] at h
    split at h <;> cases h
    exact .clock
  | complete ticket outcome =>
    simp only [step] at h
    split at h <;> cases h
    exact .complete

variable {s : Pool.State (Fin phase.workers) Shared Local}

/-! ## The books of the workers -/

/-- A worker that claimed too much and has not undone it. -/
def overclaims (phase : Phase) (l : Local) : ℕ :=
  match l.pc with
  | .compare _ claimed => if phase.totalTargetRequests ≤ claimed then 1 else 0
  | .undo _ => 1
  | _ => 0

/-- The tickets that a worker claimed and has not recorded. -/
def held (phase : Phase) (l : Local) : Multiset ℤ :=
  match l.pc with
  | .compare _ claimed => if phase.totalTargetRequests ≤ claimed then l.pending.elems else
      claimed ::ₘ (l.pending.elems : Multiset ℤ)
  | .submit _ ticket => ticket ::ₘ (l.pending.elems : Multiset ℤ)
  | .join ticket => ticket ::ₘ (l.pending.elems : Multiset ℤ)
  | .record _ ticket => ticket ::ₘ (l.pending.elems : Multiset ℤ)
  | _ => l.pending.elems

/-- What a step does to the counter. -/
lemma draws_of_steps {s t : Shared} {l k : Local} (h : Steps phase s l t k) :
    Tickets.Draws phase.totalTargetRequests s.requestCount s.claims (overclaims phase l)
      t.requestCount t.claims
      (overclaims phase k) := by
  cases h with
  | claim hlt =>
    simp only [overclaims, if_neg (not_le.mpr hlt)]
    exact .claim hlt
  | overclaim hle =>
    simp only [overclaims, if_pos hle]
    exact .overclaim hle
  | accept hlt =>
    simp only [overclaims, if_neg (not_le.mpr hlt)]
    exact .rest
  | reject hle =>
    simp only [overclaims, if_pos hle]
    exact .rest
  | undo =>
    rename_i site _ _
    cases site <;> exact .undo
  | count =>
    rename_i site _ _
    cases site <;> exact .rest
  | _ => exact .rest

/-- What a step does to the ticket of the worker that takes it. -/
lemma follows_of_steps {s t : Shared} {l k : Local} (h : Steps phase s l t k) :
    Counter.Follows phase.totalTargetRequests s.requestCount s.claims (s.recorded.map Prod.fst)
    (held phase l)
      t.claims (t.recorded.map Prod.fst) (held phase k) := by
  cases h with
  | claim hlt =>
    simp only [held, if_neg (not_le.mpr hlt)]
    exact .claim hlt
  | accept hlt =>
    simp only [held, if_neg (not_le.mpr hlt)]
    exact .rest
  | overclaim hge | reject hge =>
    simp only [held, if_pos hge]
    exact .rest
  | undo | count =>
    rename_i site _ _
    cases site <;> exact .rest
  | fill | refill =>
    simp only [held, ArrayList.add_elems, Pool.coe_concat]
    exact .rest
  | remove hnext hremove =>
    obtain ⟨-, p', it'', hremove', hperm, -⟩ := ArrayList.remove_of_next hnext
    cases hremove.symm.trans hremove'
    simp only [held, Multiset.cons_coe, Multiset.coe_eq_coe.mpr hperm]
    exact .rest
  | record =>
    simp only [held, List.map_append, List.map_cons, List.map_nil, Pool.coe_concat]
    exact .record rfl
  | _ => exact .rest

/-- No worker starts with a claim. -/
lemma initially_empty (w : Fin phase.workers) :
    overclaims phase ((workload phase).locals w) = 0 ∧
    held phase ((workload phase).locals w) = 0 := by
  simp only [workload]
  split <;> exact ⟨rfl, rfl⟩

/-- No claim is left, or the workers are stopped. -/
def Closed (phase : Phase) (s : Shared) : Prop :=
  s.claims = phase.totalTargetRequests ∨ s.running = false

/-- The number of pending futures of a worker that claims at a site. -/
def Site.Fits (phase : Phase) (s : Shared) (n : ℕ) : Site → Prop
  | .sync => n = 0
  | .fill i => n = i ∧ i < phase.pipelineDepth
  | .refill _ => n < phase.pipelineDepth ∧ (n + 1 = phase.pipelineDepth ∨ Closed phase s)

/-- The number of pending futures of a worker: the pipeline is filled round by round, and stays
filled until no claim is left or the workers are stopped. -/
def Fits (phase : Phase) (s : Shared) (l : Local) : Prop :=
  match l.pc with
  | .top | .join _ => l.pending.size = 0
  | .fill i => l.pending.size = i ∧ i ≤ phase.pipelineDepth ∧ 0 < phase.pipelineDepth
  | .deadline site | .claim site | .submit site _ | .record site _ | .count site =>
    site.Fits phase s l.pending.size
  | .compare site claimed => site.Fits phase s l.pending.size ∧
      (phase.totalTargetRequests ≤ claimed → s.claims = phase.totalTargetRequests)
  | .undo site => site.Fits phase s l.pending.size ∧ s.claims = phase.totalTargetRequests
  | .event | .anyOf | .scan _ => 0 < phase.pipelineDepth ∧ l.pending.size ≤ phase.pipelineDepth ∧
      (l.pending.size = phase.pipelineDepth ∨ Closed phase s)
  | .recheck it => (Site.refill it).Fits phase s l.pending.size
  | .done => l.pending.size ≤ phase.pipelineDepth ∧ Closed phase s
  | .failed => l.pending.size ≤ phase.pipelineDepth

section RequestBased
variable (hT : 0 < phase.totalTargetRequests)
include hT

/-- The workers of a request-based phase draw their tickets from `requestCount`. -/
def counter : Counter (workload phase) phase.totalTargetRequests where
  count := Shared.requestCount
  claims := Shared.claims
  excess := overclaims phase
  target_nonneg := hT.le
  count_init := rfl
  claims_init := rfl
  excess_init := fun w => (initially_empty w).1
  draws := fun _ hstep => draws_of_steps (steps_of_step hT hstep)

/-- The counter is the number of claims, and one more for every claim too much that is not
undone. -/
theorem requestCount_eq (h : (workload phase).Reachable s) :
    s.shared.requestCount = s.shared.claims + ∑ w, (overclaims phase (s.locals w) : ℤ) :=
  (counter hT).count_eq h

/-- There are at most as many claims as the target, and a claim too much means that there are as
many. -/
theorem claims_le (h : (workload phase).Reachable s) :
    s.shared.claims ≤ s.shared.requestCount ∧ s.shared.claims ≤ phase.totalTargetRequests ∧
      (s.shared.claims < s.shared.requestCount → s.shared.claims = phase.totalTargetRequests) :=
  ⟨(counter hT).claims_le_count h, (counter hT).claims_le h⟩

/-- The counter exceeds the target by the number of workers at most. -/
theorem requestCount_bounds (h : (workload phase).Reachable s) :
    0 ≤ s.shared.requestCount ∧ s.shared.requestCount ≤ phase.totalTargetRequests
      + phase.workers := by
  have hbounds := (counter hT).count_bounds h
  rwa [Fintype.card_fin] at hbounds

/-- Every claimed ticket is recorded or held by a worker, and the claimed tickets are
consecutive. -/
theorem tickets_eq (h : (workload phase).Reachable s) :
    (Multiset.range s.shared.claims).map (fun i : ℕ => (i : ℤ))
      = (s.shared.recorded.map Prod.fst : Multiset ℤ) + ∑ w, held phase (s.locals w) :=
  (counter hT).tickets_eq (fun s => (s.recorded.map Prod.fst : Multiset ℤ)) (held phase)
    ⟨rfl, fun w => (initially_empty w).2⟩ (fun _ hstep =>
      follows_of_steps (steps_of_step hT hstep)) h

/-! ## The windows of the workers -/

omit hT in
/-- A step neither takes back a claim nor starts stopped workers again. -/
lemma shared_mono {s t : Shared} {l k : Local} (h : Steps phase s l t k) :
    s.claims ≤ t.claims ∧ (s.running = false → t.running = false) := by
  cases h with
  | claim => exact ⟨Nat.le_succ _, id⟩
  | fail => exact ⟨le_rfl, fun _ => rfl⟩
  | _ => exact ⟨le_rfl, id⟩

omit hT in
/-- The window at a site does not depend on what the others do. -/
lemma Site.fits_mono {s t : Shared} {n : ℕ} {site : Site}
    (hclosed : Closed phase s → Closed phase t) (h : site.Fits phase s n) :
    site.Fits phase t n := by
  cases site with
  | refill it => exact ⟨h.1, h.2.imp_right hclosed⟩
  | _ => exact h

omit hT in
/-- The window of a worker does not depend on what the others do. -/
lemma fits_mono {s t : Shared} {l : Local} (hclaims : s.claims = phase.totalTargetRequests →
    t.claims = phase.totalTargetRequests) (hrunning : s.running = false → t.running = false)
    (h : Fits phase s l) : Fits phase t l := by
  have hclosed : Closed phase s → Closed phase t := Or.imp hclaims hrunning
  obtain ⟨pc, p, c⟩ := l
  cases pc with
  | compare site claimed => exact ⟨Site.fits_mono hclosed h.1, fun hle => hclaims (h.2 hle)⟩
  | undo site => exact ⟨Site.fits_mono hclosed h.1, hclaims h.2⟩
  | event | anyOf | scan it => exact ⟨h.1, h.2.1, h.2.2.imp_right hclosed⟩
  | recheck it => exact ⟨h.1, h.2.imp_right hclosed⟩
  | done => exact ⟨h.1, hclosed h.2⟩
  | deadline | claim | submit | record | count => exact Site.fits_mono hclosed h
  | _ => exact h

omit hT in
/-- A worker keeps its window when it takes a step. -/
lemma fits_step {s t : Shared} {l k : Local} (hle : s.claims ≤ s.requestCount)
    (hover : t.claims < t.requestCount → t.claims = phase.totalTargetRequests)
    (hstep : Steps phase s l t k) (h : Fits phase s l) : Fits phase t k := by
  cases hstep with
  | leave hrun => exact ⟨le_of_eq_of_le h (Nat.zero_le _), .inr hrun⟩
  | round hi => exact ⟨h.1, hi⟩
  | filled hi =>
    obtain ⟨hsize, hfill, hpos⟩ := h
    refine ⟨hpos, hsize ▸ hfill, ?_⟩
    by_cases hrun : s.running = true
    · exact .inl (hsize.trans (le_antisymm hfill (not_lt.mp fun hlt => hi ⟨hlt, hrun⟩)))
    · exact .inr (.inr (by simpa using hrun))
  | claim hlt =>
    refine ⟨Site.fits_mono ?_ h, fun hge => by omega⟩
    rintro (heq | hrun)
    · omega
    · exact .inr hrun
  | overclaim hge =>
    refine ⟨Site.fits_mono id h, fun _ => hover ?_⟩
    dsimp only
    omega
  | accept => exact h.1
  | reject hge => exact ⟨h.1, h.2 hge⟩
  | undo =>
    rename_i site _ _
    obtain ⟨hsite, hall⟩ := h
    cases site with
    | sync => exact ⟨le_of_eq_of_le hsite (Nat.zero_le _), .inl hall⟩
    | fill i => exact ⟨Nat.zero_lt_of_lt hsite.2, hsite.1.le.trans hsite.2.le, .inr (.inl hall)⟩
    | refill it => exact ⟨Nat.zero_lt_of_lt hsite.1, hsite.1.le, .inr (.inl hall)⟩
  | fill => exact ⟨by rw [ArrayList.add_size, h.1], h.2, Nat.zero_lt_of_lt h.2⟩
  | refill =>
    refine ⟨Nat.zero_lt_of_lt h.1, ?_, ?_⟩ <;> rw [ArrayList.add_size]
    · exact h.1
    · exact h.2
  | finish hstop =>
    obtain ⟨hpos, hsize, hfull⟩ := h
    refine ⟨hsize, ?_⟩
    rcases hstop with hempty | hrun
    · refine hfull.resolve_left fun hd => ?_
      rw [ArrayList.size, hempty] at hd
      exact absurd hd hpos.ne
    · exact .inr hrun
  | remove hnext hremove =>
    have hsize := ArrayList.size_of_remove hnext hremove
    obtain ⟨-, hd, hfull⟩ := h
    rw [← hsize] at hd hfull
    exact ⟨hd, hfull⟩
  | fail => exact h.2.1
  | count =>
    rename_i site _ _
    cases site with
    | sync => exact h
    | fill i => exact ⟨h.1, h.2.le, Nat.zero_lt_of_lt h.2⟩
    | refill it => exact h
  | cease hrun => exact ⟨Nat.zero_lt_of_lt h.1, h.1.le, .inr (.inr hrun)⟩
  | _ => exact h

/-- Every worker keeps its window. -/
theorem fits (h : (workload phase).Reachable s) (w : Fin phase.workers) :
    Fits phase s.shared (s.locals w) := by
  refine Pool.locals_induction (P := workload phase) (I := fun _ => Fits phase) ?_ ?_ ?_ h w
  · intro v
    simp only [workload]
    split
    · exact rfl
    · exact ⟨rfl, Nat.zero_le _, by omega⟩
  · intro s w e s' hs hs' hI hstep
    exact fits_step (claims_le hT hs).1 (claims_le hT hs').2.2 (steps_of_step hT hstep) hI
  · intro s w e s' v hs hs' _ hI hstep
    obtain ⟨hmono, hrunning⟩ := shared_mono (steps_of_step hT hstep)
    have hclaims := (claims_le hT hs').2.1
    exact fits_mono (fun heq => by omega) hrunning hI

/-- Workers are only stopped by one that failed. -/
theorem failed_of_stopped (h : (workload phase).Reachable s) (hstop : s.shared.running = false) :
    ∃ w, (s.locals w).pc = .failed := by
  refine Pool.reachable_induction (P := workload phase)
    (I := fun s => s.shared.running = false → ∃ w, (s.locals w).pc = .failed) ?_ ?_ h hstop
  · intro hinit
    cases hinit
  · intro s w e s' _ hI hnext hstop
    obtain ⟨hstep, hrest⟩ := Pool.next_eq_some hnext
    have hstep := steps_of_step hT hstep
    by_cases hrun : s.shared.running = false
    · obtain ⟨v, hv⟩ := hI hrun
      refine ⟨v, ?_⟩
      by_cases hvw : v = w
      · subst hvw
        generalize s.locals v = l, s'.locals v = k, s'.shared = t at hstep hv
        cases hstep <;> first | exact hv | cases hv
      · rw [hrest v hvw, hv]
    · refine ⟨w, ?_⟩
      generalize s.locals w = l, s'.locals w = k, s'.shared = t at hstep hstop
      cases hstep <;> first | rfl | exact absurd hstop hrun

/-- After all claims no run claims again. -/
lemma claims_run (h : (workload phase).Reachable s)
    (hall : s.shared.claims = phase.totalTargetRequests) {events : List (Fin phase.workers × Event)}
    {s' : Pool.State (Fin phase.workers) Shared Local}
    (hrun : (workload phase).run events s = some s') :
    s'.shared.claims = phase.totalTargetRequests := by
  induction events generalizing s with
  | nil =>
    cases hrun
    exact hall
  | cons event events ih =>
    obtain ⟨t, hnext, hrest⟩ := Option.bind_eq_some_iff.mp hrun
    have hmono := (shared_mono (steps_of_step hT (Pool.next_eq_some hnext).1)).1
    have hle := (claims_le hT (h.next hnext)).2.1
    exact ih (h.next hnext) (by omega) hrest

end RequestBased

/-! ## The end of a phase -/

/-- All workers have left their loops, none of them by an exception. -/
def Finished (s : Pool.State (Fin phase.workers) Shared Local) : Prop :=
  ∀ w, (s.locals w).pc = .done

instance : Decidable (Finished s) := by
  unfold Finished
  infer_instance

/-- When all workers have left their loops all requests were claimed. -/
lemma claims_of_finished (hT : 0 < phase.totalTargetRequests) (hW : 0 < phase.workers)
    (h : (workload phase).Reachable s) (hdone : Finished s) :
    s.shared.claims = phase.totalTargetRequests := by
  have hfits := fits hT h ⟨0, hW⟩
  rw [Fits, hdone ⟨0, hW⟩] at hfits
  refine hfits.2.resolve_right fun hstop => ?_
  obtain ⟨w, hfailed⟩ := failed_of_stopped hT h hstop
  rw [hdone w] at hfailed
  cases hfailed

end

end RespBench.Java
