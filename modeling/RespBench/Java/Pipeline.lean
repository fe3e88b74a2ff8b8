import RespBench.Java.Counter

/-!
# The pipelined loop

When `runPipelinedLoop` does what it promises. The loop refills the pipeline while it iterates over
the pending futures, and the refill changes the list behind the iterator, so that the next access of
the iterator fails. `pipelined_sound_iff` says that this happens in some run unless the first fill
of the pipeline may claim all requests. `orderly` is the invariant of the runs where it does not
happen, and `exists_failed` the run where it does.
-/

namespace RespBench.Java
open RespBench.Lib

section
variable {phase : Phase} {s : Pool.State (Fin phase.workers) Shared Local}

/-- What the loop promises: it does not throw, it keeps at most the depth of the pipeline pending,
it records only claimed requests and each of them once, nothing is pending when it exits, and all
requests are recorded in the end. -/
structure Sound (phase : Phase) (s : Pool.State (Fin phase.workers) Shared Local) : Prop where
  running : ∀ w, (s.locals w).pc ≠ .failed
  bounded : ∀ w, (s.locals w).pending.size ≤ phase.pipelineDepth
  once : (s.shared.recorded.map Prod.fst : Multiset ℤ)
    ≤ (Multiset.range s.shared.claims).map fun i : ℕ => (i : ℤ)
  emptied : ∀ w, (s.locals w).pc = .done → (s.locals w).pending.elems = []
  exact : Finished s → (s.shared.recorded.map Prod.fst : Multiset ℤ)
    = (Multiset.range phase.totalTargetRequests.toNat).map fun i : ℕ => (i : ℤ)

/-! ## Targets within the pipeline -/

/-- A refill meets an up-to-date iterator, and only when all requests are claimed. -/
def Site.Orderly (phase : Phase) (s : Shared) (pending : ArrayList ℤ) : Site → Prop
  | .sync => False
  | .fill _ => True
  | .refill it => pending.Fresh it ∧ s.claims = phase.totalTargetRequests

/-- A pipelined worker that refills nothing: it submits requests in the initial fill only. -/
def Orderly (phase : Phase) (s : Shared) (l : Local) : Prop :=
  match l.pc with
  | .top | .join _ | .failed => False
  | .fill _ => True
  | .deadline site | .claim site | .undo site | .record site _ | .count site =>
    site.Orderly phase s l.pending
  | .compare site claimed => site.Orderly phase s l.pending ∧
      (claimed < phase.totalTargetRequests → ∃ i, site = .fill i)
  | .submit site _ => ∃ i, site = .fill i
  | .event | .anyOf => s.claims = phase.totalTargetRequests
  | .scan it | .recheck it => (Site.refill it).Orderly phase s l.pending
  | .done => l.pending.elems = []

/-- More claims do not disturb a worker. -/
lemma orderly_mono {s t : Shared} {l : Local} (hclaims : s.claims = phase.totalTargetRequests →
    t.claims = phase.totalTargetRequests) (h : Orderly phase s l) : Orderly phase t l := by
  have hsite : ∀ {p} {site : Site}, site.Orderly phase s p → site.Orderly phase t p := by
    intro p site hsite
    cases site with
    | refill it => exact ⟨hsite.1, hclaims hsite.2⟩
    | _ => exact hsite
  obtain ⟨pc, p, c⟩ := l
  cases pc with
  | compare site claimed => exact ⟨hsite h.1, h.2⟩
  | event | anyOf => exact hclaims h
  | scan it | recheck it => exact ⟨h.1, hclaims h.2⟩
  | deadline | claim | undo | record | count => exact hsite h
  | _ => exact h

/-- A worker that refills nothing takes a step: its iterator does not fail, and it
still refills nothing. -/
lemma orderly_step {s t : Shared} {l k : Local} (hrun : s.running = true)
    (hle : s.claims ≤ s.requestCount)
    (hfilled : ∀ i, l.pc = .fill i → phase.pipelineDepth ≤ i → s.claims = phase.totalTargetRequests)
    (hundo : ∀ site, l.pc = .undo site → s.claims = phase.totalTargetRequests)
    (hstep : Steps phase s l t k) (h : Orderly phase s l) :
    t.running = true ∧ Orderly phase t k := by
  cases hstep with
  | enter | leave | join => exact h.elim
  | filled hi =>
    refine ⟨hrun, hfilled _ rfl ?_⟩
    by_contra hlt
    exact hi ⟨not_le.mp hlt, hrun⟩
  | claim hlt =>
    rename_i site _ _
    cases site with
    | sync => exact h.elim
    | fill i => exact ⟨hrun, trivial, fun _ => ⟨i, rfl⟩⟩
    | refill it =>
      have hall := h.2
      omega
  | overclaim hge => exact ⟨hrun, h, fun hlt => absurd hge (not_le.mpr hlt)⟩
  | accept hlt => exact ⟨hrun, h.2 hlt⟩
  | reject => exact ⟨hrun, h.1⟩
  | undo =>
    rename_i site _ _
    cases site with
    | sync => exact h.elim
    | fill i => exact ⟨hrun, hundo _ rfl⟩
    | refill it => exact ⟨hrun, h⟩
  | send | refill =>
    obtain ⟨i, hi⟩ := h
    cases hi
  | fill => exact ⟨hrun, trivial⟩
  | finish hstop =>
    refine ⟨hrun, hstop.resolve_right ?_⟩
    rw [hrun]
    exact Bool.noConfusion
  | wake => exact ⟨hrun, ArrayList.fresh_iterator _, h⟩
  | skip hnext => exact ⟨hrun, (ArrayList.remove_of_next hnext).1, h.2⟩
  | remove hnext hremove =>
    obtain ⟨-, _, _, hremove', -, hfresh⟩ := ArrayList.remove_of_next hnext
    cases hremove.symm.trans hremove'
    exact ⟨hrun, hfresh, h.2⟩
  | fail hhas herror =>
    obtain ⟨_, _, hnext⟩ := ArrayList.next_of_fresh h.1 hhas
    cases herror.symm.trans hnext
  | rest => exact ⟨hrun, h.2⟩
  | count =>
    rename_i site _ _
    cases site with
    | sync => exact h.elim
    | fill i => exact ⟨hrun, trivial⟩
    | refill it => exact ⟨hrun, h⟩
  | _ => exact ⟨hrun, h⟩

section RequestBased
variable (hT : 0 < phase.totalTargetRequests)
include hT

/-- What is recorded and what one worker holds was claimed. -/
lemma recorded_held_le (h : (workload phase).Reachable s) (w : Fin phase.workers) :
    s.shared.recorded.length + Multiset.card (held phase (s.locals w)) ≤ s.shared.claims := by
  have hcard := congrArg Multiset.card (tickets_eq hT h)
  rw [Multiset.card_map, Multiset.card_range, Multiset.card_add, Multiset.card_sum,
    Multiset.coe_card, List.length_map] at hcard
  have hsingle : Multiset.card (held phase (s.locals w)) ≤ ∑ v,
    Multiset.card (held phase (s.locals v)) :=
    Finset.single_le_sum (f := fun v => Multiset.card (held phase (s.locals v)))
      (fun _ _ => Nat.zero_le _) (Finset.mem_univ w)
  omega

/-- A worker has no more pending futures than there are claims. -/
lemma size_le_claims (h : (workload phase).Reachable s) (w : Fin phase.workers) :
    (s.locals w).pending.size ≤ s.shared.claims := by
  have hle := recorded_held_le hT h w
  have hheld : (s.locals w).pending.size ≤ Multiset.card (held phase (s.locals w)) := by
    unfold held ArrayList.size
    split <;> try split
    all_goals simp
  omega

/-- A target within the pipeline is claimed in the initial fill, and no iterator fails. -/
theorem orderly (hd : 1 < phase.pipelineDepth)
    (hfew : phase.totalTargetRequests ≤ phase.pipelineDepth) (h : (workload phase).Reachable s) :
    s.shared.running = true ∧ ∀ w, Orderly phase s.shared (s.locals w) := by
  refine Pool.reachable_induction (P := workload phase)
    (I := fun s => s.shared.running = true ∧ ∀ w, Orderly phase s.shared (s.locals w)) ?_ ?_ h
  · refine ⟨rfl, fun w => ?_⟩
    simp only [workload, Pool.init, if_neg (not_le.mpr hd)]
    exact trivial
  · rintro s w e s' hs ⟨hrun, hI⟩ hnext
    obtain ⟨hstep, hrest⟩ := Pool.next_eq_some hnext
    have hstep := steps_of_step hT hstep
    have hfits := fits hT hs w
    have hsize := size_le_claims hT hs w
    obtain ⟨hle, hclaims, -⟩ := claims_le hT hs
    have hclaims' := (claims_le hT (hs.next hnext)).2.1
    have hfilled : ∀ i, (s.locals w).pc = .fill i → phase.pipelineDepth ≤ i →
        s.shared.claims = phase.totalTargetRequests := by
      intro i hpc hi
      rw [Fits, hpc] at hfits
      have hi' := hfits.1
      omega
    have hundo : ∀ site, (s.locals w).pc = .undo site →
      s.shared.claims = phase.totalTargetRequests := by
      intro site hpc
      rw [Fits, hpc] at hfits
      exact hfits.2
    obtain ⟨hrun', hown⟩ := orderly_step hrun hle hfilled hundo hstep (hI w)
    refine ⟨hrun', fun v => ?_⟩
    by_cases hv : v = w
    · subst hv
      exact hown
    · rw [hrest v hv]
      have hmono := (shared_mono hstep).1
      exact orderly_mono (fun hall => by omega) (hI v)

/-- A worker keeps at most the depth of the pipeline pending. -/
lemma size_le_depth (h : (workload phase).Reachable s) (w : Fin phase.workers) :
    (s.locals w).pending.size ≤ phase.pipelineDepth := by
  have hsite : ∀ {t n} {site : Site}, site.Fits phase t n → n ≤ phase.pipelineDepth := by
    intro t n site hfits
    cases site with
    | sync => exact (le_of_eq hfits).trans (Nat.zero_le _)
    | fill i => exact hfits.1.le.trans hfits.2.le
    | refill it => exact hfits.1.le
  have hfits := fits hT h w
  generalize s.locals w = l, s.shared = t at hfits
  obtain ⟨pc, p, c⟩ := l
  cases pc with
  | top | join => exact (le_of_eq hfits).trans (Nat.zero_le _)
  | fill i => exact hfits.1.le.trans hfits.2.1
  | deadline | claim | submit | record | count => exact hsite hfits
  | compare | undo => exact hsite hfits.1
  | event | anyOf | scan it => exact hfits.2.1
  | recheck it => exact hfits.1.le
  | done => exact hfits.1
  | failed => exact hfits

/-- The loop keeps its promises when the target is within the pipeline. -/
theorem sound_of_le (hd : 1 < phase.pipelineDepth) (hW : 0 < phase.workers)
    (hfew : phase.totalTargetRequests ≤ phase.pipelineDepth) (h : (workload phase).Reachable s) :
    Sound phase s := by
  have horderly := (orderly hT hd hfew h).2
  have htickets := tickets_eq hT h
  have hemptied : ∀ w, (s.locals w).pc = .done → (s.locals w).pending.elems = [] := by
    intro w hpc
    have hw := horderly w
    rw [Orderly, hpc] at hw
    exact hw
  refine ⟨fun w hpc => ?_, size_le_depth hT h, ?_, hemptied, fun hdone => ?_⟩
  · have hw := horderly w
    rw [Orderly, hpc] at hw
    exact hw
  · rw [htickets]
    exact Multiset.le_add_right _ _
  · have hheld : ∑ w, held phase (s.locals w) = 0 :=
      Finset.sum_eq_zero fun w _ => by rw [held, hdone w, hemptied w (hdone w), Multiset.coe_nil]
    rw [hheld, add_zero] at htickets
    rw [← htickets, ← claims_of_finished hT hW h hdone, Int.toNat_natCast]

/-! ## Targets beyond the pipeline -/

/-- What a worker does alone. -/
abbrev Alone (phase : Phase) (w : Fin phase.workers) : Shared × Local → Shared × Local → Prop :=
  (workload phase).Alone w

/-- The pending futures after some rounds of the initial fill. -/
def filledTo (n : ℕ) : ArrayList ℤ := ⟨(List.range n).map fun i : ℕ => (i : ℤ), n⟩

/-- A worker fills its pipeline alone. -/
lemma fill_alone (w : Fin phase.workers) {n : ℕ} (hn : n ≤ phase.pipelineDepth)
    (htarget : n ≤ phase.totalTargetRequests) :
    Alone phase w (⟨0, true, 0, []⟩, ⟨.fill 0, .empty, []⟩)
    (⟨n, true, n, []⟩, ⟨.fill n, filledTo n, []⟩) := by
  induction n with
  | zero => exact .refl
  | succ n ih =>
    have hlt : (n : ℤ) < phase.totalTargetRequests := by omega
    refine (ih (by omega) (by omega)).trans
      (Pool.alone_of_events [.run, .time false, .run, .run, .run] ?_)
    simp [workload, step, run, filledTo, ArrayList.add, List.range_succ, Nat.lt_of_succ_le hn, hT,
      not_le.mpr hlt, hlt]

omit hT in
/-- The first future of a full pipeline completes, and the scan removes it. -/
lemma first_removed (w : Fin phase.workers) (t : Shared) (hrun : t.running = true) (rest : List ℤ)
    (changes : ℕ) :
    Alone phase w (t, ⟨.fill phase.pipelineDepth, ⟨0 :: rest, changes⟩, []⟩)
      (t, ⟨.record (.refill ⟨0, none, changes + 1⟩) 0, ⟨rest, changes + 1⟩,
        [(0, .exception)]⟩) := by
  refine .trans (b := (t, ⟨.anyOf, ⟨0 :: rest, changes⟩, [(0, .exception)]⟩))
    (Pool.alone_of_events [.run, .run, .complete 0 .exception] ?_)
      (Pool.alone_of_events [.run, .run] ?_)
  · simp [workload, step, run, hrun, Local.inFlight, Local.outcome, ArrayList.isEmpty]
  · simp [workload, step, run, Local.outcome, ArrayList.iterator, ArrayList.hasNext, ArrayList.next,
      ArrayList.remove, ArrayList.size]

/-- It is recorded, and the pipeline is refilled. -/
lemma first_refilled (w : Fin phase.workers) {n : ℕ} (hn : n < phase.totalTargetRequests)
    (it : ArrayList.Itr) (p : ArrayList ℤ) :
    Alone phase w (⟨n, true, n, []⟩, ⟨.record (.refill it) 0, p, [(0, .exception)]⟩)
      (⟨n + 1, true, n + 1, [(0, .exception)]⟩, ⟨.scan it, p.add n, [(0, .exception)]⟩) := by
  refine .trans
    (b := (⟨n, true, n, [(0, .exception)]⟩, ⟨.deadline (.refill it), p, [(0, .exception)]⟩))
    (Pool.alone_of_events [.run, .run, .run] ?_)
      (Pool.alone_of_events [.time false, .run, .run, .run] ?_)
  · simp [workload, step, run, Local.outcome, not_le.mpr hT, Site.recorded]
  · simp [workload, step, run, hT, not_le.mpr hn, hn]

omit hT in
/-- The iterator does not survive the refill. -/
lemma scan_fails (w : Fin phase.workers) (t : Shared) {it : ArrayList.Itr} {p : ArrayList ℤ}
    (hfresh : p.Fresh it) (ticket : ℤ) (completed : List (ℤ × Outcome)) :
    Alone phase w (t, ⟨.scan it, p.add ticket, completed⟩)
      ({ t with running := false }, ⟨.failed, p.add ticket, completed⟩) := by
  obtain ⟨hhas, herror⟩ := ArrayList.add_stale hfresh ticket
  refine Pool.alone_of_events [.run] ?_
  simp [workload, step, run, hhas, herror]

/-- A target beyond the pipeline lets a worker fail in some run, before any other worker has
started. -/
theorem exists_failed (hd : 1 < phase.pipelineDepth) (hW : 0 < phase.workers)
    (hmany : phase.pipelineDepth < phase.totalTargetRequests) :
    ∃ s, (workload phase).Reachable s ∧ s.shared.running = false ∧
      s.shared.claims = phase.pipelineDepth + 1 ∧ ∃ w, (s.locals w).pc = .failed ∧
        ∀ v, v ≠ w → s.locals v = ⟨.fill 0, .empty, []⟩ := by
  let w : Fin phase.workers := ⟨0, hW⟩
  obtain ⟨n, hn⟩ : ∃ n, phase.pipelineDepth = n + 1 := ⟨phase.pipelineDepth - 1, by omega⟩
  have hfull : filledTo phase.pipelineDepth
      = ⟨0 :: (List.range n).map fun i : ℕ => ((i + 1 : ℕ) : ℤ), phase.pipelineDepth⟩ := by
    rw [filledTo, hn, List.range_succ_eq_map, List.map_cons, List.map_map]
    rfl
  have hfilled := fill_alone hT w le_rfl hmany.le
  rw [hfull] at hfilled
  have hfails :=
    ((hfilled.trans (first_removed w _ rfl _ _)).trans (first_refilled hT w hmany _ _)).trans
    (scan_fails w _ ⟨rfl, Nat.zero_le _⟩ _ _)
  have hinit : (workload phase).init
      = ⟨⟨0, true, 0, []⟩, Function.update (workload phase).locals w ⟨.fill 0, .empty, []⟩⟩ := by
    have hlocal : (workload phase).locals w = ⟨.fill 0, .empty, []⟩ := by
      simp only [workload, if_neg (not_le.mpr hd)]
    rw [← hlocal, Function.update_eq_self]
    rfl
  refine ⟨_, Pool.Reachable.alone (hinit ▸ Pool.Reachable.init) hfails, rfl, rfl, w, ?_,
    fun v hv => ?_⟩
  · simp only [Function.update_self]
  · simp only [Function.update_of_ne hv, workload, if_neg (not_le.mpr hd)]

end RequestBased

/-- The loop keeps its promises in every run exactly when the first fill of one pipeline
may claim all requests. -/
theorem pipelined_sound_iff (phase : Phase) (hd : 1 < phase.pipelineDepth)
    (hT : 0 < phase.totalTargetRequests) (hW : 0 < phase.workers) :
    (∀ s, (workload phase).Reachable s → Sound phase s) ↔
      phase.totalTargetRequests ≤ phase.pipelineDepth := by
  refine ⟨fun h => ?_, fun hfew s => sound_of_le hT hd hW hfew⟩
  by_contra hmany
  obtain ⟨s, hs, -, -, w, hfailed, -⟩ := exists_failed hT hd hW (not_le.mp hmany)
  exact (h s hs).running w hfailed

end

/-- Two requests for a pipeline of two. -/
def shortPhase : Phase := ⟨1, 2, 2⟩

/-- Both futures are done at the first wake-up, the second one exceptionally, and
both refills are refused. -/
def shortRun : List Event :=
  [.run, .time false, .run, .run, .run, .run, .time false, .run, .run, .run,
    .run, .run, .complete 1 .exception, .complete 0 (.result true), .run,
    .run, .run, .run, .run, .time false, .run, .run, .run,
    .run, .run, .run, .run, .time false, .run, .run, .run, .run, .run]

/-- The state that this run ends in. -/
def shortEnd : Pool.State (Fin shortPhase.workers) Shared Local :=
  ((workload shortPhase).run (shortRun.map ((0 : Fin 1), ·)) (workload shortPhase).init).get
    (by decide +kernel)

/-- The loop kept its promises. -/
theorem shortEnd_sound : Finished shortEnd ∧ Sound shortPhase shortEnd := by
  have hrun : (workload shortPhase).Reachable shortEnd :=
    Pool.Reachable.run .init (Option.some_get _).symm
  have hsound :=
    (pipelined_sound_iff shortPhase (by decide) (by decide) (by decide)).mpr (by decide)
  exact ⟨by decide +kernel, hsound shortEnd hrun⟩

/-- Three requests for a pipeline of two. -/
def longPhase : Phase := ⟨1, 2, 3⟩

/-- The first future completes, its slot is refilled, and the scan goes on. -/
def longRun : List Event :=
  [.run, .time false, .run, .run, .run, .run, .time false, .run, .run, .run,
    .run, .run, .complete 0 (.result true), .run,
    .run, .run, .run, .run, .time false, .run, .run, .run, .run]

/-- The state that this run ends in. -/
def longEnd : Pool.State (Fin longPhase.workers) Shared Local :=
  ((workload longPhase).run (longRun.map ((0 : Fin 1), ·)) (workload longPhase).init).get
    (by decide +kernel)

/-- The loop throws with two futures pending and one request recorded. -/
theorem longPhase_not_sound : (workload longPhase).Reachable longEnd ∧ longEnd.shared.claims = 3 ∧
    longEnd.shared.recorded = [(0, .result true)] ∧ (longEnd.locals (0 : Fin 1)).pc = .failed ∧
    ¬ Sound longPhase longEnd := by
  have hrun : (workload longPhase).Reachable longEnd :=
    Pool.Reachable.run .init (Option.some_get _).symm
  have hfailed : (longEnd.locals (0 : Fin 1)).pc = .failed := by decide +kernel
  exact ⟨hrun, by decide +kernel, by decide +kernel, hfailed,
    fun h => h.running (0 : Fin 1) hfailed⟩

end RespBench.Java
