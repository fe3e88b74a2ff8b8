import RespBench.Java.Pipeline

/-!
# The claims of a phase

Whether a request-based phase claims its requests, when workers may also end by an exception of
their own. The counter never loses a claim (`requestCount_eq`), and no claim follows the last
one. But a worker whose iterator fails stops all others, and then claims are missing, unless it
was the last claim whose future made the iterator stale: `claims_of_failed` is the invariant of
the runs where it was, and `requestCount_exact_iff` says that these are the targets of at most
one request beyond the pipeline.
-/

namespace RespBench.Java
open RespBench.Lib

section
variable {phase : Phase} {s : Pool.State (Fin phase.workers) Shared Local}

/-- All workers have left their loops, or threw an exception. -/
def Ended (s : Pool.State (Fin phase.workers) Shared Local) : Prop :=
  ∀ w, (s.locals w).pc = .done ∨ (s.locals w).pc = .failed

instance : Decidable (Ended s) := by
  unfold Ended
  infer_instance

/-- What the counter promises: it is the number of claims and of the claims too much that are not
undone, and an `AtomicLong` holds it; no claim follows the last one, whatever is undone; and when
all workers have ended, all requests were claimed and the counter says so. -/
structure Exact (phase : Phase) (s : Pool.State (Fin phase.workers) Shared Local) : Prop where
  counter : s.shared.requestCount = s.shared.claims + ∑ w, (overclaims phase (s.locals w) : ℤ)
  word : phase.totalTargetRequests + phase.workers < 2 ^ 63 →
    0 ≤ s.shared.requestCount ∧ s.shared.requestCount < 2 ^ 63
  bounded : s.shared.claims ≤ phase.totalTargetRequests
  closed : s.shared.claims = phase.totalTargetRequests → ∀ events s',
    (workload phase).run events s = some s' →
    s'.shared.claims = phase.totalTargetRequests
  ended : Ended s →
    s.shared.claims = phase.totalTargetRequests ∧ s.shared.requestCount = phase.totalTargetRequests

/-! ## Workers that refill nothing -/

/-- A worker in `runSyncLoop`. -/
def Sync (l : Local) : Prop :=
  match l.pc with
  | .top | .join _ | .done => True
  | .deadline site | .claim site | .compare site _ | .undo site | .submit site _ | .record site
      _ | .count site =>
    site = .sync
  | _ => False

/-- It stays there. -/
lemma sync_step {s t : Shared} {l k : Local} (hstep : Steps phase s l t k)
    (h : Sync l) : Sync k := by
  cases hstep with
  | undo | count =>
    rename_i site _ _
    obtain rfl : site = .sync := h
    trivial
  | enter | join => exact rfl
  | leave | send => trivial
  | fill | refill => cases h
  | round | filled | wait | finish | wake | skip | remove | fail | rest | resume | cease =>
    exact h.elim
  | clock | claim | overclaim | accept | reject | record | complete => exact h

/-! ## Workers one request short of the target -/

/-- What a worker knows when it refills: a request is recorded, and its iterator is up to date
unless all requests are claimed. -/
def Site.Late (phase : Phase) (s : Shared) (pending : ArrayList ℤ) : Site → Prop
  | .refill it => s.recorded ≠ [] ∧ (pending.Fresh it ∨ s.claims = phase.totalTargetRequests)
  | _ => True

/-- What a pipelined worker knows: an iterator fails only when all requests are claimed. -/
def Late (phase : Phase) (s : Shared) (l : Local) : Prop :=
  match l.pc with
  | .deadline site | .claim site | .compare site _ | .submit site _ | .count site =>
    site.Late phase s l.pending
  | .scan it | .record (.refill it) _ => l.pending.Fresh it ∨ s.claims = phase.totalTargetRequests
  | .recheck it => (Site.refill it).Late phase s l.pending
  | .failed => s.claims = phase.totalTargetRequests
  | _ => True

/-- More claims and more records do not disturb a worker. -/
lemma late_mono {s t : Shared} {l : Local} (hclaims : s.claims = phase.totalTargetRequests →
    t.claims = phase.totalTargetRequests) (hrecorded : s.recorded ≠ [] → t.recorded ≠ [])
    (h : Late phase s l) : Late phase t l := by
  have hsite : ∀ {p} {site : Site}, site.Late phase s p → site.Late phase t p := by
    intro p site hsite
    cases site with
    | refill it => exact ⟨hrecorded hsite.1, hsite.2.imp_right hclaims⟩
    | _ => trivial
  obtain ⟨pc, p, c⟩ := l
  cases pc with
  | deadline | claim | compare | submit | count => exact hsite h
  | scan it => exact h.imp_right hclaims
  | record site ticket =>
    cases site with
    | refill it => exact h.imp_right hclaims
    | _ => trivial
  | recheck it => exact ⟨hrecorded h.1, h.2.imp_right hclaims⟩
  | failed => exact hclaims h
  | _ => trivial

/-- A record stays. -/
lemma recorded_mono {s t : Shared} {l k : Local} (hstep : Steps phase s l t k)
    (h : s.recorded ≠ []) :
    t.recorded ≠ [] := by
  cases hstep with
  | record => exact List.append_ne_nil_of_left_ne_nil h _
  | _ => exact h

/-- A worker takes a step. A refill that makes the iterator stale takes the last request: the
pipeline was full, and one request of it is recorded already. -/
lemma late_step {s t : Shared} {l k : Local} (hle : s.claims ≤ s.requestCount)
    (hundo : ∀ site, l.pc = .undo site → s.claims = phase.totalTargetRequests)
    (hlast : ∀ it ticket, l.pc = .submit (.refill it) ticket → s.recorded ≠ [] →
      s.claims = phase.totalTargetRequests)
    (hstep : Steps phase s l t k) (h : Late phase s l) : Late phase t k := by
  cases hstep with
  | enter | round | leave | filled | send | join | wait | finish | fill => trivial
  | clock | overclaim | accept => exact h
  | reject | rest => trivial
  | claim hlt =>
    rename_i site _ _
    cases site with
    | refill it => exact ⟨h.1, .inl (h.2.resolve_right fun hall => by omega)⟩
    | _ => trivial
  | undo =>
    rename_i site _ _
    cases site with
    | refill it => exact .inr (hundo _ rfl)
    | _ => trivial
  | refill => exact .inr (hlast _ _ rfl h.1)
  | wake => exact .inl (ArrayList.fresh_iterator _)
  | skip hnext => exact h.imp_left fun _ => (ArrayList.remove_of_next hnext).1
  | remove hnext hremove =>
    obtain ⟨-, _, _, hremove', -, hfresh⟩ := ArrayList.remove_of_next hnext
    cases hremove.symm.trans hremove'
    exact .inl hfresh
  | fail hhas herror =>
    refine h.resolve_left fun hfresh => ?_
    obtain ⟨_, _, hnext⟩ := ArrayList.next_of_fresh hfresh hhas
    cases herror.symm.trans hnext
  | record =>
    rename_i site _ _ _ _
    cases site with
    | refill it => exact ⟨List.append_ne_nil_of_right_ne_nil _ (List.cons_ne_nil _ _), h⟩
    | _ => trivial
  | count =>
    rename_i site _ _
    cases site with
    | refill it => exact h
    | _ => trivial
  | resume => exact h
  | cease => exact h.2
  | complete => exact h

section RequestBased
variable (hT : 0 < phase.totalTargetRequests)
include hT

/-- When the pipeline is at most one request short of the target, a worker fails only
after the last claim. -/
theorem late (hd : 1 < phase.pipelineDepth)
    (hfew : phase.totalTargetRequests ≤ phase.pipelineDepth + 1)
    (h : (workload phase).Reachable s) :
    (s.shared.running = false → s.shared.claims = phase.totalTargetRequests) ∧
      ∀ w, Late phase s.shared (s.locals w) := by
  suffices hlate : ∀ w, Late phase s.shared (s.locals w) by
    refine ⟨fun hstop => ?_, hlate⟩
    obtain ⟨w, hfailed⟩ := failed_of_stopped hT h hstop
    have hw := hlate w
    rwa [Late, hfailed] at hw
  refine Pool.reachable_induction (P := workload phase) (I := fun s => ∀ w,
    Late phase s.shared (s.locals w))
    ?_ ?_ h
  · intro w
    simp only [workload, Pool.init, if_neg (not_le.mpr hd)]
    exact trivial
  · intro s w e s' hs hI hnext
    obtain ⟨hstep, hrest⟩ := Pool.next_eq_some hnext
    have hstep := steps_of_step hT hstep
    have hfits := fits hT hs w
    have hheld := recorded_held_le hT hs w
    have hclaims := (claims_le hT hs).2.1
    have hclaims' := (claims_le hT (hs.next hnext)).2.1
    have hstopped : s.shared.running = false → s.shared.claims = phase.totalTargetRequests := by
      intro hstop
      obtain ⟨v, hfailed⟩ := failed_of_stopped hT hs hstop
      have hv := hI v
      rwa [Late, hfailed] at hv
    have hundo : ∀ site, (s.locals w).pc = .undo site →
      s.shared.claims = phase.totalTargetRequests := by
      intro site hpc
      rw [Fits, hpc] at hfits
      exact hfits.2
    have hlast : ∀ it ticket, (s.locals w).pc = .submit (.refill it) ticket →
      s.shared.recorded ≠ [] →
        s.shared.claims = phase.totalTargetRequests := by
      intro it ticket hpc hrecorded
      rw [Fits, hpc] at hfits
      rw [held, hpc, Multiset.card_cons, Multiset.coe_card] at hheld
      have hone := List.length_pos_iff.mpr hrecorded
      rcases hfits.2 with hfull | hall | hstop
      · rw [ArrayList.size] at hfull
        omega
      · exact hall
      · exact hstopped hstop
    intro v
    by_cases hv : v = w
    · subst hv
      exact late_step (claims_le hT hs).1 hundo hlast hstep (hI v)
    · rw [hrest v hv]
      have hmono := (shared_mono hstep).1
      exact late_mono (fun hall => by omega) (recorded_mono hstep) (hI v)

/-- A worker that fails does so after the last claim, if it refills nothing or the pipeline is at
most one request short of the target. -/
theorem claims_of_failed (hfew : phase.pipelineDepth ≤ 1 ∨
      phase.totalTargetRequests ≤ phase.pipelineDepth + 1)
    (h : (workload phase).Reachable s) {w : Fin phase.workers} (hw : (s.locals w).pc = .failed) :
    s.shared.claims = phase.totalTargetRequests := by
  rcases le_or_gt phase.pipelineDepth 1 with hd | hd
  · have hsync := Pool.locals_induction (P := workload phase) (I := fun _ _ => Sync)
      (fun v => by simp only [workload, if_pos hd]; exact trivial)
      (fun _ _ _ _ _ _ hI hstep => sync_step (steps_of_step hT hstep) hI)
        (fun _ _ _ _ _ _ _ _ hI _ => hI) h w
    rw [Sync, hw] at hsync
    exact hsync.elim
  · have hlate := (late hT hd (hfew.resolve_left (not_le.mpr hd)) h).2 w
    rwa [Late, hw] at hlate

/-- The counter keeps its promises in such a phase. -/
theorem exact_of_few (hW : 0 < phase.workers)
    (hfew : phase.pipelineDepth ≤ 1 ∨ phase.totalTargetRequests ≤ phase.pipelineDepth + 1)
    (h : (workload phase).Reachable s) : Exact phase s := by
  refine ⟨requestCount_eq hT h, fun hword => ?_, (claims_le hT h).2.1, fun hall events s' hrun =>
    claims_run hT h hall hrun, fun hended => ?_⟩
  · have hbounds := requestCount_bounds hT h
    omega
  · have hover : ∑ w, (overclaims phase (s.locals w) : ℤ) = 0 := by
      refine Finset.sum_eq_zero fun w _ => ?_
      rcases hended w with hpc | hpc <;> rw [overclaims, hpc, Nat.cast_zero]
    have hcount := requestCount_eq hT h
    have hclaims : s.shared.claims = phase.totalTargetRequests := by
      by_cases hfinished : Finished s
      · exact claims_of_finished hT hW h hfinished
      · obtain ⟨w, hw⟩ := not_forall.mp hfinished
        exact claims_of_failed hT hfew h ((hended w).resolve_left hw)
    exact ⟨hclaims, by omega⟩

end RequestBased

/-! ## Stopped workers -/

/-- Workers that have not started when the others are stopped leave their loops. -/
lemma exists_ended (h : (workload phase).Reachable s) (hstop : s.shared.running = false)
    {w : Fin phase.workers} (hw : (s.locals w).pc = .failed)
    (hidle : ∀ v, v ≠ w → s.locals v = ⟨.fill 0, .empty, []⟩) :
    ∃ s', (workload phase).Reachable s' ∧ s'.shared = s.shared ∧ Ended s' := by
  suffices hsome : ∀ V : Finset (Fin phase.workers), w ∉ V → ∃ s', (workload phase).Reachable s' ∧
      s'.shared = s.shared ∧ (∀ v ∈ V, (s'.locals v).pc = .done) ∧ ∀ v ∉ V,
        s'.locals v = s.locals v by
    obtain ⟨s', hs', hshared, hdone, hsame⟩ := hsome (Finset.univ.erase w) (Finset.notMem_erase w _)
    refine ⟨s', hs', hshared, fun v => ?_⟩
    by_cases hv : v = w
    · rw [hv, hsame w (Finset.notMem_erase w _)]
      exact .inr hw
    · exact .inl (hdone v (Finset.mem_erase.mpr ⟨hv, Finset.mem_univ v⟩))
  intro V hV
  induction V using Finset.induction_on with
  | empty => exact ⟨s, h, rfl, fun v hv => absurd hv (Finset.notMem_empty v), fun _ _ => rfl⟩
  | insert v V hnew ih =>
    rw [Finset.mem_insert, not_or] at hV
    obtain ⟨s', hs', hshared, hdone, hsame⟩ := ih hV.2
    have hlocal : s'.locals v = ⟨.fill 0, .empty, []⟩ :=
      (hsame v hnew).trans (hidle v (Ne.symm hV.1))
    have hleave : Alone phase v (s'.shared, ⟨.fill 0, .empty, []⟩) (s'.shared,
      ⟨.done, .empty, []⟩) := by
      refine Pool.alone_of_events [.run, .run] ?_
      simp [workload, step, run, hshared, hstop, ArrayList.isEmpty, ArrayList.empty]
    have hstart : (workload phase).Reachable
        ⟨s'.shared, Function.update s'.locals v ⟨.fill 0, .empty, []⟩⟩ := by
      rw [← hlocal, Function.update_eq_self]
      exact hs'
    refine ⟨_, Pool.Reachable.alone hstart hleave, hshared, fun u hu => ?_, fun u hu => ?_⟩
    · rcases Finset.mem_insert.mp hu with rfl | hu
      · simp only [Function.update_self]
      · simp only [Function.update_of_ne (ne_of_mem_of_not_mem hu hnew)]
        exact hdone u hu
    · rw [Finset.mem_insert, not_or] at hu
      simp only [Function.update_of_ne hu.1]
      exact hsame u hu.2

/-- The counter keeps its promises in every run exactly when nothing is refilled, or the pipeline is
at most one request short of the target. -/
theorem requestCount_exact_iff (phase : Phase) (hT : 0 < phase.totalTargetRequests)
    (hW : 0 < phase.workers) :
    (∀ s, (workload phase).Reachable s → Exact phase s) ↔
      phase.pipelineDepth ≤ 1 ∨ phase.totalTargetRequests ≤ phase.pipelineDepth + 1 := by
  refine ⟨fun hall => ?_, fun hfew s => exact_of_few hT hW hfew⟩
  by_contra hmany
  obtain ⟨hd, hmany⟩ := not_or.mp hmany
  obtain ⟨s, hs, hstop, hclaims, w, hfailed, hidle⟩ := exists_failed hT (not_le.mp hd) hW (by omega)
  obtain ⟨s', hs', hshared, hended⟩ := exists_ended hs hstop hfailed hidle
  have hexact := ((hall s' hs').ended hended).1
  rw [hshared, hclaims] at hexact
  push_cast at hexact
  omega

end

/-- The worker of three requests threw after the last claim. -/
theorem longEnd_exact : Ended longEnd ∧ longEnd.shared.claims = (3 : ℤ) ∧
    longEnd.shared.requestCount = 3 := by
  have hrun : (workload longPhase).Reachable longEnd :=
    Pool.Reachable.run .init (Option.some_get _).symm
  have hended : Ended longEnd := by decide +kernel
  have hexact :=
    (requestCount_exact_iff longPhase (by decide) (by decide)).mpr (by decide) longEnd hrun
  exact ⟨hended, hexact.ended hended⟩

/-- Ten requests for a pipeline of two. -/
def tenPhase : Phase := ⟨1, 2, 10⟩

/-- The run with one completed future, of its only worker. -/
def tenEvents : List (Fin tenPhase.workers × Event) :=
  longRun.map fun event => (⟨0, Nat.one_pos⟩, event)

/-- It is a run of the phase. -/
lemma isSome_tenEvents : ((workload tenPhase).run tenEvents (workload tenPhase).init).isSome := by
  decide +kernel

/-- The state that this run ends in. -/
def tenEnd : Pool.State (Fin tenPhase.workers) Shared Local :=
  ((workload tenPhase).run tenEvents (workload tenPhase).init).get isSome_tenEvents

/-- The phase ends with three claims. -/
theorem tenPhase_not_exact : (workload tenPhase).Reachable tenEnd ∧ Ended tenEnd ∧
    tenEnd.shared.claims = 3 ∧
    ¬ Exact tenPhase tenEnd := by
  have hrun : (workload tenPhase).Reachable tenEnd :=
    Pool.Reachable.run .init (Option.some_get _).symm
  have hended : Ended tenEnd := by decide +kernel
  have hclaims : tenEnd.shared.claims = 3 := by decide +kernel
  refine ⟨hrun, hended, hclaims, fun h => ?_⟩
  have hten := (h.ended hended).1
  rw [hclaims] at hten
  exact absurd hten (by decide)

end RespBench.Java
