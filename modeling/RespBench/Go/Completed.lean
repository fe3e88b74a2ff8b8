import RespBench.Go.Workload

/-!
# What COMPLETED means in the Go engine

A row with the status COMPLETED should mean that the phase did its work. It does for a phase
whose completion is one of the two kinds (`completed_sound`). `validateKnobs` does not look at
the kind, and a phase of another one has a budget of -1 and no deadline: every worker leaves at
once and the phase is COMPLETED.
-/

namespace RespBench.Go
open RespBench.Lib

/-! ## What a step does -/

section Machine
variable {phase : Budget.Phase} {fuel : ℕ} {deadline : ℤ}

/-- The steps of a worker, one rule for each kind. -/
inductive Moves (phase : Budget.Phase) (fuel : ℕ) (deadline : ℤ) (w : Budget.Worker phase) :
    Event → Shared phase → Local → Shared phase → Local → Prop where
  | tick {nanos : ℕ} {s l} : Moves phase fuel deadline w (.tick nanos) s l
    { s with clock := s.clock + nanos } l
  | panic {s pc c left} : working pc → Moves phase fuel deadline w .panic s ⟨⟨pc, c⟩, left⟩
    { s with workerPanics := s.workerPanics + 1 } ⟨⟨.leaving, c⟩, left⟩
  | expire {s c left} : phase.durationBased → deadline ≤ s.clock →
    Moves phase fuel deadline w (.work (.clock true)) s ⟨⟨.top, c⟩,
      left⟩ s ⟨⟨.leaving, c⟩, some s.clock⟩
  | begin {s c left} : phase.durationBased → s.clock < deadline →
    Moves phase fuel deadline w (.work (.clock false)) s ⟨⟨.top, c⟩, left⟩
      { s with begun := s.begun + 1 } ⟨⟨.claimed, c⟩, left⟩
  | work {event s l t k} : (phase.durationBased → l.base.pc ≠ .top) →
    Budget.step .go phase fuel w event s.base l.base = some (t, k) →
    Moves phase fuel deadline w (.work event) s l { s with base := t } { l with base := k }

/-- The clock is read at the top of the loop of a duration-based phase. -/
lemma clock_step {w : Budget.Worker phase} {expired : Bool} {s t : Budget.Shared .go phase}
    {l k : Budget.Local} (h : Budget.step .go phase fuel w (.clock expired) s l = some (t, k)) :
    phase.durationBased ∧ l.pc = .top ∧ t = s ∧
    k = ⟨if expired then .leaving else .claimed, l.collector⟩ := by
  obtain ⟨pc, c⟩ := l
  cases pc <;> simp only [Budget.step, reduceCtorEq] at h
  split at h
  · next hdur =>
    cases h
    exact ⟨hdur, rfl, rfl, rfl⟩
  · cases h

/-- Nothing else happens there. -/
lemma top_step {w : Budget.Worker phase} {event : Budget.Event} {s t : Budget.Shared .go phase}
    {l k : Budget.Local} (h : Budget.step .go phase fuel w event s l = some (t, k))
    (hclock : ∀ expired, event ≠ .clock expired) (hdur : phase.durationBased) : l.pc ≠ .top := by
  intro htop
  obtain ⟨pc, c⟩ := l
  cases htop
  cases event <;> simp only [Budget.step, hdur, if_true, reduceCtorEq] at h
  next expired => exact hclock expired rfl

/-- Every step of a worker is a move. -/
lemma moves_of_step {w : Budget.Worker phase} {event : Event} {s t : Shared phase} {l k : Local}
    (h : step phase fuel deadline w event s l = some (t, k)) :
    Moves phase fuel deadline w event s l t k := by
  obtain ⟨⟨pc, c⟩, left⟩ := l
  cases event with
  | tick nanos =>
    cases h
    exact .tick
  | panic =>
    rw [step] at h
    split at h
    · next hworking =>
      cases h
      exact .panic hworking
    · cases h
  | work event =>
    by_cases hclock : ∃ expired, event = .clock expired
    · obtain ⟨expired, rfl⟩ := hclock
      rw [step] at h
      split at h
      · next hexpired =>
        obtain ⟨r, hstep, hr⟩ := Option.map_eq_some_iff.mp h
        obtain ⟨hdur, htop, hs, hl⟩ := clock_step hstep
        cases htop
        cases expired
        · cases hr
          rw [hs, hl]
          exact .begin hdur (by simpa using hexpired)
        · cases hr
          rw [hs, hl]
          exact .expire hdur (by simpa using hexpired)
      · cases h
    · push Not at hclock
      have hmap : (Budget.step .go phase fuel w event s.base ⟨pc, c⟩).map
          (fun r => (({ s with base := r.1 }, ⟨r.2, left⟩) : Shared phase × Local))
            = some (t, k) := by
        cases event with
        | clock expired => exact absurd rfl (hclock expired)
        | _ => exact h
      obtain ⟨r, hstep, hr⟩ := Option.map_eq_some_iff.mp hmap
      cases hr
      exact .work (top_step hstep hclock) hstep

end Machine

/-! ## The workers of the shared budget -/

section Run
variable {phase : Phase} {commands : List Budget.Command} {fuel : ℕ} {start : ℤ}
  {s : State (phase.budget commands)}

/-- Without a panic, the workers are those of the shared budget. -/
theorem reachable_base (h : (runWorkload phase commands fuel start).Reachable s)
    (hpanics : s.shared.workerPanics = 0) :
    (Budget.workload .go (phase.budget commands) fuel).Reachable
      ⟨s.shared.base, fun w => (s.locals w).base⟩ := by
  refine h.refines Shared.base Local.base (fun s => s.workerPanics = 0) rfl ?_ hpanics
  intro w event s l t k hstep hclean
  cases moves_of_step hstep with
  | tick => exact ⟨hclean, .inl ⟨rfl, rfl⟩⟩
  | panic => exact absurd hclean (Nat.succ_ne_zero _)
  | expire hdur => exact ⟨hclean, .inr ⟨.clock true, if_pos hdur⟩⟩
  | begin hdur => exact ⟨hclean, .inr ⟨.clock false, if_pos hdur⟩⟩
  | work _ hbudget => exact ⟨hclean, .inr ⟨_, hbudget⟩⟩

/-! ## A phase with a duration -/

/-- The requests that were begun are merged, in the collector of a worker, worked on, or lost in a
panic. -/
theorem begun_eq (hdur : (phase.budget commands).durationBased)
    (h : (runWorkload phase commands fuel start).Reachable s) :
    s.shared.begun = s.shared.base.merged.totalRequests + s.shared.workerPanics
      + ∑ w, Budget.unmerged (s.locals w).base := by
  refine Pool.balance Shared.begun (fun s => s.base.merged.totalRequests + s.workerPanics)
    (fun l => Budget.unmerged l.base) (by simp [runWorkload, Budget.workload, Budget.unmerged]) ?_ h
  intro s w event t l rest _ hstep hbook
  generalize s.locals w = k at hstep hbook
  obtain ⟨own, left⟩ := k
  cases moves_of_step hstep with
  | tick => exact hbook
  | @panic _ pc c left hworking =>
    have hbefore : Budget.unmerged ⟨pc, c⟩ = c.totalRequests + 1 := by
      cases pc <;> first | rfl | cases hworking
    rw [hbefore] at hbook
    simp only [Budget.unmerged]
    omega
  | expire => exact hbook
  | begin =>
    simp only [Budget.unmerged] at hbook ⊢
    omega
  | work htop hbudget =>
    dsimp only at hbook htop hbudget ⊢
    generalize s.shared.base = base at hbook hbudget
    cases Budget.steps_of_step hbudget with
    | refuse hno | claim hno =>
      rw [hdur] at hno
      cases hno
    | clock => exact absurd rfl (htop hdur)
    | draw _ hdraw =>
      rw [(Budget.drawKey_frame hdraw).2.1]
      exact hbook
    | select | skip | execute => exact hbook
    | record | merge =>
      simp only [Budget.unmerged, Budget.record_totalRequests,
        Budget.mergeFrom_totalRequests] at hbook ⊢
      omega

/-- A worker begins to leave at the top of its loop only. -/
lemma left_of_step {phase : Budget.Phase} {w : Budget.Worker phase} {event : Budget.Event}
    {s t : Budget.Shared .go phase} {l k : Budget.Local} (htop : l.pc ≠ .top)
    (h : Budget.step .go phase fuel w event s l = some (t, k)) (hleft : Budget.left k = 1) :
    Budget.left l = 1 := by
  cases Budget.steps_of_step h with
  | refuse | claim | clock => exact absurd rfl htop
  | select | draw | skip | execute | record => cases hleft
  | merge => rfl

/-- What is known of a worker: the clock never goes back, a worker that left did so after the
deadline or in a panic, and not before any worker began a request. -/
structure Known (phase : Phase) (start : ℤ) {budget : Budget.Phase} (s : Shared budget)
    (l : Local) : Prop where
  start_le : start ≤ s.clock
  late : ∀ t, l.left = some t → start ≤ t ∧ start + Duration phase.completion.seconds ≤ t
  gone : budget.durationBased → Budget.left l.base = 1 → s.workerPanics = 0 →
    l.left ≠ none ∧ (0 < phase.completion.seconds → 0 < s.begun)

/-- A worker of a phase with a duration finds the deadline passed only after some request was
begun. -/
def Timely (phase : Phase) : Condition := fun _ _ event s =>
  match event with
  | .work (.clock true) => 0 < phase.completion.seconds → 0 < s.shared.begun
  | _ => True

instance (phase : Phase) (budget : Budget.Phase) (w : Budget.Worker budget) (event : Event)
    (s : State budget) :
    Decidable (Timely phase budget w event s) := by
  unfold Timely
  split <;> infer_instance

/-- In every run whose steps are timely every worker is known. -/
theorem known
    (h : (runWorkload phase commands fuel start).Within (Timely phase (phase.budget commands)) s)
    (w : Budget.Worker (phase.budget commands)) : Known phase start s.shared (s.locals w) := by
  refine Pool.within_knows (P := runWorkload phase commands fuel start)
    (K := fun _ s l => Known phase start s l) ?_ ?_ ?_ h w
  · intro w
    exact ⟨le_rfl, fun t h => (by cases h), fun _ h => (by cases h)⟩
  · intro s w event t l hok hknown hstep
    obtain ⟨hstart, hlate, hgone⟩ := hknown
    generalize s.locals w = k at hlate hgone hstep
    cases moves_of_step hstep with
    | tick => exact ⟨by dsimp only; omega, hlate, hgone⟩
    | panic => exact ⟨hstart, hlate, fun _ _ h => absurd h (Nat.succ_ne_zero _)⟩
    | expire _ hexpired =>
      exact ⟨hstart, fun t ht => (by cases ht; exact ⟨hstart, hexpired⟩),
        fun _ _ _ => ⟨by simp, hok⟩⟩
    | begin => exact ⟨hstart, hlate, fun _ h => by cases h⟩
    | work htop hbudget =>
      refine ⟨hstart, hlate, fun hdur hleft hpanics => hgone hdur ?_ hpanics⟩
      exact left_of_step (htop hdur) hbudget hleft
  · intro s w event t l v _ _ _ hstep hknown
    obtain ⟨hstart, hlate, hgone⟩ := hknown
    generalize s.locals w = k at hstep
    cases moves_of_step hstep with
    | tick => exact ⟨by dsimp only; omega, hlate, hgone⟩
    | panic => exact ⟨hstart, hlate, fun _ _ h => absurd h (Nat.succ_ne_zero _)⟩
    | begin =>
      exact ⟨hstart, hlate, fun hdur hleft hpanics =>
        ⟨(hgone hdur hleft hpanics).1, fun _ => Nat.succ_pos _⟩⟩
    | expire | work => exact ⟨hstart, hlate, hgone⟩

end Run

/-! ## The row -/

/-- What COMPLETED promises of a row: all the requests, or every worker until the deadline; not only
failures; and some request, unless none was asked for. -/
structure Sound (phase : Phase) (start : ℤ) (row : Row) : Prop where
  worked :
    (phase.completion.IsRequestBased ∧ (row.merged.totalRequests : ℤ)
      = max phase.completion.requests 0) ∨
    (phase.completion.IsDurationBased ∧
      ∀ left ∈ row.left, ∃ t, left = some t ∧ start + phase.completion.seconds * 1000000000 ≤ t)
  some_succeeded : ¬ (0 < row.merged.totalRequests ∧
    row.merged.totalErrors = row.merged.totalRequests)
  none_asked : row.merged.totalRequests = 0 →
    (phase.completion.IsRequestBased ∧ phase.completion.requests ≤ 0) ∨
    (phase.completion.IsDurationBased ∧ phase.completion.seconds ≤ 0)

/-- The phases that stop by what their completion says: it is one of the two kinds, the workers do
not decrement a word of the budget until it wraps, and the duration does not wrap. -/
def Phase.Stops (p : Phase) : Prop :=
  (p.completion.IsRequestBased ∧
    (p.activeConns * p.EffectivePipelineDepth.toNat : ℕ) ≤ 2 ^ 63 + min p.completion.requests 0) ∨
  (p.completion.IsDurationBased ∧ p.completion.seconds * 1000000000 < 2 ^ 63)

instance (p : Phase) : Decidable p.Stops := by
  unfold Phase.Stops
  infer_instance

/-- A duration is not a number of requests. -/
lemma CompletionConfig.not_requestBased {c : CompletionConfig} (h : c.IsDurationBased) :
    c.IsRequestBased = false := by
  unfold IsDurationBased at h
  unfold IsRequestBased
  cases hc : c.type.toList with
  | nil => rfl
  | cons r s =>
    rw [hc] at h
    obtain ⟨hr, -⟩ := Bool.and_eq_true_iff.mp h
    have hne : foldsTo r 'r' = false := by
      simp only [foldsTo, Bool.or_eq_true, decide_eq_true_eq, Bool.and_eq_true] at hr
      rcases hr with ((rfl | rfl) | hr) | hr
      · rfl
      · rfl
      · exact absurd hr.1 (by decide)
      · exact absurd hr.1 (by decide)
    exact Bool.and_eq_false_iff.mpr (.inl hne)

/-- The budget of a phase with a duration has a deadline. -/
lemma durationBased {phase : Phase} (h : phase.completion.IsDurationBased)
    (commands : List Budget.Command) :
    (phase.budget commands).durationBased := by
  rw [Budget.Phase.durationBased, decide_eq_true_iff]
  unfold Phase.budget CompletionConfig.kind
  rw [CompletionConfig.not_requestBased h, if_neg Bool.false_ne_true, if_pos h]

/-- Some worker runs. -/
lemma Phase.workers_pos (p : Phase) : 0 < p.activeConns * p.EffectivePipelineDepth.toNat := by
  have hcount : 1 ≤ p.workerCount := by
    unfold workerCount
    split <;> omega
  refine Nat.mul_pos ?_ ?_
  · unfold activeConns activeConnectionCount
    split_ifs <;> omega
  · unfold PhaseConfig.EffectivePipelineDepth
    split <;> omega

/-- The number of requests of an accepted phase is an `int`. -/
lemma Accepted.requests {phase : Phase} (h : Accepted phase) : IsInt phase.completion.requests := by
  obtain ⟨_, phases, hfits, -, hmem⟩ := h
  obtain ⟨p, hp, rfl⟩ := List.mem_map.mp hmem
  exact (hfits p hp).requests

/-- A phase is COMPLETED when no worker panicked and some request succeeded or none was made. -/
lemma status_completed {panics : ℕ} {merged : Budget.Collector}
    (h : status false panics merged = .COMPLETED) :
    panics = 0 ∧ ¬ (0 < merged.totalRequests ∧ merged.totalErrors = merged.totalRequests) := by
  rw [status, if_neg Bool.false_ne_true] at h
  split at h
  · cases h
  · next hpanics =>
    split at h
    · cases h
    · next hfailed =>
      simp only [gt_iff_lt, Bool.and_eq_true, decide_eq_true_eq] at hfailed
      exact ⟨by omega, fun hall => hfailed ⟨hall.1, hall.2.symm⟩⟩

/-- After the deadline the seconds are over, unless their number wraps to a smaller one. -/
lemma seconds_le {start seconds t : ℤ} (hshort : seconds * 1000000000 < 2 ^ 63) (hstart : start ≤ t)
    (hlate : start + Duration seconds ≤ t) : start + seconds * 1000000000 ≤ t := by
  rcases lt_or_ge seconds 0 with hneg | hpos
  · omega
  · rwa [Duration, Int.bmod_eq_of_le (by omega) (by omega)] at hlate

section Ran
variable {phase : Phase} {commands : List Budget.Command} {fuel : ℕ} {start : ℤ}
  {s : State (phase.budget commands)}

/-- A phase with a budget makes the requests of its budget. -/
lemma requests_eq (haccepted : Accepted phase) (hreq : phase.completion.IsRequestBased)
    (hfew : (phase.activeConns * phase.EffectivePipelineDepth.toNat : ℕ) ≤ 2 ^ 63
      + min phase.completion.requests 0)
    (h : (runWorkload phase commands fuel start).Reachable s) (hdone : Finished s)
    (hpanics : s.shared.workerPanics = 0) :
    s.shared.base.merged.totalRequests = max phase.completion.requests 0 := by
  have hkind : (phase.budget commands).completion = .requests := if_pos hreq
  have hbase := reachable_base h hpanics
  obtain ⟨hrefused, hmerged⟩ := Budget.finished_books hkind hbase hdone
  have hclaims := Budget.claims_le_max hkind rfl haccepted.requests.2 (by exact_mod_cast hfew) hbase
  have hworkers := phase.workers_pos
  rw [← hmerged]
  refine hclaims.2 ?_
  rw [hrefused]
  exact hworkers

/-- A phase with a duration runs until it is over, and makes a request. -/
lemma until_deadline (hdur : phase.completion.IsDurationBased)
    (hshort : phase.completion.seconds * 1000000000 < 2 ^ 63)
    (h : (runWorkload phase commands fuel start).Within (Timely phase (phase.budget commands)) s)
    (hdone : Finished s) (hpanics : s.shared.workerPanics = 0) :
    (∀ left ∈ (row s).left, ∃ t, left = some t ∧
      start + phase.completion.seconds * 1000000000 ≤ t) ∧
      (0 < phase.completion.seconds → 0 < s.shared.base.merged.totalRequests) := by
  have hkind := durationBased hdur commands
  have hbase : ∀ w, ∃ c, (s.locals w).base = ⟨.done, c⟩ := fun w => ⟨_, by rw [← hdone w]⟩
  have hleft : ∀ w, Budget.left (s.locals w).base = 1 := by
    intro w
    obtain ⟨c, hc⟩ := hbase w
    rw [hc, Budget.left]
  have hgone := fun w => (known h w).gone hkind (hleft w) hpanics
  refine ⟨?_, fun hseconds => ?_⟩
  · intro left hmem
    obtain ⟨w, -, rfl⟩ := Multiset.mem_map.mp hmem
    obtain ⟨t, ht⟩ := Option.ne_none_iff_exists'.mp (hgone w).1
    obtain ⟨hstart, hlate⟩ := (known h w).late t ht
    exact ⟨t, ht, seconds_le hshort hstart hlate⟩
  · have hunmerged : ∑ w, Budget.unmerged (s.locals w).base = 0 := by
      refine Finset.sum_eq_zero fun w _ => ?_
      obtain ⟨c, hc⟩ := hbase w
      rw [hc, Budget.unmerged]
    have hbegun := begun_eq hkind h.reachable
    have hworkers := phase.workers_pos
    have hpos := (hgone ⟨⟨0, Nat.pos_of_mul_pos_right hworkers⟩,
      ⟨0, Nat.pos_of_mul_pos_left hworkers⟩⟩).2 hseconds
    omega

end Ran

/-- A COMPLETED row of a phase that stops by its completion is sound, when its workers are
timely. -/
theorem completed_sound (phase : Phase) (fuel : ℕ) (start : ℤ) (haccepted : Accepted phase)
    (hstops : phase.Stops) (r : Row) (h : Reported (Timely phase) phase fuel start r)
    (hcompleted : r.status = .COMPLETED) :
    Sound phase start r := by
  cases h with
  | unready => cases hcompleted
  | @ran _ commands s _ hrun hdone =>
    obtain ⟨hpanics, hsome⟩ := status_completed hcompleted
    rcases hstops with ⟨hreq, hfew⟩ | ⟨hdur, hshort⟩
    · have htotal := requests_eq haccepted hreq hfew hrun.reachable hdone hpanics
      refine ⟨.inl ⟨hreq, htotal⟩, hsome, fun hnone => .inl ⟨hreq, ?_⟩⟩
      exact max_eq_right_iff.mp (htotal.symm.trans (congrArg Nat.cast hnone))
    · obtain ⟨hlate, hpos⟩ := until_deadline hdur hshort hrun hdone hpanics
      refine ⟨.inr ⟨hdur, hlate⟩, hsome, fun hnone => .inr ⟨hdur, ?_⟩⟩
      by_contra hseconds
      exact absurd hnone (hpos (by omega)).ne'

/-- A phase of one connection. -/
def onePhase (completion : CompletionConfig) : Phase where
  connections := 1
  cpsLimit := 0
  rpsLimit := 0
  pipelineDepth := 0
  warmupRequests := none
  completion := completion
  commands := ["get"]
  id := "main"
  keyspace := ⟨3, "", none⟩

/-- It is accepted, whatever the type of its completion. -/
lemma onePhase_accepted {completion : CompletionConfig} (hseconds : IsInt completion.seconds)
    (hrequests : IsInt completion.requests) : Accepted (onePhase completion).withDefaults := by
  refine ⟨⟨none⟩, [onePhase completion], ?_, rfl, List.mem_singleton_self _⟩
  intro p hp
  obtain rfl := List.mem_singleton.mp hp
  have h0 : IsInt 0 := by decide
  have h1 : IsInt 1 := by decide
  have h3 : IsInt 3 := by decide
  exact ⟨h1, h0, h0, h0, fun _ h => (by cases h), hseconds, hrequests, h3, fun _ h => (by cases h)⟩

/-- Connections open, and PINGs succeed. -/
def quietOutside : Outside := ⟨fun _ => none, fun _ _ => true⟩

/-- A phase that runs for a second. -/
def secondPhase : Phase := (onePhase ⟨"duration", 1, 0⟩).withDefaults

/-- Its worker. -/
def secondSlot : Budget.Worker (secondPhase.budget [.get]) := (⟨0, by decide⟩, ⟨0, by decide⟩)

/-- It makes one request, which takes the second. -/
def secondRun : List (Budget.Worker (secondPhase.budget [.get]) × Event) :=
  [(secondSlot, .work (.clock false)), (secondSlot, .work (.select .get)),
    (secondSlot, .work .draw), (secondSlot, .tick 1000000000), (secondSlot, .work (.execute true)),
    (secondSlot, .work .record), (secondSlot, .work (.clock true)), (secondSlot, .work .merge)]

/-- The state that this run ends in. -/
def secondEnd : State (secondPhase.budget [.get]) :=
  ((runWorkload secondPhase [.get] 0 0).runIf (Timely secondPhase (secondPhase.budget [.get]))
    secondRun
    (runWorkload secondPhase [.get] 0 0).init).get rfl

/-- Its row is sound. -/
theorem secondEnd_sound : Sound secondPhase 0 (row secondEnd) := by
  have hsetup : setUp quietOutside secondPhase = .ok [.get] := rfl
  exact completed_sound secondPhase 0 0 (onePhase_accepted (by decide) (by decide)) (by decide)
    (row secondEnd)
    (.ran hsetup (Pool.Within.runIf .init (Option.some_get _).symm) (by decide)) rfl

/-- A phase of ten requests, with a misspelt type. -/
def misspeltPhase : Phase := (onePhase ⟨"request", 0, 10⟩).withDefaults

/-- Its worker. -/
def misspeltSlot : Budget.Worker (misspeltPhase.budget [.get]) := (⟨0, by decide⟩, ⟨0, by decide⟩)

/-- The worker leaves at once. -/
def misspeltEnd : State (misspeltPhase.budget [.get]) :=
  ((runWorkload misspeltPhase [.get] 0 0).runIf (Timely misspeltPhase (misspeltPhase.budget [.get]))
    [(misspeltSlot, .work .budget), (misspeltSlot, .work .merge)]
    (runWorkload misspeltPhase [.get] 0 0).init).get rfl

/-- The phase is accepted, and COMPLETED without a request. -/
theorem misspelt_not_sound : Accepted misspeltPhase ∧
    ∃ r, Reported (Timely misspeltPhase) misspeltPhase 0 0 r ∧ r.status = .COMPLETED ∧
      r.merged.totalRequests = 0 ∧ ¬ Sound misspeltPhase 0 r := by
  have hsetup : setUp quietOutside misspeltPhase = .ok [.get] := rfl
  refine ⟨onePhase_accepted (by decide) (by decide), row misspeltEnd,
    .ran hsetup (Pool.Within.runIf .init (Option.some_get _).symm) (by decide), rfl, rfl, ?_⟩
  intro h
  rcases h.worked with ⟨hreq, -⟩ | ⟨hdur, -⟩
  · exact absurd hreq (by decide)
  · exact absurd hdur (by decide)

end RespBench.Go
