import RespBench.Metrics.Accounting

/-!
# The order of merging

The workers of a phase finish in any order, and their collectors are merged in this order. A `Plan`
says how workers are merged: one by one into a new collector in any order, or in groups that are
merged first, where every merge iterates over the commands in an order of its own. Every plan over
the same workers counts the sum of their tallies, so that all report the same
(`merge_order_irrelevant`). In PHP a merge raises an error for a new command whose name reads as an
integer; for other names, and in Go, a plan runs through.
-/

namespace RespBench.Metrics.Collector
open RespBench.Lib
open RespBench.Hdr (Engine)

/-- A way to merge workers. -/
inductive Plan (T : Type*)
  | empty
  | worker (c : Collector T)
  | merge (target source : Plan T) (order : List (String × CommandMetrics) →
    List (String × CommandMetrics))
      (horder : ∀ commands, (order commands).Perm commands)

namespace Plan
variable {T : Type*}

/-- The workers that are merged. -/
def workers : Plan T → Multiset (Collector T)
  | empty => 0
  | worker c => {c}
  | merge target source _ _ => target.workers + source.workers

/-- The plan merges into a new collector. -/
def IntoNew : Plan T → Prop
  | empty => True
  | worker _ => False
  | merge target _ _ _ => target.IntoNew

/-- The workers one by one, merged into a new collector in the order of a list. -/
def fold (workers : List (Collector T)) : Plan T :=
  workers.foldl (fun plan c => .merge plan (.worker c) id fun _ => .refl _) .empty

/-- A plan that merges workers one by one merges all of them. -/
lemma workers_foldl (plan : Plan T) (workers : List (Collector T)) :
    (workers.foldl (fun plan c => .merge plan (.worker c) id fun _ => .refl _) plan).workers
      = plan.workers + (workers : Multiset (Collector T)) := by
  induction workers generalizing plan with
  | nil => exact (add_zero _).symm
  | cons w rest ih =>
    rw [List.foldl_cons, ih, Plan.workers, Plan.workers, add_assoc, Multiset.singleton_add,
      Multiset.cons_coe]

/-- The fold of the workers merges all of them. -/
@[simp] lemma workers_fold (workers : List (Collector T)) : (fold workers).workers = workers := by
  rw [fold, workers_foldl, Plan.workers, zero_add]

/-- A plan that merges workers one by one still begins with a new collector. -/
lemma intoNew_foldl {plan : Plan T} (hplan : plan.IntoNew) (workers : List (Collector T)) :
    (workers.foldl (fun plan c => .merge plan (.worker c) id fun _ => .refl _) plan).IntoNew := by
  induction workers generalizing plan with
  | nil => exact hplan
  | cons w rest ih =>
    rw [List.foldl_cons]
    exact ih hplan

/-- The fold of the workers begins with a new collector. -/
lemma intoNew_fold (workers : List (Collector T)) : (fold workers).IntoNew := by
  have hempty : (empty : Plan T).IntoNew := trivial
  exact intoNew_foldl hempty workers

variable [LinearOrder T]

/-- The collector that comes out of the merges, if they raise no error. -/
def run (engine : Engine) : Plan T → Option (Collector T)
  | empty => some new
  | worker c => some c
  | merge target source order _ =>
    (target.run engine).bind fun c => (source.run engine).bind fun d =>
      c.mergeFrom engine d (order d.commandMetrics)

variable {engine : Engine} {plan : Plan T} {c : Collector T}

/-- A plan counts the sum of the tallies of its workers. -/
theorem tallies {τ : Collector T → Tally T} (hτ : ∀ w ∈ plan.workers, w.Tallies engine (τ w))
    (hrun : plan.run engine = some c) : c.Tallies engine (plan.workers.map τ).sum := by
  induction plan generalizing c with
  | empty =>
    obtain rfl := Option.some.inj hrun
    exact tallies_new engine
  | worker w =>
    obtain rfl := Option.some.inj hrun
    rw [workers, Multiset.map_singleton, Multiset.sum_singleton]
    exact hτ w (Multiset.mem_singleton_self w)
  | merge target source order horder iht ihs =>
    obtain ⟨t, ht, hrest⟩ := Option.bind_eq_some_iff.mp hrun
    obtain ⟨s, hs, hmerge⟩ := Option.bind_eq_some_iff.mp hrest
    rw [workers, Multiset.map_add, Multiset.sum_add]
    exact (iht (fun w hw => hτ w (Multiset.mem_add.mpr (.inl hw))) ht).mergeFrom
      (ihs (fun w hw => hτ w (Multiset.mem_add.mpr (.inr hw))) hs) (horder _) hmerge

/-- A plan over workers with accepted names raises no error. -/
theorem run_isSome (hnames : ∀ w ∈ plan.workers, w.Accepted engine) :
    ∃ c, plan.run engine = some c ∧ c.Accepted engine := by
  induction plan with
  | empty => exact ⟨new, rfl, fun _ hname => absurd hname List.not_mem_nil⟩
  | worker w => exact ⟨w, rfl, hnames w (Multiset.mem_singleton_self w)⟩
  | merge target source order horder iht ihs =>
    obtain ⟨t, ht, htnames⟩ := iht fun w hw => hnames w (Multiset.mem_add.mpr (.inl hw))
    obtain ⟨s, hs, hsnames⟩ := ihs fun w hw => hnames w (Multiset.mem_add.mpr (.inr hw))
    obtain ⟨c, hc, hcnames⟩ := htnames.mergeFrom hsnames (horder s.commandMetrics)
    exact ⟨c, by rw [run, ht, Option.bind_some, hs, Option.bind_some, hc], hcnames⟩

/-- The names of a collector that comes out are accepted only if those of its workers are. -/
lemma accepted_of_run (hrun : plan.run engine = some c) (hc : c.Accepted engine) :
    ∀ w ∈ plan.workers, w.Accepted engine := by
  induction plan generalizing c with
  | empty => exact fun w hw => absurd hw (Multiset.notMem_zero w)
  | worker w =>
    obtain rfl := Option.some.inj hrun
    exact fun v hv => Multiset.mem_singleton.mp hv ▸ hc
  | merge target source order horder iht ihs =>
    obtain ⟨t, ht, hrest⟩ := Option.bind_eq_some_iff.mp hrun
    obtain ⟨s, hs, hmerge⟩ := Option.bind_eq_some_iff.mp hrest
    obtain ⟨htnames, hsnames⟩ := (accepted_mergeFrom_iff (horder s.commandMetrics) hmerge).mp hc
    intro w hw
    rcases Multiset.mem_add.mp hw with hw | hw
    · exact iht ht htnames w hw
    · exact ihs hs hsnames w hw

/-- What is merged into a new collector without an error has accepted names. -/
lemma IntoNew.accepted (hnew : plan.IntoNew) (hrun : plan.run engine = some c) :
    c.Accepted engine := by
  induction plan generalizing c with
  | empty =>
    obtain rfl := Option.some.inj hrun
    exact fun _ hname => absurd hname List.not_mem_nil
  | worker w => exact hnew.elim
  | merge target source order horder iht ihs =>
    obtain ⟨t, ht, hrest⟩ := Option.bind_eq_some_iff.mp hrun
    obtain ⟨s, hs, hmerge⟩ := Option.bind_eq_some_iff.mp hrest
    have htnames := iht hnew ht
    exact (accepted_mergeFrom_iff (horder s.commandMetrics) hmerge).mpr
      ⟨htnames, htnames.of_mergeFrom (horder s.commandMetrics) hmerge⟩

/-- A plan that merges into a new collector raises an error exactly when some name is not
accepted. -/
theorem IntoNew.run_isSome_iff (hnew : plan.IntoNew) :
    (plan.run engine).isSome ↔ ∀ w ∈ plan.workers, w.Accepted engine := by
  constructor
  · intro hsome
    obtain ⟨c, hc⟩ := Option.isSome_iff_exists.mp hsome
    exact accepted_of_run hc (hnew.accepted hc)
  · intro hnames
    obtain ⟨c, hc, -⟩ := run_isSome hnames
    exact Option.isSome_of_mem hc

end Plan

variable {T : Type*} [LinearOrder T] {engine : Engine} {A : Multiset (Collector T)}
  {c : Collector T}

/-! ## The window -/

/-- The window of a sum begins with the first. -/
lemma start_sum (M : Multiset (Tally T)) : M.sum.start = (M.map Tally.start).inf := by
  induction M using Multiset.induction_on with
  | empty => rfl
  | cons τ M ih => rw [Multiset.sum_cons, Tally.add_start, ih, Multiset.map_cons, Multiset.inf_cons]

/-- The window of a sum ends with the last. -/
lemma stop_sum (M : Multiset (Tally T)) : M.sum.stop = (M.map Tally.stop).sup := by
  induction M using Multiset.induction_on with
  | empty => rfl
  | cons τ M ih => rw [Multiset.sum_cons, Tally.add_stop, ih, Multiset.map_cons, Multiset.sup_cons]

/-- The window of a merge is the earliest start and the latest end of the workers. -/
structure Window (A : Multiset (Collector T)) (c : Collector T) : Prop where
  start : windowStart c.startTime = (A.map fun w => windowStart w.startTime).inf
  stop : windowStop c.endTime = (A.map fun w => windowStop w.endTime).sup

/-- A merged collector has the window of its workers. -/
lemma Tallies.window {τ : Collector T → Tally T} (hτ : ∀ w ∈ A, w.Tallies engine (τ w))
    (hc : c.Tallies engine (A.map τ).sum) : c.Window A where
  start := by
    rw [hc.start, start_sum, Multiset.map_map]
    exact congrArg Multiset.inf (Multiset.map_congr rfl fun w hw => (hτ w hw).start.symm)
  stop := by
    rw [hc.stop, stop_sum, Multiset.map_map]
    exact congrArg Multiset.sup (Multiset.map_congr rfl fun w hw => (hτ w hw).stop.symm)

/-! ## The result -/

/-- Reachable collectors have tallies. -/
lemma exists_tallies (T : Type*) [LinearOrder T] (engine : Engine) :
    ∃ τ : Collector T → Tally T, ∀ w, Reachable engine w → w.Tallies engine (τ w) := by
  classical
  refine ⟨fun w => if h : Reachable engine w then h.tallies.choose else 0, fun w hw => ?_⟩
  dsimp only
  rw [dif_pos hw]
  exact hw.tallies.choose_spec

/-- Whatever the order and the groups, merging the same workers gives the same report. Whether
merging them into a new collector raises an error depends on the workers alone, and it raises none
if their names are accepted. -/
theorem merge_order_irrelevant {p q : Plan T} (hworkers : p.workers = q.workers)
    (hreach : ∀ w ∈ p.workers, Reachable engine w) :
    (∀ c d, p.run engine = some c → q.run engine = some d → c.Same engine d ∧ c.Window p.workers) ∧
      (p.IntoNew → q.IntoNew → ((p.run engine).isSome ↔ (q.run engine).isSome)) ∧
      ((∀ w ∈ p.workers, w.Accepted engine) → (p.run engine).isSome ∧ (q.run engine).isSome) := by
  refine ⟨fun c d hc hd => ?_, fun hp hq => ?_, fun hnames => ?_⟩
  · obtain ⟨τ, hτ⟩ := exists_tallies T engine
    have htallies : ∀ w ∈ p.workers, w.Tallies engine (τ w) := fun w hw => hτ w (hreach w hw)
    have hc := Plan.tallies htallies hc
    have hd := Plan.tallies (hworkers ▸ htallies) hd
    rw [← hworkers] at hd
    exact ⟨hc.same hd, hc.window htallies⟩
  · rw [hp.run_isSome_iff, hq.run_isSome_iff, hworkers]
  · obtain ⟨c, hc, -⟩ := Plan.run_isSome hnames
    obtain ⟨d, hd, -⟩ := Plan.run_isSome (hworkers ▸ hnames)
    exact ⟨Option.isSome_of_mem hc, Option.isSome_of_mem hd⟩

/-- The two workers and a new collector, one by one. -/
def oneByOne (engine : Engine) : Plan ℕ := .fold [pingWorker engine, setWorker engine, new]

/-- The same workers, of which two are merged first. -/
def grouped (engine : Engine) : Plan ℕ :=
  .merge (.fold [setWorker engine, new]) (.worker (pingWorker engine)) List.reverse
    List.reverse_perm

/-- Both plans merge the same workers. -/
lemma workers_oneByOne (engine : Engine) : (oneByOne engine).workers
    = (grouped engine).workers := by
  rw [oneByOne, grouped, Plan.workers, Plan.workers, Plan.workers_fold, Plan.workers_fold]
  exact Multiset.coe_eq_coe.mpr
    (List.perm_append_comm : ([pingWorker engine] ++ [setWorker engine, new]).Perm
    ([setWorker engine, new] ++ [pingWorker engine]))

/-- Both plans over these workers run through and report the same. -/
theorem oneByOne_order_irrelevant :
    ∃ c d, (oneByOne .php).run .php = some c ∧ (grouped .php).run .php = some d ∧
    c.Same .php d := by
  have hmem : ∀ w ∈ (oneByOne .php).workers, w = pingWorker .php ∨
    w = setWorker .php ∨ w = new := by
    intro w hw
    rw [oneByOne, Plan.workers_fold] at hw
    simpa using hw
  have hreach : ∀ w ∈ (oneByOne .php).workers, Reachable .php w := by
    intro w hw
    rcases hmem w hw with rfl | rfl | rfl
    · exact reachable_pingWorker .php
    · exact reachable_setWorker .php
    · exact .new
  have hnames : ∀ w ∈ (oneByOne .php).workers, w.Accepted .php := by
    intro w hw
    rcases hmem w hw with rfl | rfl | rfl
    · exact accepted_pingWorker .php
    · exact accepted_setWorker .php
    · exact fun _ hname => absurd hname List.not_mem_nil
  obtain ⟨hsame, herrors, hsome⟩ := merge_order_irrelevant (workers_oneByOne .php) hreach
  have hone := (hsome hnames).1
  have hgrouped := (herrors (Plan.intoNew_fold _) (Plan.intoNew_fold [setWorker .php, new])).mp hone
  obtain ⟨c, hc⟩ := Option.isSome_iff_exists.mp hone
  obtain ⟨d, hd⟩ := Option.isSome_iff_exists.mp hgrouped
  exact ⟨c, d, hc, hd, (hsame c d hc hd).1⟩

end RespBench.Metrics.Collector
