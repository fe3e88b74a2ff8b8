import Mathlib

/-!
# Pools of workers

A pool is a family of workers over one shared state. A worker takes its steps one at a time, each of
them atomic: it reads and writes the shared state and its own local state. A run interleaves the
steps of the workers in any order.

Three rules carry the proofs about pools. `reachable_induction` shows an invariant; `balance` keeps
a book over all workers, a quantity of the shared state that is always the sum of an entry of the
shared state and one entry for every worker; `length_run_le` bounds the runs by a measure. They
reduce a statement about runs to one about a single step. `Knowing` is for workers who know
something of the shared state that the others leave alone. `Reachable.refines` and
`Reachable.simulates` compare a pool with a simpler one. `Within` is for the runs whose steps meet a
condition, and the rules for it carry those for all runs.
-/

namespace RespBench.Lib

/-- Workers `ι` over a shared state `S`, with local states `L` and events `E`. An event of a worker
is enabled when its step has a result. -/
structure Pool (ι S L E : Type*) where
  shared : S
  locals : ι → L
  step : ι → E → S → L → Option (S × L)

namespace Pool

/-- The states of a pool. -/
structure State (ι S L : Type*) where
  shared : S
  locals : ι → L

variable {ι S L E : Type*} [DecidableEq ι] {P : Pool ι S L E} {s s' : State ι S L}

/-- The initial state. -/
def init (P : Pool ι S L E) : State ι S L := ⟨P.shared, P.locals⟩

/-- An event of one worker. -/
def next (P : Pool ι S L E) (w : ι) (e : E) (s : State ι S L) : Option (State ι S L) :=
  (P.step w e s.shared (s.locals w)).map fun r => ⟨r.1, Function.update s.locals w r.2⟩

/-- A sequence of events. -/
def run (P : Pool ι S L E) : List (ι × E) → State ι S L → Option (State ι S L)
  | [], s => some s
  | (w, e) :: events, s => (P.next w e s).bind (P.run events)

/-- The states that some run leads to. -/
inductive Reachable (P : Pool ι S L E) : State ι S L → Prop where
  | init : Reachable P P.init
  | next {s s' w e} : Reachable P s → P.next w e s = some s' → Reachable P s'

/-- Runs lead from reachable states to reachable states. -/
lemma Reachable.run {events : List (ι × E)} (hs : P.Reachable s) (h : P.run events s = some s') :
    P.Reachable s' := by
  induction events generalizing s with
  | nil =>
    cases h
    exact hs
  | cons event events ih =>
    obtain ⟨t, ht, hrest⟩ := Option.bind_eq_some_iff.mp h
    exact ih (hs.next ht) hrest

/-- An event is a step of its worker, and the other workers keep their local states. -/
lemma next_eq_some {w : ι} {e : E} (h : P.next w e s = some s') :
    P.step w e s.shared (s.locals w) = some (s'.shared, s'.locals w) ∧
      ∀ v, v ≠ w → s'.locals v = s.locals v := by
  obtain ⟨r, hr, rfl⟩ := Option.map_eq_some_iff.mp h
  refine ⟨?_, fun v hv => Function.update_of_ne hv _ _⟩
  simp only [hr, Function.update_self]

/-- After an event something holds of every worker when it holds of the one that took the step and
of the others where they were. -/
lemma locals_of_next {w : ι} {e : E} {I : ι → S → L → Prop} (h : P.next w e s = some s')
    (hown : P.step w e s.shared (s.locals w) = some (s'.shared, s'.locals w) →
      I w s'.shared (s'.locals w))
    (hother : ∀ v, v ≠ w → P.step w e s.shared (s.locals w) = some (s'.shared, s'.locals w) →
      I v s'.shared (s.locals v)) (v : ι) : I v s'.shared (s'.locals v) := by
  obtain ⟨hstep, hrest⟩ := next_eq_some h
  by_cases hv : v = w
  · subst hv
    exact hown hstep
  · rw [hrest v hv]
    exact hother v hv hstep

/-- The states that a run leads to whose steps all meet a condition on the state before them. -/
inductive Within (P : Pool ι S L E) (ok : ι → E → State ι S L → Prop) : State ι S L → Prop where
  | init : Within P ok P.init
  | next {s s' w e} : Within P ok s → ok w e s → P.next w e s = some s' → Within P ok s'

section Conditions
variable {ok : ι → E → State ι S L → Prop}

/-- What steps that meet a condition lead to is reachable. -/
lemma Within.reachable (h : P.Within ok s) : P.Reachable s := by
  induction h with
  | init => exact .init
  | next _ _ hnext ih => exact ih.next hnext

/-- A reachable state is one that steps lead to which meet no condition. -/
lemma Reachable.within (h : P.Reachable s) : P.Within (fun _ _ _ => True) s := by
  induction h with
  | init => exact .init
  | next _ hnext ih => exact ih.next trivial hnext

/-- What holds initially and is preserved by every event that meets the condition. -/
theorem within_induction {I : State ι S L → Prop} (hinit : I P.init)
    (hstep : ∀ s w e s', P.Within ok s → I s → ok w e s → P.next w e s = some s' → I s')
    (h : P.Within ok s) : I s := by
  induction h with
  | init => exact hinit
  | next hs hok hnext ih => exact hstep _ _ _ _ hs ih hok hnext

/-- What every worker knows initially, what a worker knows after its own steps, and what the others
still know after them, is known in every state that steps meeting the condition lead to. Unlike in
`locals_induction`, the others may use what the worker that takes the step knows. -/
theorem within_knows {K : ι → S → L → Prop} (hinit : ∀ v, K v P.shared (P.locals v))
    (hown : ∀ s w e t l, ok w e s → K w s.shared (s.locals w) →
      P.step w e s.shared (s.locals w) = some (t, l) → K w t l)
    (hother : ∀ s w e t l v, v ≠ w → ok w e s → K w s.shared (s.locals w) →
      P.step w e s.shared (s.locals w) = some (t, l) → K v s.shared (s.locals v) →
      K v t (s.locals v))
    (h : P.Within ok s) (v : ι) : K v s.shared (s.locals v) := by
  refine within_induction (P := P) (I := fun s => ∀ v, K v s.shared (s.locals v)) hinit ?_ h v
  intro s w e s' _ hK hok hnext
  exact locals_of_next hnext (hown _ _ _ _ _ hok (hK w))
    fun v hv hstep => hother _ _ _ _ _ _ hv hok (hK w) hstep (hK v)

end Conditions

/-- What holds initially and is preserved by every event holds in every reachable state. -/
theorem reachable_induction {I : State ι S L → Prop} (hinit : I P.init)
    (hstep : ∀ s w e s', P.Reachable s → I s → P.next w e s = some s' → I s')
    (h : P.Reachable s) : I s :=
  within_induction hinit (fun _ _ _ _ hs hI _ => hstep _ _ _ _ hs.reachable hI) h.within

/-- What is preserved by every event still holds at the end of a run. -/
lemma Reachable.run_induction {I : State ι S L → Prop}
    (hstep : ∀ s w e s', P.Reachable s → I s → P.next w e s = some s' → I s')
    {events : List (ι × E)} (hs : P.Reachable s) (h : P.run events s = some s')
    (hI : I s) : I s' := by
  induction events generalizing s with
  | nil =>
    cases h
    exact hI
  | cons event events ih =>
    obtain ⟨t, ht, hrest⟩ := Option.bind_eq_some_iff.mp h
    exact ih (hs.next ht) hrest (hstep _ _ _ _ hs hI ht)

/-- What holds of every worker initially and is preserved, for the worker that takes a step and for
the others, holds of every worker in every reachable state. -/
theorem locals_induction {I : ι → S → L → Prop} (hinit : ∀ v, I v P.shared (P.locals v))
    (hown : ∀ s w e s', P.Reachable s → P.Reachable s' → I w s.shared (s.locals w) →
      P.step w e s.shared (s.locals w) = some (s'.shared, s'.locals w) →
      I w s'.shared (s'.locals w))
    (hother : ∀ s w e s' v, P.Reachable s → P.Reachable s' → v ≠ w → I v s.shared (s.locals v) →
      P.step w e s.shared (s.locals w) = some (s'.shared, s'.locals w) → I v s'.shared (s.locals v))
    (h : P.Reachable s) (v : ι) : I v s.shared (s.locals v) := by
  refine reachable_induction (P := P) (I := fun s => ∀ v, I v s.shared (s.locals v)) hinit ?_ h v
  intro s w e s' hs hI hnext
  have hs' := hs.next hnext
  exact locals_of_next hnext (hown _ _ _ _ hs hs' (hI w)) fun v hv =>
    hother _ _ _ _ _ hs hs' hv (hI v)

/-- What every worker knows initially, what a worker knows after its own steps, and what the others
still know after them, is known in every reachable state. -/
theorem knows_induction {K : ι → S → L → Prop} (hinit : ∀ v, K v P.shared (P.locals v))
    (hown : ∀ w e s l s' l', K w s l → P.step w e s l = some (s', l') → K w s' l')
    (hother : ∀ w e s l s' l' v k, v ≠ w → K w s l → P.step w e s l = some (s', l') →
      K v s k → K v s' k)
    (h : P.Reachable s) (v : ι) : K v s.shared (s.locals v) :=
  within_knows hinit (fun _ _ _ _ _ _ => hown _ _ _ _ _ _)
    (fun _ _ _ _ _ _ hv _ => hother _ _ _ _ _ _ _ _ hv) h.within v

/-- What the workers of a pool know of the shared state, and how they move it while they know it: a
step leaves what its worker needs to know next, and does not touch what the others know. -/
structure Knowing (P : Pool ι S L E) (K : ι → S → L → Prop) (R : S → S → Prop) : Prop where
  init : ∀ v, K v P.shared (P.locals v)
  step : ∀ {w e s l t k}, K w s l → P.step w e s l = some (t, k) →
    R s t ∧ K w t k ∧ ∀ v k', v ≠ w → K v s k' → K v t k'

section Knowing
variable {K : ι → S → L → Prop} {R : S → S → Prop}

/-- In every reachable state every worker knows what it needs to know. -/
lemma Knowing.knows (hP : P.Knowing K R) (h : P.Reachable s) (w : ι) : K w s.shared (s.locals w) :=
  knows_induction hP.init (fun _ _ _ _ _ _ hk hstep => (hP.step hk hstep).2.1)
    (fun _ _ _ _ _ _ _ _ hv hk hstep => (hP.step hk hstep).2.2 _ _ hv) h w

/-- Every event moves the shared state. -/
lemma Knowing.moves (hP : P.Knowing K R) (h : P.Reachable s) {w : ι} {e : E}
    (hnext : P.next w e s = some s') :
    R s.shared s'.shared :=
  (hP.step (hP.knows h w) (next_eq_some hnext).1).1

/-- What every move preserves holds in every reachable state. -/
theorem Knowing.invariant (hP : P.Knowing K R) {I : S → Prop} (hinit : I P.shared)
    (hmoves : ∀ {s t}, I s → R s t → I t) (h : P.Reachable s) : I s.shared :=
  reachable_induction (I := fun s => I s.shared) hinit
    (fun _ _ _ _ hs hI hnext => hmoves hI (hP.moves hs hnext)) h

end Knowing

/-- A pool refines another one while its shared state is clean, when each of its steps to a clean
state starts in a clean one and is a step of the other pool or none. -/
theorem Reachable.refines {S' L' E' : Type*} {Q : Pool ι S' L' E'} (f : S → S') (g : L → L')
    (clean : S → Prop) (hinit : Q.init = ⟨f P.shared, fun w => g (P.locals w)⟩)
    (hstep : ∀ w e s l t k, P.step w e s l = some (t, k) → clean t →
      clean s ∧ ((f t = f s ∧ g k = g l) ∨ ∃ e', Q.step w e' (f s) (g l) = some (f t, g k)))
    (h : P.Reachable s) (hclean : clean s.shared) :
    Q.Reachable ⟨f s.shared, fun w => g (s.locals w)⟩ := by
  induction h with
  | init =>
    rw [Pool.init, ← hinit]
    exact .init
  | @next s s' w e _ hnext ih =>
    obtain ⟨hs, hrest⟩ := next_eq_some hnext
    obtain ⟨hclean', hmove⟩ := hstep _ _ _ _ _ _ hs hclean
    have hlocals : (fun v => g (s'.locals v)) = Function.update (fun v => g (s.locals v)) w
      (g (s'.locals w)) := by
      funext v
      by_cases hv : v = w
      · rw [hv, Function.update_self]
      · rw [Function.update_of_ne hv, hrest v hv]
    rcases hmove with ⟨hf, hg⟩ | ⟨e', he'⟩
    · rw [hlocals, hf, hg, Function.update_eq_self w fun v => g (s.locals v)]
      exact ih hclean'
    · rw [hlocals]
      exact (ih hclean').next (Option.map_eq_some_iff.mpr ⟨_, he', rfl⟩)

section Conditions
variable {ok : ι → E → State ι S L → Prop}

variable [∀ w e s, Decidable (ok w e s)]

/-- A sequence of events that meet a condition. -/
def runIf (P : Pool ι S L E) (ok : ι → E → State ι S L → Prop) [∀ w e s, Decidable (ok w e s)] :
    List (ι × E) → State ι S L → Option (State ι S L)
  | [], s => some s
  | (w, e) :: events, s => if ok w e s then (P.next w e s).bind (P.runIf ok events) else none

/-- A run whose steps all meet the condition. -/
lemma Within.runIf {events : List (ι × E)} (hs : P.Within ok s)
    (h : P.runIf ok events s = some s') :
    P.Within ok s' := by
  induction events generalizing s with
  | nil =>
    cases h
    exact hs
  | cons event events ih =>
    rw [Pool.runIf] at h
    split at h
    next hok =>
      obtain ⟨t, ht, hrest⟩ := Option.bind_eq_some_iff.mp h
      exact ih (hs.next hok ht) hrest
    next => cases h

end Conditions

/-- A measure that every event decreases bounds the length of the runs. -/
theorem length_run_le (μ : State ι S L → ℕ)
    (hstep : ∀ s w e s', P.Reachable s → P.next w e s = some s' → μ s' < μ s)
    {events : List (ι × E)} (hs : P.Reachable s) (h : P.run events s = some s') :
    events.length + μ s' ≤ μ s := by
  induction events generalizing s with
  | nil =>
    cases h
    exact (Nat.zero_add _).le
  | cons event events ih =>
    obtain ⟨t, ht, hrest⟩ := Option.bind_eq_some_iff.mp h
    have hlt := hstep _ _ _ _ hs ht
    have hle := ih (hs.next ht) hrest
    rw [List.length_cons]
    omega

/-- A run in two parts. -/
lemma run_append (before after : List (ι × E)) (s : State ι S L) :
    P.run (before ++ after) s = (P.run before s).bind (P.run after) := by
  induction before generalizing s with
  | nil => rfl
  | cons event before ih =>
    rw [List.cons_append, run, run, Option.bind_assoc]
    exact Option.bind_congr fun t _ => ih t

/-- When every reachable state that is not final can be left by some events that decrease a measure,
a final state can be reached from each of them. -/
theorem exists_run_of_progress {final : State ι S L → Prop} (μ : State ι S L → ℕ)
    (hprogress : ∀ s, P.Reachable s → ¬ final s → ∃ events s',
      P.run events s = some s' ∧ μ s' < μ s)
    (hs : P.Reachable s) : ∃ events s', P.run events s = some s' ∧ final s' := by
  induction hμ : μ s using Nat.strong_induction_on generalizing s with
  | _ n ih =>
    subst hμ
    by_cases hfinal : final s
    · exact ⟨[], s, rfl, hfinal⟩
    · obtain ⟨events, t, hrun, hlt⟩ := hprogress s hs hfinal
      obtain ⟨rest, s', hrest, hfinal'⟩ := ih (μ t) hlt (hs.run hrun) rfl
      exact ⟨events ++ rest, s', by rw [run_append, hrun]; exact hrest, hfinal'⟩

/-- What one worker can do while the others rest. -/
def Alone (P : Pool ι S L E) (w : ι) : S × L → S × L → Prop :=
  Relation.ReflTransGen fun a b => ∃ e, P.step w e a.1 a.2 = some b

omit [DecidableEq ι] in
/-- The events of a worker are something that it can do alone. -/
lemma alone_of_events {w : ι} {a b : S × L} (events : List E)
    (h : events.foldlM (fun a e => P.step w e a.1 a.2) a = some b) : P.Alone w a b := by
  induction events generalizing a with
  | nil =>
    cases h
    exact .refl
  | cons e events ih =>
    obtain ⟨c, hstep, hrest⟩ := Option.bind_eq_some_iff.mp h
    exact .head ⟨e, hstep⟩ (ih hrest)

/-- The events of one worker, as a run. -/
lemma run_of_events {w : ι} (events : List E) {t : S} {l : L}
    (h : events.foldlM (fun a e => P.step w e a.1 a.2) (s.shared, s.locals w) = some (t, l)) :
    P.run (events.map fun e => (w, e)) s = some ⟨t, Function.update s.locals w l⟩ := by
  induction events generalizing s with
  | nil =>
    cases h
    rw [Function.update_eq_self]
    rfl
  | cons e events ih =>
    obtain ⟨⟨u, k⟩, hstep, hrest⟩ := Option.bind_eq_some_iff.mp h
    dsimp only at hstep
    rw [List.map_cons, run, next, hstep, Option.map_some, Option.bind_some,
      ih (by dsimp only; rw [Function.update_self]; exact hrest), Function.update_idem]

/-- What one worker does alone leads from reachable states to reachable states. -/
lemma Reachable.alone {w : ι} {locals : ι → L} {a b : S × L}
    (h : P.Reachable ⟨a.1, Function.update locals w a.2⟩) (hsteps : P.Alone w a b) :
    P.Reachable ⟨b.1, Function.update locals w b.2⟩ := by
  induction hsteps with
  | refl => exact h
  | @tail b c _ hstep ih =>
    obtain ⟨e, he⟩ := hstep
    refine ih.next (w := w) (e := e) ?_
    simp only [Pool.next, Function.update_self, he, Option.map_some, Function.update_idem]

/-- A pool is simulated by another one, when every step of a worker is something that the other
pool's worker can do alone: one step, several, or none. -/
theorem Reachable.simulates {S' L' E' : Type*} {Q : Pool ι S' L' E'} (f : S → S') (g : L → L')
    (hinit : Q.init = ⟨f P.shared, fun w => g (P.locals w)⟩)
    (hstep : ∀ s w e t l, P.Reachable s → P.step w e s.shared (s.locals w) = some (t, l) →
      Q.Alone w (f s.shared, g (s.locals w)) (f t, g l))
    (h : P.Reachable s) : Q.Reachable ⟨f s.shared, fun w => g (s.locals w)⟩ := by
  induction h with
  | init =>
    rw [Pool.init, ← hinit]
    exact .init
  | @next s s' w e hs hnext ih =>
    obtain ⟨hmove, hrest⟩ := next_eq_some hnext
    have hlocals : (fun v => g (s'.locals v)) = Function.update (fun v => g (s.locals v)) w
      (g (s'.locals w)) := by
      funext v
      by_cases hv : v = w
      · rw [hv, Function.update_self]
      · rw [Function.update_of_ne hv, hrest v hv]
    rw [hlocals]
    refine Reachable.alone (a := (f s.shared, g (s.locals w))) ?_ (hstep _ _ _ _ _ hs hmove)
    rw [Function.update_eq_self w fun v => g (s.locals v)]
    exact ih

section Sums
variable [Fintype ι] {M : Type*} [AddCommMonoid M]

/-- An event changes one entry of a sum over the workers. -/
lemma next_sum {w : ι} {e : E} (h : P.next w e s = some s') (f : ι → L → M) :
    ∃ rest, ∑ v, f v (s.locals v) = f w (s.locals w) + rest ∧
      ∑ v, f v (s'.locals v) = f w (s'.locals w) + rest := by
  obtain ⟨-, hrest⟩ := next_eq_some h
  refine ⟨∑ v ∈ Finset.univ.erase w, f v (s.locals v), ?_, ?_⟩
  · exact (Finset.add_sum_erase _ _ (Finset.mem_univ w)).symm
  · rw [← Finset.add_sum_erase _ _ (Finset.mem_univ w)]
    congr 1
    exact Finset.sum_congr rfl fun v hv => by rw [hrest v (Finset.ne_of_mem_erase hv)]

omit [AddCommMonoid M] in
/-- A worker that is nearer to its end brings all of them nearer. -/
lemma sum_update_lt {f : L → ℕ} {locals : ι → L} {w : ι} {l : L} {a b : ℕ}
    (h : a + f l < b + f (locals w)) :
    a + ∑ v, f (Function.update locals w l v) < b + ∑ v, f (locals v) := by
  have hothers : ∑ v ∈ Finset.univ.erase w, f (Function.update locals w l v)
      = ∑ v ∈ Finset.univ.erase w, f (locals v) :=
    Finset.sum_congr rfl fun v hv => by rw [Function.update_of_ne (Finset.ne_of_mem_erase hv)]
  rw [← Finset.add_sum_erase _ _ (Finset.mem_univ w),
    ← Finset.add_sum_erase _ (fun v => f (locals v))
    (Finset.mem_univ w), hothers, Function.update_self]
  omega

/-- A book that every step keeps in balance, whatever the entries of the other workers, is in
balance in every reachable state. -/
theorem balance (total own : S → M) (entry : L → M)
    (hinit : total P.shared = own P.shared + ∑ v, entry (P.locals v))
    (hstep : ∀ s w e t l rest, P.Reachable s → P.step w e s.shared (s.locals w) = some (t, l) →
      total s.shared = own s.shared + (entry (s.locals w) + rest) →
      total t = own t + (entry l + rest))
    (h : P.Reachable s) : total s.shared = own s.shared + ∑ v, entry (s.locals v) := by
  refine reachable_induction (P := P)
    (I := fun s => total s.shared = own s.shared + ∑ v, entry (s.locals v)) hinit ?_ h
  intro s w e s' hs hbook hnext
  obtain ⟨rest, hbefore, hafter⟩ := next_sum hnext fun _ l => entry l
  rw [hafter]
  rw [hbefore] at hbook
  exact hstep _ _ _ _ _ _ hs (next_eq_some hnext).1 hbook

/-- An entry at the end of a list, as a book counts it. -/
lemma coe_concat {α : Type*} (entries : List α) (a : α) :
    ((entries ++ [a] : List α) : Multiset α) = a ::ₘ (entries : Multiset α) :=
  Multiset.coe_eq_coe.mpr (List.perm_append_singleton a entries)

omit [DecidableEq ι] [AddCommMonoid M] in
/-- Not all workers are counted when some worker is not. -/
lemma sum_lt_card {f : L → ℕ} (hle : ∀ l, f l ≤ 1) {w : ι} (hw : f (s.locals w) = 0) :
    ∑ v, f (s.locals v) < Fintype.card ι := by
  calc ∑ v, f (s.locals v) < ∑ _v : ι, 1 :=
        Finset.sum_lt_sum (fun v _ => hle _) ⟨w, Finset.mem_univ w, by rw [hw]; exact Nat.one_pos⟩
    _ = Fintype.card ι := by simp

end Sums

end Pool

end RespBench.Lib
