import RespBench.Budget.Exact
import RespBench.Budget.Indices

/-!
# Keys drawn under a lock

The workload of one phase again, with the draw of a random key in its steps. The `pipeline_depth`
workers of a connection share one generator behind a mutex: a worker takes the lock, runs the rounds
of `NextInt`, each of which reads the state of the generator and writes the next one, and gives the
lock back. A round that panics keeps its worker and the lock where they are: Go does not unlock, and
Rust poisons the mutex. All the other steps are those of `RespBench.Budget.Workers`.

`Fresh` is the invariant: the indices drawn on a connection and the state of its generator are where
the rounds lead from the seed. It needs that a worker between a read and the write that follows
still knows the state of the generator, which `Knows` says.
-/

namespace RespBench.Budget.Locked
open RespBench.Lib

/-! ## A phase -/

/-- The state that the workers share, with the holder of the mutex of each connection. -/
structure Shared (engine : Engine) (phase : Phase) where
  base : Budget.Shared engine phase
  owner : Fin phase.connections → Option (Worker phase)

/-- Where a worker is inside `NextKey`. -/
inductive Draw (engine : Engine) where
  | outside
  -- the mutex is held, and the next round begins
  | locked
  -- the state of the generator has been read
  | read (rng : engine.Rng)
  -- an index has been accepted
  | drawn (index : BitVec 64)

structure Local (engine : Engine) where
  base : Budget.Local
  draw : Draw engine

/-- What a worker does: an event of the workload, or a step of `NextKey`. -/
inductive Event where
  | base (e : Budget.Event)
  | lock
  | read
  | write
  | unlock

section Machine
variable (engine : Engine) (phase : Phase)

/-- The worker is about to draw a random key. -/
def wantsKey : Pc → Bool
  | .selected command => command.consumesKey && !phase.sequential
  | _ => false

/-- The write of a round: the next state of the generator, and the index when the round accepts
one. -/
def write (w : Worker phase) (rng : engine.Rng) (s : Shared engine phase) :
    Option (Shared engine phase × Draw engine) :=
  (engine.round phase.keysCount rng).map fun r =>
    let rngs := Function.update s.base.rngs w.1 r.2
    match r.1 with
    | none => ({ s with base := { s.base with rngs := rngs } }, .locked)
    | some index =>
      ({ s with base := { s.base with rngs := rngs, drawn := s.base.drawn ++ [(w.1, index)] } },
        .drawn index)

def step (w : Worker phase) : Event → Shared engine phase → Local engine →
    Option (Shared engine phase × Local engine)
  | .base e, s, ⟨l, .outside⟩ =>
    if wantsKey phase l.pc then none
    else (Budget.step engine phase 0 w e s.base l).map fun r =>
      ({ s with base := r.1 }, ⟨r.2, .outside⟩)
  | .lock, s, ⟨l, .outside⟩ =>
    if wantsKey phase l.pc ∧ s.owner w.1 = none then
      some ({ s with owner := Function.update s.owner w.1 (some w) }, ⟨l, .locked⟩)
    else none
  | .read, s, ⟨l, .locked⟩ => some (s, ⟨l, .read (s.base.rngs w.1)⟩)
  | .write, s, ⟨l, .read rng⟩ => (write engine phase w rng s).map fun r => (r.1, ⟨l, r.2⟩)
  | .unlock, s, ⟨⟨.selected command, c⟩, .drawn index⟩ =>
    some ({ s with owner := Function.update s.owner w.1 none },
      ⟨⟨.keyed command (some index), c⟩, .outside⟩)
  | _, _, _ => none

/-- The workload of a phase. -/
def workload : Pool (Worker phase) (Shared engine phase) (Local engine) Event where
  shared := ⟨(Budget.workload engine phase 0).shared, fun _ => none⟩
  locals w := ⟨(Budget.workload engine phase 0).locals w, .outside⟩
  step := step engine phase

end Machine

variable {engine : Engine} {phase : Phase}

/-- The indices drawn on a connection, in the order of the draws. -/
def Shared.indices (s : Shared engine phase) (i : Fin phase.connections) : List (BitVec 64) :=
  (s.base.drawn.filter (·.1 = i)).map Prod.snd

/-! ## What a step does -/

/-- The steps of a worker of a phase with random keys, as far as generators, draws and
mutexes are concerned. -/
inductive Moves (w : Worker phase) : Shared engine phase → Draw engine → Shared engine phase →
    Draw engine → Prop where
  | base {s t} : t.base.rngs = s.base.rngs → t.base.drawn = s.base.drawn → t.owner = s.owner →
    Moves w s .outside t .outside
  | lock {s} : s.owner w.1 = none →
    Moves w s .outside { s with owner := Function.update s.owner w.1 (some w) } .locked
  | read {s} : Moves w s .locked s (.read (s.base.rngs w.1))
  | reject {s rng rng'} : engine.round phase.keysCount rng = some (none, rng') →
    Moves w s (.read rng)
      { s with base := { s.base with rngs := Function.update s.base.rngs w.1 rng' } } .locked
  | accept {s rng rng' index} : engine.round phase.keysCount rng = some (some index, rng') →
    Moves w s (.read rng)
      { s with base := { s.base with
        rngs := Function.update s.base.rngs w.1 rng', drawn := s.base.drawn ++ [(w.1, index)] } }
          (.drawn index)
  | unlock {s index} :
    Moves w s (.drawn index) { s with owner := Function.update s.owner w.1 none } .outside

/-- Every step of a worker with random keys is a move. -/
lemma moves_of_step (hrand : phase.sequential = false) {w : Worker phase} {e : Event}
    {s t : Shared engine phase} {l k : Local engine} (h : step engine phase w e s l = some (t, k)) :
    Moves w s l.draw t k.draw := by
  obtain ⟨base, draw⟩ := l
  cases draw with
  | outside =>
    cases e <;> simp only [step, reduceCtorEq] at h
    case base e =>
      split at h
      · cases h
      · next hfree =>
        obtain ⟨⟨base', l'⟩, hstep, hr⟩ := Option.map_eq_some_iff.mp h
        cases hr
        cases Budget.steps_of_step hstep with
        | draw hkey _ =>
          rw [wantsKey, hkey, hrand] at hfree
          exact absurd rfl hfree
        | _ => exact .base rfl rfl rfl
    case lock =>
      split at h
      · next hlock =>
        cases h
        exact .lock hlock.2
      · cases h
  | locked =>
    cases e <;> simp only [step, reduceCtorEq] at h
    cases h
    exact .read
  | read rng =>
    cases e <;> simp only [step, reduceCtorEq] at h
    obtain ⟨⟨s', draw⟩, hwrite, hr⟩ := Option.map_eq_some_iff.mp h
    cases hr
    obtain ⟨⟨value, rng'⟩, hround, hr⟩ := Option.map_eq_some_iff.mp hwrite
    cases value with
    | none =>
      cases hr
      exact .reject hround
    | some index =>
      cases hr
      exact .accept hround
  | drawn index =>
    obtain ⟨pc, c⟩ := base
    cases e <;> cases pc <;> simp only [step, reduceCtorEq] at h
    cases h
    exact .unlock

/-! ## The lock -/

/-- What a worker knows inside `NextKey`: it holds the mutex of its connection, and what it has read
is still the state of the generator. -/
def Knows (w : Worker phase) (s : Shared engine phase) : Draw engine → Prop
  | .outside => True
  | .locked => s.owner w.1 = some w
  | .read rng => s.owner w.1 = some w ∧ s.base.rngs w.1 = rng
  | .drawn _ => s.owner w.1 = some w

section Lock
variable {w v : Worker phase} {s t : Shared engine phase} {d d' k : Draw engine}

/-- A worker that moves knows what it needs to know next. -/
lemma Moves.knows (h : Moves w s d t d') (hk : Knows w s d) : Knows w t d' := by
  cases h with
  | base => trivial
  | lock => exact Function.update_self ..
  | read => exact ⟨hk, rfl⟩
  | reject => exact hk.1
  | accept => exact hk.1
  | unlock => trivial

/-- What a worker knows needs its own connection only. -/
lemma Knows.congr (hrngs : t.base.rngs v.1 = s.base.rngs v.1) (howner : t.owner v.1 = s.owner v.1)
    (h : Knows v s k) : Knows v t k := by
  cases k with
  | outside => trivial
  | locked => exact howner.trans h
  | read rng => exact ⟨howner.trans h.1, hrngs.trans h.2⟩
  | drawn index => exact howner.trans h

/-- What a worker knows does not depend on a mutex that it does not hold. -/
lemma Knows.of_not_owner (howner : s.owner v.1 ≠ some v) (h : Knows v s k)
    (t : Shared engine phase) :
    Knows v t k := by
  cases k with
  | outside => trivial
  | locked => exact absurd h howner
  | read rng => exact absurd h.1 howner
  | drawn index => exact absurd h howner

/-- Outside of its connection, a move changes neither a generator nor a mutex. -/
lemma Moves.elsewhere (h : Moves w s d t d') {i : Fin phase.connections} (hi : i ≠ w.1) :
    t.base.rngs i = s.base.rngs i ∧ t.owner i = s.owner i := by
  cases h with
  | base hrngs _ howner => exact ⟨congrFun hrngs i, congrFun howner i⟩
  | lock => exact ⟨rfl, Function.update_of_ne hi ..⟩
  | read => exact ⟨rfl, rfl⟩
  | reject => exact ⟨Function.update_of_ne hi .., rfl⟩
  | accept => exact ⟨Function.update_of_ne hi .., rfl⟩
  | unlock => exact ⟨rfl, Function.update_of_ne hi ..⟩

/-- On its connection, a worker moves when nobody else holds the mutex, or leaves
generator and mutex alone. -/
lemma Moves.alone (h : Moves w s d t d') (hk : Knows w s d) (hv : v ≠ w) :
    s.owner w.1 ≠ some v ∨ t.base.rngs = s.base.rngs ∧ t.owner = s.owner := by
  have hne : some w ≠ some v := fun heq => hv (Option.some.inj heq).symm
  cases h with
  | base hrngs _ howner => exact .inr ⟨hrngs, howner⟩
  | lock hfree =>
    rw [hfree]
    exact .inl nofun
  | read => exact .inr ⟨rfl, rfl⟩
  | reject =>
    rw [hk.1]
    exact .inl hne
  | accept =>
    rw [hk.1]
    exact .inl hne
  | unlock =>
    rw [show s.owner w.1 = some w from hk]
    exact .inl hne

/-- The others still know what they know. -/
lemma Moves.knows_other (h : Moves w s d t d') (hk : Knows w s d) (hv : v ≠ w) (hkv : Knows v s k) :
    Knows v t k := by
  by_cases hconn : v.1 = w.1
  · rcases h.alone hk hv with howner | ⟨hrngs, howner⟩
    · rw [← hconn] at howner
      exact hkv.of_not_owner howner t
    · exact hkv.congr (congrFun hrngs _) (congrFun howner _)
  · obtain ⟨hrngs, howner⟩ := h.elsewhere hconn
    exact hkv.congr hrngs howner

end Lock

variable {s : Pool.State (Worker phase) (Shared engine phase) (Local engine)}

/-- In every reachable state every worker knows what it needs to know. -/
lemma knows (hrand : phase.sequential = false) (h : (workload engine phase).Reachable s)
    (w : Worker phase) :
    Knows w s.shared (s.locals w).draw := by
  refine Pool.knows_induction (P := workload engine phase) (K := fun w s l => Knows w s l.draw)
    (fun _ => trivial)
    ?_ ?_ h w
  · intro w e s l t l' hk hstep
    exact (moves_of_step hrand hstep).knows hk
  · intro w e s l t l' v k hv hk hstep hkv
    exact (moves_of_step hrand hstep).knows_other hk hv hkv

/-! ## The indices of a connection -/

/-- The seed of a connection. -/
def connectionSeed (phase : Phase) (i : ℕ) : BitVec 64 := phase.seed + BitVec.ofNat 64 i

/-- The indices drawn on a connection and its generator are where the rounds lead from its seed. -/
def Fresh (s : Shared engine phase) (i : Fin phase.connections) : Prop :=
  (engine.round phase.keysCount).Run (engine.newRng (connectionSeed phase i)) (s.indices i)
    (s.base.rngs i)

/-- A move keeps the invariant, when the worker knows the state of the generator. -/
lemma Moves.fresh {w : Worker phase} {s t : Shared engine phase} {d d' : Draw engine}
    (h : Moves w s d t d') (hk : Knows w s d) {i : Fin phase.connections} (hI : Fresh s i) :
    Fresh t i := by
  unfold Fresh Shared.indices at hI ⊢
  cases h with
  | base hrngs hdrawn =>
    rw [hrngs, hdrawn]
    exact hI
  | lock => exact hI
  | read => exact hI
  | unlock => exact hI
  | reject hround =>
    dsimp only
    by_cases hi : i = w.1
    · subst hi
      rw [Function.update_self]
      rw [hk.2] at hI
      exact hI.reject hround
    · rw [Function.update_of_ne hi]
      exact hI
  | accept hround =>
    dsimp only
    rw [List.filter_append, List.map_append]
    by_cases hi : i = w.1
    · subst hi
      rw [hk.2] at hI
      simpa using hI.accept hround
    · simpa [hi, Ne.symm hi] using hI

/-- The generator of a connection is where its drawn indices have brought it. -/
theorem fresh (hrand : phase.sequential = false) (h : (workload engine phase).Reachable s)
    (i : Fin phase.connections) : Fresh s.shared i := by
  refine Pool.reachable_induction (P := workload engine phase)
    (I := fun s => Fresh s.shared i) .start ?_ h
  intro s w e t hs hI hnext
  exact (moves_of_step hrand (Pool.next_eq_some hnext).1).fresh (knows hrand hs w) hI

/-- Two prefixes of one stream of the same length are the same. -/
lemma IsPrefix.unique {keysCount seed : BitVec 64} {as bs : List (BitVec 64)}
    (ha : IsPrefix engine keysCount seed as) (hb : IsPrefix engine keysCount seed bs)
    (hlength : as.length = bs.length) : as = bs := by
  obtain ⟨⟨f, hf⟩, -⟩ := ha
  obtain ⟨⟨g, hg⟩, -⟩ := hb
  have h := hf g
  rw [Nat.add_comm, hlength, hg f] at h
  exact (Option.some.inj h).symm

/-- Whatever the interleaving of the workers, a connection draws the first indices of the stream of
its seed. Two phases with the same seed and number of keys, of any depth, that draw equally many
indices on a connection draw the same. -/
theorem connection_stream (engine : Engine) (phase : Phase) (hrand : phase.sequential = false)
    (s : Pool.State (Worker phase) (Shared engine phase) (Local engine))
    (h : (workload engine phase).Reachable s) (i : Fin phase.connections) :
    IsPrefix engine phase.keysCount (connectionSeed phase i) (s.shared.indices i) ∧
      ∀ (other : Phase) (t : Pool.State (Worker other) (Shared engine other) (Local engine))
        (j : Fin other.connections), other.sequential = false → other.keysCount = phase.keysCount →
        other.seed = phase.seed → (workload engine other).Reachable t → (j : ℕ) = i →
        (t.shared.indices j).length = (s.shared.indices i).length →
        (t.shared.indices j : Multiset (BitVec 64)) = s.shared.indices i := by
  have hpre := isPrefix_of_run (fresh hrand h i)
  refine ⟨hpre, fun other t j hrand' hcount hseed ht hj hlength => ?_⟩
  have hpre' := isPrefix_of_run (fresh hrand' ht j)
  rw [connectionSeed, hcount, hseed, hj] at hpre'
  exact congrArg _ (IsPrefix.unique hpre' hpre hlength)

/-- Two random keys out of three, on one connection. -/
def pairPhase (depth : ℕ) : Phase := ⟨1, depth, .requests, 2#64, [.get], false, 3#64, 0#64⟩

/-- Its connection. -/
def pairConnection (depth : ℕ) : Fin (pairPhase depth).connections := ⟨0, Nat.zero_lt_one⟩

/-- Its only worker at depth one. -/
def onlySlot : Worker (pairPhase 1) := (pairConnection 1, ⟨0, Nat.zero_lt_one⟩)

/-- It draws both keys. -/
def shallowRun : List (Worker (pairPhase 1) × Event) :=
  [(onlySlot, .base .budget), (onlySlot, .base (.select .get)), (onlySlot, .lock),
    (onlySlot, .read), (onlySlot, .write), (onlySlot, .unlock), (onlySlot, .base (.execute true)),
    (onlySlot, .base .record), (onlySlot, .base .budget), (onlySlot, .base (.select .get)),
    (onlySlot, .lock), (onlySlot, .read), (onlySlot, .write), (onlySlot, .unlock)]

/-- Its workers at depth two. -/
def slotOne : Worker (pairPhase 2) := (pairConnection 2, ⟨0, Nat.zero_lt_two⟩)
def slotTwo : Worker (pairPhase 2) := (pairConnection 2, ⟨1, Nat.one_lt_two⟩)

/-- The second worker draws first, and its request fails. -/
def deepRun : List (Worker (pairPhase 2) × Event) :=
  [(slotOne, .base .budget), (slotTwo, .base .budget), (slotOne, .base (.select .get)),
    (slotTwo, .base (.select .get)), (slotTwo, .lock), (slotTwo, .read), (slotTwo, .write),
    (slotTwo, .unlock), (slotOne, .lock), (slotOne, .read), (slotTwo, .base (.execute false)),
      (slotOne, .write), (slotOne, .unlock)]

def shallowEnd (engine : Engine) :
    Pool.State (Worker (pairPhase 1)) (Shared engine (pairPhase 1)) (Local engine) :=
  ((workload engine (pairPhase 1)).run shallowRun (workload engine (pairPhase 1)).init).get
    (by cases engine <;> rfl)

def deepEnd (engine : Engine) :
    Pool.State (Worker (pairPhase 2)) (Shared engine (pairPhase 2)) (Local engine) :=
  ((workload engine (pairPhase 2)).run deepRun (workload engine (pairPhase 2)).init).get
    (by cases engine <;> rfl)

/-- Both runs draw the first two indices of the seed. -/
theorem pairPhase_stream : ((deepEnd .rust).shared.indices (pairConnection 2) = [0#64, 1#64] ∧
      IsPrefix .rust 3#64 0#64 ((deepEnd .rust).shared.indices (pairConnection 2))) ∧
    ((shallowEnd .rust).shared.indices (pairConnection 1) : Multiset (BitVec 64))
      = (deepEnd .rust).shared.indices (pairConnection 2) := by
  have hdeep : (workload .rust (pairPhase 2)).Reachable (deepEnd .rust) :=
    Pool.Reachable.run .init (Option.some_get _).symm
  have hshallow : (workload .rust (pairPhase 1)).Reachable (shallowEnd .rust) :=
    Pool.Reachable.run .init (Option.some_get _).symm
  have hstream := connection_stream .rust (pairPhase 2) rfl _ hdeep (pairConnection 2)
  exact ⟨⟨by decide, hstream.1⟩,
    hstream.2 (pairPhase 1) _ (pairConnection 1) rfl rfl rfl hshallow rfl (by decide)⟩

end RespBench.Budget.Locked
