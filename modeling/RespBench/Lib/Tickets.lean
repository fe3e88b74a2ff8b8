import RespBench.Lib.Pool

/-!
# Tickets

Workers who share a number of tickets. A worker takes a ticket while any is left, and spends it
before it takes the next one; or it fails with the ticket in its hand, which is lost then. It stops
when no ticket is left, or when some ticket was lost.

`conserved` follows every ticket: it is left, held, spent or lost. `spent_of_stopped` says what the
workers have spent when they have all stopped. A pool that is simulated by `office` inherits both.

`Counter` is for workers who draw their tickets from a counter, and may draw too much:
`Counter.count_eq` is its book, `Counter.claims_le` bounds the good claims, and `Counter.tickets_eq`
follows every good ticket to its record.
-/

namespace RespBench.Lib.Tickets

structure Book where
  left : ℕ
  spent : ℕ
  lost : ℕ
deriving DecidableEq

inductive Place where
  | idle
  | holding
  | stopped
deriving DecidableEq

inductive Event where
  | take
  | spend
  | lose
  | stop
deriving DecidableEq

def step : Event → Book → Place → Option (Book × Place)
  | .take, b, .idle => if 0 < b.left then some ({ b with left := b.left - 1 }, .holding) else none
  | .spend, b, .holding => some ({ b with spent := b.spent + 1 }, .idle)
  | .lose, b, .holding => some ({ b with lost := b.lost + 1 }, .stopped)
  | .stop, b, .idle => if b.left = 0 ∨ 0 < b.lost then some (b, .stopped) else none
  | _, _, _ => none

/-- Workers `ι` who share `total` tickets. -/
def office (ι : Type*) (total : ℕ) : Pool ι Book Place Event where
  shared := ⟨total, 0, 0⟩
  locals := fun _ => .idle
  step := fun _ => step

/-- The tickets in the hand of a worker. -/
def Place.held : Place → ℕ
  | .holding => 1
  | _ => 0

/-! ## What a step does -/

/-- The four things that a worker does. -/
inductive Steps : Book → Place → Book → Place → Prop where
  | take {b} : 0 < b.left → Steps b .idle { b with left := b.left - 1 } .holding
  | spend {b} : Steps b .holding { b with spent := b.spent + 1 } .idle
  | lose {b} : Steps b .holding { b with lost := b.lost + 1 } .stopped
  | stop {b} : b.left = 0 ∨ 0 < b.lost → Steps b .idle b .stopped

variable {ι : Type*} {b b' : Book} {p p' : Place} {e : Event}

/-- Every step follows a rule. -/
lemma steps_of_step (h : step e b p = some (b', p')) : Steps b p b' p' := by
  cases e <;> cases p <;> simp only [step, reduceCtorEq] at h
  case take.idle =>
    split at h <;> cases h
    next hleft => exact .take hleft
  case spend.holding =>
    cases h
    exact .spend
  case lose.holding =>
    cases h
    exact .lose
  case stop.idle =>
    split at h <;> cases h
    next hstop => exact .stop hstop

/-! ## What a worker can do alone -/

section Alone
variable {total : ℕ} {w : ι}

/-- An idle worker can take a ticket. -/
lemma alone_take (h : 0 < b.left) :
    (office ι total).Alone w (b, .idle) ({ b with left := b.left - 1 }, .holding) :=
  Pool.alone_of_events [.take] (by simp [office, step, h])

/-- A worker can spend the ticket that it holds. -/
lemma alone_spend : (office ι total).Alone w (b, .holding)
    ({ b with spent := b.spent + 1 }, .idle) :=
  Pool.alone_of_events [.spend] rfl

/-- A worker can lose the ticket that it holds. -/
lemma alone_lose : (office ι total).Alone w (b, .holding)
    ({ b with lost := b.lost + 1 }, .stopped) :=
  Pool.alone_of_events [.lose] rfl

/-- An idle worker can stop when no ticket is left or some ticket was lost. -/
lemma alone_stop (h : b.left = 0 ∨ 0 < b.lost) : (office ι total).Alone w (b, .idle)
    (b, .stopped) :=
  Pool.alone_of_events [.stop] (by simp [office, step, h])

end Alone

/-! ## The tickets in every reachable state -/

section Reachable
variable [DecidableEq ι] {total : ℕ} {s : Pool.State ι Book Place}

/-- A worker stops only when no ticket is left or some ticket was lost, and that stays so. -/
lemma left_or_lost (h : (office ι total).Reachable s) {w : ι} (hw : s.locals w = .stopped) :
    s.shared.left = 0 ∨ 0 < s.shared.lost := by
  refine Pool.knows_induction (P := office ι total)
    (K := fun _ b p => p = .stopped → b.left = 0 ∨ 0 < b.lost) (fun v hv => nomatch hv) ?_ ?_ h w hw
  · intro w e b p b' p' _ hstep hstopped
    cases steps_of_step hstep with
    | take => exact nomatch hstopped
    | spend => exact nomatch hstopped
    | lose => exact .inr (Nat.succ_pos _)
    | stop hstop => exact hstop
  · intro w e b p b' p' v k _ _ hstep hk hstopped
    have hk := hk hstopped
    cases steps_of_step hstep with
    | take hleft => exact .inr (hk.resolve_left hleft.ne')
    | spend => exact hk
    | lose => exact .inr (Nat.succ_pos _)
    | stop => exact hk

variable [Fintype ι]

/-- Every ticket is left, held, spent or lost. -/
theorem conserved (h : (office ι total).Reachable s) :
    total = s.shared.left + s.shared.spent + s.shared.lost + ∑ w, (s.locals w).held := by
  refine Pool.balance (P := office ι total) (fun _ => total) (fun b => b.left + b.spent + b.lost)
    Place.held ?_ ?_ h
  · simp [office, Place.held]
  · intro s w e b p rest _ hstep hbook
    generalize s.shared = book at hstep hbook
    generalize s.locals w = place at hstep hbook
    cases steps_of_step hstep <;> dsimp only [Place.held] at hbook ⊢ <;> omega

/-- When all workers have stopped, no ticket is held: what is not lost is spent, or
left for want of workers. -/
theorem spent_of_stopped (h : (office ι total).Reachable s)
    (hstopped : ∀ w, s.locals w = .stopped) :
    s.shared.left + s.shared.spent + s.shared.lost = total ∧
      (Nonempty ι → s.shared.lost = 0 → s.shared.spent = total) := by
  have hbook := conserved h
  have hheld : ∑ w, (s.locals w).held = 0 := Finset.sum_eq_zero fun w _ => by rw [hstopped w]; rfl
  refine ⟨by omega, fun ⟨w⟩ hlost => ?_⟩
  have hleft := left_or_lost h (hstopped w)
  omega

end Reachable

/-! ## Tickets from a counter

Workers who draw their tickets from one counter, and look at what it said only afterwards. A worker
that finds that it drew too much turns the counter back. `claims` counts the tickets that are good.
-/

/-- What a step does to the counter, the good claims, and the claims too much of the
worker that takes it. -/
inductive Draws (target count : ℤ) (claims : ℕ) : ℕ → ℤ → ℕ → ℕ → Prop where
  | claim : count < target → Draws target count claims 0 (count + 1) (claims + 1) 0
  | overclaim : target ≤ count → Draws target count claims 0 (count + 1) claims 1
  | undo : Draws target count claims 1 (count - 1) claims 0
  | rest {excess} : Draws target count claims excess count claims excess

/-- A pool whose workers draw their tickets from a counter. -/
structure Counter {ι S L E : Type*} [DecidableEq ι] (P : Pool ι S L E) (target : ℤ) where
  count : S → ℤ
  claims : S → ℕ
  excess : L → ℕ
  target_nonneg : 0 ≤ target
  count_init : count P.shared = 0
  claims_init : claims P.shared = 0
  excess_init : ∀ w, excess (P.locals w) = 0
  draws : ∀ {s w e t l}, P.Reachable s → P.step w e s.shared (s.locals w) = some (t, l) →
    Draws target (count s.shared) (claims s.shared) (excess (s.locals w)) (count t)
      (claims t) (excess l)

namespace Counter
variable {ι S L E : Type*} [DecidableEq ι] {P : Pool ι S L E} {target : ℤ} (C : Counter P target)
  {s : Pool.State ι S L}

/-- No worker has drawn more than one ticket too much. -/
lemma excess_le (h : P.Reachable s) (w : ι) : C.excess (s.locals w) ≤ 1 := by
  refine Pool.locals_induction (P := P) (I := fun _ _ l => C.excess l ≤ 1) ?_ ?_ ?_ h w
  · intro v
    rw [C.excess_init v]
    exact Nat.zero_le 1
  · intro s w e s' hs _ hle hstep
    have hdraws := C.draws hs hstep
    generalize C.excess (s.locals w) = a, C.excess (s'.locals w) = b, C.count s'.shared = c,
      C.claims s'.shared = d
      at hle hdraws ⊢
    cases hdraws with
    | rest => exact hle
    | _ => decide
  · intro s w e s' v _ _ _ hle _
    exact hle

variable [Fintype ι]

/-- The counter is the number of good claims, and one more for every claim too much. -/
theorem count_eq (h : P.Reachable s) : C.count s.shared = C.claims s.shared + ∑ w,
    (C.excess (s.locals w) : ℤ) := by
  refine Pool.balance (P := P) C.count (fun s => (C.claims s : ℤ))
    (fun l => (C.excess l : ℤ)) ?_ ?_ h
  · simp only [C.count_init, C.claims_init, C.excess_init, Nat.cast_zero,
      Finset.sum_const_zero, add_zero]
  · intro s w e t l rest hs hstep hbook
    have hdraws := C.draws hs hstep
    generalize C.excess (s.locals w) = a, C.excess l = b, C.count t = c,
      C.claims t = d at hdraws hbook ⊢
    cases hdraws <;> push_cast at hbook ⊢ <;> omega

/-- The good claims are in the counter. -/
lemma claims_le_count (h : P.Reachable s) : (C.claims s.shared : ℤ) ≤ C.count s.shared := by
  have hover : 0 ≤ ∑ w, (C.excess (s.locals w) : ℤ) :=
    Finset.sum_nonneg fun w _ => Int.natCast_nonneg _
  have hbook := C.count_eq h
  omega

/-- There are at most as many good claims as the target, and a claim too much means
that there are as many. -/
theorem claims_le (h : P.Reachable s) :
    (C.claims s.shared : ℤ) ≤ target ∧
      ((C.claims s.shared : ℤ) < C.count s.shared → (C.claims s.shared : ℤ) = target) := by
  refine Pool.reachable_induction (P := P) (I := fun s => (C.claims s.shared : ℤ) ≤ target ∧
    ((C.claims s.shared : ℤ) < C.count s.shared → (C.claims s.shared : ℤ) = target)) ?_ ?_ h
  · refine ⟨?_, fun hlt => ?_⟩ <;> simp only [Pool.init, C.claims_init, C.count_init] at *
    · exact C.target_nonneg
    · exact absurd hlt (lt_irrefl _)
  · rintro s w e s' hs ⟨hclaims, hover⟩ hnext
    have hcount := C.claims_le_count hs
    have hdraws := C.draws hs (Pool.next_eq_some hnext).1
    generalize C.excess (s.locals w) = a, C.excess (s'.locals w) = b, C.count s'.shared = c,
      C.claims s'.shared = d
      at hdraws ⊢
    cases hdraws with
    | rest => exact ⟨hclaims, hover⟩
    | _ => push_cast; omega

/-- The counter goes beyond the target by the number of workers at most. -/
theorem count_bounds (h : P.Reachable s) :
    0 ≤ C.count s.shared ∧ C.count s.shared ≤ target + Fintype.card ι := by
  have hbook := C.count_eq h
  have hle := C.claims_le_count h
  have hclaims := (C.claims_le h).1
  have hfew : ∑ w, (C.excess (s.locals w) : ℤ) ≤ Fintype.card ι := by
    have hsum := Finset.sum_le_card_nsmul Finset.univ (fun w => (C.excess (s.locals w) : ℤ)) 1
      fun w _ => by exact_mod_cast C.excess_le h w
    simpa using hsum
  omega

/-- A worker that claimed too much knows that no claim is left. -/
lemma claims_eq_of_excess (h : P.Reachable s) {w : ι} (hover : C.excess (s.locals w) = 1) :
    (C.claims s.shared : ℤ) = target := by
  have hsum : (C.excess (s.locals w) : ℤ) ≤ ∑ w, (C.excess (s.locals w) : ℤ) :=
    Finset.single_le_sum (f := fun w => (C.excess (s.locals w) : ℤ))
      (fun _ _ => Int.natCast_nonneg _)
      (Finset.mem_univ w)
  have hbook := C.count_eq h
  refine (C.claims_le h).2 ?_
  rw [hover] at hsum
  omega

/-- Where a good ticket goes: the worker that drew it holds it, and records it. -/
inductive Follows (target count : ℤ) (claims : ℕ) (recorded held : Multiset ℤ) :
    ℕ → Multiset ℤ → Multiset ℤ → Prop where
  | claim : count < target → Follows target count claims recorded held (claims + 1) recorded
    (count ::ₘ held)
  | record {ticket rest} : held = ticket ::ₘ rest →
    Follows target count claims recorded held claims (ticket ::ₘ recorded) rest
  | rest : Follows target count claims recorded held claims recorded held

/-- Every ticket that is good is recorded or held by a worker, and the good tickets are
consecutive. -/
theorem tickets_eq (recorded : S → Multiset ℤ) (held : L → Multiset ℤ)
    (hinit : recorded P.shared = 0 ∧ ∀ w, held (P.locals w) = 0)
    (hstep : ∀ {s w e t l}, P.Reachable s → P.step w e s.shared (s.locals w) = some (t, l) →
      Follows target (C.count s.shared) (C.claims s.shared) (recorded s.shared) (held (s.locals w))
        (C.claims t) (recorded t) (held l))
    (h : P.Reachable s) :
    (Multiset.range (C.claims s.shared)).map (fun i : ℕ => (i : ℤ))
      = recorded s.shared + ∑ w, held (s.locals w) := by
  refine Pool.balance (P := P) (fun s => (Multiset.range (C.claims s)).map fun i : ℕ =>
    (i : ℤ)) recorded held
    ?_ ?_ h
  · simp only [C.claims_init, hinit.1, hinit.2, Multiset.range_zero, Multiset.map_zero,
      Finset.sum_const_zero, add_zero]
  · intro s w e t l rest hs hnext hbook
    have hfollows := hstep hs hnext
    have hcount := C.claims_le_count hs
    have hover := (C.claims_le hs).2
    generalize held (s.locals w) = a, held l = b, recorded s.shared = r, recorded t = r',
      C.claims t = d
      at hfollows hbook ⊢
    cases hfollows with
    | claim hlt =>
      have hnext : C.count s.shared = C.claims s.shared := by omega
      rw [Multiset.range_succ, Multiset.map_cons, hbook, hnext, Multiset.cons_add,
        Multiset.add_cons]
    | record hticket => rw [hbook, hticket, Multiset.cons_add, Multiset.cons_add, Multiset.add_cons]
    | rest => exact hbook

end Counter

end RespBench.Lib.Tickets
