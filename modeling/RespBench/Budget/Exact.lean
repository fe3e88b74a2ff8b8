import RespBench.Budget.Workers
import RespBench.Lib.Words

/-!
# The shared budget is exact

How many requests the workers of one phase record, and which keys they draw, in every interleaving.
`remaining_eq` and `claims_le` describe the budget, `granted_eq_recorded` and `granted_eq_drawn` are
the books that follow every claimed request to a collector and to a key, and `budget_exact` puts
them together when all workers are done.

The words of the budget wrap, which `exhausted_ofInt` excludes for `Engine.refusals` workers: each
of them decrements the budget once more after it is used up.
-/

namespace RespBench.Budget
open RespBench.Lib

/-! ## The words of the budget -/

/-- The number of decrements below zero after which the test of an engine misreads the budget. -/
def Engine.refusals : Engine → ℕ
  | .go => 2 ^ 63
  | .rust => 2 ^ 63 + 1

/-- The test of the decrement reads the budget as a number. -/
lemma exhausted_ofInt (engine : Engine) {z : ℤ} (hlow : -(engine.refusals : ℤ) < z)
    (hhigh : z < 2 ^ 63) :
    engine.exhausted (BitVec.ofInt 64 z) = decide (z ≤ 0) := by
  cases engine with
  | go =>
    rw [Engine.exhausted, show (1#64 : BitVec 64) = BitVec.ofInt 64 1 from rfl, Words.ofInt_sub,
      BitVec.slt_eq_decide,
        Words.toInt_ofInt (by norm_num) (by simp only [Engine.refusals] at hlow; omega)
      (by omega), BitVec.toInt_zero]
    exact decide_eq_decide.mpr (by omega)
  | rust =>
    rw [Engine.exhausted, BitVec.sle_eq_decide,
      Words.toInt_ofInt (by norm_num) (by simp only [Engine.refusals] at hlow; omega) (by omega),
      BitVec.toInt_zero]

/-- The index of a sequential key is the counter modulo the number of keys. -/
lemma sequentialIndex_eq (engine : Engine) {keysCount : BitVec 64}
    (hK : 1 ≤ engine.number keysCount) {n : ℕ} (hn : n < 2 ^ 63) :
    ∃ key, engine.sequentialIndex (BitVec.ofNat 64 n) keysCount = some key ∧
      engine.number key = n % engine.number keysCount := by
  cases engine with
  | go =>
    simp only [Engine.number] at hK ⊢
    have hmsb : keysCount.msb = false := by
      by_contra h
      have := BitVec.toInt_neg_of_msb_true (Bool.eq_true_of_not_eq_false h)
      omega
    have hsmall : keysCount.toNat < 2 ^ 63 := by
      have := BitVec.msb_eq_false_iff_two_mul_lt.mp hmsb
      omega
    have hword : keysCount = BitVec.ofNat 64 keysCount.toNat := by simp
    have hone : keysCountOrOne keysCount = BitVec.ofNat 64 keysCount.toNat := by
      rw [keysCountOrOne, BitVec.sle_eq_decide, BitVec.toInt_zero, if_neg (by simp; omega)]
      exact hword
    refine ⟨_, rfl, ?_⟩
    rw [hone, Words.srem_small hn hsmall, Words.toInt_small ((Nat.mod_le _ _).trans_lt hn),
      BitVec.toInt_eq_toNat_of_msb hmsb]
    push_cast
    rfl
  | rust =>
    simp only [Engine.number] at hK ⊢
    have hne : keysCount ≠ 0#64 := by
      rintro rfl
      simp at hK
    refine ⟨BitVec.ofNat 64 n % keysCount, if_neg hne, ?_⟩
    rw [BitVec.toNat_umod, Words.toNat_small (hn.trans (by norm_num))]
    push_cast
    rfl

section Books
variable {engine : Engine} {phase : Phase} {fuel : ℕ}

/-! ## What a step does -/

/-- The steps of a worker, one rule for each. -/
inductive Steps (engine : Engine) (phase : Phase) (fuel : ℕ) (w : Worker phase) :
    Shared engine phase → Local → Shared engine phase → Local → Prop where
  | refuse {s c} : phase.durationBased = false → engine.exhausted s.remaining = true →
    Steps engine phase fuel w s ⟨.top, c⟩
      { s with remaining := s.remaining - 1#64, refused := s.refused + 1 } ⟨.leaving, c⟩
  | claim {s c} : phase.durationBased = false → engine.exhausted s.remaining = false →
    Steps engine phase fuel w s ⟨.top, c⟩
      { s with remaining := s.remaining - 1#64, granted := s.granted + 1 } ⟨.claimed, c⟩
  | clock {s c} (expired : Bool) : phase.durationBased = true →
    Steps engine phase fuel w s ⟨.top, c⟩ s ⟨if expired then .leaving else .claimed, c⟩
  | select {s c command} : command ∈ phase.commands →
    Steps engine phase fuel w s ⟨.claimed, c⟩ s ⟨.selected command, c⟩
  | draw {s t c command key} : command.consumesKey = true →
    drawKey engine phase fuel w.1 s = some (key, t) →
    Steps engine phase fuel w s ⟨.selected command, c⟩ t ⟨.keyed command (some key), c⟩
  | skip {s c command} : command.consumesKey = false →
    Steps engine phase fuel w s ⟨.selected command, c⟩ s ⟨.keyed command none, c⟩
  | execute {s c command key success} :
    Steps engine phase fuel w s ⟨.keyed command key, c⟩ s ⟨.executed success, c⟩
  | record {s c success} :
    Steps engine phase fuel w s ⟨.executed success, c⟩ s ⟨.top, c.record success⟩
  | merge {s c} :
    Steps engine phase fuel w s ⟨.leaving, c⟩ { s with merged := s.merged.mergeFrom c } ⟨.done, c⟩

/-- Every step of a worker follows a rule. -/
lemma steps_of_step {w : Worker phase} {event : Event} {s t : Shared engine phase} {l k : Local}
    (h : step engine phase fuel w event s l = some (t, k)) : Steps engine phase fuel w s l t k := by
  obtain ⟨pc, c⟩ := l
  cases pc with
  | top =>
    cases event <;> simp only [step, reduceCtorEq] at h
    case budget =>
      cases hdur : phase.durationBased <;> simp only [hdur, if_true, if_false, reduceCtorEq,
        Bool.false_eq_true, Option.some.injEq, takeBudget] at h
      split at h
      · next hex =>
        cases h
        exact .refuse hdur hex
      · next hex =>
        cases h
        exact .claim hdur (Bool.eq_false_of_not_eq_true hex)
    case clock expired =>
      split at h
      · next hdur =>
        cases h
        exact .clock expired hdur
      · cases h
  | claimed =>
    cases event <;> simp only [step, reduceCtorEq] at h
    split at h
    · next hmem =>
      cases h
      exact .select hmem
    · cases h
  | selected command =>
    cases event <;> simp only [step, reduceCtorEq] at h
    split at h
    · next hkey =>
      obtain ⟨⟨key, t'⟩, hdraw, hr⟩ := Option.map_eq_some_iff.mp h
      cases hr
      exact .draw hkey hdraw
    · next hkey =>
      cases h
      exact .skip (Bool.eq_false_of_not_eq_true hkey)
  | keyed command key =>
    cases event <;> simp only [step, reduceCtorEq] at h
    cases h
    exact .execute
  | executed success =>
    cases event <;> simp only [step, reduceCtorEq] at h
    cases h
    exact .record
  | leaving =>
    cases event <;> simp only [step, reduceCtorEq] at h
    cases h
    exact .merge
  | done => cases event <;> simp only [step, reduceCtorEq] at h

/-- A draw appends one key and leaves the budget and the merged collector alone. -/
lemma drawKey_frame {connection : Fin phase.connections} {s t : Shared engine phase}
    {key : BitVec 64} (h : drawKey engine phase fuel connection s = some (key, t)) :
    t.remaining = s.remaining ∧ t.merged = s.merged ∧ t.granted = s.granted ∧
    t.refused = s.refused ∧
      t.drawn = s.drawn ++ [(connection, key)] := by
  unfold drawKey at h
  split at h <;>
  · obtain ⟨r, -, hr⟩ := Option.map_eq_some_iff.mp h
    cases hr
    exact ⟨rfl, rfl, rfl, rfl, rfl⟩

/-- A recorded request is counted. -/
@[simp] lemma record_totalRequests (c : Collector) (success : Bool) :
    (c.record success).totalRequests = c.totalRequests + 1 := rfl

/-- A merge adds the requests of both collectors. -/
@[simp] lemma mergeFrom_totalRequests (c d : Collector) :
    (c.mergeFrom d).totalRequests = c.totalRequests + d.totalRequests := rfl

variable {s : Pool.State (Worker phase) (Shared engine phase) Local}

/-! ## The books of the workers -/

/-- A worker that the budget sent away. -/
def left : Local → ℕ
  | ⟨.leaving, _⟩ => 1
  | ⟨.done, _⟩ => 1
  | _ => 0

/-- The requests of a worker that are not merged: those in its collector and the one it works on. -/
def unmerged : Local → ℕ
  | ⟨.top, c⟩ => c.totalRequests
  | ⟨.leaving, c⟩ => c.totalRequests
  | ⟨.done, _⟩ => 0
  | ⟨_, c⟩ => c.totalRequests + 1

/-- A worker that claimed a request and has not drawn its key. -/
def undrawn : Local → ℕ
  | ⟨.claimed, _⟩ => 1
  | ⟨.selected _, _⟩ => 1
  | _ => 0

/-- A worker has left once or not at all. -/
lemma left_le (l : Local) : left l ≤ 1 := by
  unfold left
  split <;> omega

/-- The command that a worker has selected is one of the phase. -/
lemma selected_mem (h : (workload engine phase fuel).Reachable s) {w : Worker phase}
    {command : Command} (hpc : (s.locals w).pc = .selected command) : command ∈ phase.commands := by
  refine Pool.locals_induction (P := workload engine phase fuel)
    (I := fun _ _ l => ∀ command, l.pc = .selected command → command ∈ phase.commands)
    (by simp [workload]) ?_ (fun _ _ _ _ _ _ _ _ hI _ => hI) h w command hpc
  intro s w e s' _ _ hI hstep command hk
  generalize s.locals w = l, s'.locals w = k, s'.shared = t at hI hstep hk
  cases steps_of_step hstep with
  | select hmem =>
    cases hk
    exact hmem
  | clock expired => cases expired <;> cases hk
  | _ => cases hk

section RequestBased
variable (hreq : phase.completion = .requests)
include hreq

/-- A request-based phase has no deadline. -/
lemma not_durationBased : phase.durationBased = false := by
  rw [Phase.durationBased, hreq]
  rfl

/-- The workers that left are those that the budget refused. -/
theorem refused_eq_left (h : (workload engine phase fuel).Reachable s) :
    s.shared.refused = 0 + ∑ w, left (s.locals w) := by
  refine Pool.balance Shared.refused (fun _ => 0) left (by simp [workload, left]) ?_ h
  intro s w e t l rest _ hstep hbook
  have hdur := not_durationBased hreq
  generalize s.locals w = k at hstep hbook
  cases steps_of_step hstep with
  | refuse | claim | select | skip | execute | record | merge =>
    simp only [left] at hbook ⊢
    omega
  | clock expired hclock => rw [hdur] at hclock; cases hclock
  | draw _ hdraw =>
    obtain ⟨-, -, -, hrefused, -⟩ := drawKey_frame hdraw
    rw [hrefused]
    exact hbook

/-- Every claimed request is in the merged collector, in the collector of a worker, or worked on. -/
theorem granted_eq_recorded (h : (workload engine phase fuel).Reachable s) :
    s.shared.granted = s.shared.merged.totalRequests + ∑ w, unmerged (s.locals w) := by
  refine Pool.balance Shared.granted (fun s => s.merged.totalRequests) unmerged
    (by simp [workload, unmerged]) ?_ h
  intro s w e t l rest _ hstep hbook
  have hdur := not_durationBased hreq
  generalize s.locals w = k at hstep hbook
  cases steps_of_step hstep with
  | refuse | claim | select | skip | execute | record | merge =>
    simp only [unmerged, record_totalRequests, mergeFrom_totalRequests] at hbook ⊢
    omega
  | clock expired hclock => rw [hdur] at hclock; cases hclock
  | draw _ hdraw =>
    obtain ⟨-, hmerged, hgranted, -, -⟩ := drawKey_frame hdraw
    rw [hmerged, hgranted]
    exact hbook

/-- Every claimed request has its key, or its worker is about to draw it. -/
theorem granted_eq_drawn (hkeys : ∀ command ∈ phase.commands, command.consumesKey)
    (h : (workload engine phase fuel).Reachable s) :
    s.shared.granted = s.shared.drawn.length + ∑ w, undrawn (s.locals w) := by
  refine Pool.balance Shared.granted (fun s => s.drawn.length) undrawn
    (by simp [workload, undrawn]) ?_ h
  intro s w e t l rest hs hstep hbook
  have hdur := not_durationBased hreq
  have hmem : ∀ command, (s.locals w).pc = .selected command → command ∈ phase.commands :=
    fun _ => selected_mem hs
  generalize s.locals w = k at hstep hbook hmem
  cases steps_of_step hstep with
  | refuse | claim | select | execute | record | merge =>
    simp only [undrawn] at hbook ⊢
    omega
  | clock expired hclock => rw [hdur] at hclock; cases hclock
  | draw _ hdraw =>
    obtain ⟨-, -, hgranted, -, hdrawn⟩ := drawKey_frame hdraw
    rw [hdrawn, hgranted, List.length_append, List.length_singleton]
    simp only [undrawn] at hbook ⊢
    omega
  | skip hno =>
    rw [hkeys _ (hmem _ rfl)] at hno
    cases hno

/-- A worker at the top of its loop has not been sent away yet. -/
lemma refused_lt (h : (workload engine phase fuel).Reachable s) {w : Worker phase}
    (htop : (s.locals w).pc = .top) :
    s.shared.refused < phase.connections * phase.depth := by
  have hw : left (s.locals w) = 0 := by
    generalize s.locals w = l at htop
    obtain ⟨pc, c⟩ := l
    cases htop
    rfl
  have hlt := Pool.sum_lt_card left_le hw
  rwa [← zero_add (∑ v, left (s.locals v)), ← refused_eq_left hreq h, Fintype.card_prod,
    Fintype.card_fin, Fintype.card_fin] at hlt

variable {r : ℤ} (hr : phase.requests = BitVec.ofInt 64 r)
include hr

/-- The budget is what is left after all decrements. -/
theorem remaining_eq (h : (workload engine phase fuel).Reachable s) :
    s.shared.remaining = BitVec.ofInt 64 (r - (s.shared.granted + s.shared.refused : ℕ)) := by
  refine Pool.reachable_induction (P := workload engine phase fuel)
    (I := fun s => s.shared.remaining = BitVec.ofInt 64
      (r - (s.shared.granted + s.shared.refused : ℕ))) ?_ ?_ h
  · have hinit : engine.initialBudget phase = phase.requests := by
      cases engine with
      | go => exact if_pos hreq
      | rust => rfl
    simp [workload, Pool.init, hinit, hr]
  · intro s w e s' _ hI hnext
    have hone : s.shared.remaining - 1#64
        = BitVec.ofInt 64 (r - (s.shared.granted + s.shared.refused + 1 : ℕ)) := by
      rw [hI, show (1#64 : BitVec 64) = BitVec.ofInt 64 1 from rfl, Words.ofInt_sub]
      congr 1
      push_cast
      ring
    have hstep := (Pool.next_eq_some hnext).1
    generalize s.locals w = l, s'.locals w = k, s'.shared = t at hstep
    cases steps_of_step hstep with
    | refuse => exact hone
    | claim =>
      rw [Nat.add_right_comm]
      exact hone
    | draw _ hdraw =>
      obtain ⟨hremaining, -, hgranted, hrefused, -⟩ := drawKey_frame hdraw
      rw [hremaining, hgranted, hrefused]
      exact hI
    | _ => exact hI

/-- No more requests are claimed than the budget holds, none if it is negative, and no worker is
sent away before all are. -/
theorem claims_le_max (hhigh : r < 2 ^ 63)
    (hW : (phase.connections * phase.depth : ℕ) ≤ engine.refusals + min r 0)
    (h : (workload engine phase fuel).Reachable s) :
    s.shared.granted ≤ max r 0 ∧ (0 < s.shared.refused → s.shared.granted = max r 0) := by
  refine Pool.reachable_induction (P := workload engine phase fuel)
    (I := fun s => (s.shared.granted : ℤ) ≤ max r 0 ∧
      (0 < s.shared.refused → (s.shared.granted : ℤ) = max r 0))
    ?_ ?_ h
  · exact ⟨le_max_right _ _, fun h => absurd h (lt_irrefl 0)⟩
  · intro s w e s' hs hI hnext
    have hremaining := remaining_eq hreq hr hs
    obtain ⟨hle, hall⟩ := hI
    have htest := fun htop : (s.locals w).pc = .top => exhausted_ofInt engine
      (z := r - (s.shared.granted + s.shared.refused : ℕ))
      (by have := refused_lt hreq hs htop; omega) (by omega)
    rw [← hremaining] at htest
    have hstep := (Pool.next_eq_some hnext).1
    generalize s.locals w = l, s'.locals w = k, s'.shared = t at hstep htest
    cases steps_of_step hstep with
    | refuse _ hexhausted =>
      rw [htest rfl, decide_eq_true_iff] at hexhausted
      refine ⟨hle, fun _ => ?_⟩
      dsimp only
      rcases Nat.eq_zero_or_pos s.shared.refused with h0 | hpos
      · omega
      · exact hall hpos
    | claim _ hopen =>
      rw [htest rfl, decide_eq_false_iff_not] at hopen
      have h0 : s.shared.refused = 0 := by
        by_contra hne
        have := hall (by omega)
        omega
      exact ⟨by dsimp only; omega, fun hpos => by dsimp only at hpos; omega⟩
    | draw _ hdraw =>
      obtain ⟨-, -, hgranted, hrefused, -⟩ := drawKey_frame hdraw
      rw [hgranted, hrefused]
      exact ⟨hle, hall⟩
    | _ => exact ⟨hle, hall⟩

omit hr
variable (hR : phase.requests.toNat < 2 ^ 63)
  (hW : phase.connections * phase.depth ≤ engine.refusals)
include hR hW

/-- No more requests are claimed than the budget holds, and no worker is sent away before all
are. -/
theorem claims_le (h : (workload engine phase fuel).Reachable s) :
    s.shared.granted ≤ phase.requests.toNat ∧
      (0 < s.shared.refused → s.shared.granted = phase.requests.toNat) := by
  have hclaims := claims_le_max hreq (r := phase.requests.toNat) (by simp) (by omega) (by omega) h
  omega

/-- The keys drawn so far are those of one counter. -/
theorem drawn_eq (hseq : phase.sequential) (hkeys : ∀ command ∈ phase.commands, command.consumesKey)
    (hK : 1 ≤ engine.number phase.keysCount) (h : (workload engine phase fuel).Reachable s) :
    s.shared.counter = BitVec.ofNat 64 s.shared.drawn.length ∧
      s.shared.drawn.map (fun draw => engine.number draw.2)
        = (List.range s.shared.drawn.length).map fun i :
        ℕ => (i : ℤ) % engine.number phase.keysCount := by
  refine Pool.reachable_induction (P := workload engine phase fuel)
    (I := fun s => s.shared.counter = BitVec.ofNat 64 s.shared.drawn.length ∧
      s.shared.drawn.map (fun draw => engine.number draw.2)
        = (List.range s.shared.drawn.length).map fun i : ℕ =>
          (i : ℤ) % engine.number phase.keysCount)
    ⟨rfl, rfl⟩ ?_ h
  intro s w e s' hs ⟨hcounter, hlist⟩ hnext
  have hlength : s.shared.drawn.length < 2 ^ 63 := by
    have hclaims := (claims_le hreq hR hW hs).1
    have hdrawn := granted_eq_drawn hreq hkeys hs
    omega
  obtain ⟨key, hkey, hindex⟩ := sequentialIndex_eq engine hK hlength
  have hstep := (Pool.next_eq_some hnext).1
  generalize s.locals w = l, s'.locals w = k, s'.shared = t at hstep
  cases steps_of_step hstep with
  | draw _ hdraw =>
    rw [drawKey, if_pos hseq, hcounter, hkey] at hdraw
    cases hdraw
    refine ⟨?_, ?_⟩
    · rw [List.length_append, List.length_singleton, BitVec.ofNat_add]
    · rw [List.map_append, hlist, List.length_append, List.length_singleton, List.range_succ,
        List.map_append, List.map_singleton, List.map_singleton, hindex]
  | _ => exact ⟨hcounter, hlist⟩

end RequestBased

/-! ## The end of a phase -/

/-- When all workers are done, each of them was sent away, and every claimed request is merged. -/
lemma finished_books (hreq : phase.completion = .requests)
    (h : (workload engine phase fuel).Reachable s) (hdone : Finished s) :
    s.shared.refused = phase.connections * phase.depth ∧
    s.shared.granted = s.shared.merged.totalRequests := by
  have hpc : ∀ w, ∃ c, s.locals w = ⟨.done, c⟩ := fun w => ⟨_, by rw [← hdone w]⟩
  refine ⟨?_, ?_⟩
  · rw [refused_eq_left hreq h, zero_add, Finset.sum_congr rfl fun w _ => by
      obtain ⟨c, hc⟩ := hpc w
      rw [hc, left]]
    simp
  · have hunmerged : ∑ w, unmerged (s.locals w) = 0 :=
      Finset.sum_eq_zero fun w _ => by
        obtain ⟨c, hc⟩ := hpc w
        rw [hc]
        rfl
    have := granted_eq_recorded hreq h
    omega

/-- The merged collector holds the configured number of requests, and the keys of a sequential phase
whose commands all consume a key are those of one counter. -/
def Exact (s : Pool.State (Worker phase) (Shared engine phase) Local) : Prop :=
  (s.shared.merged.totalRequests : ℤ) = engine.number phase.requests ∧
    (phase.sequential → 1 ≤ engine.number phase.keysCount →
      (∀ command ∈ phase.commands, command.consumesKey) →
      (s.shared.drawn.map (fun draw => engine.number draw.2) : Multiset ℤ)
        = (Multiset.range (engine.number phase.requests).toNat).map fun i : ℕ =>
            (i : ℤ) % engine.number phase.keysCount)

/-- A number of requests below `2 ^ 63` is read alike in both engines. -/
lemma number_eq_toNat {n : BitVec 64} (h0 : 0 ≤ engine.number n) (h : engine.number n < 2 ^ 63) :
    engine.number n = n.toNat ∧ n.toNat < 2 ^ 63 := by
  cases engine with
  | go =>
    simp only [Engine.number] at h0 h ⊢
    rw [BitVec.toInt_eq_toNat_cond] at h0 h ⊢
    split at h0 <;> omega
  | rust =>
    simp only [Engine.number] at h ⊢
    exact ⟨trivial, by omega⟩

/-- When all workers are done, the phase is exact: in Go whenever it has at most `2 ^ 63` workers,
in Rust when moreover its number of requests is an `i64`. -/
theorem budget_exact (engine : Engine) (phase : Phase) (fuel : ℕ)
    (hreq : phase.completion = .requests) (h0 : 0 ≤ engine.number phase.requests)
    (hR : engine.number phase.requests < 2 ^ 63)
    (hW : phase.connections * phase.depth ≤ engine.refusals)
    (hpos : 0 < phase.connections * phase.depth)
    (s : Pool.State (Worker phase) (Shared engine phase) Local)
    (h : (workload engine phase fuel).Reachable s) (hdone : Finished s) : Exact s := by
  obtain ⟨hnumber, hR'⟩ := number_eq_toNat h0 hR
  have hpc : ∀ w, ∃ c, s.locals w = ⟨.done, c⟩ := fun w => ⟨_, by rw [← hdone w]⟩
  obtain ⟨hleft, hmerged⟩ := finished_books hreq h hdone
  have hundrawn : ∑ w, undrawn (s.locals w) = 0 :=
    Finset.sum_eq_zero fun w _ => by
      obtain ⟨c, hc⟩ := hpc w
      rw [hc]
      rfl
  have hgranted := (claims_le hreq hR' hW h).2 (by omega)
  refine ⟨?_, fun hseq hK hkeys => ?_⟩
  · omega
  · have hdrawn := granted_eq_drawn hreq hkeys h
    rw [(drawn_eq hreq hR' hW hseq hkeys hK h).2, show s.shared.drawn.length
      = (engine.number phase.requests).toNat from by omega]
    rfl

end Books

/-- One request over three keys, for two workers on one connection. -/
def smallPhase : Phase := ⟨1, 2, .requests, 1#64, [.get], true, 3#64, 0#64⟩

/-- Its first worker. -/
def firstSlot : Worker smallPhase := (⟨0, Nat.zero_lt_one⟩, ⟨0, Nat.zero_lt_two⟩)

/-- Its second worker. -/
def secondSlot : Worker smallPhase := (⟨0, Nat.zero_lt_one⟩, ⟨1, Nat.one_lt_two⟩)

/-- The first worker takes the request, and both are sent away. -/
def smallRun : List (Worker smallPhase × Event) :=
  [(firstSlot, .budget), (secondSlot, .budget), (firstSlot, .select .get), (firstSlot, .draw),
    (secondSlot, .merge), (firstSlot, .execute true), (firstSlot, .record), (firstSlot, .budget),
    (firstSlot, .merge)]

/-- The state that this run ends in. -/
def smallEnd (engine : Engine) : Pool.State (Worker smallPhase) (Shared engine smallPhase) Local :=
  ((workload engine smallPhase 0).run smallRun (workload engine smallPhase 0).init).get
    (by cases engine <;> rfl)

/-- It is exact. -/
theorem smallEnd_exact : Exact (smallEnd .go) ∧ Exact (smallEnd .rust) := by
  have hrun : ∀ engine, (workload engine smallPhase 0).Reachable (smallEnd engine) := fun engine =>
    Pool.Reachable.run .init (Option.some_get _).symm
  exact ⟨budget_exact .go smallPhase 0 rfl (by decide) (by decide) (by decide) (by decide) _
      (hrun .go) (by decide),
    budget_exact .rust smallPhase 0 rfl (by decide) (by decide) (by decide) (by decide) _
      (hrun .rust) (by decide)⟩

/-- A phase of `2 ^ 63` requests for one worker. -/
def hugePhase : Phase := ⟨1, 1, .requests, BitVec.ofNat 64 (2 ^ 63), [.get], true, 3#64, 0#64⟩

/-- In Rust its worker is sent away at once. -/
def hugeRun : List (Worker hugePhase × Event) :=
  [((⟨0, Nat.zero_lt_one⟩, ⟨0, Nat.zero_lt_one⟩), .budget),
    ((⟨0, Nat.zero_lt_one⟩, ⟨0, Nat.zero_lt_one⟩), .merge)]

/-- The phase ends without a request, instead of with `2 ^ 63` of them. -/
theorem hugePhase_not_exact :
    hugePhase.completion = .requests ∧ 0 ≤ Engine.rust.number hugePhase.requests ∧
      ∃ s, (workload .rust hugePhase 0).Reachable s ∧ Finished s ∧
        s.shared.merged.totalRequests = 0 ∧ ¬ Exact s := by
  refine ⟨rfl, by decide, ((workload .rust hugePhase 0).run hugeRun
    (workload .rust hugePhase 0).init).get rfl, Pool.Reachable.run .init (Option.some_get _).symm,
    by decide, rfl, fun h => ?_⟩
  exact absurd h.1 (by decide)

end RespBench.Budget
