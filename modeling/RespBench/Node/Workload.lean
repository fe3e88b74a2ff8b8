import RespBench.Lib.Tickets
import RespBench.Node.Steps
import RespBench.Random.Parity

/-!
# The budget of a Node phase

A request-based phase in every interleaving of its loops. Their pool is simulated by the office of
`RespBench.Lib.Tickets`: the budget is a number of tickets, which may start as a fraction and is
rounded up, a claim takes one, and a settled request spends it (`office_of_workload`). `issued_eq`
follows the requests that were sent, and `exists_progress` says that no loop is stuck.
`budget_spent` puts them together.
-/

namespace RespBench.Node
open RespBench.Lib RespBench.Limiter
open RespBench.Lib.Tickets (Book Place office)
open RespBench.Metrics.Eager (MetricsCollector)

/-- The budget and the records, as a book of tickets. -/
def Shared.book {n : ℕ} (s : Shared n) : Book := ⟨⌈s.remaining⌉₊, s.collector.totalRequests, 0⟩

/-- A loop that has claimed a request holds it until its result is recorded. -/
def Pc.place : Pc → Place
  | .start => .idle
  | .acquiring => .holding
  | .admitted => .holding
  | .flight _ => .holding
  | .done => .stopped

/-- The requests of a loop that were sent and are not recorded. -/
def Pc.inFlight : Pc → ℕ
  | .flight _ => 1
  | _ => 0

section
variable {fuel : ℕ} {phase : PhaseConfig} {connection : Fin phase.connections} {t0 : ℤ}
variable {s t : Shared phase.connections} {pc : Pc}

/-! ## The budget -/

/-- A budget that is spent, or a double that can be lowered by exactly one. -/
def Countable (remaining : ℚ) : Prop :=
  remaining ≤ 0 ∨ Binary64.round remaining = some remaining ∧ remaining ≤ 2 ^ 53

/-- A claim takes one from the budget rounded up. -/
lemma countable_lower {remaining : ℚ} (h : Countable remaining) (hpos : 0 < remaining) :
    Countable (lower remaining) ∧ ⌈lower remaining⌉₊ = ⌈remaining⌉₊ - 1 := by
  obtain ⟨hdouble, hle⟩ := h.resolve_left (not_le.mpr hpos)
  rcases lt_or_ge remaining 1 with hlt | hge
  · -- the last claim of a fraction
    have hspent : lower remaining ≤ 0 := by
      rw [lower]
      cases hlower : Binary64.roundSigned (remaining - 1) with
      | none => exact le_rfl
      | some y => exact Binary64.roundSigned_nonpos (by linarith) hlower
    have hone : ⌈remaining⌉₊ ≤ 1 := Nat.ceil_le.mpr (by exact_mod_cast hlt.le)
    rw [Nat.ceil_eq_zero.mpr hspent]
    exact ⟨.inl hspent, by omega⟩
  · have hlower : lower remaining = remaining - 1 := by
      rw [lower, Binary64.roundSigned, if_neg (by linarith), Binary64.round_sub_one hdouble hge hle,
        Option.getD_some]
    rw [hlower, Nat.ceil_sub_one]
    exact ⟨.inr ⟨Binary64.round_sub_one hdouble hge hle, by linarith⟩, rfl⟩

/-- Acquiring a slot leaves the budget. -/
lemma remaining_of_acquires (h : Acquires fuel phase connection s t pc) :
    t.remaining = s.remaining := by
  cases h with
  | issue _ hissues => exact hissues.remaining
  | grant => rfl
  | wait => rfl

/-- The budget stays a number that doubles count. -/
lemma countable_of_loops (h : Loops fuel phase connection s t pc) (hs : Countable s.remaining) :
    Countable t.remaining := by
  cases h with
  | expire => exact hs
  | «continue» _ hacquires =>
    rw [remaining_of_acquires hacquires]
    exact hs
  | exhaust => exact hs
  | claim _ hleft hacquires =>
    rw [remaining_of_acquires hacquires]
    exact (countable_lower hs hleft).1

/-- The budget can be counted down to its end, if it can be at first. -/
lemma countable_of_workload (hbudget : Countable phase.budget)
    {σ : Pool.State (Fin phase.connections × Fin phase.slots) (Shared phase.connections) Pc}
    (h : (workload fuel phase t0).Reachable σ) : Countable σ.shared.remaining := by
  refine Pool.reachable_induction (P := workload fuel phase t0)
    (I := fun σ => Countable σ.shared.remaining) hbudget ?_ h
  intro σ w e σ' _ hσ hnext
  have hsteps := steps_of_step (Pool.next_eq_some hnext).1
  generalize σ.locals w = pc at hsteps
  generalize σ'.locals w = pc' at hsteps
  generalize σ'.shared = t at hsteps ⊢
  cases hsteps with
  | tick d => exact hσ
  | start hloops => exact countable_of_loops hloops hσ
  | retry hacquires =>
    rw [remaining_of_acquires hacquires]
    exact hσ
  | send hissues =>
    rw [hissues.remaining]
    exact hσ
  | settle latencyMicros success hloops => exact countable_of_loops hloops hσ

/-! ## Simulation -/

/-- Issuing a request leaves the book. -/
lemma Issues.book {command : Command} (h : Issues fuel phase connection command s t) :
    t.book = s.book := by
  rw [Shared.book, Shared.book, h.remaining, h.collector]

/-- Acquiring and sending leave the book as it is, and the request in the hand of the loop. -/
lemma book_of_acquires (h : Acquires fuel phase connection s t pc) :
    t.book = s.book ∧ pc.place = .holding := by
  cases h with
  | issue _ hissues => exact ⟨hissues.book, rfl⟩
  | grant => exact ⟨rfl, rfl⟩
  | wait => exact ⟨rfl, rfl⟩

/-- At the top of the loop of a request-based phase, a ticket is taken, or none is left. -/
lemma alone_of_loops {w : Fin phase.connections × Fin phase.slots} {requests : ℚ} {total : ℕ}
    (hcompletion : phase.completion = .requests requests) (hs : Countable s.remaining)
    (h : Loops fuel phase connection s t pc) :
    (office (Fin phase.connections × Fin phase.slots) total).Alone w (s.book, .idle)
    (t.book, pc.place) := by
  cases h with
  | expire hduration => exact nomatch hcompletion.symm.trans hduration
  | «continue» hduration => exact nomatch hcompletion.symm.trans hduration
  | exhaust _ hexhausted => exact Tickets.alone_stop (.inl (Nat.ceil_eq_zero.mpr hexhausted))
  | claim _ hleft hacquires =>
    obtain ⟨hbook, hplace⟩ := book_of_acquires hacquires
    have hceil := (countable_lower hs hleft).2
    rw [hbook, hplace, Shared.book, Shared.book]
    dsimp only
    rw [hceil]
    exact Tickets.alone_take (b := s.book) (Nat.ceil_pos.mpr hleft)

/-- What a loop of a request-based phase does in one stretch, a worker of the office can do. -/
lemma alone_of_steps {w : Fin phase.connections × Fin phase.slots} {requests : ℚ} {total : ℕ}
    {pc' : Pc} (hcompletion : phase.completion = .requests requests) (hs : Countable s.remaining)
    (h : Steps fuel phase connection s pc t pc') :
    (office (Fin phase.connections × Fin phase.slots) total).Alone w (s.book, pc.place)
    (t.book, pc'.place) := by
  cases h with
  | tick d => exact .refl
  | start hloops => exact alone_of_loops hcompletion hs hloops
  | retry hacquires =>
    obtain ⟨hbook, hplace⟩ := book_of_acquires hacquires
    rw [hbook, hplace]
    exact .refl
  | send hissues =>
    rw [hissues.book]
    exact .refl
  | settle latencyMicros success hloops =>
    -- the result is recorded, and then the loop is at its top
    exact .trans Tickets.alone_spend (alone_of_loops hcompletion (by exact hs) hloops)

/-- A request-based phase is simulated by an office with as many tickets as its budget rounded
up. -/
theorem office_of_workload {requests : ℚ} (hcompletion : phase.completion = .requests requests)
    (hbudget : Countable phase.budget)
    {σ : Pool.State (Fin phase.connections × Fin phase.slots) (Shared phase.connections) Pc}
    (h : (workload fuel phase t0).Reachable σ) :
    (office (Fin phase.connections × Fin phase.slots) ⌈requests⌉₊).Reachable
      ⟨σ.shared.book, fun w => (σ.locals w).place⟩ := by
  refine h.simulates Shared.book Pc.place ?_ fun s w e t pc hs hstep =>
    alone_of_steps hcompletion (countable_of_workload hbudget hs) (steps_of_step hstep)
  simp only [Pool.init, office, workload, Shared.book, PhaseConfig.budget, hcompletion,
    MetricsCollector.new, Pc.place]

/-! ## The requests that were sent -/

/-- What is issued by acquiring a slot is in flight. -/
lemma issued_of_acquires (h : Acquires fuel phase connection s t pc) :
    t.issued.length = s.issued.length + pc.inFlight ∧ t.collector = s.collector := by
  cases h with
  | issue _ hissues =>
    obtain ⟨key, hissued, -⟩ := hissues.issued
    rw [hissued, hissues.collector]
    exact ⟨by simp [Pc.inFlight], rfl⟩
  | grant => exact ⟨rfl, rfl⟩
  | wait => exact ⟨rfl, rfl⟩

/-- What is issued in a round of the loop is in flight. -/
lemma issued_of_loops (h : Loops fuel phase connection s t pc) :
    t.issued.length = s.issued.length + pc.inFlight ∧ t.collector = s.collector := by
  cases h with
  | expire => exact ⟨rfl, rfl⟩
  | «continue» _ hacquires => exact issued_of_acquires hacquires
  | exhaust => exact ⟨rfl, rfl⟩
  | claim _ _ hacquires =>
    have hissued := issued_of_acquires hacquires
    exact hissued

/-- Every request that was sent is recorded or in flight. -/
theorem issued_eq
    {σ : Pool.State (Fin phase.connections × Fin phase.slots) (Shared phase.connections) Pc}
    (h : (workload fuel phase t0).Reachable σ) :
    σ.shared.issued.length = σ.shared.collector.totalRequests + ∑ w, (σ.locals w).inFlight := by
  refine Pool.balance (P := workload fuel phase t0) (fun s => s.issued.length)
    (fun s => s.collector.totalRequests) Pc.inFlight ?_ ?_ h
  · simp [workload, MetricsCollector.new, Pc.inFlight]
  · intro σ w e t pc' rest _ hstep hbook
    have hsteps := steps_of_step hstep
    generalize σ.locals w = pc at hbook hsteps
    cases hsteps with
    | tick d => exact hbook
    | start hloops =>
      obtain ⟨hissued, hcollector⟩ := issued_of_loops hloops
      rw [hissued, hcollector]
      dsimp only [Pc.inFlight] at hbook
      omega
    | retry hacquires =>
      obtain ⟨hissued, hcollector⟩ := issued_of_acquires hacquires
      rw [hissued, hcollector]
      dsimp only [Pc.inFlight] at hbook
      omega
    | send hissues =>
      obtain ⟨key, hissued, -⟩ := hissues.issued
      rw [hissued, hissues.collector, List.length_append, List.length_singleton]
      dsimp only [Pc.inFlight] at hbook ⊢
      omega
    | settle latencyMicros success hloops =>
      obtain ⟨hissued, hcollector⟩ := issued_of_loops hloops
      rw [hissued, hcollector]
      dsimp only [Pc.inFlight, record, MetricsCollector.record] at hbook ⊢
      omega

/-- The accounts of the collector agree. -/
lemma accounts_of_workload
    {σ : Pool.State (Fin phase.connections × Fin phase.slots) (Shared phase.connections) Pc}
    (h : (workload fuel phase t0).Reachable σ) : σ.shared.collector.Accounts := by
  refine Pool.reachable_induction (P := workload fuel phase t0)
    (I := fun σ => σ.shared.collector.Accounts)
    MetricsCollector.accounts_new ?_ h
  intro σ w e σ' _ hσ hnext
  obtain ⟨hstep, -⟩ := Pool.next_eq_some hnext
  have hsteps := steps_of_step hstep
  generalize σ.locals w = pc at hsteps
  generalize σ'.locals w = pc' at hsteps
  generalize σ'.shared = t at hsteps ⊢
  cases hsteps with
  | tick d => exact hσ
  | start hloops =>
    rw [(issued_of_loops hloops).2]
    exact hσ
  | retry hacquires =>
    rw [(issued_of_acquires hacquires).2]
    exact hσ
  | send hissues =>
    rw [hissues.collector]
    exact hσ
  | settle latencyMicros success hloops =>
    rw [(issued_of_loops hloops).2]
    exact hσ.record _ _

/-! ## Progress -/

/-- All random numbers come from states of 48 bits. -/
def Represented (s : Shared phase.connections) : Prop :=
  ∀ connection, ∃ x < 2 ^ 48, s.random connection = Random.nodeRep x

/-- The random numbers of a keyspace have a bound below `2 ^ 31`, if it needs any. -/
def KeyspaceConfig.Narrow (config : KeyspaceConfig) : Prop :=
  config.generationAlg = .uniform_rand → config.keysCount < 2 ^ 31

variable (extra : ℕ) {command : Command}

/-- The next key comes after `2 ^ 48` rounds at the latest. -/
lemma nextKey_ok {config : KeyspaceConfig} (hnarrow : config.Narrow) (counter : ℕ) {x : ℕ}
    (hx : x < 2 ^ 48) :
    ∃ key counter', ∃ x' < 2 ^ 48,
      config.nextKey (2 ^ 48 + extra) counter (Random.nodeRep x)
        = some (key, counter', Random.nodeRep x') := by
  unfold KeyspaceConfig.nextKey
  cases halg : config.generationAlg with
  | sequential_int => exact ⟨_, _, x, hx, rfl⟩
  | uniform_rand =>
    let bound : Random.Bound := ⟨config.keysCount, config.keysCount_pos, hnarrow halg⟩
    obtain ⟨⟨v, x'⟩, hdraw⟩ := Random.draw_ok bound x
    have hnext : Random.Node.JavaRandom.nextInt (2 ^ 48 + extra) config.keysCount (Random.nodeRep x)
        = .ok ((v : ℤ), Random.nodeRep x') := by
      have h := Random.nodePort_refines.nextInt_eq (2 ^ 48 + extra) bound x hx
      rw [hdraw] at h
      exact h
    refine ⟨config.formatKey ((v : ℤ).tmod config.keysCount), counter, x',
      Random.draw_lt (hdraw extra), ?_⟩
    rw [hnext]
    rfl

/-- The generators stay states of 48 bits. -/
lemma represented_of_issues (hnarrow : phase.keyspace.Narrow)
    (h : Issues (2 ^ 48 + extra) phase connection command s t) (hs : Represented s) :
    Represented t := by
  intro v
  obtain ⟨key, -, hkey⟩ := h.issued
  by_cases hv : v = connection
  · subst hv
    split at hkey
    next =>
      obtain ⟨x, hx, hrandom⟩ := hs v
      obtain ⟨key', counter', x', hx', hnext⟩ := nextKey_ok extra hnarrow s.counter hx
      rw [hrandom, hnext] at hkey
      rw [Option.some_inj, Prod.mk.injEq, Prod.mk.injEq] at hkey
      exact ⟨x', hx', hkey.2.2.symm⟩
    next =>
      rw [hkey.2.2]
      exact hs v
  · rw [h.others v hv]
    exact hs v

/-- In every reachable state the generators are states of 48 bits. -/
lemma represented_of_workload (hnarrow : phase.keyspace.Narrow)
    {σ : Pool.State (Fin phase.connections × Fin phase.slots) (Shared phase.connections) Pc}
    (h : (workload (2 ^ 48 + extra) phase t0).Reachable σ) : Represented σ.shared := by
  refine requests_induction (fun index => ?_) (fun hs hissues =>
    represented_of_issues extra hnarrow hissues hs)
    (fun hs hsame index => ?_) h
  · exact ⟨_, Random.scramble_lt _,
      congrArg Random.Node.JavaRandom.mk (Random.int_scramble_ofInt _)⟩
  · rw [hsame.random]
    exact hs index

/-- How far a loop is from recording its request, or from its end. -/
def Pc.weight : Pc → ℕ
  | .start => 1
  | .acquiring => 4
  | .admitted => 3
  | .flight _ => 2
  | .done => 0

/-- A request can be issued when its keys can be drawn. -/
lemma exists_issue (hnarrow : phase.keyspace.Narrow) (hcommand : command ∈ phase.commands)
    (hs : Represented s) (connection : Fin phase.connections) :
    ∃ t, issue (2 ^ 48 + extra) phase connection command s = some (t, .flight command) ∧
      t.remaining = s.remaining := by
  obtain ⟨x, hx, hrandom⟩ := hs connection
  obtain ⟨key, counter', x', -, hnext⟩ := nextKey_ok extra hnarrow s.counter hx
  unfold issue
  rw [if_neg (not_not.mpr hcommand)]
  split
  · rw [hrandom, hnext]
    exact ⟨_, rfl, rfl⟩
  · exact ⟨_, rfl, rfl⟩

/-- When its slot has come, a loop that acquires is admitted, or sends its request at once. -/
lemma exists_acquire (hnarrow : phase.keyspace.Narrow) (hcommand : command ∈ phase.commands)
    (hs : Represented s) (connection : Fin phase.connections) :
    ∃ t pc', acquire (2 ^ 48 + extra) phase connection command
        { s with schedule := s.schedule.tick (s.schedule.nextAllowed - s.schedule.clock).toNat }
          = some (t, pc') ∧
      t.remaining = s.remaining ∧ pc'.weight < 4 := by
  unfold acquire
  split
  next =>
    obtain ⟨t, ht, hremaining⟩ := exists_issue extra
      (s := { s with schedule := s.schedule.tick (s.schedule.nextAllowed
        - s.schedule.clock).toNat })
      hnarrow hcommand hs connection
    exact ⟨t, _, ht, hremaining, by simp only [Pc.weight, Nat.reduceLT]⟩
  next interval =>
    rw [if_pos (by simp only [Schedule.tick]; omega)]
    exact ⟨_, _, rfl, rfl, by decide⟩

/-- So does a loop of a request-based phase at its top, unless the budget is spent. -/
lemma exists_loop {requests : ℚ} (hcompletion : phase.completion = .requests requests)
    (hbudget : Countable s.remaining)
    (hnarrow : phase.keyspace.Narrow) (hs : Represented s) (connection : Fin phase.connections)
    {reading : Reading} (hcommand : reading.command ∈ phase.commands) :
    ∃ t pc', loop (2 ^ 48 + extra) phase connection reading
        { s with schedule := s.schedule.tick (s.schedule.nextAllowed - s.schedule.clock).toNat }
          = some (t, pc') ∧
      4 * ⌈t.remaining⌉₊ + pc'.weight ≤ 4 * ⌈s.remaining⌉₊ := by
  unfold loop
  rw [hcompletion]
  dsimp only
  split
  next hexhausted => exact ⟨_, _, rfl, le_rfl⟩
  next hleft =>
    obtain ⟨t, pc', ht, hremaining, hweight⟩ := exists_acquire extra
      (s := { s with remaining := lower s.remaining }) hnarrow hcommand hs connection
    refine ⟨t, pc', ht, ?_⟩
    have hpos : 0 < ⌈s.remaining⌉₊ := Nat.ceil_pos.mpr (not_le.mp hleft)
    have hceil := (countable_lower hbudget (not_le.mp hleft)).2
    rw [hremaining]
    dsimp only
    omega

/-- A loop that is not done can take a step when its slot has come, and it is nearer to its end
then. -/
lemma exists_progress {requests : ℚ} (hcompletion : phase.completion = .requests requests)
    (hbudget : Countable s.remaining)
    (hnarrow : phase.keyspace.Narrow) (hs : Represented s) (connection : Fin phase.connections)
    (reading : Reading) (hcommand : reading.command ∈ phase.commands) (hpc : pc ≠ .done) :
    ∃ t pc', resume (2 ^ 48 + extra) phase connection reading
        { s with schedule := s.schedule.tick (s.schedule.nextAllowed - s.schedule.clock).toNat } pc
          = some (t, pc') ∧
      4 * ⌈t.remaining⌉₊ + pc'.weight < 4 * ⌈s.remaining⌉₊ + pc.weight := by
  cases pc with
  | start =>
    obtain ⟨t, pc', ht, hle⟩ := exists_loop extra hcompletion hbudget hnarrow hs connection hcommand
    exact ⟨t, pc', ht, Nat.lt_succ_of_le hle⟩
  | acquiring =>
    obtain ⟨t, pc', ht, hremaining, hweight⟩ := exists_acquire extra hnarrow hcommand hs connection
    exact ⟨t, pc', ht, by rw [hremaining]; exact Nat.add_lt_add_left hweight _⟩
  | admitted =>
    obtain ⟨t, ht, hremaining⟩ := exists_issue extra
      (s := { s with schedule := s.schedule.tick (s.schedule.nextAllowed
        - s.schedule.clock).toNat })
      hnarrow hcommand hs connection
    exact ⟨t, _, ht, by rw [hremaining]; exact Nat.lt_succ_self _⟩
  | flight command =>
    obtain ⟨t, pc', ht, hle⟩ := exists_loop extra
      (s := { s with collector := record s.collector ⟨command.name, reading.latencyMicros,
        reading.success⟩ })
      hcompletion hbudget hnarrow hs connection hcommand
    exact ⟨t, pc', ht, hle.trans_lt (Nat.lt_add_of_pos_right (Nat.succ_pos 1))⟩
  | done => exact absurd rfl hpc

end

/-! ## The phase -/

variable {phase : PhaseConfig}

/-- A connection has a slot. -/
lemma slots_pos (phase : PhaseConfig) : 0 < phase.slots := by
  unfold PhaseConfig.slots
  split
  next => exact Nat.one_pos
  next hdepth => exact Nat.floor_pos.mpr (not_le.mp hdepth).le

/-- In every interleaving of the loops of a request-based phase whose budget is a double of at most
`2 ^ 53` and whose random keys are fewer than `2 ^ 31`, every request of the budget is still to be
claimed, claimed by a loop, or recorded, and every request that was sent is recorded or in flight;
the collector's accounts agree; from every state the phase can come to its end; and when all its
loops are done, it has sent and recorded as many requests as its budget says, rounded up. -/
theorem budget_spent (extra : ℕ) (phase : PhaseConfig) (t0 : ℤ) {requests : ℚ}
    (hcompletion : phase.completion = .requests requests)
    (hdouble : Binary64.round requests = some requests) (hrequests : requests ≤ 2 ^ 53)
    (hconnections : 0 < phase.connections) (hcommands : phase.commands ≠ [])
    (hnarrow : phase.keyspace.Narrow)
    {σ : Pool.State (Fin phase.connections × Fin phase.slots) (Shared phase.connections) Pc}
    (h : (workload (2 ^ 48 + extra) phase t0).Reachable σ) :
    (⌈requests⌉₊ = ⌈σ.shared.remaining⌉₊ + σ.shared.collector.totalRequests + ∑ w,
      (σ.locals w).place.held ∧
      σ.shared.issued.length = σ.shared.collector.totalRequests + ∑ w, (σ.locals w).inFlight ∧
      σ.shared.collector.Accounts) ∧
    (∃ events σ', (workload (2 ^ 48 + extra) phase t0).run events σ = some σ' ∧ ∀ w,
      σ'.locals w = .done) ∧
    ((∀ w, σ.locals w = .done) → σ.shared.collector.totalRequests = ⌈requests⌉₊ ∧
      σ.shared.issued.length = ⌈requests⌉₊) := by
  have hbudget : Countable phase.budget := by
    rw [PhaseConfig.budget, hcompletion]
    exact .inr ⟨hdouble, hrequests⟩
  have hoffice := office_of_workload hcompletion hbudget h
  have hissued := issued_eq h
  refine ⟨⟨Tickets.conserved hoffice, hissued, accounts_of_workload h⟩, ?_, fun hdone => ?_⟩
  · obtain ⟨command, hcommand⟩ := List.exists_mem_of_ne_nil _ hcommands
    refine Pool.exists_run_of_progress (fun σ => 4 * ⌈σ.shared.remaining⌉₊ + ∑ w,
      (σ.locals w).weight)
      (fun σ hσ hstuck => ?_) h
    obtain ⟨w, hw⟩ := not_forall.mp hstuck
    obtain ⟨t, pc', hresume, hlt⟩ := exists_progress extra hcompletion
      (countable_of_workload hbudget hσ) hnarrow
      (represented_of_workload extra hnarrow hσ) w.1 ⟨false, command, 0, true⟩ hcommand hw
    refine ⟨_, _, Pool.run_of_events (w := w) (t := t) (l := pc')
      [.tick (σ.shared.schedule.nextAllowed - σ.shared.schedule.clock).toNat,
        .resume ⟨false, command, 0, true⟩] ?_, Pool.sum_update_lt hlt⟩
    rw [List.foldlM_cons]
    refine Option.bind_eq_some_iff.mpr ⟨_, rfl, ?_⟩
    rw [List.foldlM_cons]
    exact Option.bind_eq_some_iff.mpr ⟨_, hresume, rfl⟩
  · have hstopped : ∀ w, (σ.locals w).place = .stopped := fun w => by rw [hdone w]; rfl
    have hspent :=
      (Tickets.spent_of_stopped hoffice hstopped).2 ⟨⟨0, hconnections⟩, ⟨0, slots_pos phase⟩⟩ rfl
    have hflight : ∑ w, (σ.locals w).inFlight = 0 := Finset.sum_eq_zero fun w _ =>
      by rw [hdone w]; rfl
    exact ⟨hspent, by rw [hissued, hflight]; exact hspent⟩

/-- Two connections with two slots each, a limit of a thousand requests a second, and a
budget of two and a half. -/
def fractionalPhase : PhaseConfig where
  connections := 2
  pipelineDepth := 5 / 2
  rpsLimit := 1000
  completion := .requests (5 / 2)
  keyspace := ⟨10, by decide, 16, "bench:".toList, .sequential_int, 0⟩
  commands := [⟨"GET", true⟩, ⟨"PING", false⟩]

/-- It can come to its end, and has sent and recorded three requests then. -/
theorem fractionalPhase_spent :
    ∃ events σ, (workload (2 ^ 48 + 0) fractionalPhase 7).run events
      (workload (2 ^ 48 + 0) fractionalPhase 7).init
        = some σ ∧ (∀ w, σ.locals w = .done) ∧ σ.shared.collector.totalRequests = 3 ∧
        σ.shared.issued.length = 3 := by
  have hdouble : Binary64.round (5 / 2) = some (5 / 2) := by decide +kernel
  have hspent := fun σ => budget_spent 0 fractionalPhase 7 rfl hdouble (by norm_num) (by decide)
    (List.cons_ne_nil _ _) nofun (σ := σ)
  obtain ⟨-, ⟨events, σ, hrun, hdone⟩, -⟩ := hspent _ .init
  obtain ⟨hrecorded, hissued⟩ := (hspent σ (Pool.Reachable.run .init hrun)).2.2 hdone
  have hceil : ⌈(5 / 2 : ℚ)⌉₊ = 3 := by norm_num [Nat.ceil_eq_iff]
  exact ⟨events, σ, hrun, hdone, hrecorded.trans hceil, hissued.trans hceil⟩

end RespBench.Node
