import RespBench.Lib.Pool
import RespBench.Ruby.Workers

/-!
# The measured window of a forked phase

The parent of a forked phase (`execute_forked_workload`) forks its workers, starts the clock,
reads and reaps the workers one after the other, and stops the clock. Each worker
(`run_worker_process`) connects, sends its warm-up PINGs and makes its requests as soon as it is
forked. The processes see of each other only what the system shows them: which workers are forked,
whose pipe is closed, and who exited.

`windowExact_of_handshake` says what a handshake between the warm-up and the clock would give: every
request is made while the clock runs, and no connection is set up meanwhile. The code has no such
handshake. Every fork succeeds, and no interrupt arrives.
-/

namespace RespBench.Ruby
open RespBench.Lib

/-- A phase with the PINGs that each connection sends first. -/
structure WarmedPhase extends PhaseConfig where
  warmup_requests : ℤ

/-- How many workers are forked. -/
def WarmedPhase.processes (phase : WarmedPhase) : ℕ := (num_processes phase.toPhaseConfig).toNat

/-- Where the parent is. -/
inductive ParentPc where
  | forking (proc_idx : ℕ)
  | reading (idx : ℕ)
  | reaping (idx : ℕ)
  | done

/-- Where a worker is. `connecting`, `pinging` and `requesting` wait for an answer. -/
inductive ChildPc where
  | unborn
  | starting
  | connecting
  | warming (pings : ℕ)
  | pinging (pings : ℕ)
  | looping (count : ℕ)
  | requesting (count : ℕ)
  | reporting
  | exiting
  | exited
deriving DecidableEq

inductive Process where
  | parent (pc : ParentPc)
  | child (pc : ChildPc)

/-- What the processes share. -/
structure System (n : ℕ) where
  forked : ℕ
  closed : Fin n → Bool
  exited : Fin n → Bool
  started : Bool
  stopped : Bool

/-- The clock runs between `metrics.start` and `metrics.stop`. -/
def System.measuring {n : ℕ} (s : System n) : Bool := s.started && !s.stopped

inductive ParentEvent where
  | fork
  | start
  | read (raises : Bool)
  | waitpid
  | stop

inductive ChildEvent where
  | run
  | connect
  | connected
  | ping
  | pong
  | enter
  | issue
  | complete
  | leave
  | report
  | exit
  | die

inductive ForkEvent where
  | parent (event : ParentEvent)
  | child (event : ChildEvent)

/-- `execute_forked_workload`. A read ends with the pipe, or with an error that is rescued. -/
def parentStep {n : ℕ} (event : ParentEvent) (s : System n) (pc : ParentPc) :
    Option (System n × ParentPc) :=
  match pc, event with
  | .forking i, .fork => if i < n then some ({ s with forked := i + 1 }, .forking (i + 1)) else none
  | .forking i, .start => if i = n then some ({ s with started := true }, .reading 0) else none
  | .reading i, .read raises =>
    if h : i < n then if raises || s.closed ⟨i, h⟩ then some (s, .reaping i) else none else none
  | .reaping i, .waitpid =>
    if h : i < n then if s.exited ⟨i, h⟩ then some (s, .reading (i + 1)) else none else none
  | .reading i, .stop => if i = n then some ({ s with stopped := true }, .done) else none
  | _, _ => none

/-- The condition of the request loop; a deadline may be met or not. -/
def mayIssue (target : Option ℤ) (count : ℕ) : Bool := target.all fun target => (count : ℤ) < target
def mayLeave (target : Option ℤ) (count : ℕ) : Bool :=
  target.all fun target => !((count : ℤ) < target)

/-- `run_worker_process`. A worker dies of an error that nothing rescues, or of a signal. -/
def childStep {n : ℕ} (warmup : ℤ) (target : Option ℤ) (i : Fin n) (event : ChildEvent)
    (s : System n) (pc : ChildPc) : Option (System n × ChildPc) :=
  match pc, event with
  | .unborn, .run => if i < s.forked then some (s, .starting) else none
  | .starting, .connect => some (s, .connecting)
  | .connecting, .connected => some (s, .warming warmup.toNat)
  | .warming (pings + 1), .ping => some (s, .pinging pings)
  | .pinging pings, .pong => some (s, .warming pings)
  | .warming 0, .enter => some (s, .looping 0)
  | .looping count, .issue => if mayIssue target count then some (s, .requesting count) else none
  | .requesting count, .complete => some (s, .looping (count + 1))
  | .looping count, .leave => if mayLeave target count then some (s, .reporting) else none
  | .reporting, .report => some ({ s with closed := Function.update s.closed i true }, .exiting)
  | .exiting, .exit => some ({ s with exited := Function.update s.exited i true }, .exited)
  | .unborn, _ => none
  | .exited, _ => none
  | _, .die =>
    some ({ s with closed := Function.update s.closed i true, exited :=
      Function.update s.exited i true }, .exited)
  | _, _ => none

/-- The parent, and the workers that it forks. -/
abbrev Pid (phase : WarmedPhase) := Option (Fin (phase.processes))

/-- The processes of a forked phase. -/
def forkedWorkload (phase : WarmedPhase) :
    Pool (Pid phase) (System (phase.processes)) Process ForkEvent where
  shared := ⟨0, fun _ => false, fun _ => false, false, false⟩
  locals := fun pid => if pid = none then .parent (.forking 0) else .child .unborn
  step := fun pid event s l =>
    match pid, l, event with
    | none, .parent pc, .parent event => (parentStep event s pc).map fun r => (r.1, .parent r.2)
    | some i, .child pc, .child event =>
      (childStep phase.warmup_requests
        (my_target phase.completion (num_processes phase.toPhaseConfig)) i event s
        pc).map fun r => (r.1, .child r.2)
    | _, _, _ => none

variable {phase : WarmedPhase}

/-! ## The window -/

abbrev ForkState (phase : WarmedPhase) := Pool.State (Pid phase) (System phase.processes) Process

/-- A connection or a PING is under way. -/
def ChildPc.settingUp : ChildPc → Bool
  | .connecting | .pinging _ => true
  | _ => false

/-- A request is under way. -/
def ChildPc.working : ChildPc → Bool
  | .requesting _ => true
  | _ => false

/-- Whenever a request is under way the clock runs, and whenever a connection or a
PING is, it does not. -/
def WindowExact (s : ForkState phase) : Prop :=
  ∀ i pc, s.locals (some i) = .child pc →
    (pc.working → s.shared.measuring) ∧ (pc.settingUp → ¬ s.shared.measuring)

/-- The set-up of a worker is over. -/
def ChildPc.settled : ChildPc → Bool
  | .unborn | .starting | .connecting | .warming (_ + 1) | .pinging _ => false
  | _ => true

def Process.settled : Process → Bool
  | .parent _ => true
  | .child pc => pc.settled

/-- A worker has entered its request loop. -/
def ChildPc.entered : ChildPc → Bool
  | .looping _ | .requesting _ => true
  | _ => false

/-- A working child has entered its workload. -/
lemma ChildPc.entered_of_working (pc : ChildPc) (h : pc.working) : pc.entered := by
  cases pc <;> first | rfl | cases h

/-- A child that is setting up has not settled. -/
lemma ChildPc.not_settled (pc : ChildPc) (h : pc.settingUp) : pc.settled = false := by
  cases pc <;> first | rfl | cases h

/-- A handshake: the clock starts when every worker is set up, and a worker enters its request loop
when the clock has started. -/
def Handshake (_ : Pid phase) (event : ForkEvent) (s : ForkState phase) : Prop :=
  match event with
  | .parent .start => ∀ i, (s.locals (some i)).settled
  | .child .enter => s.shared.started
  | _ => True

instance (pid : Pid phase) (event : ForkEvent) (s : ForkState phase) :
    Decidable (Handshake pid event s) := by
  unfold Handshake
  split <;> infer_instance

/-- The workers that the parent has reaped. -/
def ParentPc.reaped (n : ℕ) : ParentPc → ℕ
  | .forking _ => 0
  | .reading idx | .reaping idx => idx
  | .done => n

/-- What a process knows of the clock and of the others: the parent starts it before it
reaps and stops it when all are reaped, and a worker is set up when it has started, and
in its loop no sooner. -/
inductive Knows {n : ℕ} : Option (Fin n) → System n → Process → Prop where
  | parent {s pc} : (∀ j : Fin n, (j : ℕ) < pc.reaped n → s.exited j) → (s.stopped → pc = .done) →
    Knows none s (.parent pc)
  | child {s i pc} : (s.exited i → pc = .exited) → (pc.entered → s.started) →
    (s.started → pc.settled) →
    Knows (some i) s (.child pc)

section Steps
variable {n : ℕ} {s t : System n}

/-- The parent starts and stops the clock, and reaps no worker that has not exited. -/
lemma parentStep_spec {event : ParentEvent} {pc k : ParentPc}
    (h : parentStep event s pc = some (t, k)) :
    t.exited = s.exited ∧ (s.started → t.started) ∧ (t.started → s.started ∨ event = .start) ∧
      (t.stopped → s.stopped ∨ k = .done) ∧ pc ≠ .done ∧
      ∀ j : Fin n, (j : ℕ) < k.reaped n → (j : ℕ) < pc.reaped n ∨ s.exited j := by
  cases pc <;> cases event <;> simp only [parentStep, reduceCtorEq] at h
  case forking.fork i =>
    split at h
    · cases h
      exact ⟨rfl, id, .inl, .inl, nofun, fun _ hj => .inl hj⟩
    · cases h
  case forking.start i =>
    split at h
    · cases h
      exact ⟨rfl, fun _ => rfl, fun _ => .inr rfl, .inl, nofun, fun _ hj => .inl hj⟩
    · cases h
  case reading.read i raises =>
    split at h
    · split at h
      · cases h
        exact ⟨rfl, id, .inl, .inl, nofun, fun _ hj => .inl hj⟩
      · cases h
    · cases h
  case reading.stop i =>
    split at h
    · next hall =>
      cases h
      exact ⟨rfl, id, .inl, fun _ => .inr rfl, nofun, fun _ hj => .inl (hall ▸ hj)⟩
    · cases h
  case reaping.waitpid i =>
    split at h
    · next hi =>
      split at h
      · next hexited =>
        cases h
        refine ⟨rfl, id, .inl, .inl, nofun, fun j hj => ?_⟩
        rcases Nat.lt_succ_iff_lt_or_eq.mp hj with hlt | heq
        · exact .inl hlt
        · exact .inr (by rwa [show j = ⟨i, hi⟩ from Fin.ext heq])
      · cases h
    · cases h

/-- A worker leaves the clock alone and exits itself only, its set-up does not begin again, and it
enters its loop by one step. -/
lemma childStep_spec {warmup : ℤ} {target : Option ℤ} {i : Fin n} {event : ChildEvent}
    {pc k : ChildPc} (h : childStep warmup target i event s pc = some (t, k)) :
    t.started = s.started ∧ t.stopped = s.stopped ∧ pc ≠ .exited ∧
      (t.exited = s.exited ∨ (t.exited = Function.update s.exited i true ∧ k = .exited)) ∧
      (k.entered → pc.entered ∨ event = .enter) ∧ (pc.settled → k.settled) := by
  unfold childStep at h
  split at h
  case h_1 | h_7 | h_9 =>
    split at h
    · cases h
      exact ⟨rfl, rfl, nofun, .inl rfl, by simp [ChildPc.entered], by simp [ChildPc.settled]⟩
    · cases h
  case h_2 | h_3 | h_4 | h_5 | h_6 | h_8 | h_10 =>
    cases h
    exact ⟨rfl, rfl, nofun, .inl rfl, by simp [ChildPc.entered], by simp [ChildPc.settled]⟩
  case h_11 =>
    cases h
    exact ⟨rfl, rfl, nofun, .inr ⟨rfl, rfl⟩, nofun, fun _ => rfl⟩
  case h_12 | h_13 | h_15 => cases h
  case h_14 _ hexited =>
    cases h
    exact ⟨rfl, rfl, hexited, .inr ⟨rfl, rfl⟩, nofun, fun _ => rfl⟩

/-- A worker keeps what it knows, when it enters its loop after the clock has started. -/
lemma Knows.own_childStep {warmup : ℤ} {target : Option ℤ} {i : Fin n} {event : ChildEvent}
    {pc k : ChildPc} (h : Knows (some i) s (.child pc)) (hok : event = .enter → s.started)
    (hstep : childStep warmup target i event s pc = some (t, k)) : Knows (some i) t (.child k) := by
  obtain ⟨hstarted, -, hpc, hexited, henter, hsettle⟩ := childStep_spec hstep
  cases h with
  | child hgone hentered hsettled =>
    refine .child (fun h => ?_) (fun h => ?_) fun h => ?_
    · rcases hexited with hsame | ⟨-, hk⟩
      · rw [hsame] at h
        exact absurd (hgone h) hpc
      · exact hk
    · rw [hstarted]
      exact (henter h).elim hentered hok
    · rw [hstarted] at h
      exact hsettle (hsettled h)

/-- The parent knows what it needs to know after its own steps. -/
lemma Knows.own_parentStep {event : ParentEvent} {pc k : ParentPc} (h : Knows none s (.parent pc))
    (hstep : parentStep event s pc = some (t, k)) : Knows none t (.parent k) := by
  obtain ⟨hexited, -, -, hstop, hpc, hreaped⟩ := parentStep_spec hstep
  cases h with
  | parent hgone hdone =>
    refine .parent (fun j hj => ?_) fun h => ?_
    · rw [hexited]
      exact (hreaped j hj).elim (hgone j) id
    · exact (hstop h).elim (fun h => absurd (hdone h) hpc) id

/-- The others keep what they know when a worker takes a step. -/
lemma Knows.of_childStep {warmup : ℤ} {target : Option ℤ} {i : Fin n} {event : ChildEvent}
    {pc k : ChildPc} {pid : Option (Fin n)} {l : Process} (h : Knows pid s l) (hne : pid ≠ some i)
    (hstep : childStep warmup target i event s pc = some (t, k)) : Knows pid t l := by
  obtain ⟨hstarted, hstopped, -, hexited, -, -⟩ := childStep_spec hstep
  have hmono : ∀ j, s.exited j → t.exited j := by
    intro j hj
    rcases hexited with hsame | ⟨hupdate, -⟩
    · rwa [hsame]
    · rw [hupdate]
      by_cases hji : j = i
      · rw [hji, Function.update_self]
      · rwa [Function.update_of_ne hji]
  cases h with
  | parent hgone hdone =>
    refine .parent (fun j hj => hmono j (hgone j hj)) fun h => ?_
    rw [hstopped] at h
    exact hdone h
  | @child _ j l hgone hentered hsettled =>
    have hji : j ≠ i := fun h => hne (congrArg some h)
    refine .child (fun h => hgone ?_) (fun h => ?_) fun h => ?_
    · rcases hexited with hsame | ⟨hupdate, -⟩
      · rwa [hsame] at h
      · rwa [hupdate, Function.update_of_ne hji] at h
    · rw [hstarted]
      exact hentered h
    · rw [hstarted] at h
      exact hsettled h

/-- The workers keep what they know when the parent takes a step, if it starts the clock
when they are set up. -/
lemma Knows.of_parentStep {event : ParentEvent} {pc k : ParentPc} {j : Fin n} {l : Process}
    (h : Knows (some j) s l) (hok : event = .start → l.settled)
    (hstep : parentStep event s pc = some (t, k)) : Knows (some j) t l := by
  obtain ⟨hexited, hmono, hstart, -, -, -⟩ := parentStep_spec hstep
  cases h with
  | child hgone hentered hsettled =>
    refine .child (fun h => ?_) (fun h => hmono (hentered h)) fun h => ?_
    · rw [hexited] at h
      exact hgone h
    · exact (hstart h).elim hsettled hok

end Steps

/-- Every event is that of the parent or of a child. -/
lemma forkedWorkload_step {pid : Pid phase} {event : ForkEvent} {s t : System phase.processes}
    {l l' : Process} (h : (forkedWorkload phase).step pid event s l = some (t, l')) :
    (∃ e pc k, pid = none ∧ event = .parent e ∧ l = .parent pc ∧ l' = .parent k ∧
      parentStep e s pc = some (t, k)) ∨
    ∃ i e pc k, pid = some i ∧ event = .child e ∧ l = .child pc ∧ l' = .child k ∧
      childStep phase.warmup_requests
        (my_target phase.completion (num_processes phase.toPhaseConfig)) i e s pc
        = some (t, k) := by
  cases pid <;> cases l <;> cases event <;> simp only [forkedWorkload, reduceCtorEq] at h
  case none.parent.parent =>
    obtain ⟨r, hr, heq⟩ := Option.map_eq_some_iff.mp h
    cases heq
    exact .inl ⟨_, _, _, rfl, rfl, rfl, rfl, hr⟩
  case some.child.child =>
    obtain ⟨r, hr, heq⟩ := Option.map_eq_some_iff.mp h
    cases heq
    exact .inr ⟨_, _, _, _, rfl, rfl, rfl, rfl, hr⟩

/-- In every run with a handshake every process knows what it needs to know. -/
theorem knows {s : ForkState phase} (h : (forkedWorkload phase).Within Handshake s)
    (pid : Pid phase) :
    Knows pid s.shared (s.locals pid) := by
  refine Pool.within_knows (P := forkedWorkload phase) (K := Knows) ?_ ?_ ?_ h pid
  · intro pid
    cases pid with
    | none => exact .parent nofun nofun
    | some i => exact .child nofun nofun nofun
  · intro s pid event t l hok hknows hstep
    rcases forkedWorkload_step hstep with ⟨e, pc, k, rfl, rfl, hl, rfl, hmove⟩ |
      ⟨i, e, pc, k, rfl, rfl, hl, rfl, hmove⟩
    · rw [hl] at hknows
      exact hknows.own_parentStep hmove
    · rw [hl] at hknows
      refine hknows.own_childStep ?_ hmove
      rintro rfl
      exact hok
  · intro s pid event t l v hne hok _ hstep hknows
    rcases forkedWorkload_step hstep with ⟨e, pc, k, rfl, rfl, -, rfl, hmove⟩ |
      ⟨i, e, pc, k, rfl, rfl, -, rfl, hmove⟩
    · obtain ⟨j, rfl⟩ := Option.ne_none_iff_exists'.mp hne
      refine hknows.of_parentStep ?_ hmove
      rintro rfl
      exact hok j
    · exact hknows.of_childStep hne hmove

/-- When the parent has stopped, all children have exited. -/
lemma exited_of_stopped {s : ForkState phase} (h : (forkedWorkload phase).Within Handshake s)
    (hstopped : s.shared.stopped) (i : Fin phase.processes) : s.shared.exited i := by
  have hparent := knows h none
  generalize s.locals none = l at hparent
  cases hparent with
  | @parent _ pc hgone hdone =>
    refine hgone i ?_
    rw [hdone hstopped]
    exact i.isLt

/-- With the handshake, the measured window is exact in every state. -/
theorem windowExact_of_handshake (phase : WarmedPhase) (s : ForkState phase)
    (h : (forkedWorkload phase).Within Handshake s) : WindowExact s := by
  intro i pc hpc
  have hchild := knows h (some i)
  rw [hpc] at hchild
  cases hchild with
  | child hgone hentered hsettled =>
    have hstarted : s.shared.measuring → s.shared.started := fun h => (Bool.and_eq_true_iff.mp h).1
    refine ⟨fun hworking => ?_, fun hsetting hmeasuring => ?_⟩
    · have hrunning : ¬ s.shared.stopped := by
        intro hstopped
        have hexited := hgone (exited_of_stopped h hstopped i)
        rw [hexited] at hworking
        cases hworking
      rw [System.measuring, hentered (pc.entered_of_working hworking),
        Bool.eq_false_of_not_eq_true hrunning]
      rfl
    · have hsettle := hsettled (hstarted hmeasuring)
      rw [pc.not_settled hsetting] at hsettle
      cases hsettle

/-- A phase of two workers that make one request each, after one PING. -/
def twoWorkersPhase : WarmedPhase :=
  ⟨⟨2, -1, ⟨.requests, none, some 2⟩, ⟨4, .sequential_int, none⟩⟩, 1⟩

/-- Its workers. -/
def firstWorker : Pid twoWorkersPhase := some ⟨0, by decide⟩
def secondWorker : Pid twoWorkersPhase := some ⟨1, by decide⟩

/-- A worker is forked and sets itself up. -/
def setUpRun (worker : Pid twoWorkersPhase) : List (Pid twoWorkersPhase × ForkEvent) :=
  [(none, .parent .fork), (worker, .child .run), (worker, .child .connect),
    (worker, .child .connected), (worker, .child .ping), (worker, .child .pong)]

/-- The state in which both workers make their requests, after a handshake. -/
def workingState : ForkState twoWorkersPhase :=
  ((forkedWorkload twoWorkersPhase).runIf Handshake
    (setUpRun firstWorker ++ setUpRun secondWorker ++
      [(none, .parent .start), (firstWorker, .child .enter),
      (secondWorker, .child .enter), (firstWorker, .child .issue), (secondWorker, .child .issue)])
    (forkedWorkload twoWorkersPhase).init).get rfl

/-- The clock runs in it. -/
theorem workingState_windowExact : WindowExact workingState :=
  windowExact_of_handshake twoWorkersPhase workingState
    (Pool.Within.runIf .init (Option.some_get _).symm)

/-- The first worker makes a request before the second one is forked. -/
def earlyState : ForkState twoWorkersPhase :=
  ((forkedWorkload twoWorkersPhase).run
    (setUpRun firstWorker ++ [(firstWorker, .child .enter), (firstWorker, .child .issue)])
    (forkedWorkload twoWorkersPhase).init).get rfl

/-- The clock starts while the second worker connects. -/
def lateState : ForkState twoWorkersPhase :=
  ((forkedWorkload twoWorkersPhase).run
    (setUpRun firstWorker ++ [(none, .parent .fork), (secondWorker, .child .run),
      (secondWorker, .child .connect), (none, .parent .start)])
    (forkedWorkload twoWorkersPhase).init).get rfl

/-- Without a handshake a request is made before the clock runs, and a connection opens while it
does. -/
theorem twoWorkers_not_windowExact :
    ((forkedWorkload twoWorkersPhase).Reachable earlyState ∧ ¬ WindowExact earlyState) ∧
      (forkedWorkload twoWorkersPhase).Reachable lateState ∧ ¬ WindowExact lateState := by
  refine ⟨⟨.run .init (Option.some_get _).symm, fun h => ?_⟩,
    .run .init (Option.some_get _).symm, fun h => ?_⟩
  · exact absurd ((h ⟨0, by decide⟩ (.requesting 0) rfl).1 rfl) (by decide)
  · exact (h ⟨1, by decide⟩ .connecting rfl).2 rfl rfl

end RespBench.Ruby
