import RespBench.Commands.Selector
import RespBench.Lib.CheckedInt
import RespBench.Php.Workers

/-!
# The end of the PHP worker loop

`runWorker` leaves its loop on a request target or on a deadline, and both may be absent: they come
from the `type` of the completion, which the loader takes as it is. Before the loop it creates the
commands and the key generator, and in every round it selects a command, of which the loader accepts
an empty list. `reachesBreak_iff` says for which workers of which workloads the loop comes to its
break, provided that the commands return and the clock goes on. The loop of `RespBench.Php.Workers`
is the same with the keys of its commands, and ends when this one does (`runLoop_ok_iff`).
-/

namespace RespBench.Php
open RespBench.Lib
open RespBench.Random (Fault)

/-! ## Loading -/

/-- The `completion` of a phase in the JSON of a workload, its values as the casts of
the loader read them. -/
structure CompletionJson where
  type : Option String
  seconds : Option ℤ
  requests : Option ℤ

structure KeyspaceJson where
  keysCount : Option ℤ
  generationAlg : Option String
  seed : Option ℤ

structure CommandJson where
  command : String
  weight : ℚ

structure PhaseJson where
  connections : Option ℤ
  completion : Option CompletionJson
  keyspace : Option KeyspaceJson
  commands : Option (List CommandJson)
  rpsLimit : Option ℤ

structure CommandConfig where
  command : String
  weight : ℚ

/-- A phase with the commands that `runWorker` selects from. -/
structure LoadedPhase extends PhaseConfig where
  commands : List CommandConfig

/-- A string as `isDurationBased` and `isRequestBased` compare it. -/
def CompletionType.ofString (type : String) : CompletionType :=
  if type = "duration" then .duration else if type = "requests" then .requests else .other type

def GenerationAlg.ofString (name : String) : GenerationAlg :=
  if name = "sequential_int" then .sequential_int else if name = "uniform_rand" then .uniform_rand
    else .other name

namespace Loader

def parseCompletionConfig (json : CompletionJson) : CompletionConfig where
  type := .ofString (json.type.getD "requests")
  seconds := json.seconds
  requests := json.requests

def parseKeyspaceConfig (json : KeyspaceJson) : KeyspaceConfig where
  keysCount := json.keysCount.getD 1
  generationAlg := .ofString (json.generationAlg.getD "sequential_int")
  seed := json.seed

/-- The constructor writes the name in lower case. -/
def parseCommandConfig (json : CommandJson) : CommandConfig where
  command := json.command.map Char.toLower
  weight := json.weight

/-- `parsePhaseConfig`, which rejects nothing of this; `(int) null` is 0. -/
def parsePhaseConfig (json : PhaseJson) : LoadedPhase where
  connections := json.connections.getD 0
  completion := parseCompletionConfig (json.completion.getD ⟨none, none, none⟩)
  keyspace := parseKeyspaceConfig (json.keyspace.getD ⟨none, none, none⟩)
  commands := (json.commands.getD []).map parseCommandConfig
  rpsLimit := json.rpsLimit.getD (-1)

end Loader

/-! ## The loop -/

/-- Why a worker does not come to its break. The timeout stands for a loop that has not ended. -/
inductive Throwable where
  | InvalidArgumentException (message : String)
  | TypeError
  | timeout
deriving DecidableEq

/-- `Factory::create`. -/
def create (config : CommandConfig) : Except Throwable Command :=
  if config.command = "ping" then .ok .ping
  else if config.command = "get" then .ok .get
  else if config.command = "set" then .ok .set
  else .error (.InvalidArgumentException
    ("Unknown command: " ++ config.command ++ ". Supported: ping, get, set"))

/-- `Factory::createAll`. -/
def createAll (configs : List CommandConfig) : Except Throwable (List Command) :=
  configs.mapM create

/-- The seed of `KeyGenerator::forWorker`: a sum that leaves the 64 bits is a float, which the
constructor does not take. -/
def workerSeed (config : KeyspaceConfig) (workerIndex : ℤ) : Except Throwable ℤ :=
  if config.isUniformRand then
    match CheckedInt.add config.seedValue workerIndex with
    | some seed => .ok seed
    | none => .error .TypeError
  else .ok config.seedValue

/-- `select` with a draw. For an empty list it would return null. -/
def select (commands : List CommandConfig) (r : ℚ) : Except Throwable (Commands.Command ℚ) :=
  match (Commands.NewCommandSelector (commands.map fun c => ⟨c.command, c.weight⟩)).Select r with
  | some command => .ok command
  | none => .error .TypeError

/-- The loop of `runWorker` when its commands return: the number of requests that are
finished at the break. -/
def requestLoop {C : Type} (select : ℕ → Except Throwable C) (target : Option ℤ)
    (deadline : Option ℚ) (clock : ℕ → ℚ) : ℕ → ℕ → Except Throwable ℕ
  | 0, _ => .error .timeout
  | fuel + 1, done =>
    if target.any fun t => (done : ℤ) ≥ t then .ok done
    else if deadline.any fun d => clock done ≥ d then .ok done
    else do
      let _ ← select done
      requestLoop select target deadline clock fuel (done + 1)

/-- The number of requests of a worker, from a start, with a clock and with the draws of its
selector. -/
def workerRequests (phase : LoadedPhase) (start : ℚ) (clock draws : ℕ → ℚ) (fuel : ℕ)
    (workerCount workerIndex : ℤ) : Except Throwable ℕ := do
  let _ ← createAll phase.commands
  let _ ← workerSeed phase.keyspace workerIndex
  let rps := workerRps phase.toPhaseConfig workerCount workerIndex
  if phase.hasRpsLimit && rps = 0 then return 0
  let target := workerRequestTarget phase.toPhaseConfig workerCount workerIndex
  let deadline := if phase.completion.isDurationBased
    then some (start + phase.completion.durationSeconds) else none
  requestLoop (fun n => select phase.commands (draws n)) target deadline clock fuel 0

/-- A clock that advances without bound from a start. -/
structure Advances (start : ℚ) (clock : ℕ → ℚ) : Prop where
  from_start : start ≤ clock 0
  forward : Monotone clock
  unbounded : ∀ b, ∃ n, b ≤ clock n

/-- With every clock that advances without bound, and all draws, the loop of a worker comes to its
break; or the worker is idle and returns before the loop. -/
def ReachesBreak (phase : LoadedPhase) (workerCount workerIndex : ℤ) : Prop :=
  ∀ (start : ℚ) (clock draws : ℕ → ℚ), Advances start clock →
    ∃ fuel n, workerRequests phase start clock draws fuel workerCount workerIndex = .ok n

section Loop
variable {C : Type} {select : ℕ → Except Throwable C} {target : Option ℤ} {deadline : Option ℚ}
  {clock : ℕ → ℚ}

/-- The loop breaks at once. -/
lemma requestLoop_now {done : ℕ}
    (h : target.any (fun t => (done : ℤ) ≥ t) = true ∨
      deadline.any (fun d => clock done ≥ d) = true) :
    requestLoop select target deadline clock 1 done = .ok done := by
  rw [requestLoop]
  rcases h with h | h
  · rw [if_pos h]
  · rw [if_pos h, ite_self]

/-- The loop comes to a break that lies ahead, or to an earlier one, as long as
commands are selected. -/
lemma requestLoop_of_break (hselect : ∀ n, ∃ c, select n = .ok c) {n : ℕ}
    (h : target.any (fun t => (n : ℤ) ≥ t) = true ∨ deadline.any (fun d => clock n ≥ d) = true)
    {k done : ℕ} (hn : done + k = n) : ∃ fuel m,
    requestLoop select target deadline clock fuel done = .ok m := by
  induction k generalizing done with
  | zero =>
    rw [Nat.add_zero] at hn
    subst hn
    exact ⟨1, done, requestLoop_now h⟩
  | succ k ih =>
    obtain ⟨fuel, m, hm⟩ := @ih (done + 1) (by omega)
    by_cases htarget : target.any (fun t => (done : ℤ) ≥ t) = true
    · exact ⟨1, done, by rw [requestLoop, if_pos htarget]⟩
    · by_cases hdeadline : deadline.any (fun d => clock done ≥ d) = true
      · exact ⟨1, done, by rw [requestLoop, if_neg htarget, if_pos hdeadline]⟩
      · obtain ⟨c, hc⟩ := hselect done
        exact ⟨fuel + 1, m,
          by rw [requestLoop, if_neg htarget, if_neg hdeadline, hc, Runs.ok_bind, hm]⟩

/-- Without a target and a deadline there is no break. -/
lemma requestLoop_none (select : ℕ → Except Throwable C) (clock : ℕ → ℚ) (fuel done m : ℕ) :
    requestLoop select none none clock fuel done ≠ .ok m := by
  induction fuel generalizing done with
  | zero =>
    intro h
    cases h
  | succ fuel ih =>
    intro h
    rw [requestLoop] at h
    cases hselect : select done with
    | error fault =>
      rw [hselect] at h
      cases h
    | ok c =>
      rw [hselect] at h
      exact ih (done + 1) h

/-- A loop that selects nothing breaks at once or not at all. -/
lemma requestLoop_of_error {fault : Throwable} {done : ℕ}
    (hselect : select done = .error fault) {fuel m : ℕ}
    (h : requestLoop select target deadline clock fuel done = .ok m) :
    target.any (fun t => (done : ℤ) ≥ t) = true ∨
    deadline.any (fun d => clock done ≥ d) = true := by
  cases fuel with
  | zero => cases h
  | succ fuel =>
    by_contra hnot
    rw [not_or] at hnot
    rw [requestLoop, if_neg hnot.1, if_neg hnot.2, hselect] at h
    cases h

/-- The loop with the keys of its commands ends when this one does, as long as the commands
return. -/
theorem runLoop_ok_iff {env : Env} {drawFuel : ℕ}
    (hcommands : ∀ n g, ∃ r, (env.select n).execute drawFuel g = .ok r) (fuel done : ℕ)
    (g : KeyGenerator) :
    (∃ keys, runLoop env target deadline drawFuel fuel done g = .ok keys)
      ↔ ∃ n, requestLoop (fun n => .ok (env.select n)) target deadline env.clock fuel done
        = .ok n := by
  induction fuel generalizing done g with
  | zero => exact iff_of_false (fun h => nomatch h.choose_spec) (fun h => nomatch h.choose_spec)
  | succ fuel ih =>
    rw [runLoop, requestLoop]
    split
    · exact iff_of_true ⟨[], rfl⟩ ⟨done, rfl⟩
    · split
      · exact iff_of_true ⟨[], rfl⟩ ⟨done, rfl⟩
      · obtain ⟨⟨keys, g'⟩, hr⟩ := hcommands done g
        rw [Runs.ok_bind, ← ih (done + 1) g', hr, Runs.ok_bind]
        dsimp only
        refine ⟨fun h => ?_, fun h => ?_⟩
        · obtain ⟨all, hall⟩ := h
          cases hrest : runLoop env target deadline drawFuel fuel (done + 1) g' with
          | error fault =>
            rw [hrest] at hall
            cases hall
          | ok rest => exact ⟨rest, rfl⟩
        · obtain ⟨rest, hrest⟩ := h
          exact ⟨keys ++ rest, by rw [hrest]; rfl⟩

end Loop

/-! ## Which loops end -/

section Worker
variable {phase : PhaseConfig} {workerCount workerIndex : ℤ}

/-- An active worker of a phase with a rate limit has a share of it. -/
lemma workerRps_eq_zero_iff (hrps : phase.hasRpsLimit = true) :
    workerRps phase workerCount workerIndex = 0 ↔
    activeWorkerCount phase workerCount ≤ workerIndex := by
  have hpos : 0 < phase.rpsLimit := of_decide_eq_true hrps
  have hactive : activeWorkerCount phase workerCount = max 1 (min workerCount phase.rpsLimit) :=
    if_pos hrps
  rw [workerRps, hrps, Bool.not_true, if_neg Bool.false_ne_true]
  dsimp only
  by_cases hidle : activeWorkerCount phase workerCount ≤ workerIndex
  · exact iff_of_true (if_pos hidle) hidle
  · rw [if_neg hidle]
    refine iff_of_false (fun hshare => ?_) hidle
    have hbase : 0 < phase.rpsLimit.tdiv (activeWorkerCount phase workerCount) := by
      have hone : 1 ≤ phase.rpsLimit / activeWorkerCount phase workerCount := by
        rw [Int.le_ediv_iff_mul_le (by omega)]
        omega
      rw [Int.tdiv_eq_ediv_of_nonneg hpos.le]
      omega
    rw [splitShare] at hshare
    split at hshare <;> omega

/-- The share of an active worker is not positive when the requests end at its index. -/
lemma workerRequestTarget_nonpos_iff (workerCount : ℤ) {index : ℤ} (hindex : 0 ≤ index)
    (hreq : phase.completion.isRequestBased = true) :
    ∃ target, workerRequestTarget phase workerCount index = some target ∧
      (target ≤ 0 ↔ activeWorkerCount phase workerCount ≤ index ∨
        phase.completion.totalRequests ≤ index) := by
  rw [workerRequestTarget, hreq, Bool.not_true, if_neg Bool.false_ne_true]
  dsimp only
  by_cases hidle : activeWorkerCount phase workerCount ≤ index
  · exact ⟨0, if_pos hidle, iff_of_true le_rfl (.inl hidle)⟩
  · refine ⟨_, if_neg hidle, ?_⟩
    rw [or_iff_right hidle, splitShare]
    generalize activeWorkerCount phase workerCount = active at hidle
    generalize phase.completion.totalRequests = total
    have hactive : 0 < active := by omega
    rcases le_or_gt total 0 with htotal | htotal
    · have hbase : total.tdiv active ≤ 0 := by
        rw [← neg_neg total, Int.neg_tdiv]
        exact neg_nonpos.mpr (Int.tdiv_nonneg (neg_nonneg.mpr htotal) hactive.le)
      have hrest : total.tmod active ≤ 0 := by
        rw [← neg_neg total, Int.neg_tmod]
        exact neg_nonpos.mpr (Int.tmod_nonneg _ (neg_nonneg.mpr htotal))
      rw [if_neg (by omega)]
      exact iff_of_true hbase (by omega)
    · rw [Int.tdiv_eq_ediv_of_nonneg htotal.le, Int.tmod_eq_emod_of_nonneg htotal.le]
      have hsum := Int.mul_ediv_add_emod total active
      have hrest := Int.emod_lt_of_pos total hactive
      have hrest0 := Int.emod_nonneg total hactive.ne'
      have hbase0 : 0 ≤ total / active := Int.ediv_nonneg htotal.le hactive.le
      rcases hbase0.eq_or_lt with hzero | hpos
      · rw [← hzero, mul_zero, zero_add] at hsum
        rw [← hzero, hsum]
        split <;> omega
      · have hlarge : active * 1 ≤ active * (total / active) :=
          Int.mul_le_mul_of_nonneg_left hpos hactive.le
        split <;> omega

end Worker

/-! ## What happens before the loop, and in a round -/

/-- The commands are created when all of them are supported. -/
lemma createAll_ok_iff {configs : List CommandConfig} :
    (∃ commands, createAll configs = .ok commands) ↔
    ∀ c ∈ configs, c.command = "ping" ∨ c.command = "get" ∨ c.command = "set" := by
  have hone (c : CommandConfig) :
      (∃ command, create c = .ok command) ↔ c.command = "ping" ∨ c.command = "get" ∨
        c.command = "set" := by
    unfold create
    split_ifs <;> simp_all
  unfold createAll
  induction configs with
  | nil => exact iff_of_true ⟨[], rfl⟩ fun _ hc => absurd hc List.not_mem_nil
  | cons c configs ih =>
    rw [List.forall_mem_cons, List.mapM_cons]
    refine Iff.trans ?_ (and_congr (hone c) ih)
    constructor
    · rintro ⟨commands, h⟩
      cases hc : create c with
      | error fault =>
        rw [hc] at h
        cases h
      | ok command =>
        cases hrest : configs.mapM create with
        | error fault =>
          rw [hc, Runs.ok_bind, hrest] at h
          cases h
        | ok rest => exact ⟨⟨command, rfl⟩, rest, rfl⟩
    · rintro ⟨⟨command, hc⟩, rest, hrest⟩
      exact ⟨command :: rest, by rw [hc, Runs.ok_bind, hrest]; rfl⟩

/-- The seed of a worker is computed when it is a 64-bit integer. -/
lemma workerSeed_ok_iff {config : KeyspaceConfig} {workerIndex : ℤ} :
    (∃ seed, workerSeed config workerIndex = .ok seed) ↔
      (config.isUniformRand = true → CheckedInt.InRange (config.seedValue + workerIndex)) := by
  rw [workerSeed, CheckedInt.add, CheckedInt.check]
  split_ifs with huniform hrange
  · exact iff_of_true ⟨_, rfl⟩ fun _ => hrange
  · exact iff_of_false (fun ⟨_, h⟩ => nomatch h) fun h => hrange (h huniform)
  · exact iff_of_true ⟨_, rfl⟩ fun h => absurd h huniform

/-- A command is selected from every list but the empty one. -/
lemma select_ok {commands : List CommandConfig} (h : commands ≠ []) (r : ℚ) :
    ∃ c, select commands r = .ok c := by
  have hcmds : (commands.map fun c => (⟨c.command, c.weight⟩ : Commands.Command ℚ)) ≠ [] := by
    simpa using h
  have hsome := Commands.isSome_Select hcmds r
  obtain ⟨c, hc⟩ := Option.isSome_iff_exists.mp hsome
  exact ⟨c, by rw [select, hc]⟩

/-- From the empty list none is. -/
lemma select_nil (r : ℚ) : select [] r = .error .TypeError := rfl

/-! ## The workers of a workload -/

/-- What precedes the loop goes through: the commands are supported, and the seed of a random
keyspace leaves room for the index of the worker. -/
structure PhaseJson.Starts (json : PhaseJson) (workerIndex : ℤ) : Prop where
  supported : ∀ c ∈ json.commands.getD [], c.command.map Char.toLower = "ping" ∨
    c.command.map Char.toLower = "get" ∨ c.command.map Char.toLower = "set"
  seed : ∀ keyspace ∈ json.keyspace, keyspace.generationAlg = some "uniform_rand" →
    CheckedInt.InRange (keyspace.seed.getD 0 + workerIndex)

/-- The worker has no part of the rate limit. -/
def PhaseJson.Idle (json : PhaseJson) (workerCount workerIndex : ℤ) : Prop :=
  0 < json.rpsLimit.getD (-1) ∧ max 1 (min workerCount (json.rpsLimit.getD (-1))) ≤ workerIndex

instance (json : PhaseJson) (workerCount workerIndex : ℤ) :
    Decidable (json.Idle workerCount workerIndex) :=
  inferInstanceAs (Decidable (_ ∧ _))

/-- The completion has a type that the engine compares with; and there are commands to select from,
or nothing is to be requested. -/
def PhaseJson.Breaks (json : PhaseJson) (workerIndex : ℤ) : Prop :=
  let completion := json.completion.getD ⟨none, none, none⟩
  let type := completion.type.getD "requests"
  (type = "requests" ∧ (json.commands.getD [] ≠ [] ∨ completion.requests.getD 0 ≤ workerIndex)) ∨
    (type = "duration" ∧ (json.commands.getD [] ≠ [] ∨ completion.seconds.getD 0 ≤ 0))

/-- A string is compared as what it reads. -/
lemma ofString_eq (type : String) :
    (CompletionType.ofString type = .requests ↔ type = "requests") ∧
      (CompletionType.ofString type = .duration ↔ type = "duration") := by
  unfold CompletionType.ofString
  split_ifs <;> simp_all

section Json
variable {json : PhaseJson}

/-- A phase is request-based when its JSON says so, or says nothing. -/
lemma isRequestBased_iff : (Loader.parsePhaseConfig json).completion.isRequestBased = true ↔
    (json.completion.getD ⟨none, none, none⟩).type.getD "requests" = "requests" := by
  rw [CompletionConfig.isRequestBased, decide_eq_true_iff]
  exact (ofString_eq _).1

/-- A phase has a duration when its JSON says so. -/
lemma isDurationBased_iff : (Loader.parsePhaseConfig json).completion.isDurationBased = true ↔
    (json.completion.getD ⟨none, none, none⟩).type.getD "requests" = "duration" := by
  rw [CompletionConfig.isDurationBased, decide_eq_true_iff]
  exact (ofString_eq _).2

/-- A phase has no commands when its JSON has none. -/
lemma commands_eq_nil : (Loader.parsePhaseConfig json).commands = [] ↔ json.commands.getD [] = [] :=
  List.map_eq_nil_iff

/-- Keys are random only when the JSON says so. -/
lemma isUniformRand_iff : (Loader.parsePhaseConfig json).keyspace.isUniformRand = true ↔
    ∃ keyspace ∈ json.keyspace, keyspace.generationAlg = some "uniform_rand" := by
  rw [KeyspaceConfig.isUniformRand, decide_eq_true_iff]
  have hname (name : String) : GenerationAlg.ofString name = .uniform_rand ↔
    name = "uniform_rand" := by
    unfold GenerationAlg.ofString
    split_ifs <;> simp_all
  refine (hname _).trans ?_
  cases hkeyspace : json.keyspace with
  | none => simp
  | some keyspace => cases halg : keyspace.generationAlg <;> simp [halg]

/-- A worker starts when its commands are created and its seed fits. -/
lemma starts_iff {workerIndex : ℤ} : json.Starts workerIndex ↔
    (∃ commands, createAll (Loader.parsePhaseConfig json).commands = .ok commands) ∧
      ∃ seed, workerSeed (Loader.parsePhaseConfig json).keyspace workerIndex = .ok seed := by
  rw [createAll_ok_iff, workerSeed_ok_iff, isUniformRand_iff]
  have hcommands : (∀ c ∈ (Loader.parsePhaseConfig json).commands,
      c.command = "ping" ∨ c.command = "get" ∨ c.command = "set") ↔
      ∀ c ∈ json.commands.getD [], c.command.map Char.toLower = "ping" ∨
        c.command.map Char.toLower = "get" ∨ c.command.map Char.toLower = "set" :=
          List.forall_mem_map
  rw [hcommands]
  constructor
  · rintro ⟨hsupported, hseed⟩
    refine ⟨hsupported, ?_⟩
    rintro ⟨keyspace, hkeyspace, halg⟩
    have hseedValue : (Loader.parsePhaseConfig json).keyspace.seedValue = keyspace.seed.getD 0 := by
      rw [Loader.parsePhaseConfig, Option.mem_def.mp hkeyspace]
      rfl
    rw [hseedValue]
    exact hseed keyspace hkeyspace halg
  · rintro ⟨hsupported, hseed⟩
    refine ⟨hsupported, fun keyspace hkeyspace halg => ?_⟩
    have hseedValue : (Loader.parsePhaseConfig json).keyspace.seedValue = keyspace.seed.getD 0 := by
      rw [Loader.parsePhaseConfig, Option.mem_def.mp hkeyspace]
      rfl
    rw [← hseedValue]
    exact hseed ⟨keyspace, hkeyspace, halg⟩

/-- A worker is idle when it draws no share of the rate. -/
lemma idle_iff {workerCount workerIndex : ℤ} : json.Idle workerCount workerIndex ↔
    ((Loader.parsePhaseConfig json).hasRpsLimit &&
      decide (workerRps (Loader.parsePhaseConfig json).toPhaseConfig workerCount workerIndex = 0))
        = true := by
  have hlimit : (Loader.parsePhaseConfig json).hasRpsLimit = true ↔ 0 < json.rpsLimit.getD (-1) :=
    decide_eq_true_iff
  rw [Bool.and_eq_true, decide_eq_true_iff, PhaseJson.Idle, ← hlimit]
  refine and_congr_right fun hrps => ?_
  rw [workerRps_eq_zero_iff hrps, activeWorkerCount, if_pos hrps]
  rfl

/-- What a worker that starts does. -/
lemma workerRequests_eq {workerCount workerIndex : ℤ}
    (hstarts : json.Starts workerIndex) (start : ℚ) (clock draws : ℕ → ℚ) (fuel : ℕ) :
    workerRequests (Loader.parsePhaseConfig json) start clock draws fuel workerCount workerIndex =
      if json.Idle workerCount workerIndex then .ok 0
      else requestLoop (fun n => select (Loader.parsePhaseConfig json).commands (draws n))
        (workerRequestTarget (Loader.parsePhaseConfig json).toPhaseConfig workerCount workerIndex)
        (if (Loader.parsePhaseConfig json).completion.isDurationBased
          then some (start + (Loader.parsePhaseConfig json).completion.durationSeconds) else none)
            clock fuel 0 := by
  obtain ⟨⟨commands, hcommands⟩, seed, hseed⟩ := starts_iff.mp hstarts
  rw [workerRequests, hcommands, Runs.ok_bind, hseed, Runs.ok_bind]
  simp only [← idle_iff]
  rfl

/-- A worker that comes to its break has started. -/
lemma starts_of_ok {workerCount workerIndex : ℤ} {start : ℚ} {clock draws : ℕ → ℚ} {fuel n : ℕ}
    (h : workerRequests (Loader.parsePhaseConfig json) start clock draws fuel workerCount
      workerIndex = .ok n) :
    json.Starts workerIndex := by
  rw [workerRequests] at h
  rw [starts_iff]
  cases hcommands : createAll (Loader.parsePhaseConfig json).commands with
  | error fault =>
    rw [hcommands] at h
    cases h
  | ok commands =>
    rw [hcommands, Runs.ok_bind] at h
    cases hseed : workerSeed (Loader.parsePhaseConfig json).keyspace workerIndex with
    | error fault =>
      rw [hseed] at h
      cases h
    | ok seed => exact ⟨⟨commands, rfl⟩, seed, rfl⟩

/-- A worker that is not idle is active. -/
lemma lt_active {workerCount index : ℤ} (hcount : index < workerCount)
    (hidle : ¬ json.Idle workerCount index) :
    ¬ activeWorkerCount (Loader.parsePhaseConfig json).toPhaseConfig workerCount ≤ index := by
  intro hle
  by_cases hrps : (Loader.parsePhaseConfig json).hasRpsLimit = true
  · refine hidle (idle_iff.mpr ?_)
    rw [Bool.and_eq_true, decide_eq_true_iff]
    exact ⟨hrps, (workerRps_eq_zero_iff hrps).mpr hle⟩
  · rw [activeWorkerCount, if_neg hrps] at hle
    omega

section Break
variable {workerCount index : ℤ} (hindex : 0 ≤ index) (hcount : index < workerCount)
  (hstarts : json.Starts index) (hidle : ¬ json.Idle workerCount index)
include hindex hcount hstarts hidle

/-- A worker that comes to its break has a request target or a deadline, and commands
unless it is reached. -/
lemma breaks_of_ok {clock draws : ℕ → ℚ} (hclock : clock 0 = 0) {fuel n : ℕ}
    (h : workerRequests (Loader.parsePhaseConfig json) 0 clock draws fuel workerCount index
      = .ok n) :
    json.Breaks index := by
  rw [workerRequests_eq hstarts, if_neg hidle] at h
  obtain hsome | hnil := ne_or_eq (json.commands.getD []) []
  · by_cases hreq : (Loader.parsePhaseConfig json).completion.isRequestBased = true
    · exact .inl ⟨isRequestBased_iff.mp hreq, .inl hsome⟩
    · by_cases hdur : (Loader.parsePhaseConfig json).completion.isDurationBased = true
      · exact .inr ⟨isDurationBased_iff.mp hdur, .inl hsome⟩
      · rw [workerRequestTarget, if_pos (by simp [hreq]), if_neg hdur] at h
        exact absurd h (requestLoop_none _ _ _ _ _)
  · have hselect : select (Loader.parsePhaseConfig json).commands (draws 0)
      = .error .TypeError := by
      rw [commands_eq_nil.mpr hnil, select_nil]
    have hnow := requestLoop_of_error hselect h
    by_cases hreq : (Loader.parsePhaseConfig json).completion.isRequestBased = true
    · have hdur : ¬ (Loader.parsePhaseConfig json).completion.isDurationBased = true := by
        rw [isDurationBased_iff, isRequestBased_iff.mp hreq]
        decide
      obtain ⟨target, htarget, hnonpos⟩ := workerRequestTarget_nonpos_iff workerCount hindex hreq
      rw [htarget, if_neg hdur] at hnow
      have hreached := hnonpos.mp (by simpa using hnow)
      exact .inl ⟨isRequestBased_iff.mp hreq, .inr (hreached.resolve_left (lt_active hcount hidle))⟩
    · rw [workerRequestTarget, if_pos (by simp [hreq])] at hnow
      by_cases hdur : (Loader.parsePhaseConfig json).completion.isDurationBased = true
      · rw [if_pos hdur, hclock, zero_add] at hnow
        have hreached : (Loader.parsePhaseConfig json).completion.durationSeconds ≤ 0 :=
          by simpa using hnow
        exact .inr ⟨isDurationBased_iff.mp hdur, .inr hreached⟩
      · rw [if_neg hdur] at hnow
        simp at hnow

omit hcount in
/-- A worker with a request target or a deadline comes to its break. -/
lemma ok_of_breaks (h : json.Breaks index) {start : ℚ} {clock : ℕ → ℚ}
    (hclock : Advances start clock) (draws : ℕ → ℚ) : ∃ fuel n,
      workerRequests (Loader.parsePhaseConfig json) start clock draws fuel workerCount index
        = .ok n := by
  simp only [workerRequests_eq hstarts, if_neg hidle]
  have hselect (hsome : json.commands.getD [] ≠ []) (n : ℕ) :
      ∃ c, select (Loader.parsePhaseConfig json).commands (draws n) = .ok c :=
    select_ok (mt commands_eq_nil.mp hsome) _
  rcases h with ⟨htype, hcase⟩ | ⟨htype, hcase⟩
  · obtain ⟨target, htarget, hnonpos⟩ := workerRequestTarget_nonpos_iff workerCount hindex
      (isRequestBased_iff.mpr htype)
    rw [htarget]
    rcases hcase with hsome | hreached
    · exact requestLoop_of_break (hselect hsome) (n := target.toNat)
        (.inl (by rw [Option.any_some, decide_eq_true_iff]; exact Int.self_le_toNat target))
          (Nat.zero_add _)
    · have hle : target ≤ 0 := hnonpos.mpr (.inr hreached)
      exact ⟨1, 0, requestLoop_now (.inl (by simpa using hle))⟩
  · rw [if_pos (isDurationBased_iff.mpr htype)]
    rcases hcase with hsome | hreached
    · obtain ⟨n, hn⟩ := hclock.unbounded
        (start + (Loader.parsePhaseConfig json).completion.durationSeconds)
      exact requestLoop_of_break (hselect hsome) (n := n)
        (.inr (by rw [Option.any_some, decide_eq_true_iff]; exact hn)) (Nat.zero_add _)
    · have hle : ((Loader.parsePhaseConfig json).completion.durationSeconds : ℚ) ≤ 0 := by
        exact_mod_cast hreached
      have hstart := hclock.from_start
      refine ⟨1, 0, requestLoop_now (.inr ?_)⟩
      rw [Option.any_some, decide_eq_true_iff]
      linarith

end Break

end Json

/-- The loop of a worker comes to its break, or the worker is idle, with every clock that advances
without bound, exactly when the commands and the seed are accepted before the loop, and the worker
is idle under the rate limit, or the completion has one of the two known types and there is a
command or nothing to request. -/
theorem reachesBreak_iff (json : PhaseJson) (workerCount : ℕ) (workerIndex : Fin workerCount) :
    ReachesBreak (Loader.parsePhaseConfig json) workerCount (workerIndex : ℕ) ↔
      json.Starts (workerIndex : ℕ) ∧
        (json.Idle workerCount (workerIndex : ℕ) ∨ json.Breaks (workerIndex : ℕ)) := by
  have hindex : (0 : ℤ) ≤ (workerIndex : ℕ) := Int.natCast_nonneg _
  have hcount : ((workerIndex : ℕ) : ℤ) < workerCount := Int.ofNat_lt.mpr workerIndex.isLt
  constructor
  · intro h
    have hadvances : Advances 0 fun n => (n : ℚ) :=
      ⟨by simp, fun m n hmn => by exact_mod_cast hmn, fun b => exists_nat_ge b⟩
    obtain ⟨fuel, n, hn⟩ := h 0 (fun n => n) (fun _ => 0) hadvances
    have hstarts := starts_of_ok hn
    refine ⟨hstarts, or_iff_not_imp_left.mpr fun hidle => ?_⟩
    exact breaks_of_ok hindex hcount hstarts hidle (by simp) hn
  · rintro ⟨hstarts, hcase⟩ start clock draws hclock
    by_cases hidle : json.Idle workerCount (workerIndex : ℕ)
    · exact ⟨0, 0, by rw [workerRequests_eq hstarts, if_pos hidle]⟩
    · exact ok_of_breaks hindex hstarts hidle (hcase.resolve_left hidle) hclock draws

/-- A phase of ten requests whose type is capitalised. -/
def capitalisedJson : PhaseJson :=
  ⟨some 1, some ⟨some "Requests", none, some 10⟩, none, some [⟨"get", 1⟩], none⟩

/-- Its only worker does not come to a break. -/
theorem capitalisedJson_not_reachesBreak :
    ¬ ReachesBreak (Loader.parsePhaseConfig capitalisedJson) 1 0 := by
  intro h
  have hadvances : Advances 0 fun n => (n : ℚ) :=
    ⟨by simp, fun m n hmn => by exact_mod_cast hmn, fun b => exists_nat_ge b⟩
  obtain ⟨fuel, n, hn⟩ := h 0 (fun n => n) (fun _ => 0) hadvances
  have hidle : ¬ capitalisedJson.Idle 1 0 := by decide
  have hbreaks := breaks_of_ok le_rfl Int.one_pos (starts_of_ok hn) hidle (by simp) hn
  unfold PhaseJson.Breaks at hbreaks
  revert hbreaks
  decide

end RespBench.Php
