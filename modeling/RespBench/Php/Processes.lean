import RespBench.Php.Reports

/-!
# Worker processes

The parent of a phase with worker processes (`runPhaseMultiProcess`) reads the report of every
child, merges what it can, reaps the children, and counts what went wrong in both: a report that is
missing, unreadable or an error, and an exit status that is not zero. `runPhaseMultiProcess_honest`
says that the status of the phase is honest about the two, and that nothing but the delivered
reports gets into the collector.

Forks and socket pairs succeed, so that the children are there when the loop over their reports
starts.
-/

namespace RespBench.Php
open RespBench.Metrics

/-- How a process ended: `pcntl_wifexited` and `pcntl_wexitstatus`, or a signal. -/
inductive WaitStatus
  | exited (code : ℕ)
  | signaled (signal : ℕ)
deriving DecidableEq

/-- A child: what `stream_get_contents` returns for its pipe, with `none` for
`false`, and how it ended. -/
structure Child where
  payload : Option String
  status : WaitStatus

inductive PhaseStatus
  | completed
  | error
deriving DecidableEq

/-- One round of the loop that collects the reports, with the number of worker errors. -/
def collectReport (php : Runtime) (state : Collector ℚ × ℕ) (child : Child) :
    Option (Collector ℚ × ℕ) :=
  match child.payload with
  | none => some (state.1, state.2 + 1)
  | some payload =>
    if trim payload = "" then some (state.1, state.2 + 1)
    else do
      let (success, c) ← mergePartial php state.1 payload
      return (c, if success then state.2 else state.2 + 1)

/-- One round of the loop that reaps the children. -/
def reap (workerErrors : ℕ) (child : Child) : ℕ :=
  if child.status = .exited 0 then workerErrors else workerErrors + 1

/-- `runPhaseMultiProcess`; `none` when an error is raised. -/
def runPhaseMultiProcess (php : Runtime) (children : List Child) (c : Collector ℚ) :
    Option (PhaseStatus × Collector ℚ) := do
  let (c, workerErrors) ← children.foldlM (collectReport php) (c, 0)
  let workerErrors := children.foldl reap workerErrors
  return (if workerErrors > 0 then .error else .completed, c)

/-! ## What children send -/

variable {php : Runtime} {c d : Collector ℚ}

/-- A text that is no report: nothing, no JSON, or JSON that is not ok. -/
inductive Rejected (php : Runtime) (payload : String) : Prop
  | blank : trim payload = "" → Rejected php payload
  | unreadable : php.jsonDecode (trim payload) = none → Rejected php payload
  | failed {data : Value} : php.jsonDecode (trim payload) = some data →
    (data.offset "ok").isTrue = false →
      Rejected php payload

/-- What a child did with its report: it delivered one, or none. -/
inductive Outcome (php : Runtime) (child : Child) : Option (Collector ℚ) → Prop
  | delivered {payload : String} {w : Collector ℚ} : child.payload = some payload →
    Delivers php payload w →
      w.Reachable .php → w.Accepted .php → Outcome php child (some w)
  | rejected {payload : String} : child.payload = some payload → Rejected php payload →
    Outcome php child none
  | unread : child.payload = none → Outcome php child none

/-- An error that a child reports is rejected. -/
lemma rejected_serializeError {message : String}
    (htrim : trim (serializeError php message ++ "\n") = serializeError php message)
    (hdecode : php.jsonDecode (serializeError php message)
      = some (.array [(.string "ok", .bool false), (.string "error", .string message)])) :
    Rejected php (serializeError php message ++ "\n") :=
  .failed (by rw [htrim]; exact hdecode) rfl

/-- A rejected text leaves the collector unchanged. -/
lemma mergePartial_rejected {payload : String} (h : Rejected php payload) (c : Collector ℚ) :
    mergePartial php c payload = some (false, c) := by
  rw [mergePartial]
  by_cases hblank : trim payload = ""
  · rw [if_pos hblank]
  · rw [if_neg hblank]
    cases h with
    | blank h => exact absurd h hblank
    | unreadable h => rw [h]
    | failed h hok =>
      rw [h]
      dsimp only
      rw [hok]
      rfl

/-- A merge that reports no success leaves the collector unchanged. -/
lemma mergePartial_false {payload : String} (h : mergePartial php c payload = some (false, d)) :
    d = c := by
  rw [mergePartial] at h
  split at h
  · exact (congrArg Prod.snd (Option.some.inj h)).symm
  · split at h
    · exact (congrArg Prod.snd (Option.some.inj h)).symm
    · split at h
      · exact (congrArg Prod.snd (Option.some.inj h)).symm
      · obtain ⟨rebuilt, -, hrest⟩ := Option.bind_eq_some_iff.mp h
        obtain ⟨merged, -, hmerged⟩ := Option.bind_eq_some_iff.mp hrest
        exact nomatch congrArg Prod.fst (Option.some.inj hmerged)

/-! ## The loops -/

/-- A child that delivers no report is counted. -/
lemma collectReport_none {child : Child} (h : Outcome php child none) (c : Collector ℚ)
    (workerErrors : ℕ) :
    collectReport php (c, workerErrors) child = some (c, workerErrors + 1) := by
  cases h with
  | unread hpayload => rw [collectReport, hpayload]
  | rejected hpayload hrejected =>
    rw [collectReport, hpayload]
    dsimp only
    split
    · rfl
    · rw [mergePartial_rejected hrejected]
      rfl

/-- A report that is collected is merged. -/
lemma collectReport_some {child : Child} {w : Collector ℚ}
    (h : Outcome php child (some w)) {τ : Tally ℚ} (hc : c.Tallies .php τ) (hd : d.Tallies .php τ)
    (hdnames : d.Accepted .php) (workerErrors : ℕ) :
    ∃ c' d' υ, collectReport php (c, workerErrors) child = some (c', workerErrors) ∧
      d.mergeFrom .php w w.commandMetrics = some d' ∧ c'.Tallies .php υ ∧ d'.Tallies .php υ ∧
      d'.Accepted .php := by
  cases h with
  | @delivered payload w hpayload hdelivers hreach hnames =>
    obtain ⟨υ, hυ⟩ := hreach.tallies
    obtain ⟨hsome, hspec⟩ := mergePartial_spec hc hυ hdelivers
    obtain ⟨d', hd', hd'names⟩ := hdnames.mergeFrom hnames (.refl _)
    rw [hc.mergeFrom_isSome_iff hυ (.refl _), ← hd.mergeFrom_isSome_iff hυ (.refl _), hd'] at hsome
    obtain ⟨result, hresult⟩ := Option.isSome_iff_exists.mp (hsome.mpr rfl)
    obtain ⟨hok, htallies⟩ := hspec result hresult
    have hline : trim payload ≠ "" := fun hblank => by
      rw [mergePartial, if_pos hblank] at hresult
      rw [← Option.some.inj hresult] at hok
      exact nomatch hok
    refine ⟨result.2, d', τ + υ, ?_, hd', htallies, hd.mergeFrom hυ (.refl _) hd', hd'names⟩
    rw [collectReport, hpayload]
    dsimp only
    rw [if_neg hline, hresult]
    dsimp only [Option.bind_eq_bind, Option.bind_some]
    rw [if_pos hok]
    rfl

/-- Collecting the reports of all children merges the delivered ones and counts the others. -/
lemma collectReports {children : List Child} {outcomes : List (Option (Collector ℚ))}
    (h : List.Forall₂ (Outcome php) children outcomes) {τ : Tally ℚ} (hc : c.Tallies .php τ)
    (hd : d.Tallies .php τ) (hdnames : d.Accepted .php) (workerErrors : ℕ) :
    ∃ c' merged, children.foldlM (collectReport php) (c, workerErrors)
        = some (c', workerErrors + outcomes.countP (·.isNone)) ∧
      mergeWorkers outcomes.reduceOption d = some merged ∧ c'.Same .php merged := by
  induction h generalizing c d τ workerErrors with
  | nil => exact ⟨c, d, rfl, rfl, hc.same hd⟩
  | @cons child outcome children outcomes hchild _ ih =>
    rw [List.foldlM_cons, List.countP_cons]
    cases outcome with
    | none =>
      obtain ⟨c', merged, hloop, hmerged, hsame⟩ := ih hc hd hdnames (workerErrors + 1)
      refine ⟨c', merged, ?_, by rw [List.reduceOption_cons_of_none, hmerged], hsame⟩
      rw [collectReport_none hchild, Option.isNone_none, if_pos rfl, ← add_assoc, add_right_comm]
      exact hloop
    | some w =>
      obtain ⟨c₁, d₁, υ, hround, hmerge, hc₁, hd₁, hnames⟩ :=
        collectReport_some hchild hc hd hdnames workerErrors
      obtain ⟨c', merged, hloop, hmerged, hsame⟩ := ih hc₁ hd₁ hnames workerErrors
      refine ⟨c', merged, by rw [hround]; exact hloop, ?_, hsame⟩
      rw [List.reduceOption_cons_of_some, mergeWorkers, List.foldlM_cons, hmerge]
      exact hmerged

/-- Reaping counts the children that did not exit with zero. -/
lemma foldl_reap (children : List Child) (workerErrors : ℕ) :
    children.foldl reap workerErrors = workerErrors + children.countP (·.status ≠ .exited 0) := by
  induction children generalizing workerErrors with
  | nil => rfl
  | cons child children ih =>
    rw [List.foldl_cons, ih, List.countP_cons, reap]
    by_cases h : child.status = .exited 0
    · rw [if_pos h, if_neg (by simpa using h), add_zero]
    · rw [if_neg h, if_pos (by simpa using h), ← add_assoc, add_right_comm]

/-- The status of a phase with worker processes is honest, and its collector has the delivered
reports and nothing else. A report that is rejected changes nothing. -/
theorem runPhaseMultiProcess_honest {children : List Child} {outcomes : List (Option (Collector ℚ))}
    (h : List.Forall₂ (Outcome php) children outcomes) :
    (∃ status c merged, runPhaseMultiProcess php children .new = some (status, c) ∧
      mergeWorkers outcomes.reduceOption .new = some merged ∧ c.Same .php merged ∧
      (status = .completed ↔ (∀ outcome ∈ outcomes, outcome.isSome) ∧
        ∀ child ∈ children, child.status = .exited 0)) ∧
      ∀ c d payload, mergePartial php c payload = some (false, d) → d = c := by
  refine ⟨?_, fun c d payload => mergePartial_false⟩
  obtain ⟨c, merged, hloop, hmerged, hsame⟩ := collectReports h (Collector.tallies_new .php)
    (Collector.tallies_new .php) (fun _ hname => absurd hname List.not_mem_nil) 0
  refine ⟨_, c, merged, by rw [runPhaseMultiProcess, hloop]; rfl, hmerged, hsame, ?_⟩
  rw [foldl_reap, zero_add]
  have hstatus : (if outcomes.countP (·.isNone) + children.countP (·.status ≠ .exited 0) > 0
    then PhaseStatus.error
      else .completed) = .completed ↔
      outcomes.countP (·.isNone) = 0 ∧ children.countP (·.status ≠ .exited 0) = 0 := by
    split
    next hpos => exact iff_of_false nofun (by omega)
    next hzero => exact iff_of_true rfl (by omega)
  rw [hstatus, List.countP_eq_zero, List.countP_eq_zero]
  simp [Option.isSome_iff_ne_none]

/-! ### Five children -/

/-- A child that is done, an idle one that is killed, one with an error, one that dies at once, and
one that dies while it writes. -/
def sampleChildren : List Child :=
  [⟨some (serializeCollector sampleRuntime busyWorker), .exited 0⟩,
    ⟨some (serializeCollector sampleRuntime .new), .signaled 9⟩,
    ⟨some (serializeError sampleRuntime "read error on connection" ++ "\n"), .exited 1⟩,
    ⟨some "", .exited 255⟩,
    ⟨some "\x7b\"ok\":tr", .signaled 15⟩]

/-- The error of the example decodes. -/
lemma decode_errorText : sampleRuntime.jsonDecode errorText
    = some (.array [(.string "ok", .bool false),
      (.string "error", .string "read error on connection")]) := by
  rw [sampleRuntime]
  dsimp only
  rw [if_neg (by decide +kernel), if_neg (by decide +kernel), if_pos rfl]

/-- The truncated payload of the example does not decode. -/
lemma decode_truncated : sampleRuntime.jsonDecode (trim "\x7b\"ok\":tr") = none := by
  rw [sampleRuntime]
  dsimp only
  rw [if_neg (by decide +kernel), if_neg (by decide +kernel), if_neg (by decide +kernel)]

/-- The children of the example end so. -/
lemma sampleChildren_outcomes :
    List.Forall₂ (Outcome sampleRuntime) sampleChildren [some busyWorker, some .new, none,
      none, none] := by
  have hbusy : busyWorker.Accepted .php := by
    unfold Collector.Accepted
    decide
  have herror : serializeError sampleRuntime "read error on connection" = errorText := rfl
  refine .cons (.delivered rfl (delivers_serializeCollector carries_busyWorker)
    reachable_busyWorker hbusy) <|
    .cons (.delivered rfl (delivers_serializeCollector carries_new) .new fun _ hname =>
      absurd hname List.not_mem_nil) <|
    .cons (.rejected rfl (rejected_serializeError ?_ ?_)) <|
    .cons (.rejected rfl (.blank (by decide))) <|
      .cons (.rejected rfl (.unreadable decode_truncated)) .nil
  · rw [herror]
    exact (trim_object _).2
  · rw [herror]
    exact decode_errorText

/-- The phase with these children is an error, with the metrics of the two that delivered a
report. -/
theorem sampleChildren_honest :
    ∃ c merged, runPhaseMultiProcess sampleRuntime sampleChildren .new = some (.error, c) ∧
      mergeWorkers [busyWorker, .new] .new = some merged ∧ c.Same .php merged := by
  obtain ⟨⟨status, c, merged, hrun, hmerged, hsame, hstatus⟩, -⟩ :=
    runPhaseMultiProcess_honest sampleChildren_outcomes
  have herror : status = .error := by
    cases status with
    | error => rfl
    | completed => exact nomatch (hstatus.mp rfl).1 none (by simp)
  exact ⟨c, merged, herror ▸ hrun, hmerged, hsame⟩

end RespBench.Php
