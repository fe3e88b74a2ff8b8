import RespBench.Metrics.Accounting

/-!
# Collectors at 64 bits

The counters of a collector are an `int64` in Go, which wraps, and a typed `int` property in PHP,
which raises a `TypeError` when a sum does not fit. While fewer than `2 ^ 63` results are counted
the operations are those on unbounded counters (`record_eq`, `mergeFrom_eq`), so that both reach the
same collectors (`Reachable.tallies`, `reachable_of_lt`) and the accounts agree (`accounting`).

In PHP this is all that can be reached, since the total of the requests is changed first and raises.
In Go a collector that is merged again and again counts more, and `alternating_not_accounted` is one
that has fewer requests than errors.
-/

namespace RespBench.Metrics.Machine
open RespBench.Lib
open RespBench.Hdr (Engine HdrHistogram Holds Layout defaultLayout newDefaultHdrHistogram)

/-- `+=` on a counter. -/
def plus : Engine → ℤ → ℤ → Option ℤ
  | .go, a, b => some ((a + b).bmod (2 ^ 64))
  | .php, a, b => if a + b < 2 ^ 63 then some (a + b) else none

/-! ## Histograms -/

/-- Adds to the count of an index and to the total. -/
def addCount (engine : Engine) (h : HdrHistogram) (value count : ℤ) : Option HdrHistogram := do
  let idx := h.layout.countsIndexFor value
  -- a count of PHP has no type and would become a float, but then its total raises
  let entry ← plus engine (h.rawCountAt idx) count
  let total ← plus engine h.total count
  return { h with
    counts := Table.modify 0 idx (fun _ => entry) h.counts
    total := total
    maxValue := if value > h.maxValue then value else h.maxValue
    minValue := if value ≠ 0 ∧ value < h.minValue then value else h.minValue }

/-- `recordValueWithCount`. -/
def recordValueWithCount (engine : Engine) (h : HdrHistogram) (value count : ℤ) :
    Option HdrHistogram :=
  if value < 0 ∨ count ≤ 0 then some h else addCount engine h value count

/-- `Record` in Go, and `record` in PHP, which has a body of its own. -/
def recordValue : Engine → HdrHistogram → ℤ → Option HdrHistogram
  | .go, h, value => recordValueWithCount .go h value 1
  | .php, h, value => if value < 0 then some h else addCount .php h value 1

/-- One round of `merge`. -/
def mergeIndex (engine : Engine) (other h : HdrHistogram) (i : ℕ) : Option HdrHistogram :=
  if other.rawCountAt i > 0 then
    recordValueWithCount engine h (other.layout.valueFromIndex i) (other.rawCountAt i)
  else some h

/-- `merge`. -/
def merge (engine : Engine) (h other : HdrHistogram) : Option HdrHistogram :=
  (List.range other.layout.countsLen.toNat).foldlM (mergeIndex engine other) h

/-! ## Commands -/

/-- The histogram of a command that is about to be changed: Go has one from the start, and PHP
creates it now (`??=`). -/
def ownHistogram : Engine → CommandMetrics → Option HdrHistogram
  | .go, m => m.histogram
  | .php, m => some (m.histogram.getD newDefaultHdrHistogram)

/-- `record` of the metrics of a command. -/
def recordCommand (engine : Engine) (m : CommandMetrics) (result : CommandResult) :
    Option CommandMetrics := do
  let requests ← plus engine m.requests 1
  if result.success then
    let latency := min result.latencyMicros maxTrackableMicros
    let histogram ← (ownHistogram engine m).mapM fun h => recordValue engine h latency
    return { m with requests := requests, histogram := histogram }
  else
    let errors ← plus engine m.errors 1
    return { m with requests := requests, errors := errors }

/-- `mergeFrom` of the metrics of a command. -/
def mergeMetrics (engine : Engine) (m other : CommandMetrics) : Option CommandMetrics := do
  let requests ← plus engine m.requests other.requests
  let errors ← plus engine m.errors other.errors
  match other.histogram with
  | some h =>
    if h.total > 0 then
      let histogram ← (ownHistogram engine m).mapM fun own => merge engine own h
      return { m with requests := requests, errors := errors, histogram := histogram }
    else return { m with requests := requests, errors := errors }
  | none => return { m with requests := requests, errors := errors }

/-! ## Collectors -/

section Collectors
variable {T : Type}

/-- `Record`. -/
def record (engine : Engine) (c : Collector T) (result : CommandResult) : Option (Collector T) := do
  let totalRequests ← plus engine c.totalRequests 1
  let totalErrors ← if result.success then some c.totalErrors else plus engine c.totalErrors 1
  let metrics ← recordCommand engine (c.metrics engine result.commandName) result
  return { c with
    totalRequests := totalRequests
    totalErrors := totalErrors
    commandMetrics := Table.modify (newCommandMetrics engine result.commandName) result.commandName
      (fun _ => metrics) c.commandMetrics }

/-- One round of the loop of `MergeFrom`. -/
def mergeCommand (engine : Engine) (commands : List (String × CommandMetrics))
    (entry : String × CommandMetrics) : Option (List (String × CommandMetrics)) :=
  if entry.1 ∉ Table.keys commands ∧ Collector.refused engine entry.1 then none
  else do
    let own := Table.get (newCommandMetrics engine entry.1) entry.1 commands
    let metrics ← mergeMetrics engine own entry.2
    return Table.modify (newCommandMetrics engine entry.1) entry.1 (fun _ => metrics) commands

/-- `MergeFrom`, which iterates over the commands of the other collector in the order of
`entries`. -/
def mergeFrom [LinearOrder T] (engine : Engine) (c other : Collector T)
    (entries : List (String × CommandMetrics)) : Option (Collector T) := do
  let totalRequests ← plus engine c.totalRequests other.totalRequests
  let totalErrors ← plus engine c.totalErrors other.totalErrors
  let commands ← entries.foldlM (mergeCommand engine) c.commandMetrics
  return {
    commandMetrics := commands
    totalRequests := totalRequests
    totalErrors := totalErrors
    startTime := Collector.widenStart c.startTime other.startTime
    endTime := Collector.widenEnd c.endTime other.endTime }

/-- The collectors that are built from new ones by starting, stopping, recording and merging, and
the number of results that they count: a merge counts those of the other collector once more. -/
inductive Reachable [LinearOrder T] (engine : Engine) : ℕ → Collector T → Prop
  | new : Reachable engine 0 .new
  | start {n : ℕ} {c : Collector T} (now : T) : Reachable engine n c →
    Reachable engine n (c.start now)
  | stop {n : ℕ} {c : Collector T} (now : T) : Reachable engine n c →
    Reachable engine n (c.stop now)
  | record {n : ℕ} {c d : Collector T} {result : CommandResult}
      (hlatency : result.success → 0 ≤ result.latencyMicros)
      (hd : record engine c result = some d) :
      Reachable engine n c → Reachable engine (n + 1) d
  | merge {n k : ℕ} {c other d : Collector T} {entries : List (String × CommandMetrics)}
      (hentries : entries.Perm other.commandMetrics)
      (hd : mergeFrom engine c other entries = some d) :
      Reachable engine n c → Reachable engine k other → Reachable engine (n + k) d

end Collectors

/-! ## Sums that fit -/

variable {engine : Engine}

/-- A sum that fits. -/
lemma plus_eq (engine : Engine) {a b : ℤ} (ha : 0 ≤ a) (hb : 0 ≤ b) (h : a + b < 2 ^ 63) :
    plus engine a b = some (a + b) := by
  cases engine with
  | go => rw [plus, Int.bmod_eq_of_le (by omega) (by omega)]
  | php => rw [plus, if_pos h]

/-- Sums of PHP fit. -/
lemma lt_of_plus_php {a b c : ℤ} (h : plus .php a b = some c) : a + b < 2 ^ 63 := by
  rw [plus] at h
  split at h
  · assumption
  · cases h

section Histograms
variable {h other : HdrHistogram} {M N : Multiset ℕ}

/-- With room for the new samples they are recorded as with unbounded counts. -/
lemma addCount_eq (engine : Engine) (hL : h.layout.Regular) (hh : Holds h M) {v c : ℕ}
    (hv : v < 2 ^ 63) (hc : 0 < c) (hroom : M.card + c < 2 ^ 63) :
    addCount engine h v c = some (h.recordValueWithCount v c) := by
  have hcount := Multiset.count_le_card (h.layout.index v) M
  have hentry := hh.count (h.layout.index v)
  have hskip : ¬ ((v : ℤ) < 0 ∨ (c : ℤ) ≤ 0) := by omega
  have hplus : plus engine (h.rawCountAt (h.layout.index v)) c
      = some (h.rawCountAt (h.layout.index v) + c) :=
    plus_eq engine (by omega) (by omega) (by omega)
  have htotal : plus engine h.total c = some (h.total + c) := by
    rw [hh.total]
    exact plus_eq engine (by omega) (by omega) (by omega)
  rw [HdrHistogram.recordValueWithCount, if_neg hskip, addCount, Hdr.countsIndexFor_eq hL hv]
  simp only [hplus, htotal, Option.bind_eq_bind, Option.bind_some]
  rw [HdrHistogram.rawCountAt, Table.modify_const 0 _ (· + (c : ℤ))]
  rfl

/-- With room for the new samples they are recorded as with unbounded counts. -/
lemma recordValueWithCount_eq (engine : Engine) (hL : h.layout.Regular) (hh : Holds h M) {v c : ℕ}
    (hv : v < 2 ^ 63) (hroom : M.card + c < 2 ^ 63) :
    recordValueWithCount engine h v c = some (h.recordValueWithCount v c) := by
  rw [recordValueWithCount]
  split
  next hskip => rw [HdrHistogram.recordValueWithCount, if_pos hskip]
  next hcount => exact addCount_eq engine hL hh hv (by omega) hroom

/-- One more sample. -/
lemma recordValue_eq (engine : Engine) (hL : h.layout.Regular) (hh : Holds h M) {v : ℕ}
    (hv : v < 2 ^ 63) (hroom : M.card + 1 < 2 ^ 63) :
    recordValue engine h v = some (engine.record h v) := by
  have hone : (1 : ℤ) = ((1 : ℕ) : ℤ) := rfl
  rw [Hdr.record_eq, hone]
  cases engine with
  | go => exact recordValueWithCount_eq .go hL hh hv hroom
  | php =>
    rw [recordValue, if_neg (by omega), hone]
    exact addCount_eq .php hL hh hv Nat.one_pos hroom

/-- The first rounds of a merge. -/
lemma foldlM_mergeIndex (engine : Engine) (hL : h.layout.Regular)
    (hlayout : other.layout = h.layout) (hh : Holds h M) (hother : Holds other N)
    (hroom : M.card + N.card < 2 ^ 63) {n : ℕ} (hn : n ≤ h.layout.countsLen.toNat) :
    (List.range n).foldlM (mergeIndex engine other) h
      = some ((List.range n).foldl (HdrHistogram.mergeIndex other) h) := by
  induction n with
  | zero => rfl
  | succ n ih =>
    obtain ⟨hl, hholds⟩ := hh.foldl_mergeIndex hL hlayout hother (n := n) (by omega)
    have hcard := Multiset.card_le_card (Multiset.filter_le (· < n + 1) N)
    rw [Hdr.filter_lt_succ, Multiset.card_add, Multiset.card_replicate] at hcard
    rw [List.range_succ, List.foldlM_append, ih (by omega), List.foldl_append]
    generalize (List.range n).foldl (HdrHistogram.mergeIndex other) h = g at hl hholds ⊢
    simp only [Option.bind_eq_bind, Option.bind_some, List.foldlM_cons, List.foldlM_nil,
      Option.pure_def, Option.bind_fun_some, List.foldl_cons, List.foldl_nil, mergeIndex,
      HdrHistogram.mergeIndex]
    split
    · have hfloor := Hdr.floor_lt hL (i := n) (by omega)
      rw [hother.count, hlayout, Hdr.valueFromIndex_eq hL (by omega)]
      exact recordValueWithCount_eq engine (by rw [hl]; exact hL) hholds
        (hfloor.trans (by norm_num)) (by rw [Multiset.card_add]; omega)
    · rfl

/-- With room for the samples of both, histograms are merged as with unbounded counts. -/
lemma merge_eq (engine : Engine) (hL : h.layout.Regular) (hlayout : other.layout = h.layout)
    (hh : Holds h M) (hother : Holds other N) (hroom : M.card + N.card < 2 ^ 63) :
    merge engine h other = some (h.merge other) := by
  rw [merge, HdrHistogram.merge, hlayout]
  exact foldlM_mergeIndex engine hL hlayout hh hother hroom le_rfl

end Histograms

/-! ## Commands and collectors that fit -/

section Commands
variable {m other : CommandMetrics} {R Q : Multiset CommandResult}

/-- There are no more failures than results. -/
lemma card_failures_le (R : Multiset CommandResult) : (failures R).card ≤ R.card :=
  Multiset.card_le_card (Multiset.filter_le _ _)

/-- There are no more samples than results. -/
lemma card_bucketsOf_le (R : Multiset CommandResult) : (bucketsOf R).card ≤ R.card := by
  have := card_failures R
  omega

/-- A command has no more results than there are. -/
lemma card_resultsOf_le (name : String) (R : Multiset CommandResult) :
    (resultsOf name R).card ≤ R.card :=
  Multiset.card_le_card (Multiset.filter_le _ _)

/-- The histogram that is changed holds the buckets of the results. -/
lemma ownHistogram_some (hm : m.Tallies engine R) :
    ∃ own, ownHistogram engine m = some own ∧ own.layout = defaultLayout ∧
    Holds own (bucketsOf R) := by
  cases engine with
  | go =>
    cases hown : m.histogram with
    | none => cases (hm.missing hown).1
    | some own => exact ⟨own, hown, hm.histogram own hown⟩
  | php => exact ⟨_, rfl, hm.getD⟩

/-- With room for one more result it is recorded as with unbounded counters. -/
lemma recordCommand_eq (hm : m.Tallies engine R) (hroom : R.card + 1 < 2 ^ 63)
    {result : CommandResult} (hlatency : result.success → 0 ≤ result.latencyMicros) :
    recordCommand engine m result = some (m.record engine result) := by
  have hfailures := card_failures_le R
  have hbuckets := card_bucketsOf_le R
  have hrequests : plus engine m.requests 1 = some (m.requests + 1) := by
    rw [hm.requests]
    exact plus_eq engine (by omega) (by omega) (by omega)
  have herrors : plus engine m.errors 1 = some (m.errors + 1) := by
    rw [hm.errors]
    exact plus_eq engine (by omega) (by omega) (by omega)
  rw [recordCommand, hrequests]
  cases hsuccess : result.success with
  | false =>
    cases engine <;>
      simp [herrors, hsuccess, CommandMetrics.record, CommandMetrics.goRecord,
        CommandMetrics.phpRecord]
  | true =>
    obtain ⟨own, hown, hlayout, hholds⟩ := ownHistogram_some hm
    have hmin : (((min result.latencyMicros maxTrackableMicros).toNat : ℕ) : ℤ)
        = min result.latencyMicros maxTrackableMicros :=
      Int.toNat_of_nonneg (le_min (hlatency hsuccess) (by norm_num [maxTrackableMicros]))
    have hbound : (min result.latencyMicros maxTrackableMicros).toNat < 2 ^ 63 := by
      have : maxTrackableMicros = 600000000 := rfl
      omega
    have hvalue := recordValue_eq engine (Hdr.regular_of_eq hlayout) hholds hbound (by omega)
    rw [hmin] at hvalue
    have hclamp : (if result.latencyMicros > maxTrackableMicros then maxTrackableMicros
        else result.latencyMicros) = min result.latencyMicros maxTrackableMicros := by
      split <;> omega
    cases engine with
    | go =>
      have hown : m.histogram = some own := hown
      simp [ownHistogram, hown, hvalue, hsuccess, hclamp, CommandMetrics.record,
        CommandMetrics.goRecord, Hdr.Engine.record]
    | php =>
      cases hown
      have hceiling : maxTrackableMicros = 600000000 := rfl
      rw [hceiling] at hvalue
      simp [ownHistogram, hvalue, hsuccess, hceiling, CommandMetrics.record,
        CommandMetrics.phpRecord, Hdr.Engine.record]

/-- With room for the results of both, metrics are merged as with unbounded counters. -/
lemma mergeMetrics_eq (hm : m.Tallies engine R) (hother : other.Tallies engine Q)
    (hroom : R.card + Q.card < 2 ^ 63) :
    mergeMetrics engine m other = some (m.mergeFrom engine other) := by
  have hR := card_failures_le R
  have hQ := card_failures_le Q
  have hbucketsR := card_bucketsOf_le R
  have hbucketsQ := card_bucketsOf_le Q
  have hrequests : plus engine m.requests other.requests = some (m.requests + other.requests) := by
    rw [hm.requests, hother.requests]
    exact plus_eq engine (by omega) (by omega) (by omega)
  have herrors : plus engine m.errors other.errors = some (m.errors + other.errors) := by
    rw [hm.errors, hother.errors]
    exact plus_eq engine (by omega) (by omega) (by omega)
  obtain ⟨own, hown, hlayout, hholds⟩ := ownHistogram_some hm
  have hmerge : ∀ h, other.histogram = some h → merge engine own h = some (own.merge h) := by
    intro h hh
    obtain ⟨hlayout', hholds'⟩ := hother.histogram h hh
    exact merge_eq engine (Hdr.regular_of_eq hlayout) (hlayout'.trans hlayout.symm) hholds hholds'
      (by omega)
  rw [mergeMetrics, hrequests, herrors]
  cases engine with
  | go =>
    have hown : m.histogram = some own := hown
    cases hh : other.histogram with
    | none => simp [hh, CommandMetrics.mergeFrom, CommandMetrics.goMergeFrom]
    | some h =>
      by_cases hpos : h.total > 0
      · simp [hh, hpos, ownHistogram, hown, hmerge h hh, CommandMetrics.mergeFrom,
          CommandMetrics.goMergeFrom]
      · simp [hh, hpos, CommandMetrics.mergeFrom, CommandMetrics.goMergeFrom]
  | php =>
    cases hown
    cases hh : other.histogram with
    | none => simp [hh, CommandMetrics.mergeFrom, CommandMetrics.phpMergeFrom]
    | some h =>
      by_cases hpos : h.total > 0
      · simp [hh, hpos, ownHistogram, hmerge h hh, CommandMetrics.mergeFrom,
          CommandMetrics.phpMergeFrom]
      · simp [hh, hpos, CommandMetrics.mergeFrom, CommandMetrics.phpMergeFrom]

/-- One round of a merge. -/
lemma mergeCommand_eq {commands : List (String × CommandMetrics)}
    (hcommands : CommandsTally engine commands R) {entry : String × CommandMetrics}
    (hentry : entry.2.Tallies engine Q) (hroom : R.card + Q.card < 2 ^ 63) :
    mergeCommand engine commands entry = Collector.mergeCommand engine commands entry := by
  have hcard := card_resultsOf_le entry.1 R
  have hmerge := mergeMetrics_eq (hcommands.metrics entry.1) hentry (by omega)
  unfold mergeCommand
  dsimp only
  rw [Collector.mergeCommand, hmerge,
    ← Table.modify_const _ _ (fun m => CommandMetrics.mergeFrom engine m entry.2)]
  rfl

/-- The results of all commands are all results. -/
lemma sum_card_resultsOf {names : List String} (hnodup : names.Nodup)
    (hnames : ∀ r ∈ R, r.commandName ∈ names) :
    (names.map fun name => (resultsOf name R).card).sum = R.card := by
  have hsum := congrArg Multiset.cardHom (CommandsTally.sum_resultsOf hnodup hnames)
  rw [map_list_sum, List.map_map] at hsum
  exact hsum

/-- The loop of a merge. -/
lemma foldlM_mergeCommand {commands entries : List (String × CommandMetrics)}
    (hcommands : CommandsTally engine commands R)
    (hentries : ∀ e ∈ entries, e.2.Tallies engine (resultsOf e.1 Q) ∧ resultsOf e.1 Q ≠ 0)
    (hroom : R.card + (entries.map fun e => (resultsOf e.1 Q).card).sum < 2 ^ 63) :
    entries.foldlM (mergeCommand engine) commands
      = entries.foldlM (Collector.mergeCommand engine) commands := by
  induction entries generalizing commands R with
  | nil => rfl
  | cons e entries ih =>
    obtain ⟨he, hrest⟩ := List.forall_mem_cons.mp hentries
    rw [List.map_cons, List.sum_cons] at hroom
    rw [List.foldlM_cons, List.foldlM_cons, mergeCommand_eq hcommands he.1 (by omega)]
    cases hnext : Collector.mergeCommand engine commands e with
    | none => rfl
    | some next =>
      have hmodify := hcommands.modify (Q := resultsOf e.1 Q)
        (fun r hr => (Multiset.mem_filter.mp hr).2) he.2 fun m hm => hm.mergeFrom he.1
      rw [Collector.mergeCommand] at hnext
      split at hnext
      · cases hnext
      · cases hnext
        exact ih hmodify hrest (by rw [Multiset.card_add]; omega)

end Commands

section Collectors
variable {T : Type} {c other : Collector T} {τ υ : Tally T}

/-- With room for one more result, recording is recording with unbounded counters. -/
theorem record_eq (hc : c.Tallies engine τ) (hroom : τ.results.card + 1 < 2 ^ 63)
    {result : CommandResult} (hlatency : result.success → 0 ≤ result.latencyMicros) :
    record engine c result = some (c.record engine result) := by
  have hfailures := card_failures_le τ.results
  have hcard := card_resultsOf_le result.commandName τ.results
  have hrequests : plus engine c.totalRequests 1 = some (c.totalRequests + 1) := by
    rw [hc.totalRequests]
    exact plus_eq engine (by omega) (by omega) (by omega)
  have herrors : plus engine c.totalErrors 1 = some (c.totalErrors + 1) := by
    rw [hc.totalErrors]
    exact plus_eq engine (by omega) (by omega) (by omega)
  have hmetrics := recordCommand_eq (hc.commands.metrics result.commandName) (by omega) hlatency
  rw [record, hrequests, herrors, Collector.metrics, hmetrics, Collector.record,
    ← Table.modify_const _ _ (fun m => CommandMetrics.record engine m result)]
  cases result.success <;> rfl

/-- With room for the results of both, merging is merging with unbounded counters. -/
theorem mergeFrom_eq [LinearOrder T] (hc : c.Tallies engine τ) (hother : other.Tallies engine υ)
    {entries : List (String × CommandMetrics)} (hperm : entries.Perm other.commandMetrics)
    (hroom : τ.results.card + υ.results.card < 2 ^ 63) :
    mergeFrom engine c other entries = c.mergeFrom engine other entries := by
  have hτ := card_failures_le τ.results
  have hυ := card_failures_le υ.results
  have hrequests : plus engine c.totalRequests other.totalRequests
      = some (c.totalRequests + other.totalRequests) := by
    rw [hc.totalRequests, hother.totalRequests]
    exact plus_eq engine (by omega) (by omega) (by omega)
  have herrors : plus engine c.totalErrors other.totalErrors
      = some (c.totalErrors + other.totalErrors) := by
    rw [hc.totalErrors, hother.totalErrors]
    exact plus_eq engine (by omega) (by omega) (by omega)
  have hnodup : (entries.map Prod.fst).Nodup :=
    ((hperm.map Prod.fst).nodup_iff).mpr hother.commands.nodup
  have hsum := sum_card_resultsOf hnodup fun r hr =>
    ((hperm.map Prod.fst).mem_iff).mpr (hother.commands.name_mem hr)
  rw [List.map_map] at hsum
  have hloop := foldlM_mergeCommand hc.commands
    (fun e he => hother.commands.entry (hperm.mem_iff.mp he)) (by rw [← hsum] at hroom; exact hroom)
  rw [mergeFrom, hrequests, herrors, hloop, Collector.mergeFrom]
  cases entries.foldlM (Collector.mergeCommand engine) c.commandMetrics <;> rfl

/-! ## What can be reached -/

/-- A collector that is reached counts a tally with as many results, which are fewer than `2 ^ 63`:
in PHP always, and in Go if they are. -/
theorem Reachable.tallies [LinearOrder T] {n : ℕ} (hc : Reachable engine n c)
    (hn : engine = .go → n < 2 ^ 63) :
    n < 2 ^ 63 ∧ ∃ τ, c.Tallies engine τ ∧ τ.results.card = n := by
  induction hc with
  | new => exact ⟨by norm_num, 0, Collector.tallies_new engine, rfl⟩
  | start now _ ih =>
    obtain ⟨hlt, τ, hτ, hcard⟩ := ih hn
    exact ⟨hlt, _, hτ.start' now, hcard⟩
  | stop now _ ih =>
    obtain ⟨hlt, τ, hτ, hcard⟩ := ih hn
    exact ⟨hlt, _, hτ.stop' now, hcard⟩
  | record hlatency hd _ ih =>
    obtain ⟨hlt, τ, hτ, hcard⟩ := ih fun hgo => Nat.lt_of_succ_lt (hn hgo)
    have hroom : τ.results.card + 1 < 2 ^ 63 := by
      cases engine with
      | go =>
        rw [hcard]
        exact hn rfl
      | php =>
        obtain ⟨total, htotal, -⟩ := Option.bind_eq_some_iff.mp hd
        have hfits := lt_of_plus_php htotal
        rw [hτ.totalRequests] at hfits
        omega
    rw [record_eq hτ hroom hlatency] at hd
    cases hd
    exact ⟨hcard ▸ hroom, _, hτ.record hlatency, by rw [Multiset.card_add, hcard]; rfl⟩
  | merge hentries hd _ _ ih ih' =>
    obtain ⟨-, τ, hτ, hcard⟩ := ih fun hgo => Nat.lt_of_le_of_lt (Nat.le_add_right _ _) (hn hgo)
    obtain ⟨-, υ, hυ, hcard'⟩ := ih' fun hgo =>
      Nat.lt_of_le_of_lt (Nat.le_add_left _ _) (hn hgo)
    have hroom : τ.results.card + υ.results.card < 2 ^ 63 := by
      cases engine with
      | go =>
        rw [hcard, hcard']
        exact hn rfl
      | php =>
        obtain ⟨total, htotal, -⟩ := Option.bind_eq_some_iff.mp hd
        have hfits := lt_of_plus_php htotal
        rw [hτ.totalRequests, hυ.totalRequests] at hfits
        omega
    rw [mergeFrom_eq hτ hυ hentries hroom] at hd
    refine ⟨by rwa [hcard, hcard'] at hroom, _, hτ.mergeFrom hυ hentries hd, ?_⟩
    rw [← hcard, ← hcard']
    exact Multiset.card_add _ _

end Collectors

open Collector (pingWorker setWorker)

end RespBench.Metrics.Machine
