import RespBench.Hdr.Merge
import RespBench.Metrics.Collector

/-!
# What a collector counts

The purpose of a collector: it is the multiset of the results that it has seen, and the span of
time in which it saw them (`Tally`). Tallies are added, the results as multisets and the
windows by their minimum and maximum, which makes them a commutative monoid.
`Collector.Tallies` says that a collector counts a tally, `Tallies.record` and
`Tallies.mergeFrom` that recording a result and merging a collector add to it, and
`Tallies.same` that the tally determines what the collector reports.
-/

namespace RespBench.Metrics
open RespBench.Lib
open RespBench.Hdr (Engine HdrHistogram Holds defaultLayout newDefaultHdrHistogram)

/-! ## Tallies -/

/-- Results, and the window in which they came. -/
@[ext] structure Tally (T : Type*) where
  results : Multiset CommandResult
  start : WithTop T
  stop : WithBot T

namespace Tally
variable {T : Type*}

instance : Zero (Tally T) := ⟨⟨0, ⊤, ⊥⟩⟩

variable [LinearOrder T]

instance : Add (Tally T) := ⟨fun a b => ⟨a.results + b.results, a.start ⊓ b.start, a.stop ⊔ b.stop⟩⟩

instance : AddCommMonoid (Tally T) where
  add_assoc a b c := Tally.ext (add_assoc _ _ _) (inf_assoc _ _ _) (sup_assoc _ _ _)
  zero_add a := Tally.ext (zero_add _) (top_inf_eq _) (bot_sup_eq _)
  add_zero a := Tally.ext (add_zero _) (inf_top_eq _) (sup_bot_eq _)
  add_comm a b := Tally.ext (add_comm _ _) (inf_comm _ _) (sup_comm _ _)
  nsmul := nsmulRec

/-- The window of two begins with the earlier. -/
@[simp] lemma add_start (a b : Tally T) : (a + b).start = a.start ⊓ b.start := rfl
/-- The window of two ends with the later. -/
@[simp] lemma add_stop (a b : Tally T) : (a + b).stop = a.stop ⊔ b.stop := rfl

end Tally

/-- The results of a command. -/
def resultsOf (name : String) (R : Multiset CommandResult) : Multiset CommandResult :=
  R.filter (·.commandName = name)

/-- The results that are errors. -/
def failures (R : Multiset CommandResult) : Multiset CommandResult := R.filter (·.success = false)

/-- The bucket of a latency. -/
def bucket (result : CommandResult) : ℕ :=
  defaultLayout.index (min result.latencyMicros maxTrackableMicros).toNat

/-- The buckets of the successful results. -/
def bucketsOf (R : Multiset CommandResult) : Multiset ℕ := (R.filter (·.success)).map bucket

/-- The results of a command in both are those in each. -/
lemma resultsOf_add (name : String) (R Q : Multiset CommandResult) :
    resultsOf name (R + Q) = resultsOf name R + resultsOf name Q := Multiset.filter_add _ _ _

/-- The failures in both are those in each. -/
lemma failures_add (R Q : Multiset CommandResult) : failures (R + Q) = failures R + failures Q :=
  Multiset.filter_add _ _ _

/-- The samples in both are those in each. -/
lemma bucketsOf_add (R Q : Multiset CommandResult) :
    bucketsOf (R + Q) = bucketsOf R + bucketsOf Q := by
  rw [bucketsOf, Multiset.filter_add, Multiset.map_add]
  rfl

/-- Results are errors or have a bucket. -/
lemma card_failures (R : Multiset CommandResult) :
    Multiset.card (failures R) + Multiset.card (bucketsOf R) = Multiset.card R := by
  have hsplit := Multiset.filter_add_not (fun r : CommandResult => r.success = true) R
  simp only [Bool.not_eq_true] at hsplit
  rw [failures, bucketsOf, Multiset.card_map, ← Multiset.card_add, add_comm, hsplit]

/-- A sample has an index of the counts array. -/
lemma bucket_lt {R : Multiset CommandResult} {i : ℕ} (hi : i ∈ bucketsOf R) :
    (i : ℤ) < defaultLayout.countsLen := by
  obtain ⟨result, -, rfl⟩ := Multiset.mem_map.mp hi
  apply Hdr.index_lt_countsLen Hdr.defaultLayout_regular
  rw [Hdr.defaultLayout_eq]
  dsimp only [maxTrackableMicros]
  omega

/-! ## Commands -/

/-- The metrics of a command count results. -/
structure CommandMetrics.Tallies (engine : Engine) (m : CommandMetrics)
    (R : Multiset CommandResult) :
    Prop where
  requests : m.requests = R.card
  errors : m.errors = (failures R).card
  histogram : ∀ h, m.histogram = some h → h.layout = defaultLayout ∧ Holds h (bucketsOf R)
  missing : m.histogram = none → engine = .php ∧ bucketsOf R = 0

namespace CommandMetrics
variable {engine : Engine} {m other : CommandMetrics} {R Q : Multiset CommandResult}

/-- A new histogram holds nothing. -/
lemma holds_new : newDefaultHdrHistogram.layout = defaultLayout ∧ Holds newDefaultHdrHistogram 0 :=
  ⟨Hdr.newDefault_layout, .empty _⟩

/-- New metrics tally nothing. -/
lemma tallies_new (engine : Engine) (name : String) :
    (newCommandMetrics engine name).Tallies engine 0 := by
  cases engine with
  | go => exact ⟨rfl, rfl, fun h hh => Option.some.inj hh ▸ holds_new, fun hnone => nomatch hnone⟩
  | php => exact ⟨rfl, rfl, fun h hh => (nomatch hh), fun _ => ⟨rfl, rfl⟩⟩

/-- The histogram of a command, or a new one. -/
lemma Tallies.getD (hm : m.Tallies engine R) :
    (m.histogram.getD newDefaultHdrHistogram).layout = defaultLayout ∧
      Holds (m.histogram.getD newDefaultHdrHistogram) (bucketsOf R) := by
  cases hh : m.histogram with
  | none =>
    rw [(hm.missing hh).2]
    exact holds_new
  | some h => exact hm.histogram h hh

/-- A recorded latency is held. -/
lemma holds_record (engine : Engine) {h : HdrHistogram} {M : Multiset ℕ}
    (hh : h.layout = defaultLayout ∧ Holds h M) {result : CommandResult}
    (hlatency : 0 ≤ result.latencyMicros) :
    (engine.record h (min result.latencyMicros maxTrackableMicros)).layout = defaultLayout ∧
      Holds (engine.record h (min result.latencyMicros maxTrackableMicros))
      (M + {bucket result}) := by
  obtain ⟨hlayout, hholds⟩ := hh
  have hmin : (((min result.latencyMicros maxTrackableMicros).toNat : ℕ) : ℤ)
      = min result.latencyMicros maxTrackableMicros :=
    Int.toNat_of_nonneg (le_min hlatency (by norm_num [maxTrackableMicros]))
  have hrecord := hholds.recordValueWithCount (by rw [hlayout]; exact Hdr.defaultLayout_regular)
    (v := (min result.latencyMicros maxTrackableMicros).toNat)
    (by have : maxTrackableMicros = 600000000 := rfl; omega) Nat.one_pos
  rw [hmin, Multiset.replicate_one, hlayout] at hrecord
  rw [Hdr.record_eq]
  exact ⟨(Hdr.recordValueWithCount_layout _ _ _).trans hlayout, hrecord⟩

/-- Merged histograms hold the samples of both. -/
lemma holds_merge {h k : HdrHistogram} {M : Multiset ℕ} (hh : h.layout = defaultLayout ∧ Holds h M)
    (hk : k.layout = defaultLayout ∧ Holds k (bucketsOf Q)) :
    (h.merge k).layout = defaultLayout ∧ Holds (h.merge k) (M + bucketsOf Q) := by
  obtain ⟨hlayout, hholds⟩ := hh
  have hmerge :=
    hholds.merge (by rw [hlayout]; exact Hdr.defaultLayout_regular) (hk.1.trans hlayout.symm) hk.2
    (fun i hi => by rw [hlayout]; exact bucket_lt hi)
  exact ⟨hmerge.1.trans hlayout, hmerge.2⟩

/-- The failures of one result. -/
lemma failures_singleton (result : CommandResult) :
    failures {result} = if result.success then 0 else {result} := by
  rw [failures, Multiset.filter_singleton]
  cases result.success <;> rfl

/-- The samples of one result. -/
lemma bucketsOf_singleton (result : CommandResult) :
    bucketsOf {result} = if result.success then {bucket result} else 0 := by
  rw [bucketsOf, Multiset.filter_singleton]
  cases result.success <;> rfl

/-- The requests of both are those of each. -/
lemma requests_add {a b : ℤ} (ha : a = R.card) (hb : b = Q.card) : a + b = ((R + Q).card : ℤ) := by
  rw [Multiset.card_add, ha, hb]
  push_cast
  rfl

/-- The errors of both are those of each. -/
lemma errors_add {a b : ℤ} (ha : a = (failures R).card) (hb : b = (failures Q).card) :
    a + b = ((failures (R + Q)).card : ℤ) := by
  rw [failures_add]
  exact requests_add ha hb

/-- Results without latencies leave the histogram as it is. -/
lemma Tallies.add_uncounted (hm : m.Tallies engine R) (hQ : bucketsOf Q = 0) {requests errors : ℤ}
    (hrequests : requests = (R + Q).card) (herrors : errors = (failures (R + Q)).card) :
    ({ m with requests := requests, errors := errors } : CommandMetrics).Tallies
      engine (R + Q) := by
  have hbuckets : bucketsOf (R + Q) = bucketsOf R := by rw [bucketsOf_add, hQ, add_zero]
  exact ⟨hrequests, herrors, by rw [hbuckets]; exact hm.histogram,
    by rw [hbuckets]; exact hm.missing⟩

/-- A recorded result is counted. -/
theorem Tallies.record (hm : m.Tallies engine R) {result : CommandResult}
    (hlatency : result.success → 0 ≤ result.latencyMicros) :
    (m.record engine result).Tallies engine (R + {result}) := by
  have hrequests : m.requests + 1 = ((R + {result}).card : ℤ) := requests_add hm.requests rfl
  cases hsuccess : result.success with
  | false =>
    have hnone : bucketsOf {result} = 0 :=
      by rw [bucketsOf_singleton, hsuccess, if_neg Bool.noConfusion]
    have herror : failures {result} = {result} :=
      by rw [failures_singleton, hsuccess, if_neg Bool.noConfusion]
    have herrors : m.errors + 1 = ((failures (R + {result})).card : ℤ) :=
      errors_add hm.errors (by rw [herror]; rfl)
    cases engine <;> simp only [CommandMetrics.record, goRecord, phpRecord, hsuccess,
      Bool.false_eq_true, if_false] <;>
      exact hm.add_uncounted hnone hrequests herrors
  | true =>
    have hlatency := hlatency hsuccess
    have hbuckets : bucketsOf (R + {result}) = bucketsOf R + {bucket result} := by
      rw [bucketsOf_add, bucketsOf_singleton, hsuccess, if_pos rfl]
    have herrors : m.errors = ((failures (R + {result})).card : ℤ) := by
      rw [failures_add, failures_singleton, hsuccess, if_pos rfl, add_zero, hm.errors]
    cases engine with
    | go =>
      have hclamp : (if result.latencyMicros > maxTrackableMicros then maxTrackableMicros
          else result.latencyMicros) = min result.latencyMicros maxTrackableMicros := by
        split <;> omega
      simp only [CommandMetrics.record, goRecord, hsuccess, if_true, hclamp]
      refine ⟨hrequests, herrors, fun h hh => ?_, fun hnone => ?_⟩
      · obtain ⟨own, hown, rfl⟩ := Option.map_eq_some_iff.mp hh
        rw [hbuckets]
        exact holds_record .go (hm.histogram own hown) hlatency
      · have hown := hm.missing (Option.map_eq_none_iff.mp hnone)
        exact nomatch hown.1
    | php =>
      simp only [CommandMetrics.record, phpRecord, hsuccess, if_true]
      refine ⟨hrequests, herrors, fun h hh => ?_, fun hnone => nomatch hnone⟩
      cases hh
      rw [hbuckets]
      exact holds_record .php hm.getD hlatency

/-- A command ingests counts and a histogram. -/
theorem Tallies.ingest (hm : m.Tallies .php R) {requests errors : ℤ} {h : HdrHistogram}
    (hrequests : requests = Q.card) (herrors : errors = (failures Q).card)
    (hh : h.layout = defaultLayout ∧ Holds h (bucketsOf Q)) :
    (m.ingest requests errors h).Tallies .php (R + Q) := by
  have hrequests := requests_add hm.requests hrequests
  have herrors := errors_add hm.errors herrors
  have htotal := hh.2.total
  unfold CommandMetrics.ingest
  dsimp only
  split
  next hpos =>
    refine ⟨hrequests, herrors, fun k hk => ?_, fun hnone => nomatch hnone⟩
    cases hk
    rw [bucketsOf_add]
    exact holds_merge hm.getD hh
  next hzero => exact hm.add_uncounted (Multiset.card_eq_zero.mp (by omega)) hrequests herrors

/-- Merged metrics count the results of both. -/
theorem Tallies.mergeFrom (hm : m.Tallies engine R) (hother : other.Tallies engine Q) :
    (m.mergeFrom engine other).Tallies engine (R + Q) := by
  have hrequests := requests_add hm.requests hother.requests
  have herrors := errors_add hm.errors hother.errors
  cases engine with
  | go =>
    rw [CommandMetrics.mergeFrom, goMergeFrom]
    dsimp only
    split
    next h hh =>
      have hk := hother.histogram h hh
      have htotal := hk.2.total
      split
      next hpos =>
        refine ⟨hrequests, herrors, fun k hk' => ?_, fun hnone => ?_⟩
        · obtain ⟨own, hown, rfl⟩ := Option.map_eq_some_iff.mp hk'
          rw [bucketsOf_add]
          exact holds_merge (hm.histogram own hown) hk
        · exact nomatch (hm.missing (Option.map_eq_none_iff.mp hnone)).1
      next hzero => exact hm.add_uncounted (Multiset.card_eq_zero.mp (by omega)) hrequests herrors
    next hnone => exact nomatch (hother.missing hnone).1
  | php =>
    rw [CommandMetrics.mergeFrom, phpMergeFrom]
    dsimp only
    split
    next h hh => exact hm.ingest hother.requests hother.errors (hother.histogram h hh)
    next hnone => exact hm.add_uncounted (hother.missing hnone).2 hrequests herrors

/-- The total of the histogram is the number of successful results. -/
lemma Tallies.count_eq (hm : m.Tallies engine R) : m.count = (bucketsOf R).card := by
  unfold CommandMetrics.count
  cases hh : m.histogram with
  | none =>
    rw [(hm.missing hh).2]
    rfl
  | some h => exact (hm.histogram h hh).2.total

/-- The count at an index is the number of results in its bucket. -/
lemma Tallies.countAt_eq (hm : m.Tallies engine R) (i : ℕ) :
    m.countAt i = (bucketsOf R).count i := by
  unfold CommandMetrics.countAt
  cases hh : m.histogram with
  | none =>
    rw [(hm.missing hh).2]
    rfl
  | some h => exact (hm.histogram h hh).2.count i

end CommandMetrics

/-! ## Maps of commands -/

/-- A map of commands counts results. -/
structure CommandsTally (engine : Engine) (commands : List (String × CommandMetrics))
    (R : Multiset CommandResult) : Prop where
  nodup : (Table.keys commands).Nodup
  names : ∀ name, name ∈ Table.keys commands ↔ resultsOf name R ≠ 0
  metrics : ∀ name, (Table.get (newCommandMetrics engine name) name commands).Tallies engine
    (resultsOf name R)

namespace CommandsTally
variable {engine : Engine} {commands entries : List (String × CommandMetrics)}
  {R Q : Multiset CommandResult}

/-- No commands tally nothing. -/
lemma nil (engine : Engine) : CommandsTally engine [] 0 :=
  ⟨List.nodup_nil, fun _ => iff_of_false List.not_mem_nil fun h => h rfl,
    fun name => CommandMetrics.tallies_new engine name⟩

/-- A changed command tallies what was added. -/
lemma modify (h : CommandsTally engine commands R) {name : String}
    (hname : ∀ r ∈ Q, r.commandName = name) (hQ : Q ≠ 0) {f : CommandMetrics → CommandMetrics}
    (hf : ∀ m : CommandMetrics, m.Tallies engine (resultsOf name R) →
      (f m).Tallies engine (resultsOf name R + Q)) :
    CommandsTally engine (Table.modify (newCommandMetrics engine name) name f commands)
    (R + Q) := by
  have hsame : resultsOf name Q = Q := Multiset.filter_eq_self.mpr hname
  have hother : ∀ k, k ≠ name → resultsOf k Q = 0 := fun k hk =>
    Multiset.filter_eq_nil.mpr fun r hr heq => hk (heq.symm.trans (hname r hr))
  refine ⟨Table.nodup_modify h.nodup, fun k => ?_, fun k => ?_⟩
  · rw [Table.mem_keys_modify, h.names, resultsOf_add]
    by_cases hk : k = name
    · subst hk
      rw [hsame]
      exact iff_of_true (.inl rfl) fun hzero => hQ (add_eq_zero.mp hzero).2
    · rw [hother k hk, add_zero]
      exact or_iff_right hk
  · rw [Table.get_modify, resultsOf_add]
    by_cases hk : k = name
    · subst hk
      rw [if_pos rfl, hsame]
      exact hf _ (h.metrics k)
    · rw [if_neg hk, hother k hk, add_zero]
      exact h.metrics k

/-- An entry of the map counts the results of its command, which are not none. -/
lemma entry (h : CommandsTally engine commands R) {e : String × CommandMetrics}
    (he : e ∈ commands) :
    e.2.Tallies engine (resultsOf e.1 R) ∧ resultsOf e.1 R ≠ 0 := by
  have hget := Table.get_of_mem (newCommandMetrics engine e.1) h.nodup he
  refine ⟨hget ▸ h.metrics e.1, (h.names e.1).mp (List.mem_map_of_mem he)⟩

/-- Every result has a command in the map. -/
lemma name_mem (h : CommandsTally engine commands R) {r : CommandResult} (hr : r ∈ R) :
    r.commandName ∈ Table.keys commands :=
  (h.names r.commandName).mpr fun hzero =>
    Multiset.notMem_zero r (hzero ▸ Multiset.mem_filter.mpr ⟨hr, rfl⟩)

/-- The results of all commands are the results. -/
lemma sum_resultsOf {names : List String} (hnodup : names.Nodup)
    (hnames : ∀ r ∈ R, r.commandName ∈ names) :
    (names.map fun name => resultsOf name R).sum = R := by
  induction R using Multiset.induction_on with
  | empty =>
    refine List.sum_eq_zero fun x hx => ?_
    obtain ⟨name, -, rfl⟩ := List.mem_map.mp hx
    rfl
  | cons r R ih =>
    have hone : (names.map fun name => resultsOf name {r}).sum = {r} := by
      rw [← List.sum_toFinset _ hnodup, Finset.sum_eq_single r.commandName]
      · exact Multiset.filter_eq_self.mpr fun q hq => by rw [Multiset.mem_singleton.mp hq]
      · exact fun name _ hne => Multiset.filter_eq_nil.mpr fun q hq => by
          rw [Multiset.mem_singleton.mp hq]
          exact hne.symm
      · exact fun hno => absurd (List.mem_toFinset.mpr (hnames r (Multiset.mem_cons_self r R))) hno
    have hrest := ih fun q hq => hnames q (Multiset.mem_cons_of_mem hq)
    rw [← Multiset.singleton_add]
    simp only [resultsOf_add]
    rw [List.sum_map_add, hone, hrest]

/-- A loop over the entries of another map adds their results, when every round adds those of its
entry. -/
lemma foldl {commands' : List (String × CommandMetrics)} (h : CommandsTally engine commands R)
    (h' : CommandsTally engine commands' Q) (hperm : entries.Perm commands')
    (round : String × CommandMetrics → CommandMetrics → CommandMetrics)
    (hround : ∀ e ∈ entries, ∀ m S, CommandMetrics.Tallies engine m S →
      e.2.Tallies engine (resultsOf e.1 Q) →
      (round e m).Tallies engine (S + resultsOf e.1 Q)) :
    CommandsTally engine (entries.foldl (fun acc e =>
      Table.modify (newCommandMetrics engine e.1) e.1 (round e) acc) commands) (R + Q) := by
  have hnodup : (entries.map Prod.fst).Nodup := ((hperm.map Prod.fst).nodup_iff).mpr h'.nodup
  have hnames : ∀ r ∈ Q, r.commandName ∈ entries.map Prod.fst := fun r hr =>
    ((hperm.map Prod.fst).mem_iff).mpr (h'.name_mem hr)
  have hentry : ∀ e ∈ entries, e.2.Tallies engine (resultsOf e.1 Q) ∧
    resultsOf e.1 Q ≠ 0 := fun e he =>
    h'.entry (hperm.mem_iff.mp he)
  have hsum := sum_resultsOf hnodup hnames
  rw [List.map_map] at hsum
  rw [← hsum]
  clear hsum hnames hnodup hperm h'
  induction entries generalizing commands R with
  | nil => simpa using h
  | cons e entries ih =>
    obtain ⟨he, hrest⟩ := List.forall_mem_cons.mp hentry
    obtain ⟨hr, hround'⟩ := List.forall_mem_cons.mp hround
    rw [List.foldl_cons, List.map_cons, List.sum_cons, ← add_assoc]
    refine ih ?_ hround' hrest
    exact h.modify (fun r hr => (Multiset.mem_filter.mp hr).2) he.2 fun m hm => hr m _ hm he.1

end CommandsTally

/-! ## Collectors -/

namespace Collector
variable {T : Type*}

/-- The start of a window, later than all times when it is not set. -/
def windowStart (o : Option T) : WithTop T := o.elim ⊤ fun t => t

/-- The end of a window, earlier than all times when it is not set. -/
def windowStop (o : Option T) : WithBot T := o.elim ⊥ fun t => t

/-- The start of a window is that of one collector. -/
lemma windowStart_injective : Function.Injective (windowStart (T := T)) := by
  rintro (_ | a) (_ | b) h
  · rfl
  · exact absurd h.symm WithTop.coe_ne_top
  · exact absurd h WithTop.coe_ne_top
  · rw [WithTop.coe_injective h]

/-- The end of a window is that of one collector. -/
lemma windowStop_injective : Function.Injective (windowStop (T := T)) := by
  rintro (_ | a) (_ | b) h
  · rfl
  · exact absurd h.symm WithBot.coe_ne_bot
  · exact absurd h WithBot.coe_ne_bot
  · rw [WithBot.coe_injective h]

/-- A collector counts a tally. -/
structure Tallies (engine : Engine) (c : Collector T) (τ : Tally T) : Prop where
  commands : CommandsTally engine c.commandMetrics τ.results
  totalRequests : c.totalRequests = τ.results.card
  totalErrors : c.totalErrors = (failures τ.results).card
  start : windowStart c.startTime = τ.start
  stop : windowStop c.endTime = τ.stop

variable {engine : Engine} {c other : Collector T} {τ υ : Tally T}

/-- A new collector tallies nothing. -/
lemma tallies_new (engine : Engine) : (new : Collector T).Tallies engine 0 :=
  ⟨.nil engine, rfl, rfl, rfl, rfl⟩

/-- Starting the clock sets the start of the window. -/
lemma Tallies.start' (hc : c.Tallies engine τ) (now : T) :
    (c.start now).Tallies engine ⟨τ.results, now, τ.stop⟩ :=
  ⟨hc.commands, hc.totalRequests, hc.totalErrors, rfl, hc.stop⟩

/-- Stopping it sets the end. -/
lemma Tallies.stop' (hc : c.Tallies engine τ) (now : T) :
    (c.stop now).Tallies engine ⟨τ.results, τ.start, now⟩ :=
  ⟨hc.commands, hc.totalRequests, hc.totalErrors, hc.start, rfl⟩

/-- A recorded result is counted. -/
theorem Tallies.record (hc : c.Tallies engine τ) {result : CommandResult}
    (hlatency : result.success → 0 ≤ result.latencyMicros) :
    (c.record engine result).Tallies engine ⟨τ.results + {result}, τ.start, τ.stop⟩ := by
  refine ⟨?_, ?_, ?_, hc.start, hc.stop⟩
  · exact hc.commands.modify (fun r hr => by rw [Multiset.mem_singleton.mp hr])
      (Multiset.singleton_ne_zero _)
      fun m hm => hm.record hlatency
  · exact CommandMetrics.requests_add hc.totalRequests rfl
  · dsimp only [Collector.record]
    rw [hc.totalErrors, failures_add, CommandMetrics.failures_singleton]
    split
    · rw [add_zero]
    · rw [Multiset.card_add, Multiset.card_singleton]
      push_cast
      rfl

/-- Two collectors report the same: totals, commands, requests, errors and counts of every
command, and the window. -/
structure Same (engine : Engine) (c d : Collector T) : Prop where
  totalRequests : c.totalRequests = d.totalRequests
  totalErrors : c.totalErrors = d.totalErrors
  names : ∀ name, name ∈ Table.keys c.commandMetrics ↔ name ∈ Table.keys d.commandMetrics
  requests : ∀ name, (c.metrics engine name).requests = (d.metrics engine name).requests
  errors : ∀ name, (c.metrics engine name).errors = (d.metrics engine name).errors
  count : ∀ name, (c.metrics engine name).count = (d.metrics engine name).count
  countAt : ∀ name (index : ℕ), (c.metrics engine name).countAt index
    = (d.metrics engine name).countAt index
  startTime : c.startTime = d.startTime
  endTime : c.endTime = d.endTime

/-- The tally determines what a collector reports. -/
theorem Tallies.same {d : Collector T} (hc : c.Tallies engine τ) (hd : d.Tallies engine τ) :
    c.Same engine d where
  totalRequests := hc.totalRequests.trans hd.totalRequests.symm
  totalErrors := hc.totalErrors.trans hd.totalErrors.symm
  names name := (hc.commands.names name).trans (hd.commands.names name).symm
  requests name :=
    (hc.commands.metrics name).requests.trans (hd.commands.metrics name).requests.symm
  errors name := (hc.commands.metrics name).errors.trans (hd.commands.metrics name).errors.symm
  count name := (hc.commands.metrics name).count_eq.trans (hd.commands.metrics name).count_eq.symm
  countAt name index :=
    ((hc.commands.metrics name).countAt_eq index).trans
      ((hd.commands.metrics name).countAt_eq index).symm
  startTime := windowStart_injective (hc.start.trans hd.start.symm)
  endTime := windowStop_injective (hc.stop.trans hd.stop.symm)

/-- The commands of a merge that raises no error. -/
lemma mergeCommands_eq {commands commands' entries : List (String × CommandMetrics)}
    (h : entries.foldlM (mergeCommand engine) commands = some commands') :
    commands' = entries.foldl (fun acc e =>
      Table.modify (newCommandMetrics engine e.1) e.1 (fun m => m.mergeFrom engine e.2) acc)
        commands := by
  induction entries generalizing commands with
  | nil => exact (Option.some.inj h).symm
  | cons e entries ih =>
    rw [List.foldlM_cons] at h
    obtain ⟨next, hnext, hrest⟩ := Option.bind_eq_some_iff.mp h
    rw [mergeCommand] at hnext
    split at hnext
    · exact nomatch hnext
    · rw [List.foldl_cons, Option.some.inj hnext]
      exact ih hrest

/-- The names of a collector are names that a merge accepts: in Go all are, in PHP those that do
not read as an integer. -/
def Accepted (engine : Engine) (c : Collector T) : Prop :=
  ∀ name ∈ Table.keys c.commandMetrics, refused engine name = false

/-- Go accepts every collector. -/
lemma accepted_go (c : Collector T) : c.Accepted .go := fun _ _ => rfl

/-- A merge raises no error, if the commands that it refuses exist already. -/
lemma mergeCommands_isSome_iff {commands entries : List (String × CommandMetrics)} :
    (entries.foldlM (mergeCommand engine) commands).isSome ↔
      ∀ name ∈ Table.keys entries, refused engine name → name ∈ Table.keys commands := by
  induction entries generalizing commands with
  | nil => exact iff_of_true rfl fun _ hname => absurd hname List.not_mem_nil
  | cons e entries ih =>
    rw [List.foldlM_cons, mergeCommand,
      show Table.keys (e :: entries) = e.1 :: Table.keys entries from rfl, List.forall_mem_cons]
    by_cases he : e.1 ∉ Table.keys commands ∧ refused engine e.1
    · rw [if_pos he]
      exact iff_of_false Bool.noConfusion fun h => he.1 (h.1 he.2)
    · have hself : refused engine e.1 → e.1 ∈ Table.keys commands := fun hrefused =>
        not_not.mp fun hnot => he ⟨hnot, hrefused⟩
      rw [if_neg he, Option.bind_eq_bind, Option.bind_some, ih]
      refine ⟨fun h => ⟨hself, fun name hname hrefused => ?_⟩, fun h name hname hrefused => ?_⟩
      · rcases Table.mem_keys_modify.mp (h name hname hrefused) with rfl | hmem
        · exact hself hrefused
        · exact hmem
      · exact Table.mem_keys_modify.mpr (.inr (h.2 name hname hrefused))

/-- The names of merged commands are those of both. -/
lemma mem_keys_mergeCommands {commands commands' entries : List (String × CommandMetrics)}
    (h : entries.foldlM (mergeCommand engine) commands = some commands') (name : String) :
    name ∈ Table.keys commands' ↔ name ∈ Table.keys commands ∨ name ∈ Table.keys entries := by
  rw [mergeCommands_eq h]
  clear h
  induction entries generalizing commands with
  | nil => exact (or_iff_left List.not_mem_nil).symm
  | cons e entries ih =>
    rw [List.foldl_cons, ih, Table.mem_keys_modify,
      show Table.keys (e :: entries) = e.1 :: Table.keys entries from rfl, List.mem_cons]
    tauto

variable [LinearOrder T]

/-- A widened window begins with the earlier. -/
lemma windowStart_widen (a b : Option T) :
    windowStart (widenStart a b) = windowStart a ⊓ windowStart b := by
  cases b with
  | none => exact (inf_top_eq _).symm
  | some b =>
    cases a with
    | none => exact (top_inf_eq _).symm
    | some a =>
      rw [widenStart]
      split
      next h => exact (inf_eq_right.mpr (WithTop.coe_le_coe.mpr h.le)).symm
      next h => exact (inf_eq_left.mpr (WithTop.coe_le_coe.mpr (not_lt.mp h))).symm

/-- A widened window ends with the later. -/
lemma windowStop_widen (a b : Option T) : windowStop (widenEnd a b)
    = windowStop a ⊔ windowStop b := by
  cases b with
  | none => exact (sup_bot_eq _).symm
  | some b =>
    cases a with
    | none => exact (bot_sup_eq _).symm
    | some a =>
      rw [widenEnd]
      split
      next h => exact (sup_eq_right.mpr (WithBot.coe_le_coe.mpr h.le)).symm
      next h => exact (sup_eq_left.mpr (WithBot.coe_le_coe.mpr (not_lt.mp h))).symm

/-- The names of a merge are accepted if those of both collectors are. -/
lemma accepted_mergeFrom_iff {d : Collector T} {entries : List (String × CommandMetrics)}
    (hperm : entries.Perm other.commandMetrics) (hd : c.mergeFrom engine other entries = some d) :
    d.Accepted engine ↔ c.Accepted engine ∧ other.Accepted engine := by
  obtain ⟨commands, hcommands, rfl⟩ := Option.map_eq_some_iff.mp hd
  have hkeys : ∀ name, name ∈ Table.keys entries ↔
    name ∈ Table.keys other.commandMetrics := fun name =>
    (hperm.map Prod.fst).mem_iff
  unfold Accepted
  simp only [mem_keys_mergeCommands hcommands, hkeys, or_imp, forall_and]

/-- A merge of accepted commands raises no error. -/
lemma Accepted.mergeFrom (hc : c.Accepted engine) (hother : other.Accepted engine)
    {entries : List (String × CommandMetrics)} (hperm : entries.Perm other.commandMetrics) :
    ∃ d, c.mergeFrom engine other entries = some d ∧ d.Accepted engine := by
  have hsome : (c.mergeFrom engine other entries).isSome := by
    rw [Collector.mergeFrom, Option.isSome_map, mergeCommands_isSome_iff]
    intro name hname hrefused
    rw [hother name ((hperm.map Prod.fst).mem_iff.mp hname)] at hrefused
    exact nomatch hrefused
  obtain ⟨d, hd⟩ := Option.isSome_iff_exists.mp hsome
  exact ⟨d, hd, (accepted_mergeFrom_iff hperm hd).mpr ⟨hc, hother⟩⟩

/-- A merge into accepted commands that raises no error had accepted commands to merge. -/
lemma Accepted.of_mergeFrom {d : Collector T} (hc : c.Accepted engine)
    {entries : List (String × CommandMetrics)} (hperm : entries.Perm other.commandMetrics)
    (hd : c.mergeFrom engine other entries = some d) :
    other.Accepted engine := by
  intro name hname
  obtain ⟨commands, hcommands, -⟩ := Option.map_eq_some_iff.mp hd
  by_contra hrefused
  have hmem := mergeCommands_isSome_iff.mp (Option.isSome_of_mem hcommands) name
    ((hperm.map Prod.fst).mem_iff.mpr hname) (Bool.eq_true_of_not_eq_false hrefused)
  exact hrefused (hc name hmem)

/-- Whether a merge raises an error depends on the commands of both. -/
lemma Tallies.mergeFrom_isSome_iff (hc : c.Tallies engine τ) (hother : other.Tallies engine υ)
    {entries : List (String × CommandMetrics)} (hperm : entries.Perm other.commandMetrics) :
    (c.mergeFrom engine other entries).isSome ↔
      ∀ name, resultsOf name υ.results ≠ 0 → refused engine name →
      resultsOf name τ.results ≠ 0 := by
  rw [Collector.mergeFrom, Option.isSome_map, mergeCommands_isSome_iff]
  refine forall_congr' fun name => ?_
  rw [hc.commands.names, ← hother.commands.names]
  exact imp_congr_left (hperm.map Prod.fst).mem_iff

/-- Merging adds the tallies, whatever the order of the iteration. -/
theorem Tallies.mergeFrom (hc : c.Tallies engine τ) (hother : other.Tallies engine υ)
    {entries : List (String × CommandMetrics)} (hperm : entries.Perm other.commandMetrics)
    {d : Collector T} (hd : c.mergeFrom engine other entries = some d) :
    d.Tallies engine (τ + υ) := by
  obtain ⟨commands, hcommands, rfl⟩ := Option.map_eq_some_iff.mp hd
  refine ⟨?_, ?_, ?_, ?_, ?_⟩
  · rw [mergeCommands_eq hcommands]
    exact hc.commands.foldl hother.commands hperm (fun e m => m.mergeFrom engine e.2) fun e _ m S hm
      he => hm.mergeFrom he
  · exact CommandMetrics.requests_add hc.totalRequests hother.totalRequests
  · exact CommandMetrics.errors_add hc.totalErrors hother.totalErrors
  · rw [Tally.add_start, ← hc.start, ← hother.start, ← windowStart_widen]
  · rw [Tally.add_stop, ← hc.stop, ← hother.stop, ← windowStop_widen]

end Collector

end RespBench.Metrics
