import RespBench.Hdr.Compressed
import RespBench.Lib.Runs
import RespBench.Metrics.Accounting

/-!
# The rows of a phase

What the Go and PHP writers put into the NDJSON line of a phase about the commands: `buildRecord`
and `buildCommandMetrics`. The summary of a histogram is computed in doubles;
`countAtPercentile_mono` says that their ranks keep the order of the percentiles, so that the
summary is ordered (`HoldsBelow.summary`). `rows_coherent` puts this together with the accounts of
the collector and the compressed histogram.
-/

namespace RespBench.Hdr
open RespBench.Lib

/-! ## Percentiles in doubles -/

section Ranks
variable {n : ℕ} {p q : ℚ}

/-- With fewer than `2 ^ 53` samples a percentile has a rank. -/
lemma exists_countAtPercentile (hn : n < 2 ^ 53) (h0 : 0 ≤ p) (h100 : p ≤ 100) :
    ∃ countAt, HdrHistogram.countAtPercentile Binary64.round p n = some countAt := by
  have hfrac : p / 100 < 2 ^ 1 := by linarith
  obtain ⟨fraction, hfraction⟩ := Binary64.exists_round (by positivity) (by norm_num) hfrac
  have hfraction0 := Binary64.round_nonneg (by positivity) hfraction
  have hone : Binary64.round 1 = some 1 := by
    exact_mod_cast Binary64.round_natCast (n := 1) (by norm_num)
  have hle : fraction ≤ 1 := Binary64.round_mono (by positivity) (by linarith) hfraction hone
  have hlt : fraction * n < 2 ^ 53 := by
    have hcast : (n : ℚ) < 2 ^ 53 := by exact_mod_cast hn
    nlinarith
  obtain ⟨rank, hrank⟩ := Binary64.exists_round (by positivity) (by norm_num) hlt
  refine ⟨max ⌈rank⌉ 1, ?_⟩
  rw [HdrHistogram.countAtPercentile, hfraction, Int.cast_natCast, Binary64.round_natCast hn]
  dsimp only [Option.bind_eq_bind, Option.bind_some]
  rw [hrank]
  rfl

/-- The ranks keep the order of the percentiles. -/
lemma countAtPercentile_mono (h0 : 0 ≤ p) (hpq : p ≤ q) {a b : ℤ}
    (ha : HdrHistogram.countAtPercentile Binary64.round p n = some a)
    (hb : HdrHistogram.countAtPercentile Binary64.round q n = some b) : a ≤ b := by
  obtain ⟨fraction, hfraction, ha⟩ := Option.bind_eq_some_iff.mp ha
  obtain ⟨samples, hsamples, ha⟩ := Option.bind_eq_some_iff.mp ha
  obtain ⟨rank, hrank, ha⟩ := Option.bind_eq_some_iff.mp ha
  obtain ⟨fraction', hfraction', hb⟩ := Option.bind_eq_some_iff.mp hb
  obtain ⟨samples', hsamples', hb⟩ := Option.bind_eq_some_iff.mp hb
  obtain ⟨rank', hrank', hb⟩ := Option.bind_eq_some_iff.mp hb
  cases ha
  cases hb
  cases hsamples.symm.trans hsamples'
  have hsamples0 := Binary64.round_nonneg (by positivity) hsamples
  have hfraction0 := Binary64.round_nonneg (by positivity) hfraction
  have hle : fraction ≤ fraction' :=
    Binary64.round_mono (by positivity) (by linarith) hfraction hfraction'
  have hranks : rank ≤ rank' :=
    Binary64.round_mono (by positivity) (mul_le_mul_of_nonneg_right hle hsamples0) hrank hrank'
  exact max_le_max (Int.ceil_le_ceil hranks) le_rfl

end Ranks

/-- Every rank is that of an element. -/
lemma exists_isRank {M : Multiset ℕ} {rank : ℕ} (hpos : 1 ≤ rank) (hle : rank ≤ M.card) :
    ∃ i, IsRank M rank i := by
  have hlt : rank - 1 < (M.sort (· ≤ ·)).length := by
    rw [Multiset.length_sort]
    omega
  have hrank := isRank_getElem (M.pairwise_sort (· ≤ ·)) hlt
  rw [Multiset.sort_eq, Nat.sub_add_cancel hpos] at hrank
  exact ⟨_, hrank⟩

namespace HoldsBelow
variable {h : HdrHistogram} {M : Multiset ℕ} (hh : HoldsBelow h M) (hM : 0 < M.card)
  (hcard : M.card < 2 ^ 53) {p q : ℚ} {v w : ℤ}
include hh hM hcard

/-- A percentile is the largest value of the bucket of its rank. -/
theorem valueAtPercentile (h0 : 0 ≤ p) (h100 : p ≤ 100) : ∃ rank i : ℕ,
    HdrHistogram.countAtPercentile Binary64.round p M.card = some (rank : ℤ) ∧ IsRank M rank i ∧
      h.valueAtPercentile Binary64.round p
        = some (defaultLayout.highestEquivalentValue (defaultLayout.floor i)) := by
  obtain ⟨countAt, hcount⟩ := exists_countAtPercentile hcard h0 h100
  have hround : ∀ samples, Binary64.round M.card = some samples → samples ≤ M.card := by
    intro samples hsamples
    rw [Binary64.round_natCast hcard] at hsamples
    cases hsamples
    exact le_rfl
  obtain ⟨hone, hle⟩ := double_rank_le hM hround h0 h100 hcount
  obtain ⟨rank, rfl⟩ := Int.eq_ofNat_of_zero_le (by omega : 0 ≤ countAt)
  obtain ⟨i, hrank⟩ := exists_isRank (M := M) (by omega : 1 ≤ rank) (by omega)
  have hi := hh.below i hrank.mem
  have hscan := scan_eq_some hh.holds hrank (by omega : i < defaultLayout.countsLen.toNat)
  rw [hh.layout, valueFromIndex_eq defaultLayout_regular hi] at hscan
  refine ⟨rank, i, hcount, hrank, ?_⟩
  rw [HdrHistogram.valueAtPercentile, hh.holds.total, if_neg (by omega), max_eq_left h0,
    min_eq_left h100, hcount, Option.map_some, hh.layout, hscan, Option.getD_some]

/-- Percentiles are ordered. -/
lemma percentile_mono (h0 : 0 ≤ p) (hpq : p ≤ q) (h100 : q ≤ 100)
    (hv : h.valueAtPercentile Binary64.round p = some v)
    (hw : h.valueAtPercentile Binary64.round q = some w) :
    v ≤ w := by
  obtain ⟨a, i, ha, hi, hpi⟩ := hh.valueAtPercentile hM hcard h0 (hpq.trans h100)
  obtain ⟨b, j, hb, hj, hqj⟩ := hh.valueAtPercentile hM hcard (h0.trans hpq) h100
  have hab := countAtPercentile_mono h0 hpq ha hb
  have hij := hi.le_of_le hj (by omega)
  have hfloor : defaultLayout.floor i ≤ defaultLayout.floor j :=
    (LogLinear.floor_strictMono _ _).monotone hij
  rw [Option.some_inj.mp (hv.symm.trans hpi), Option.some_inj.mp (hw.symm.trans hqj)]
  exact highestEquivalentValue_mono defaultLayout_regular hfloor
    (floor_lt defaultLayout_regular (hh.below j hj.mem))

end HoldsBelow

end RespBench.Hdr

namespace RespBench.Metrics
open RespBench.Lib
open RespBench.Hdr (Engine HdrHistogram HoldsBelow defaultLayout)

/-! ## The blocks of a line -/

/-- The double 99.9. -/
def p999 : ℚ := 3514918771674317 / 2 ^ 45

example : Binary64.round (999 / 10) = some p999 := by decide +kernel

/-- The summary of the latencies, in microseconds. -/
structure Summary where
  min : ℤ
  p50 : ℤ
  p95 : ℤ
  p99 : ℤ
  p999 : ℤ
  max : ℤ
deriving DecidableEq, Inhabited

/-- The histogram, compressed; the writers encode the payload in base64. -/
structure HdrBlock where
  format : String
  sigfig : ℕ
  payload : List UInt8
deriving DecidableEq, Inhabited

structure LatencyBlock where
  unit : String
  count : ℤ
  summary : Summary
  hdr : Option HdrBlock
deriving DecidableEq, Inhabited

structure CommandBlock where
  requests : ℤ
  errors : ℤ
  latency : LatencyBlock
deriving DecidableEq, Inhabited

/-- The summary of a histogram; `none` when a double is infinite. -/
def summary (h : HdrHistogram) : Option Summary := do
  let min ← h.min Binary64.round
  let p50 ← h.valueAtPercentile Binary64.round 50
  let p95 ← h.valueAtPercentile Binary64.round 95
  let p99 ← h.valueAtPercentile Binary64.round 99
  let p999 ← h.valueAtPercentile Binary64.round p999
  let max ← h.max Binary64.round
  return ⟨min, p50, p95, p99, p999, max⟩

/-- One round of the loop of `buildRecord` over the commands. -/
def goBlock (deflate : List UInt8 → Option (List UInt8)) (cm : CommandMetrics) :
    Option CommandBlock := do
  let histogram ← cm.histogram
  let summary ← summary histogram
  let hdr := (Hdr.Go.EncodeCompressed deflate histogram).map fun payload => ⟨"hdr", 3, payload⟩
  return ⟨cm.requests, cm.errors, ⟨"us", histogram.total, summary, hdr⟩⟩

/-- `encodeHistogram`, which returns an empty string when the encoder throws. -/
def encodeHistogram (deflate : List UInt8 → Option (List UInt8))
    (histogram : HdrHistogram) : List UInt8 :=
  (Hdr.Php.encodeCompressed deflate histogram).getD []

/-- One round of the loop of `buildCommandMetrics`; without a histogram all values are zero. -/
def phpBlock (deflate : List UInt8 → Option (List UInt8)) (cmd : CommandMetrics) :
    Option CommandBlock :=
  match cmd.histogram with
  | none => some ⟨cmd.requests, cmd.errors, ⟨"us", cmd.count, ⟨0, 0, 0, 0, 0, 0⟩, none⟩⟩
  | some histogram => do
    let summary ← summary histogram
    return ⟨cmd.requests, cmd.errors,
      ⟨"us", cmd.count, summary, some ⟨"hdr", 3, encodeHistogram deflate histogram⟩⟩⟩

def commandBlock (deflate : List UInt8 → Option (List UInt8)) :
    Engine → CommandMetrics → Option CommandBlock
  | .go => goBlock deflate
  | .php => phpBlock deflate

/-- What a line says about the requests. -/
structure PhaseMetrics where
  requests : ℤ
  errors : ℤ
  metrics : List (String × CommandBlock)
deriving DecidableEq, Inhabited

/-- The totals and the metrics of `buildRecord` and `buildPhaseJson`. -/
def phaseMetrics {T : Type*} (deflate : List UInt8 → Option (List UInt8)) (engine : Engine)
    (c : Collector T) :
    Option PhaseMetrics := do
  let metrics ← c.commandMetrics.mapM fun e => (commandBlock deflate engine e.2).map (e.1, ·)
  return ⟨c.totalRequests, c.totalErrors, metrics⟩

/-! ## One command -/

/-- The values of a summary are in their order, and at most that of the ceiling of the
histograms. -/
structure Summary.Ordered (s : Summary) : Prop where
  nonneg : 0 ≤ s.min
  p50 : s.min ≤ s.p50
  p95 : s.p50 ≤ s.p95
  p99 : s.p95 ≤ s.p99
  p999 : s.p99 ≤ s.p999
  max : s.p999 ≤ s.max
  le : s.max ≤ defaultLayout.highestEquivalentValue maxTrackableMicros

/-- A block agrees with itself: the latencies are those of the requests that are not errors, and
their summary is ordered. -/
structure CommandBlock.Coherent (b : CommandBlock) : Prop where
  count : b.requests = b.errors + b.latency.count
  errors : 0 ≤ b.errors
  latencies : 0 ≤ b.latency.count
  ordered : b.latency.summary.Ordered
  empty : b.latency.count = 0 → b.latency.summary = ⟨0, 0, 0, 0, 0, 0⟩

/-- A summary of zeros is ordered. -/
lemma zero_ordered : (⟨0, 0, 0, 0, 0, 0⟩ : Summary).Ordered := by
  have hle : 0 ≤ defaultLayout.highestEquivalentValue maxTrackableMicros := by decide +kernel
  exact ⟨le_rfl, le_rfl, le_rfl, le_rfl, le_rfl, le_rfl, hle⟩

/-- The largest value of a bucket of latencies. -/
lemma highest_bounds {R : Multiset CommandResult} {i : ℕ} (hi : i ∈ bucketsOf R) :
    0 ≤ defaultLayout.highestEquivalentValue (defaultLayout.floor i) ∧
      defaultLayout.highestEquivalentValue (defaultLayout.floor i)
        ≤ defaultLayout.highestEquivalentValue maxTrackableMicros := by
  obtain ⟨result, -, rfl⟩ := Multiset.mem_map.mp hi
  have hcap : (min result.latencyMicros maxTrackableMicros).toNat ≤ 600000000 := by
    have : maxTrackableMicros = 600000000 := rfl
    omega
  have hfloor : defaultLayout.floor (bucket result) ≤ 600000000 :=
    LogLinear.floor_le_iff.mpr (LogLinear.index_mono _ _ hcap)
  have hmono :=
    fun {n m : ℕ} => Hdr.highestEquivalentValue_mono Hdr.defaultLayout_regular (n := n) (m := m)
  have hlow : 0 ≤ defaultLayout.highestEquivalentValue (0 : ℕ) := by decide +kernel
  exact ⟨hlow.trans (hmono (Nat.zero_le _) (by omega)), hmono hfloor (by norm_num)⟩

/-- The summary of the buckets of some results. -/
lemma summary_ordered {h : HdrHistogram} {R : Multiset CommandResult}
    (hh : HoldsBelow h (bucketsOf R)) (hcard : (bucketsOf R).card < 2 ^ 53) :
    ∃ s, summary h = some s ∧ s.Ordered ∧
      ((bucketsOf R).card = 0 → s = ⟨0, 0, 0, 0, 0, 0⟩) := by
  rcases Nat.eq_zero_or_pos (bucketsOf R).card with hnone | hsome
  · have htotal : h.total = 0 := by
      rw [hh.holds.total, hnone]
      rfl
    refine ⟨⟨0, 0, 0, 0, 0, 0⟩, ?_, zero_ordered, fun _ => rfl⟩
    simp only [summary, HdrHistogram.min, HdrHistogram.max, HdrHistogram.valueAtPercentile,
      if_pos htotal]
    rfl
  · have hvalue : ∀ p : ℚ, 0 ≤ p → p ≤ 100 → ∃ v,
      h.valueAtPercentile Binary64.round p = some v ∧ 0 ≤ v ∧
        v ≤ defaultLayout.highestEquivalentValue maxTrackableMicros := by
      intro p h0 h100
      obtain ⟨_, i, -, hrank, hv⟩ := hh.valueAtPercentile hsome hcard h0 h100
      exact ⟨_, hv, highest_bounds hrank.mem⟩
    have hmono :=
      fun {p q : ℚ} {v w : ℤ} => hh.percentile_mono hsome hcard (p := p) (q := q) (v := v) (w := w)
    have htotal : h.total ≠ 0 := by
      rw [hh.holds.total]
      omega
    obtain ⟨v0, h0, hnonneg, -⟩ := hvalue 0 le_rfl (by norm_num)
    obtain ⟨v50, h50, -⟩ := hvalue 50 (by norm_num) (by norm_num)
    obtain ⟨v95, h95, -⟩ := hvalue 95 (by norm_num) (by norm_num)
    obtain ⟨v99, h99, -⟩ := hvalue 99 (by norm_num) (by norm_num)
    obtain ⟨v999, h999, -⟩ := hvalue p999 (by norm_num [p999]) (by norm_num [p999])
    obtain ⟨v100, h100, -, hle⟩ := hvalue 100 (by norm_num) le_rfl
    refine ⟨⟨v0, v50, v95, v99, v999, v100⟩, ?_, ⟨hnonneg, ?_, ?_, ?_, ?_, ?_, hle⟩, by omega⟩
    · simp only [summary, HdrHistogram.min, HdrHistogram.max, if_neg htotal, h0, h50, h95,
        h99, h999, h100]
      rfl
    · exact hmono le_rfl (by norm_num) (by norm_num) h0 h50
    · exact hmono (by norm_num) (by norm_num) (by norm_num) h50 h95
    · exact hmono (by norm_num) (by norm_num) (by norm_num) h95 h99
    · exact hmono (by norm_num) (by norm_num [p999]) (by norm_num [p999]) h99 h999
    · exact hmono (by norm_num [p999]) (by norm_num [p999]) le_rfl h999 h100

/-! ## The commands of a collector -/

variable {T : Type*} {engine : Engine} {m : CommandMetrics} {R : Multiset CommandResult}

/-- A histogram of fewer than 2^53 results has counts of 64 bits. -/
lemma CommandMetrics.Tallies.holdsBelow (hm : m.Tallies engine R) (hR : R.card < 2 ^ 53)
    {h : HdrHistogram} (hh : m.histogram = some h) : HoldsBelow h (bucketsOf R) where
  layout := (hm.histogram h hh).1
  holds := (hm.histogram h hh).2
  below _ hi := bucket_lt hi
  card := by
    have := card_failures R
    omega

/-- A block with the counters of a command. -/
lemma CommandMetrics.Tallies.coherent (hm : m.Tallies engine R) {s : Summary} (hordered : s.Ordered)
    (hempty : (bucketsOf R).card = 0 → s = ⟨0, 0, 0, 0, 0, 0⟩) (hdr : Option HdrBlock) :
    (⟨m.requests, m.errors, ⟨"us", m.count, s, hdr⟩⟩ : CommandBlock).Coherent := by
  have hcard := card_failures R
  have hcount := hm.count_eq
  have hrequests := hm.requests
  have herrors := hm.errors
  exact ⟨by dsimp only; omega, by dsimp only; omega, by dsimp only; omega, hordered,
    fun h => hempty (by
    dsimp only at h
    omega)⟩

/-- The block of a command, from whose payload the reader counts the same results. -/
theorem CommandMetrics.Tallies.commandBlock (hm : m.Tallies engine R) (hR : R.card < 2 ^ 53)
    {new : ℤ → ℤ → ℕ → Hdr.Ruby.Histogram} (hnew : new 1 600000000 3 = Hdr.gemDefault)
    {inflate deflate : List UInt8 → Option (List UInt8)}
    (hzlib : ∀ h, m.histogram = some h → Hdr.Inflates inflate deflate (engine.encodeV2 h)) :
    ∃ b, commandBlock deflate engine m = some b ∧ b.requests = m.requests ∧
    b.errors = m.errors ∧ b.Coherent ∧
      ∀ hdr, b.latency.hdr = some hdr → Hdr.Ruby.decode_compressed inflate new hdr.payload
        = .ok (Hdr.gemHistogram (bucketsOf R), b.latency.count) := by
  have hcard := card_failures R
  cases hh : m.histogram with
  | none =>
    obtain ⟨rfl, hnone⟩ := hm.missing hh
    have hblock : Metrics.commandBlock deflate .php m
        = some ⟨m.requests, m.errors, ⟨"us", m.count, ⟨0, 0, 0, 0, 0, 0⟩, none⟩⟩ := by
      rw [Metrics.commandBlock, phpBlock, hh]
    exact ⟨_, hblock, rfl, rfl, hm.coherent zero_ordered (fun _ => rfl) none,
      fun hdr hnone => nomatch hnone⟩
  | some h =>
    have hbelow := hm.holdsBelow hR hh
    obtain ⟨s, hs, hordered, hempty⟩ := summary_ordered hbelow (by omega)
    obtain ⟨data, hdata, hread⟩ := hbelow.decode_compressed hnew engine (hzlib h hh)
    have hpayload := hread []
    rw [List.append_nil, ← hm.count_eq] at hpayload
    have hblock : Metrics.commandBlock deflate engine m
        = some ⟨m.requests, m.errors, ⟨"us", m.count, s, some ⟨"hdr", 3, data⟩⟩⟩ := by
      have hcount : m.count = h.total := by rw [CommandMetrics.count, hh]; rfl
      cases engine with
      | go =>
        have hdata : Hdr.Go.EncodeCompressed deflate h = some data := hdata
        rw [Metrics.commandBlock, goBlock, hh, hcount]
        dsimp only [Option.bind_eq_bind, Option.bind_some]
        rw [hs, hdata]
        rfl
      | php =>
        have hdata : Hdr.Php.encodeCompressed deflate h = some data := hdata
        rw [Metrics.commandBlock, phpBlock, hh]
        dsimp only [Option.bind_eq_bind, Option.bind_some]
        rw [hs, encodeHistogram, hdata]
        rfl
    refine ⟨_, hblock, rfl, rfl, hm.coherent hordered hempty _, fun hdr hsome => ?_⟩
    cases hsome
    exact hpayload

/-! ## The line -/

/-- A line agrees with itself and with its collector: a block for every command, whose counters
add up to the totals. -/
structure PhaseMetrics.Coherent (line : PhaseMetrics) (c : Collector T) : Prop where
  totals : line.requests = c.totalRequests ∧ line.errors = c.totalErrors
  names : line.metrics.map Prod.fst = Table.keys c.commandMetrics
  nodup : (line.metrics.map Prod.fst).Nodup
  requests : line.requests = (line.metrics.map fun e => e.2.requests).sum
  errors : line.errors = (line.metrics.map fun e => e.2.errors).sum
  blocks : ∀ e ∈ line.metrics, e.2.Coherent

/-- What a reader gets of a payload: the counts of the command, and their number. -/
def PhaseMetrics.Readable (inflate : List UInt8 → Option (List UInt8))
    (new : ℤ → ℤ → ℕ → Hdr.Ruby.Histogram) (engine : Engine) (line : PhaseMetrics)
    (c : Collector T) : Prop :=
  ∀ e ∈ line.metrics, ∀ hdr, e.2.latency.hdr = some hdr →
    ∃ g, Hdr.Ruby.decode_compressed inflate new hdr.payload = .ok (g, e.2.latency.count) ∧
      ∀ i : ℕ, g.get_raw_count i = (c.metrics engine e.1).countAt i

namespace Collector
variable {c : Collector T}

/-- The line of every collector that is built by recording and merging fewer than `2 ^ 53` requests:
no percentile is missing, and none is out of order. -/
theorem rows_coherent [LinearOrder T] (hc : Reachable engine c) (hcard : c.totalRequests < 2 ^ 53)
    {new : ℤ → ℤ → ℕ → Hdr.Ruby.Histogram} (hnew : new 1 600000000 3 = Hdr.gemDefault)
    {inflate deflate : List UInt8 → Option (List UInt8)}
    (hzlib : ∀ e ∈ c.commandMetrics, ∀ h, e.2.histogram = some h →
      Hdr.Inflates inflate deflate (engine.encodeV2 h)) :
    ∃ line, phaseMetrics deflate engine c = some line ∧ line.Coherent c ∧
    line.Readable inflate new engine c := by
  obtain ⟨τ, hτ⟩ := hc.tallies
  have hblock : ∀ e ∈ c.commandMetrics, ∃ b, commandBlock deflate engine e.2 = some b ∧
      b.requests = e.2.requests ∧ b.errors = e.2.errors ∧ b.Coherent ∧
      ∀ hdr, b.latency.hdr = some hdr → Hdr.Ruby.decode_compressed inflate new hdr.payload
        = .ok (Hdr.gemHistogram (bucketsOf (resultsOf e.1 τ.results)), b.latency.count) := by
    intro e he
    have hle := Multiset.card_le_card (Multiset.filter_le (·.commandName = e.1) τ.results)
    have htotal := hτ.totalRequests
    exact (hτ.commands.entry he).1.commandBlock (by unfold resultsOf; omega) hnew (hzlib e he)
  choose! block hblock hrequests herrors hcoherent hread using hblock
  have hmetrics : (c.commandMetrics.mapM fun e => (commandBlock deflate engine e.2).map (e.1, ·))
      = some (c.commandMetrics.map fun e => (e.1, block e)) :=
    Runs.mapM_eq_map fun e he => by rw [hblock e he, Option.map_some]
  have hnames : (c.commandMetrics.map fun e => (e.1, block e)).map Prod.fst
    = Table.keys c.commandMetrics := by
    rw [List.map_map]
    rfl
  refine ⟨⟨c.totalRequests, c.totalErrors, c.commandMetrics.map fun e => (e.1, block e)⟩, ?_,
    ⟨⟨rfl, rfl⟩, hnames, hnames ▸ hτ.commands.nodup, ?_, ?_, ?_⟩, ?_⟩
  · rw [phaseMetrics, hmetrics]
    rfl
  · dsimp only
    rw [hτ.accounted.totalRequests, List.map_map,
      List.map_congr_left fun e he => (hrequests e he).symm]
    rfl
  · dsimp only
    rw [hτ.accounted.totalErrors, List.map_map, List.map_congr_left fun e he => (herrors e he).symm]
    rfl
  · intro entry hentry
    obtain ⟨e, he, rfl⟩ := List.mem_map.mp hentry
    exact hcoherent e he
  · intro entry hentry hdr hhdr
    obtain ⟨e, he, rfl⟩ := List.mem_map.mp hentry
    refine ⟨_, hread e he hdr hhdr, fun i => ?_⟩
    exact ((hτ.commands.metrics e.1).countAt_eq i).symm

/-- A request that took a microsecond, and one that failed. -/
def pingAndSet : Collector ℕ := (new.record .php ⟨"PING", 1, true⟩).record .php ⟨"SET", 0, false⟩

/-- The collector of the example is reachable. -/
lemma reachable_pingAndSet : Reachable .php pingAndSet :=
  .record _ (fun h => absurd h Bool.false_ne_true) (.record _ (fun _ => zero_le_one) .new)

/-- The row of the example is coherent and readable. -/
theorem pingAndSet_rows : ∃ line, phaseMetrics Hdr.oneDeflate .php pingAndSet = some line ∧
    line.Coherent pingAndSet ∧ line.Readable Hdr.oneInflate Hdr.oneNew .php pingAndSet := by
  refine rows_coherent reachable_pingAndSet (by decide) rfl fun e he h hh => ?_
  have hcommands : pingAndSet.commandMetrics
      = [("PING", ⟨"PING", 1, 0, some Hdr.oneSample⟩), ("SET", ⟨"SET", 1, 1, none⟩)] := rfl
  rw [hcommands] at he
  rcases List.mem_cons.mp he with rfl | he
  · obtain rfl : Hdr.oneSample = h := Option.some.inj hh
    exact Hdr.oneSample_inflates
  · rw [List.mem_singleton.mp he] at hh
    exact absurd hh.symm (Option.some_ne_none h)

end Collector

end RespBench.Metrics
