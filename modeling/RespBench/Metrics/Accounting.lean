import RespBench.Metrics.Tally

/-!
# The accounts of a collector

A collector keeps the number of its requests four times: in its totals, in the counters of the
commands, in the totals of their histograms, and in the counts of these histograms
(`Collector.Accounted`). The four agree in every collector that counts a tally, whose cardinalities
they are (`Tallies.accounted`), and every collector that the engines can build counts one, as long
as no counter overflows (`Reachable.tallies`).
-/

namespace RespBench.Metrics.Collector
open RespBench.Lib
open RespBench.Hdr (Engine defaultLayout)

variable {T : Type*}

/-- The collectors that are built from new ones by starting, stopping, recording and merging. -/
inductive Reachable [LinearOrder T] (engine : Engine) : Collector T → Prop
  | new : Reachable engine new
  | start {c : Collector T} (now : T) : Reachable engine c → Reachable engine (c.start now)
  | stop {c : Collector T} (now : T) : Reachable engine c → Reachable engine (c.stop now)
  | record {c : Collector T} (result : CommandResult) (hlatency : result.success →
    0 ≤ result.latencyMicros) :
      Reachable engine c → Reachable engine (c.record engine result)
  | merge {c other d : Collector T} {entries : List (String × CommandMetrics)}
      (hentries : entries.Perm other.commandMetrics)
        (hd : c.mergeFrom engine other entries = some d) :
      Reachable engine c → Reachable engine other → Reachable engine d

variable {engine : Engine} {c : Collector T}

/-- A reachable collector counts some tally. -/
theorem Reachable.tallies [LinearOrder T] (hc : Reachable engine c) : ∃ τ, c.Tallies engine τ := by
  induction hc with
  | new => exact ⟨0, tallies_new engine⟩
  | start now _ ih =>
    obtain ⟨τ, hτ⟩ := ih
    exact ⟨_, hτ.start' now⟩
  | stop now _ ih =>
    obtain ⟨τ, hτ⟩ := ih
    exact ⟨_, hτ.stop' now⟩
  | record result hlatency _ ih =>
    obtain ⟨τ, hτ⟩ := ih
    exact ⟨_, hτ.record hlatency⟩
  | merge hentries hd _ _ ih ih' =>
    obtain ⟨τ, hτ⟩ := ih
    obtain ⟨υ, hυ⟩ := ih'
    exact ⟨_, hτ.mergeFrom hυ hentries hd⟩

/-! ## Sums over the commands -/

/-- A sum over the commands is the sum over the results, for a count that adds up. -/
lemma sum_commands {commands : List (String × CommandMetrics)} {R : Multiset CommandResult}
    (h : CommandsTally engine commands R) {f : CommandMetrics → ℤ}
    (part : Multiset CommandResult →+ ℕ)
    (hf : ∀ m Q, CommandMetrics.Tallies engine m Q → f m = part Q) :
    (commands.map fun e => f e.2).sum = part R := by
  have hvalue : ∀ e ∈ commands, f e.2 = ((part (resultsOf e.1 R) : ℕ) : ℤ) := fun e he =>
    hf e.2 _ (h.entry he).1
  have hsum := congrArg part (CommandsTally.sum_resultsOf h.nodup fun r hr => h.name_mem hr)
  rw [map_list_sum, Table.keys, List.map_map, List.map_map] at hsum
  rw [List.map_congr_left hvalue, ← hsum, Nat.cast_list_sum, List.map_map]
  rfl

/-- The number of errors, which adds up. -/
def errorCount : Multiset CommandResult →+ ℕ := Multiset.countPAddMonoidHom (·.success = false)

/-- There are as many errors as failures. -/
lemma errorCount_eq (R : Multiset CommandResult) : errorCount R = (failures R).card :=
  Multiset.countP_eq_card_filter _ _

/-! ## The invariant -/

/-- The accounts of a collector agree. -/
structure Accounted (c : Collector T) : Prop where
  totalRequests : c.totalRequests = (c.commandMetrics.map fun e => e.2.requests).sum
  totalErrors : c.totalErrors = (c.commandMetrics.map fun e => e.2.errors).sum
  errors_le : ∀ e ∈ c.commandMetrics, e.2.errors ≤ e.2.requests
  successes : ∀ e ∈ c.commandMetrics, e.2.requests - e.2.errors = e.2.count
  counts : ∀ e ∈ c.commandMetrics, ∀ h, e.2.histogram = some h →
    h.total = ((List.range h.layout.countsLen.toNat).map fun i : ℕ => h.rawCountAt i).sum

/-- The accounts of a collector that counts a tally agree. -/
lemma Tallies.accounted {τ : Tally T} (hc : c.Tallies engine τ) : c.Accounted where
  totalRequests := by
    rw [hc.totalRequests, sum_commands hc.commands Multiset.cardHom fun m Q hm => hm.requests]
    rfl
  totalErrors := by
    rw [hc.totalErrors, sum_commands hc.commands errorCount fun m Q hm =>
      by rw [hm.errors, errorCount_eq], errorCount_eq]
  errors_le e he := by
    obtain ⟨hentry, -⟩ := hc.commands.entry he
    have hcard := card_failures (resultsOf e.1 τ.results)
    rw [hentry.requests, hentry.errors]
    omega
  successes e he := by
    obtain ⟨hentry, -⟩ := hc.commands.entry he
    have hcard := card_failures (resultsOf e.1 τ.results)
    rw [hentry.requests, hentry.errors, hentry.count_eq]
    omega
  counts e he h hh := by
    obtain ⟨hentry, -⟩ := hc.commands.entry he
    obtain ⟨hlayout, hholds⟩ := hentry.histogram h hh
    have hbound : ∀ i ∈ bucketsOf (resultsOf e.1 τ.results), i < h.layout.countsLen.toNat :=
      fun i hi => by
      have := bucket_lt hi
      rw [hlayout]
      omega
    simp only [hholds.count]
    rw [hholds.total, Hdr.sum_counts hbound]

/-- A worker with a latency and an error. -/
def pingWorker (engine : Engine) : Collector ℕ :=
  (((new.start 10).record engine ⟨"PING", 120, true⟩).record engine ⟨"SET", 0, false⟩).stop 20

/-- A worker that was never started, with a latency above the ceiling. -/
def setWorker (engine : Engine) : Collector ℕ := new.record engine ⟨"SET", 1000000000000, true⟩

/-- The first worker of the example is reachable. -/
lemma reachable_pingWorker (engine : Engine) : Reachable engine (pingWorker engine) :=
  .stop _ (.record _ (fun h => nomatch h) (.record _ (fun _ => by decide) (.start _ .new)))

/-- The second worker of the example is reachable. -/
lemma reachable_setWorker (engine : Engine) : Reachable engine (setWorker engine) :=
  .record _ (fun _ => by decide) .new

/-- The first worker of the example is accepted. -/
lemma accepted_pingWorker (engine : Engine) : (pingWorker engine).Accepted engine := by
  cases engine with
  | go => exact accepted_go _
  | php =>
    unfold Accepted
    decide

/-- The second worker of the example is accepted. -/
lemma accepted_setWorker (engine : Engine) : (setWorker engine).Accepted engine := by
  cases engine with
  | go => exact accepted_go _
  | php =>
    unfold Accepted
    decide

end RespBench.Metrics.Collector
