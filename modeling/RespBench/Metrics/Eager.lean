import RespBench.Lib.Table
import RespBench.Metrics.Collector

/-!
# Collectors with a library's histogram

The collectors of the Node and Python engines, and what those of the Java and C# engines
keep: for every command its counters and a histogram of a library, created with the command,
and the totals. They differ in how they bound a latency before they record it, which is a
parameter here. A histogram is the list of the values that were recorded in it, and its total
count the length of this list.

`Accounts` is what every sequence of records preserves (`Accounts.record`).
-/

namespace RespBench.Metrics.Eager
open RespBench.Lib

structure CommandMetrics where
  commandName : String
  requests : ℕ
  errors : ℕ
  histogram : List ℤ
deriving DecidableEq

namespace CommandMetrics

def new (commandName : String) : CommandMetrics := ⟨commandName, 0, 0, []⟩

def record (bounded : ℤ → ℤ) (m : CommandMetrics) (result : CommandResult) : CommandMetrics :=
  let m := { m with requests := m.requests + 1 }
  if result.success then { m with histogram := m.histogram ++ [bounded result.latencyMicros] }
  else { m with errors := m.errors + 1 }

def count (m : CommandMetrics) : ℕ := m.histogram.length

end CommandMetrics

/-- Commands are a map that keeps the order of insertion. -/
structure MetricsCollector where
  commandMetrics : List (String × CommandMetrics)
  totalRequests : ℕ
  totalErrors : ℕ
deriving DecidableEq

namespace MetricsCollector

def new : MetricsCollector := ⟨[], 0, 0⟩

def record (bounded : ℤ → ℤ) (c : MetricsCollector) (result : CommandResult) :
    MetricsCollector where
  totalRequests := c.totalRequests + 1
  totalErrors := if result.success then c.totalErrors else c.totalErrors + 1
  commandMetrics :=
    Table.modify (.new result.commandName) result.commandName (·.record bounded result)
      c.commandMetrics

end MetricsCollector

/-! ## Accounts -/

namespace CommandMetrics
variable (bounded : ℤ → ℤ) (m : CommandMetrics) (result : CommandResult)

/-- A result is counted. -/
lemma record_requests : (m.record bounded result).requests = m.requests + 1 := by
  unfold record
  split <;> rfl

/-- A failure is counted. -/
lemma record_errors : (m.record bounded result).errors = m.errors + if result.success
    then 0 else 1 := by
  unfold record
  split <;> rfl

/-- A success is counted. -/
lemma record_count : (m.record bounded result).count = m.count + if result.success
    then 1 else 0 := by
  unfold record count
  split
  · simp
  · rfl

end CommandMetrics

namespace MetricsCollector

/-- The totals are those of the commands, and every request is an error or has a latency. -/
structure Accounts (c : MetricsCollector) : Prop where
  totalRequests : c.totalRequests = (c.commandMetrics.map fun e => e.2.requests).sum
  totalErrors : c.totalErrors = (c.commandMetrics.map fun e => e.2.errors).sum
  requests : ∀ e ∈ c.commandMetrics, e.2.requests = e.2.errors + e.2.count

/-- A new collector accounts for itself. -/
lemma accounts_new : new.Accounts := ⟨rfl, rfl, fun _ he => nomatch he⟩

/-- A collector still accounts for itself after a result. -/
theorem Accounts.record {c : MetricsCollector} (hc : c.Accounts) (bounded : ℤ → ℤ)
    (result : CommandResult) :
    (c.record bounded result).Accounts where
  totalRequests := by
    dsimp only [MetricsCollector.record]
    rw [Table.sum_modify (f := CommandMetrics.requests) (fun m =>
      m.record_requests bounded result) rfl, hc.totalRequests]
  totalErrors := by
    dsimp only [MetricsCollector.record]
    rw [Table.sum_modify (f := CommandMetrics.errors) (fun m => m.record_errors bounded result) rfl,
      hc.totalErrors]
    split <;> rfl
  requests := by
    refine Table.forall_modify (P := fun m : CommandMetrics => m.requests = m.errors + m.count)
      (fun m hm => ?_) rfl
      hc.requests
    rw [m.record_requests, m.record_errors, m.record_count, hm]
    split <;> omega

/-- There are no more errors than requests. -/
lemma Accounts.totalErrors_le {c : MetricsCollector} (hc : c.Accounts) :
    c.totalErrors ≤ c.totalRequests := by
  rw [hc.totalRequests, hc.totalErrors]
  refine List.sum_le_sum fun e he => ?_
  rw [hc.requests e he]
  exact Nat.le_add_right _ _

end MetricsCollector

end RespBench.Metrics.Eager
