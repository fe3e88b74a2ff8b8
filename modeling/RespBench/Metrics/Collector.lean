import RespBench.Hdr.Histogram

/-!
# Collectors

The collectors of the Go engine (`collector.go`) and of the PHP engine (`Collector.php`): counters
and a histogram for every command, the totals, and the measured window. The engines differ in when
they create the histogram of a command: Go with the command, PHP with the first success.

Commands are a map in the order of insertion. PHP iterates over it in this order and Go in any
order, so that the order of an iteration is an argument. PHP turns a key that reads as an integer
into an integer, with which a merge cannot construct metrics. The times are those of any clock: in
Go an instant and a flag that it is set, in PHP a float or null.

The counters are unbounded here. `RespBench.Metrics.Machine` has them at 64 bits, and shows that
the operations are the same while fewer than `2 ^ 63` results are counted.
-/

namespace RespBench.Metrics
open RespBench.Lib
open RespBench.Hdr (Engine HdrHistogram newDefaultHdrHistogram)

/-- `maxTrackableMicros`, the ceiling of the histograms. -/
def maxTrackableMicros : ℤ := 600000000

/-- `command.Result`, `CommandResult`. -/
structure CommandResult where
  commandName : String
  latencyMicros : ℤ
  success : Bool
deriving DecidableEq

/-! ## Commands -/

/-- The digits of a decimal number without leading zeros. -/
def isDecimal : List Char → Bool
  | [] => false
  | ['0'] => true
  | digit :: digits => digit != '0' && (digit :: digits).all Char.isDigit

/-- The number that digits stand for. -/
def decimalValue (digits : List Char) : ℕ :=
  digits.foldl (fun n digit => 10 * n + (digit.toNat - 48)) 0

/-- PHP turns an array key into an integer if it reads as one. -/
def isIntegerKey (name : String) : Bool :=
  match name.toList with
  | '-' :: digits => isDecimal digits && digits != ['0'] && decide (decimalValue digits ≤ 2 ^ 63)
  | digits => isDecimal digits && decide (decimalValue digits < 2 ^ 63)

structure CommandMetrics where
  commandName : String
  requests : ℤ
  errors : ℤ
  histogram : Option HdrHistogram
deriving DecidableEq

/-- `newCommandMetrics`, `new CommandMetrics`. -/
def newCommandMetrics : Engine → String → CommandMetrics
  | .go, name => ⟨name, 0, 0, some newDefaultHdrHistogram⟩
  | .php, name => ⟨name, 0, 0, none⟩

namespace CommandMetrics
variable (m : CommandMetrics)

/-- `record` in Go. -/
def goRecord (result : CommandResult) : CommandMetrics :=
  let m := { m with requests := m.requests + 1 }
  if result.success then
    let latency := if result.latencyMicros > maxTrackableMicros then maxTrackableMicros
      else result.latencyMicros
    { m with histogram := m.histogram.map fun h => Hdr.Go.record h latency }
  else { m with errors := m.errors + 1 }

/-- `record` in PHP. -/
def phpRecord (result : CommandResult) : CommandMetrics :=
  let m := { m with requests := m.requests + 1 }
  if result.success then
    let latency := min result.latencyMicros 600000000
    { m with histogram := some (Hdr.Php.record (m.histogram.getD newDefaultHdrHistogram) latency) }
  else { m with errors := m.errors + 1 }

def record : Engine → CommandMetrics → CommandResult → CommandMetrics
  | .go => goRecord
  | .php => phpRecord

/-- `mergeFrom` in Go. -/
def goMergeFrom (other : CommandMetrics) : CommandMetrics :=
  let m := { m with requests := m.requests + other.requests, errors := m.errors + other.errors }
  match other.histogram with
  | some h => if h.total > 0 then { m with histogram := m.histogram.map fun own => own.merge h }
      else m
  | none => m

/-- `ingest` in PHP. -/
def ingest (requests errors : ℤ) (h : HdrHistogram) : CommandMetrics :=
  let m := { m with requests := m.requests + requests, errors := m.errors + errors }
  if h.total > 0
    then { m with histogram := some ((m.histogram.getD newDefaultHdrHistogram).merge h) } else m

/-- `mergeFrom` in PHP. -/
def phpMergeFrom (other : CommandMetrics) : CommandMetrics :=
  let m := { m with requests := m.requests + other.requests, errors := m.errors + other.errors }
  match other.histogram with
  | some h =>
    if h.total > 0
      then { m with histogram := some ((m.histogram.getD newDefaultHdrHistogram).merge h) } else m
  | none => m

def mergeFrom : Engine → CommandMetrics → CommandMetrics → CommandMetrics
  | .go => goMergeFrom
  | .php => phpMergeFrom

/-- `count`: the total of the histogram. -/
def count : ℤ := (m.histogram.map HdrHistogram.total).getD 0

/-- The count of the histogram at an index. -/
def countAt (index : ℤ) : ℤ := (m.histogram.map fun h => h.rawCountAt index).getD 0

end CommandMetrics

/-! ## Collectors -/

structure Collector (T : Type*) where
  commandMetrics : List (String × CommandMetrics)
  totalRequests : ℤ
  totalErrors : ℤ
  startTime : Option T
  endTime : Option T

namespace Collector
variable {T : Type*}

/-- `NewCollector`, `new Collector`. -/
def new : Collector T := ⟨[], 0, 0, none, none⟩

/-- `Start`. -/
def start (c : Collector T) (now : T) : Collector T := { c with startTime := some now }

/-- `Stop`. -/
def stop (c : Collector T) (now : T) : Collector T := { c with endTime := some now }

/-- `Record`. -/
def record (engine : Engine) (c : Collector T) (result : CommandResult) : Collector T :=
  { c with
    totalRequests := c.totalRequests + 1
    totalErrors := if result.success then c.totalErrors else c.totalErrors + 1
    commandMetrics := Table.modify (newCommandMetrics engine result.commandName) result.commandName
      (fun m => m.record engine result) c.commandMetrics }

/-- `new CommandMetrics($name)` raises a `TypeError` in PHP, if the key `$name` is an integer. -/
def refused (engine : Engine) (name : String) : Bool :=
  match engine with
  | .go => false
  | .php => isIntegerKey name

/-- One round of the loop of `MergeFrom`. -/
def mergeCommand (engine : Engine) (commands : List (String × CommandMetrics))
    (entry : String × CommandMetrics) : Option (List (String × CommandMetrics)) :=
  if entry.1 ∉ Table.keys commands ∧ refused engine entry.1 then none
  else some (Table.modify (newCommandMetrics engine entry.1) entry.1
    (fun m => m.mergeFrom engine entry.2) commands)

/-- The metrics of a command. -/
def metrics (engine : Engine) (c : Collector T) (name : String) : CommandMetrics :=
  Table.get (newCommandMetrics engine name) name c.commandMetrics

variable [LinearOrder T]

/-- The start of a window that is widened. -/
def widenStart (own other : Option T) : Option T :=
  match other, own with
  | none, _ => own
  | some start, none => some start
  | some start, some ownStart => if start < ownStart then some start else some ownStart

/-- The end of a window that is widened. -/
def widenEnd (own other : Option T) : Option T :=
  match other, own with
  | none, _ => own
  | some stop, none => some stop
  | some stop, some ownStop => if stop > ownStop then some stop else some ownStop

/-- `MergeFrom`, which iterates over the commands of the other collector in the order of
`entries`. -/
def mergeFrom (engine : Engine) (c other : Collector T) (entries : List (String × CommandMetrics)) :
    Option (Collector T) :=
  (entries.foldlM (mergeCommand engine) c.commandMetrics).map fun commands =>
    { commandMetrics := commands
      totalRequests := c.totalRequests + other.totalRequests
      totalErrors := c.totalErrors + other.totalErrors
      startTime := widenStart c.startTime other.startTime
      endTime := widenEnd c.endTime other.endTime }

end Collector

end RespBench.Metrics
