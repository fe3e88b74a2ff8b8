import RespBench.Lib.Share
import RespBench.Lib.Arcs
import RespBench.Lib.Binary64
import RespBench.Lib.LogLinear
import RespBench.Lib.Pool
import RespBench.Lib.Rejection
import RespBench.Random.Parity
import RespBench.Random.Rounds
import RespBench.Random.Judge
import RespBench.Random.Ruby
import RespBench.Random.Termination
import RespBench.Java.Pipeline
import RespBench.Java.Claims
import RespBench.CSharp.Pipeline
import RespBench.Budget.Workers
import RespBench.Budget.Exact
import RespBench.Budget.Locked
import RespBench.Ruby.Workers
import RespBench.Ruby.Split
import RespBench.Ruby.Coverage
import RespBench.Ruby.Forked
import RespBench.Ruby.Window
import RespBench.Php.Coverage
import RespBench.Php.Termination
import RespBench.Php.Warmup
import RespBench.Go.Split
import RespBench.Go.Completed
import RespBench.Python.Phase
import RespBench.Python.Workers
import RespBench.Keys.Same
import RespBench.Keys.Safe
import RespBench.Hdr.Merge
import RespBench.Hdr.Minimum
import RespBench.Hdr.Payload
import RespBench.Hdr.Range
import RespBench.Hdr.Partition
import RespBench.Hdr.RoundTrip
import RespBench.Hdr.Compressed
import RespBench.Hdr.Truncation
import RespBench.Metrics.Tally
import RespBench.Metrics.Accounting
import RespBench.Metrics.Machine
import RespBench.Metrics.Order
import RespBench.Metrics.Timestamp
import RespBench.Php.Reports
import RespBench.Php.Processes
import RespBench.Limiter.Schedule
import RespBench.Limiter.Java
import RespBench.Limiter.Exclusive
import RespBench.Limiter.Conservation
import RespBench.Limiter.Burst
import RespBench.Limiter.Rust
import RespBench.Java.Duration
import RespBench.Matrix.Identify
import RespBench.Matrix.Product
import RespBench.Matrix.Bindings
import RespBench.Matrix.Credentials
import RespBench.Matrix.Sweep
import RespBench.Graphs.Consistency
import RespBench.Graphs.Failed
import RespBench.Commands.Selector
import RespBench.Node.Requests
import RespBench.Python.Budget
import RespBench.CSharp.SyncLoop
import RespBench.Metrics.Concurrent
import RespBench.Metrics.Rows
import RespBench.Ruby.Modes
import RespBench.Matrix.Results
import RespBench.Matrix.Latest
import RespBench.Matrix.Apart
