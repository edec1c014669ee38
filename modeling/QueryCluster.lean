import QueryCluster.BaseError
import QueryCluster.Bytes
import QueryCluster.Checksum.Blake3
import QueryCluster.Codec.Basic
import QueryCluster.Codec.Batch
import QueryCluster.Codec.Graph
import QueryCluster.Codec.Plan
import QueryCluster.Codec.Value
import QueryCluster.CommandLine.Command
import QueryCluster.CommandLine.Error
import QueryCluster.CommandLine.Explain
import QueryCluster.CommandLine.Options
import QueryCluster.CommandLine.Run
import QueryCluster.CommandLine.Submit
import QueryCluster.Config
import QueryCluster.Content
import QueryCluster.Executor.Error
import QueryCluster.Executor.Network
import QueryCluster.Executor.Slot
import QueryCluster.Executor.Status
import QueryCluster.Expr.Basic
import QueryCluster.Expr.Eval
import QueryCluster.Expr.Parser
import QueryCluster.Expr.Printer
import QueryCluster.Expr.SortItem
import QueryCluster.Expr.Token
import QueryCluster.Graph.Basic
import QueryCluster.Graph.Build
import QueryCluster.Graph.Instruction
import QueryCluster.Graph.Listing
import QueryCluster.Graph.Run
import QueryCluster.Graph.Sizing
import QueryCluster.Json.Reader
import QueryCluster.Json.Text
import QueryCluster.Location
import QueryCluster.Main
import QueryCluster.Message.Basic
import QueryCluster.Message.Frame
import QueryCluster.Message.Results
import QueryCluster.Number.Binary
import QueryCluster.Number.Float
import QueryCluster.Number.Integer
import QueryCluster.Number.Shortest
import QueryCluster.Operator.Emission
import QueryCluster.Operator.Error
import QueryCluster.Operator.Feed
import QueryCluster.Operator.Group
import QueryCluster.Operator.Output
import QueryCluster.Operator.Run
import QueryCluster.Operator.Scan
import QueryCluster.Operator.Selection
import QueryCluster.Operator.Sort
import QueryCluster.Pipeline.Basic
import QueryCluster.Pipeline.Compile
import QueryCluster.Pipeline.Reader
import QueryCluster.Plan.Basic
import QueryCluster.Plan.Error
import QueryCluster.Plan.Typing
import QueryCluster.Proofs.Codec.Basic
import QueryCluster.Proofs.Codec.Nodes
import QueryCluster.Proofs.Executor.Attaching
import QueryCluster.Proofs.Executor.Buckets
import QueryCluster.Proofs.Executor.Progress
import QueryCluster.Proofs.Executor.Refusals
import QueryCluster.Proofs.Executor.Slots
import QueryCluster.Proofs.Executor.Succession
import QueryCluster.Proofs.Executor.Workload
import QueryCluster.Proofs.Expr.Agreement
import QueryCluster.Proofs.Expr.Grammar
import QueryCluster.Proofs.Expr.Printing
import QueryCluster.Proofs.Expr.Scanning
import QueryCluster.Proofs.Expr.Typing
import QueryCluster.Proofs.Graph.Assembly
import QueryCluster.Proofs.Graph.Delivery
import QueryCluster.Proofs.Graph.Edges
import QueryCluster.Proofs.Graph.GroupStage
import QueryCluster.Proofs.Graph.InOrder
import QueryCluster.Proofs.Graph.Layers
import QueryCluster.Proofs.Graph.Outputs
import QueryCluster.Proofs.Graph.Parallelism
import QueryCluster.Proofs.Graph.Partitions
import QueryCluster.Proofs.Graph.Probing
import QueryCluster.Proofs.Graph.RowCounts
import QueryCluster.Proofs.Graph.Run
import QueryCluster.Proofs.Graph.Schemas
import QueryCluster.Proofs.Graph.Sending
import QueryCluster.Proofs.Graph.Sizing
import QueryCluster.Proofs.Graph.Traffic
import QueryCluster.Proofs.Graph.TypedNodes
import QueryCluster.Proofs.Graph.TypedTraffic
import QueryCluster.Proofs.Graph.Wholeness
import QueryCluster.Proofs.Json.RoundTrip
import QueryCluster.Proofs.Message.RoundTrip
import QueryCluster.Proofs.Number.Integer
import QueryCluster.Proofs.Number.Rounding
import QueryCluster.Proofs.Operator.AggregateValues
import QueryCluster.Proofs.Operator.Aggregation
import QueryCluster.Proofs.Operator.Batching
import QueryCluster.Proofs.Operator.BufferedSort
import QueryCluster.Proofs.Operator.Conformity
import QueryCluster.Proofs.Operator.EqualKeys
import QueryCluster.Proofs.Operator.Faults
import QueryCluster.Proofs.Operator.Feeds
import QueryCluster.Proofs.Operator.GlobalSort
import QueryCluster.Proofs.Operator.GroupRun
import QueryCluster.Proofs.Operator.GroupTypes
import QueryCluster.Proofs.Operator.Grouping
import QueryCluster.Proofs.Operator.HashAggregation
import QueryCluster.Proofs.Operator.LeastHead
import QueryCluster.Proofs.Operator.LocalSort
import QueryCluster.Proofs.Operator.Merge
import QueryCluster.Proofs.Operator.Routing
import QueryCluster.Proofs.Operator.Rowwise
import QueryCluster.Proofs.Operator.Scanning
import QueryCluster.Proofs.Operator.SortTypes
import QueryCluster.Proofs.Operator.StableMerge
import QueryCluster.Proofs.Operator.SumOrder
import QueryCluster.Proofs.Operator.Tally
import QueryCluster.Proofs.Operator.TopRows
import QueryCluster.Proofs.Operator.Typed
import QueryCluster.Proofs.Outcome
import QueryCluster.Proofs.Pipeline.Alias
import QueryCluster.Proofs.Plan.Meaning
import QueryCluster.Proofs.Scheduler.Barrier
import QueryCluster.Proofs.Scheduler.Cleanup
import QueryCluster.Proofs.Scheduler.Completion
import QueryCluster.Proofs.Scheduler.Consistency
import QueryCluster.Proofs.Scheduler.Deployment
import QueryCluster.Proofs.Scheduler.Dispatching
import QueryCluster.Proofs.Scheduler.Fitting
import QueryCluster.Proofs.Scheduler.Hiring
import QueryCluster.Proofs.Scheduler.Interleaving
import QueryCluster.Proofs.Scheduler.Invariant
import QueryCluster.Proofs.Scheduler.Ledger
import QueryCluster.Proofs.Scheduler.Lists
import QueryCluster.Proofs.Scheduler.Logging
import QueryCluster.Proofs.Scheduler.Marking
import QueryCluster.Proofs.Scheduler.Modes
import QueryCluster.Proofs.Scheduler.Polling
import QueryCluster.Proofs.Scheduler.Queue
import QueryCluster.Proofs.Scheduler.Results
import QueryCluster.Proofs.Scheduler.Rollout
import QueryCluster.Proofs.Scheduler.Shortage
import QueryCluster.Proofs.Scheduler.Starting
import QueryCluster.Proofs.Scheduler.Tending
import QueryCluster.Proofs.Scheduler.Usage
import QueryCluster.Proofs.Scheduler.Verdicts
import QueryCluster.Proofs.Scheduler.Wiring
import QueryCluster.Proofs.Split.Columns
import QueryCluster.Proofs.Split.Layout
import QueryCluster.Proofs.Split.Sorting
import QueryCluster.Proofs.Stream.Altered
import QueryCluster.Proofs.Stream.Arrays
import QueryCluster.Proofs.Stream.Arriving
import QueryCluster.Proofs.Stream.Calls
import QueryCluster.Proofs.Stream.Corruption
import QueryCluster.Proofs.Stream.Deliveries
import QueryCluster.Proofs.Stream.Frames
import QueryCluster.Proofs.Stream.RoundTrip
import QueryCluster.Proofs.Stream.Shape
import QueryCluster.Proofs.Stream.Truncation
import QueryCluster.Proofs.Text.Base64
import QueryCluster.Proofs.Value.Keys
import QueryCluster.Proofs.Value.Order
import QueryCluster.Proofs.Value.Typing
import QueryCluster.Scheduler.Client
import QueryCluster.Scheduler.Dispatch
import QueryCluster.Scheduler.Error
import QueryCluster.Scheduler.Recorder
import QueryCluster.Scheduler.Remote
import QueryCluster.Scheduler.Run
import QueryCluster.Scheduler.State
import QueryCluster.Scheduler.Task
import QueryCluster.Schema.Basic
import QueryCluster.Split.Basic
import QueryCluster.Split.Columnar
import QueryCluster.Split.Error
import QueryCluster.Split.Heads
import QueryCluster.Stream.Frame
import QueryCluster.Stream.Reader
import QueryCluster.Stream.Writer
import QueryCluster.Tables.Basic
import QueryCluster.Tables.Csv
import QueryCluster.Tables.CsvTables
import QueryCluster.Tables.Files
import QueryCluster.Text.Base64
import QueryCluster.Text.Blank
import QueryCluster.Text.CharSet
import QueryCluster.Text.Quoted
import QueryCluster.Value.Basic
import QueryCluster.Value.Key
import QueryCluster.Value.Order
import QueryCluster.Value.Reader
import QueryCluster.Yaml.Content
import QueryCluster.Yaml.Cursor
import QueryCluster.Yaml.Node
import QueryCluster.Yaml.Scalar
import QueryCluster.Yaml.Token
