import StateSpace.Benchmark.Instance
import StateSpace.Benchmark.Request
import StateSpace.Benchmark.Runs
import StateSpace.Binary64
import StateSpace.CommandLine
import StateSpace.Decimal.Fixed
import StateSpace.Decimal.Numeral
import StateSpace.Decimal.Places
import StateSpace.Decimal.Shortest
import StateSpace.Defect
import StateSpace.DirPath
import StateSpace.Directories
import StateSpace.Display
import StateSpace.Environment
import StateSpace.Frontier
import StateSpace.Host
import StateSpace.Inspection
import StateSpace.Json.Reader
import StateSpace.Json.Writer
import StateSpace.Keyed
import StateSpace.LogLevel
import StateSpace.Main
import StateSpace.Meter
import StateSpace.Node
import StateSpace.Node.Text
import StateSpace.Number
import StateSpace.Outcome
import StateSpace.Power
import StateSpace.Problem
import StateSpace.Problems.Doubling
import StateSpace.Problems.Flood.Board
import StateSpace.Problems.Flood.Game
import StateSpace.Problems.Flood.Seeded
import StateSpace.Problems.Grid
import StateSpace.Problems.RoadMap
import StateSpace.Problems.Romania
import StateSpace.Problems.Tabulated
import StateSpace.Proofs.Accounts
import StateSpace.Proofs.Agreement
import StateSpace.Proofs.Ancestry
import StateSpace.Proofs.Balls
import StateSpace.Proofs.BatchOrdering
import StateSpace.Proofs.Bench
import StateSpace.Proofs.BinaryNumbers
import StateSpace.Proofs.BoundedPasses
import StateSpace.Proofs.Breadth
import StateSpace.Proofs.Closing
import StateSpace.Proofs.Columns
import StateSpace.Proofs.Comparison
import StateSpace.Proofs.Completeness
import StateSpace.Proofs.Consistency
import StateSpace.Proofs.Coverage
import StateSpace.Proofs.Deepening
import StateSpace.Proofs.DoubleEnded
import StateSpace.Proofs.Doublings
import StateSpace.Proofs.ElapsedTimes
import StateSpace.Proofs.Estimates
import StateSpace.Proofs.EvenNumbers
import StateSpace.Proofs.Exhaustion
import StateSpace.Proofs.FiniteSpace
import StateSpace.Proofs.FirstWords
import StateSpace.Proofs.Flooding
import StateSpace.Proofs.FreeRays
import StateSpace.Proofs.GlobalOrdering
import StateSpace.Proofs.GridRoutes
import StateSpace.Proofs.Heralds
import StateSpace.Proofs.Inspected
import StateSpace.Proofs.Island
import StateSpace.Proofs.LimitedNumbers
import StateSpace.Proofs.Lockstep
import StateSpace.Proofs.Merging
import StateSpace.Proofs.MixedPrices
import StateSpace.Proofs.Optimality
import StateSpace.Proofs.OutsideColors
import StateSpace.Proofs.Passes
import StateSpace.Proofs.PriorityOrder
import StateSpace.Proofs.Queueing
import StateSpace.Proofs.Recursion
import StateSpace.Proofs.Reexpansion
import StateSpace.Proofs.Replay
import StateSpace.Proofs.SharedTrace
import StateSpace.Proofs.StableOrder
import StateSpace.Proofs.StackOrder
import StateSpace.Proofs.Surveyed
import StateSpace.Proofs.Termination
import StateSpace.Proofs.Tree
import StateSpace.Proofs.Turns
import StateSpace.Proofs.UniformPrice
import StateSpace.Proofs.Violations
import StateSpace.Proofs.Visits
import StateSpace.Proofs.Walks
import StateSpace.Proofs.Words
import StateSpace.Quantity
import StateSpace.Random.Generator
import StateSpace.Random.SeedPool
import StateSpace.Results.Bars
import StateSpace.Results.Chart
import StateSpace.Results.Gallery
import StateSpace.Results.Ranking
import StateSpace.Results.Rows
import StateSpace.Results.Table
import StateSpace.Results.Ticks
import StateSpace.Search
import StateSpace.Search.Report
import StateSpace.Settings
import StateSpace.Sorting.Halving
import StateSpace.Sorting.Merge
import StateSpace.Sorting.Runs
import StateSpace.StableSort
import StateSpace.Strategy
import StateSpace.Text.Blank
import StateSpace.Text.Bytes
import StateSpace.Text.Case
import StateSpace.Text.Case.Table
import StateSpace.Text.Digit
import StateSpace.Text.Half
import StateSpace.Text.Lines
import StateSpace.Text.Printable
import StateSpace.Text.Quoted
import StateSpace.Text.Range
import StateSpace.Value
import StateSpace.Value.Arithmetic
import StateSpace.Value.Key
import StateSpace.Value.Measured
import StateSpace.Value.Order
import StateSpace.Value.Template
