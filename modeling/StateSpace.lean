import StateSpace.Abort
import StateSpace.Analysis.Basic
import StateSpace.Analysis.Dump
import StateSpace.Analysis.Validation
import StateSpace.BitMatrix.Basic
import StateSpace.BitMatrix.Render
import StateSpace.Error
import StateSpace.Expansion
import StateSpace.Fault
import StateSpace.Graph.Basic
import StateSpace.Graph.Listed
import StateSpace.Image.Basic
import StateSpace.Image.Gallery
import StateSpace.Image.Hash
import StateSpace.Interpreter.Basic
import StateSpace.Interpreter.Loaded
import StateSpace.Interpreter.Table
import StateSpace.Json.Decode
import StateSpace.Json.Number
import StateSpace.Json.Program
import StateSpace.Json.Reader
import StateSpace.Json.Reduction
import StateSpace.Json.Search
import StateSpace.Json.Table
import StateSpace.Json.TransitionSystem
import StateSpace.Json.Value
import StateSpace.Program.Basic
import StateSpace.Program.Draw
import StateSpace.Program.Model
import StateSpace.Proofs.Analysis.Assembly
import StateSpace.Proofs.Analysis.Canonical
import StateSpace.Proofs.Analysis.Checking
import StateSpace.Proofs.Analysis.FirstViolation
import StateSpace.Proofs.Analysis.Passes
import StateSpace.Proofs.Analysis.Queries
import StateSpace.Proofs.Analysis.Reflects
import StateSpace.Proofs.Analysis.Relations
import StateSpace.Proofs.Analysis.WellFormed
import StateSpace.Proofs.BitMatrix.Cells
import StateSpace.Proofs.BitMatrix.LowestBit
import StateSpace.Proofs.BitMatrix.Refinement
import StateSpace.Proofs.BitMatrix.Relation
import StateSpace.Proofs.BitMatrix.Rows
import StateSpace.Proofs.Collector
import StateSpace.Proofs.Expansion
import StateSpace.Proofs.Image.Collisions
import StateSpace.Proofs.Image.Entries
import StateSpace.Proofs.Image.Hash
import StateSpace.Proofs.Image.Order
import StateSpace.Proofs.Image.Words
import StateSpace.Proofs.Program.Acceptance
import StateSpace.Proofs.Program.Accounts
import StateSpace.Proofs.Program.Base
import StateSpace.Proofs.Program.Conformance
import StateSpace.Proofs.Program.Deadlocks
import StateSpace.Proofs.Program.Description
import StateSpace.Proofs.Program.Drawing
import StateSpace.Proofs.Program.Execution
import StateSpace.Proofs.Program.Faults
import StateSpace.Proofs.Program.Firing
import StateSpace.Proofs.Program.Graphs
import StateSpace.Proofs.Program.Guards
import StateSpace.Proofs.Program.Lenient
import StateSpace.Proofs.Program.Policies
import StateSpace.Proofs.Program.Searches
import StateSpace.Proofs.Program.Subgraph
import StateSpace.Proofs.Program.Totality
import StateSpace.Proofs.Program.Violations
import StateSpace.Proofs.Reduction.Accounts
import StateSpace.Proofs.Reduction.Answers
import StateSpace.Proofs.Reduction.Base
import StateSpace.Proofs.Reduction.Calls
import StateSpace.Proofs.Reduction.Closure
import StateSpace.Proofs.Reduction.CommonProcess
import StateSpace.Proofs.Reduction.Components
import StateSpace.Proofs.Reduction.Conforming
import StateSpace.Proofs.Reduction.Deadlocks
import StateSpace.Proofs.Reduction.EnabledSets
import StateSpace.Proofs.Reduction.Indexed
import StateSpace.Proofs.Reduction.Kept
import StateSpace.Proofs.Reduction.Knowledge
import StateSpace.Proofs.Reduction.Least
import StateSpace.Proofs.Reduction.Merging
import StateSpace.Proofs.Reduction.Precision
import StateSpace.Proofs.Reduction.Semantics
import StateSpace.Proofs.Reduction.Statistics
import StateSpace.Proofs.Reduction.Stubborn
import StateSpace.Proofs.Reduction.Violations
import StateSpace.Proofs.Reduction.Worklist
import StateSpace.Proofs.Search.Discovery
import StateSpace.Proofs.Search.Edges
import StateSpace.Proofs.Search.Endings
import StateSpace.Proofs.Search.Exactness
import StateSpace.Proofs.Search.Lockstep
import StateSpace.Proofs.Search.Outcomes
import StateSpace.Proofs.Search.Reachability
import StateSpace.Proofs.Search.Rounds
import StateSpace.Proofs.Search.Runs
import StateSpace.Proofs.Search.Shortest
import StateSpace.Proofs.Search.Subgraph
import StateSpace.Proofs.Search.Transfer
import StateSpace.Reduction.Closure
import StateSpace.Reduction.Reducer
import StateSpace.Reduction.Stats
import StateSpace.Search.Explore
import StateSpace.Search.Goal
import StateSpace.Search.Visited
import StateSpace.Text.Decimal
import StateSpace.Text.Fixed
import StateSpace.Text.Hex
import StateSpace.Time
import StateSpace.TransitionSystem
