import FilterForest.Engine
import FilterForest.Snapshot.Reader
import FilterForest.Proofs.Forest.Reachability
import FilterForest.Proofs.Forest.UniqueIds
import FilterForest.Proofs.Compile.Condition
import FilterForest.Proofs.Forest.Matching
import FilterForest.Proofs.Number.Plain
import FilterForest.Proofs.Json.Numeral
import FilterForest.Proofs.Json.Layout
import FilterForest.Proofs.Json.Scan
import FilterForest.Proofs.Json.Injective
import FilterForest.Proofs.Engine.Cached
import FilterForest.Proofs.Number.Same
import FilterForest.Proofs.Geometry.Same
import FilterForest.Proofs.Geometry.Readable
import FilterForest.Proofs.Predicate.Same
import FilterForest.Proofs.Predicate.Clause
import FilterForest.Proofs.Predicate.Readable
import FilterForest.Proofs.Text.Parts
import FilterForest.Proofs.Geometry.Groups
import FilterForest.Proofs.Geometry.RoundTrip
import FilterForest.Proofs.Json.RoundTrip
import FilterForest.Proofs.Json.Range
import FilterForest.Proofs.Snapshot.RoundTrip
import FilterForest.Proofs.Predicate.Numbers
import FilterForest.Proofs.Predicate.Shown
import FilterForest.Proofs.Compile.Numbers
import FilterForest.Proofs.Geometry.Parsed
import FilterForest.Proofs.Engine.Separation
import FilterForest.Proofs.Compile.Shape
import FilterForest.Proofs.Compile.Leaves
import FilterForest.Proofs.Compile.Layer
import FilterForest.Proofs.Engine.Fresh
import FilterForest.Proofs.Engine.Noninterference
import FilterForest.Proofs.Forest.Rooted
import FilterForest.Proofs.Engine.Unreachable
import FilterForest.Proofs.Compile.Constrained
import FilterForest.Proofs.Engine.Outputs
import FilterForest.Proofs.Engine.LeftOut
import FilterForest.Proofs.Predicate.Rows
import FilterForest.Proofs.Compile.Inverted
import FilterForest.Proofs.Predicate.Truth
import FilterForest.Proofs.Compile.Rearranged
import FilterForest.Proofs.Compile.Pruned
import FilterForest.Proofs.Forest.Interleaved
import FilterForest.Proofs.Compile.Merged
import FilterForest.Proofs.Predicate.Enclosed
import FilterForest.Proofs.Text.Split
import FilterForest.Proofs.Geometry.Dialect
import FilterForest.Proofs.Geometry.Spelling
import FilterForest.Proofs.Geometry.Orderly
import FilterForest.Proofs.Compile.Operands
import FilterForest.Proofs.Compile.Contributes
import FilterForest.Proofs.Compile.Idle
import FilterForest.Proofs.Compile.Patterns
import FilterForest.Proofs.Calendar.Days
import FilterForest.Proofs.Calendar.Written
import FilterForest.Proofs.Calendar.Taken
import FilterForest.Proofs.Calendar.Readers
import FilterForest.Proofs.Engine.History
import FilterForest.Proofs.Geometry.Layout
import FilterForest.Proofs.Geometry.Cuts
import FilterForest.Proofs.Number.Shortest
import FilterForest.Proofs.Number.Printed
import FilterForest.Proofs.Forest.Index
import FilterForest.Proofs.Predicate.Walk
import FilterForest.Proofs.Predicate.Names
