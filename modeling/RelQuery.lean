import RelQuery.Interchange.Codec
import RelQuery.Session
import RelQuery.Tree
import RelQuery.Proofs.Passing
import RelQuery.Proofs.Window
import RelQuery.Proofs.Leaves
import RelQuery.Proofs.Buffering
import RelQuery.Proofs.JoinMachine
import RelQuery.Proofs.JoinReplay
import RelQuery.Proofs.Rerun
import RelQuery.Proofs.JoinReference
import RelQuery.Proofs.Resolution
import RelQuery.Proofs.JoinColumns
import RelQuery.Proofs.Layers
import RelQuery.Proofs.JoinPlanning
import RelQuery.Proofs.PlanServing
import RelQuery.Proofs.StoredRows
import RelQuery.Proofs.Planned
import RelQuery.Proofs.Ledgers
import RelQuery.Proofs.Restoring
import RelQuery.Proofs.Stages
import RelQuery.Proofs.Substitution
import RelQuery.Proofs.OutputColumns
import RelQuery.Proofs.Ungrouped
import RelQuery.Proofs.Grouped
import RelQuery.Proofs.OpenScans
import RelQuery.Proofs.CollectedPins
import RelQuery.Proofs.Duplicates
import RelQuery.Proofs.PredicatePlacement
import RelQuery.Proofs.Alignment
import RelQuery.Proofs.Exhaustion
import RelQuery.Proofs.AggregatePlacement
import RelQuery.Proofs.ValueOrder
import RelQuery.Proofs.RowOrder
import RelQuery.Pins.Counts
import RelQuery.Pins.Operators
import RelQuery.Proofs.WindowCalls
import RelQuery.Proofs.Sorted
import RelQuery.Grouping.Reference
import RelQuery.Proofs.Accumulating
import RelQuery.Proofs.Aggregation
import RelQuery.Proofs.InPlace
import RelQuery.Proofs.StoredValues
import RelQuery.Proofs.Measuring
import RelQuery.Proofs.TypedRows
import RelQuery.Proofs.IntegerArithmetic
import RelQuery.Proofs.Connectives
import RelQuery.Proofs.ResolvedReferences
import RelQuery.Proofs.Packing
import RelQuery.Proofs.UnitInterval
import RelQuery.Proofs.NotANumber
import RelQuery.Proofs.SelectivityBounds
import RelQuery.Proofs.SatisfiedEstimates
import RelQuery.Proofs.Refusals
import RelQuery.Proofs.Visits
import RelQuery.Proofs.OutOfTurn
import RelQuery.Proofs.KeyClasses
import RelQuery.Proofs.Clipping
