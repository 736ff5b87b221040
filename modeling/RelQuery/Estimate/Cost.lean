import RelQuery.Estimate.Statistics
import RelQuery.JoinKind

namespace RelQuery

structure PlanCost where
  tuples : Float32
  tupleSize : Float32
  cpu : Float32
  blockReads : UInt64

namespace PlanCost

def zero : PlanCost := ⟨0.0, 0.0, 0.0, 0⟩

def display (c : PlanCost) : String :=
  "[tuples=" ++ Single.displayTenths c.tuples ++ ", tupSize=" ++ Single.displayTenths c.tupleSize ++
    ", cpuCost=" ++ Single.displayTenths c.cpu ++ ", blockIOs=" ++ toString c.blockReads ++ "]"

end PlanCost

structure CostModel where
  tupleCost : Float32
  sortCostFactor : Float32

namespace CostModel

def default : CostModel := ⟨1.0, 1.0⟩

/-- A product of counts, or the largest count where there is no room for it. -/
def saturatingMul (m n : UInt64) : UInt64 := .ofNat (Nat.min (m.toNat * n.toNat) (UInt64.size - 1))

def scan (m : CostModel) (stats : TableStats) (selectivity : Float32) : PlanCost :=
  let rows := Single.ofNat stats.tuples
  ⟨rows * selectivity, stats.averageSize, rows * m.tupleCost, .ofNat stats.pages⟩

def values (m : CostModel) (rows : Nat) (tupleSize : Float32) : PlanCost :=
  ⟨Single.ofNat rows, tupleSize, Single.ofNat rows * m.tupleCost, 0⟩

def filter (m : CostModel) (child : PlanCost) (selectivity : Float32) : PlanCost :=
  { child with
    tuples := child.tuples * selectivity
    cpu := child.cpu + child.tuples * m.tupleCost }

def project (m : CostModel) (child : PlanCost) (tupleSize : Float32) : PlanCost :=
  { child with tupleSize := tupleSize, cpu := child.cpu + child.tuples * m.tupleCost }

def sort (m : CostModel) (child : PlanCost) : PlanCost :=
  let n := Single.max child.tuples 1.0
  { child with cpu := child.cpu + m.sortCostFactor * n * n.log2 }

def limit (child : PlanCost) (limit : Option Nat) (offset : Nat) : PlanCost :=
  let available := Single.max (child.tuples - Single.ofNat offset) 0.0
  { child with
    tuples :=
      match limit with
      | some l => Single.min available (Single.ofNat l)
      | none => available }

def group (m : CostModel) (child : PlanCost) (groups tupleSize : Float32) : PlanCost :=
  { child with
    tuples := groups
    tupleSize := tupleSize
    cpu := child.cpu + child.tuples * m.tupleCost }

/-- The right input is run again for every left row. -/
def join (m : CostModel) (left right : PlanCost) (kind : JoinKind) (selectivity : Float32) :
    PlanCost :=
  let pairs := left.tuples * right.tuples
  let matched := pairs * selectivity
  let matchedLeft := Single.min matched left.tuples
  let runs := (Single.max left.tuples 0.0).toUInt64
  { tuples :=
      match kind with
      | .inner | .cross => matched
      | .leftOuter => Single.max matched left.tuples
      | .rightOuter => Single.max matched right.tuples
      | .fullOuter => Single.max (Single.max matched left.tuples) right.tuples
      | .semi => matchedLeft
      | .anti => left.tuples - matchedLeft
    tupleSize := if kind.leftColumnsOnly then left.tupleSize else left.tupleSize + right.tupleSize
    cpu := left.cpu + left.tuples * right.cpu + pairs * m.tupleCost
    blockReads := left.blockReads + saturatingMul runs right.blockReads }

end CostModel

end RelQuery
