import RelQuery.Value

namespace RelQuery

structure ColumnStats where
  min : Option Value
  max : Option Value
  distinct : Option Nat
  nulls : Option Nat
  deriving DecidableEq

namespace ColumnStats

def unknown : ColumnStats := ⟨none, none, none, none⟩

/-- The first value of every run of values that are equal in the order of sorting. -/
def heads : List Value → List Value
  | [] => []
  | v :: vs => v :: skip v vs
where
  skip (last : Value) : List Value → List Value
    | [] => []
    | v :: vs => if v.order last == .eq then skip last vs else v :: skip v vs

def ofValues (vs : List Value) : ColumnStats :=
  let present := vs.filter fun v => !v.isNull
  let distinct := heads (present.mergeSort Value.atMost)
  { min := distinct.head?
    max := distinct.getLast?
    distinct := some distinct.length
    nulls := some (vs.length - present.length) }

end ColumnStats

structure TableStats where
  tuples : Nat
  pages : Nat
  averageSize : Float32
  columns : List ColumnStats

/-- The statistics of a table that was never analysed. -/
def TableStats.unknown (width : Nat) : TableStats :=
  ⟨0, 0, 0.0, List.replicate width .unknown⟩

end RelQuery
