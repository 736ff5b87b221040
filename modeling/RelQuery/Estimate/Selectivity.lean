import RelQuery.Estimate.Statistics
import RelQuery.Schema

namespace RelQuery

namespace Selectivity

def defaultFraction : Float32 := 0.25

/-- Equality with a constant: one over the number of distinct values, and nothing outside the range
of the column. -/
def equalsValue (fallback : Float32) (stats : ColumnStats) (v : Value) : Float32 :=
  match stats.distinct with
  | none => fallback
  | some n =>
    let below := (stats.min.bind v.compare?) == some .lt
    let above := (stats.max.bind v.compare?) == some .gt
    if below || above || n == 0 then 0.0 else 1.0 / Single.ofNat n

/-- Whether the values are at most or at least the constant. -/
inductive Side
  | atMost | atLeast

/-- The part of the column's range on one side of a constant, on an even distribution. -/
def rangeFraction? (type : SqlType) (stats : ColumnStats) (v : Value) (side : Side) :
    Option Float32 := do
  guard type.isNumeric
  let low := (← (← stats.min).toDouble?).toFloat
  let high := (← (← stats.max).toDouble?).toFloat
  let x := (← v.toDouble?).toFloat
  guard !(low == high)
  let fraction : Float :=
    match side with
    | .atMost => if x < low then 0.0 else if high < x then 1.0 else (x - low) / (high - low)
    | .atLeast => if x < low then 1.0 else if high < x then 0.0 else (high - x) / (high - low)
  return Single.clampUnit (Double.toSingle (.ofFloat fraction))

/-- The type and statistics of the column a reference denotes. -/
def column? (s : Schema) (stats : List ColumnStats) (c : ColumnName) :
    Option (SqlType × ColumnStats) :=
  match s.resolve c with
  | .ok (info, i) => (stats[i]?).map fun st => (info.type, st)
  | .error _ => none

def columnValue (s : Schema) (stats : List ColumnStats) (fallback : Float32) (op : Comparison)
    (c : ColumnName) (v : Value) : Float32 :=
  match column? s stats c with
  | none => fallback
  | some (type, st) =>
    match op with
    | .eq => equalsValue fallback st v
    | .ne => 1.0 - equalsValue fallback st v
    | .le => (rangeFraction? type st v .atMost).getD fallback
    | .gt => ((rangeFraction? type st v .atMost).map (1.0 - ·)).getD fallback
    | .ge => (rangeFraction? type st v .atLeast).getD fallback
    | .lt => ((rangeFraction? type st v .atLeast).map (1.0 - ·)).getD fallback

/-- Equality of two columns: one over the larger number of distinct values. -/
def columnColumn (s : Schema) (stats : List ColumnStats) (fallback : Float32) (op : Comparison)
    (c d : ColumnName) : Float32 :=
  let distinct (c : ColumnName) : Option Nat := (column? s stats c).bind (·.2.distinct)
  let equal : Float32 :=
    match distinct c, distinct d with
    | some m, some n => if Nat.max m n = 0 then 0.0 else 1.0 / Single.ofNat (Nat.max m n)
    | _, _ => fallback
  match op with
  | .eq => equal
  | .ne => 1.0 - equal
  | _ => fallback

variable (s : Schema) (stats : List ColumnStats) (fallback : Float32)

mutual
/-- The estimate before it is confined to the unit interval; the terms of a connective are taken as
independent. -/
def estimate : Expr → Float32
  | .connect .and es => Single.product (estimateAll es)
  | .connect .or es => 1.0 - Single.product ((estimateAll es).map (1.0 - ·))
  | .not e => 1.0 - estimate e
  | .compare op (.column c) (.literal v) => columnValue s stats fallback op c v
  | .compare op (.literal v) (.column c) => columnValue s stats fallback op.flip c v
  | .compare op (.column c) (.column d) => columnColumn s stats fallback op c d
  | _ => fallback

def estimateAll : List Expr → List Float32
  | [] => []
  | e :: es => estimate e :: estimateAll es
end

end Selectivity

/-- The estimated fraction of rows for which the predicate is true. -/
def Expr.selectivity (e : Expr) (s : Schema) (stats : List ColumnStats) (fallback : Float32) :
    Float32 :=
  Single.clampUnit (Selectivity.estimate s stats fallback e)

end RelQuery
