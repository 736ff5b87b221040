import RelQuery.Grouping.Accumulator
import RelQuery.Query.Groups

namespace RelQuery

/-- A sum taken from the left: an integer of any size until a double occurs, and a double from there
on. -/
inductive Total
  | exact (n : Int)
  | double (x : Double)

namespace Total

def ofValue? : Value → Option Total
  | .int i => some (.exact i.toInt)
  | .float x => some (.double x)
  | _ => none

def toDouble : Total → Double
  | exact n => Double.ofInt n
  | double x => x

def plus : Total → Total → Total
  | exact m, exact n => exact (m + n)
  | s, t => double (s.toDouble + t.toDouble)

def sum? (vs : List Value) : Option Total :=
  match vs.filterMap ofValue? with
  | [] => none
  | t :: ts => some (ts.foldl plus t)

/-- An integer that a value can hold. -/
def Fits : Total → Prop
  | exact n => Int64.minValue.toInt ≤ n ∧ n ≤ Int64.maxValue.toInt
  | double _ => True

def toValue : Total → Value
  | exact n => .int (.ofInt n)
  | double x => .float x

end Total

/-- The first of some values that is at or before all of them in an order. -/
def Value.first (atMost : Value → Value → Bool) (vs : List Value) : Option Value :=
  vs.find? fun v => vs.all (atMost v)

namespace AggregateCall

/-- The values that count: NULL never does, and under `DISTINCT` each value counts where it occurs
first. -/
def counted (c : AggregateCall) (vs : List Value) : List Value :=
  let vs := vs.filter fun v => !v.isNull
  if c.distinct then vs.eraseDupsBy Value.alike else vs

def total? (c : AggregateCall) (vs : List Value) : Option Total :=
  match c.fn with
  | .sum | .avg => Total.sum? vs
  | _ => none

def extreme? (c : AggregateCall) (vs : List Value) : Option Value :=
  match c.fn with
  | .min => Value.first Value.atMost vs
  | .max => Value.first (flip Value.atMost) vs
  | _ => none

variable (c : AggregateCall) (arg : Expr → Row → Value) (rows : List Row)

/-- The values that count of a call's argument over some rows. -/
def values : List Value :=
  match c.arg with
  | none => []
  | some e => c.counted (rows.map (arg e))

/-- How many of these there are; a call without an argument counts the rows. -/
def size : Nat :=
  match c.arg with
  | none => rows.length
  | some _ => (c.values arg rows).length

def result : Value :=
  match c.fn with
  | .count => .int (.ofNat (c.size arg rows))
  | .sum => ((c.total? (c.values arg rows)).map Total.toValue).getD .null
  | .avg =>
    match c.total? (c.values arg rows) with
    | some t => .float (t.toDouble / Double.ofInt (c.size arg rows))
    | none => .null
  | .min | .max => (c.extreme? (c.values arg rows)).getD .null

/-- The sum over some rows is an integer that no value can hold. -/
def Exceeds : Prop := ∃ t, c.total? (c.values arg rows) = some t ∧ ¬t.Fits

/-- The sum exceeds the values at some row. -/
def Overflows : Prop := ∃ zs, zs <+: rows ∧ c.Exceeds arg zs

end AggregateCall

namespace Grouping

variable (key : Row → Row)

/-- The class of the first row, and then the classes of the rows outside it. -/
def classes : List Row → List (List Row)
  | [] => []
  | x :: xs =>
    (x :: xs.filter fun y => (key x).alike (key y)) ::
      classes (xs.filter fun y => !(key x).alike (key y))
termination_by xs => xs.length
decreasing_by
  have hle := List.length_filter_le (fun y : {y // y ∈ xs} => !(key x).alike (key y.1)) xs.attach
  simpa [Nat.lt_succ_iff] using hle

/-- Without keys all rows are one class, even when there are none. -/
def classesBy (groupBy : List Expr) (xs : List Row) : List (List Row) :=
  if groupBy.isEmpty && xs.isEmpty then [[]] else classes key xs

def keysOf : List Row → Row
  | [] => []
  | x :: _ => key x

def row (calls : List AggregateCall) (arg : Expr → Row → Value) (rows : List Row) : Row :=
  keysOf key rows ++ calls.map fun c => c.result arg rows

end Grouping

end RelQuery
