import RelQuery.Number.Decimal

namespace RelQuery

inductive Value
  | null
  | bool (b : Bool)
  | int (i : Int64)
  | float (x : Double)
  | text (s : String)
  deriving DecidableEq, Inhabited

namespace Value

def ofInt? (i : Int) : Option Value :=
  if Int64.minValue.toInt ≤ i ∧ i ≤ Int64.maxValue.toInt then some (int (.ofInt i)) else none

def isNull : Value → Bool
  | null => true
  | _ => false

def isNumeric : Value → Bool
  | int _ | float _ => true
  | _ => false

def toBool? : Value → Option Bool
  | bool b => some b
  | _ => none

def toInt? : Value → Option Int64
  | int i => some i
  | _ => none

def toFloat? : Value → Option Double
  | float x => some x
  | _ => none

def toText? : Value → Option String
  | text s => some s
  | _ => none

def toDouble? : Value → Option Double
  | int i => some (Double.ofInt i.toInt)
  | float x => some x
  | _ => none

def typeName : Value → String
  | null => "NULL"
  | bool _ => "BOOLEAN"
  | int _ => "INTEGER"
  | float _ => "DOUBLE"
  | text _ => "VARCHAR"

def display : Value → String
  | null => "NULL"
  | bool b => if b then "TRUE" else "FALSE"
  | int i => toString i.toInt
  | float x => Double.display x
  | text s => "'" ++ s ++ "'"

/-- Equality of literals: floats are equal when they are numerically equal. -/
def same : Value → Value → Bool
  | null, null => true
  | bool a, bool b => a == b
  | int i, int j => i == j
  | float x, float y => Double.same x y
  | text s, text t => s == t
  | _, _ => false

/-- The order of SQL comparisons. Integers and doubles compare as doubles; NULL and values of
different kinds are not comparable. -/
def compare? : Value → Value → Option Ordering
  | int i, int j => some (compare i.toInt j.toInt)
  | bool a, bool b => some (compare a b)
  | text s, text t => some (compare s t)
  | float x, float y => Double.compare? x y
  | int i, float y => Double.compare? (Double.ofInt i.toInt) y
  | float x, int j => Double.compare? x (Double.ofInt j.toInt)
  | _, _ => none

/-- The order of sorting: NULL first, and values that do not compare by the name of their type. -/
def order (a b : Value) : Ordering :=
  match a, b with
  | null, null => .eq
  | null, _ => .lt
  | _, null => .gt
  | a, b => (compare? a b).getD (compare a.typeName b.typeName)

def atMost (a b : Value) : Bool := (order a b).isLE

end Value

/-- The values of one row, column by column. -/
abbrev Row := List Value

/-- The lexicographic order of sort keys, each ascending or descending. -/
def Row.order : List Bool → Row → Row → Ordering
  | asc :: flags, a :: as, b :: bs =>
    (if asc then a.order b else b.order a).then (Row.order flags as bs)
  | _, _, _ => .eq

def Row.display (r : Row) : String := "(" ++ ", ".intercalate (r.map Value.display) ++ ")"

end RelQuery
