import RelQuery.Expr.Eval
import RelQuery.Grouping.Key

namespace RelQuery

/-- An aggregate call taken apart: its function, its argument unless it counts rows, and whether
only first occurrences count. -/
structure AggregateCall where
  fn : AggregateFunction
  arg : Option Expr
  distinct : Bool

def Expr.aggregateCall? : Expr → Option AggregateCall
  | .aggregate f d e => some ⟨f, some e, d⟩
  | .aggregateAll f d => some ⟨f, none, d⟩
  | _ => none

structure Accumulator where
  call : AggregateCall
  seen : List (List UInt8)
  count : Nat
  total : Option Value
  extreme : Option Value

namespace Accumulator

def start (call : AggregateCall) : Accumulator := ⟨call, [], 0, none, none⟩

def summand (f : AggregateFunction) (v : Value) : Except EvalError Value :=
  if v.isNumeric then .ok v else .error (.notSummable f v.typeName)

/-- The sum of two numbers: exact on integers, a double once one of them is. -/
def addTo (f : AggregateFunction) (total v : Value) : Except EvalError Value :=
  match total, v with
  | .int a, .int b =>
    match Value.ofInt? (a.toInt + b.toInt) with
    | some s => .ok s
    | none => .error (.sumOverflow f)
  | a, b =>
    match a.toDouble?, b.toDouble? with
    | some x, some y => .ok (.float (x + y))
    | _, _ => .error (.notSummable f "non-numeric values")

/-- A new extreme displaces the old one only when it is strictly beyond it. -/
def displaces (f : AggregateFunction) (v : Value) : Option Value → Bool
  | none => true
  | some current => if f = .min then v.order current == .lt else v.order current == .gt

def add (a : Accumulator) (v : Value) : Except EvalError Accumulator :=
  let a := { a with count := a.count + 1 }
  match a.call.fn with
  | .count => .ok a
  | .sum | .avg => do
    let v ← summand a.call.fn v
    match a.total with
    | none => .ok { a with total := some v }
    | some t => do
      let t ← addTo a.call.fn t v
      .ok { a with total := some t }
  | .min | .max =>
    .ok (if displaces a.call.fn v a.extreme then { a with extreme := some v } else a)

/-- Takes in the argument's value of one row: NULL never counts, and under `DISTINCT` a value counts
where it occurs first. -/
def take (a : Accumulator) (v : Value) : Except EvalError Accumulator :=
  if v.isNull then .ok a
  else if a.call.distinct then
    if a.seen.contains v.keyBytes then .ok a
    else { a with seen := v.keyBytes :: a.seen }.add v
  else a.add v

def update (a : Accumulator) (env : Environment) : Except EvalError Accumulator :=
  match a.call.arg with
  | none => .ok { a with count := a.count + 1 }
  | some e => do a.take (← e.eval env)

def finish (a : Accumulator) : Value :=
  match a.call.fn with
  | .count => .int (.ofNat a.count)
  | .sum => a.total.getD .null
  | .avg =>
    match a.total.bind Value.toDouble? with
    | some t => if 0 < a.count then .float (t / Double.ofInt a.count) else .null
    | none => .null
  | .min | .max => a.extreme.getD .null

end Accumulator

end RelQuery
