import RelQuery.Error
import RelQuery.Text.Case

namespace RelQuery

/-- The rows in scope, each with its schema, in the order they were bound. -/
structure Environment where
  bindings : List (Schema × Row)

namespace Environment

def single (s : Schema) (r : Row) : Environment := ⟨[(s, r)]⟩

def pair (s : Schema) (r : Row) (s' : Schema) (r' : Row) : Environment := ⟨[(s, r), (s', r')]⟩

/-- What each column that answers a reference holds; nothing where its row is too short. -/
def found (env : Environment) (c : ColumnName) : List (Option Value) :=
  env.bindings.flatMap fun b => (b.1.positions c).map (b.2[·]?)

def lookup (env : Environment) (c : ColumnName) : Except EvalError Value :=
  match env.found c with
  | [] => .error (.unresolved (.unknown c))
  | none :: _ => .error (.tupleTooShort c)
  | [some v] => .ok v
  | some _ :: _ :: _ => .error (.unresolved (.ambiguous c))

end Environment

namespace Value

def checked (i : Int) : Except EvalError Value :=
  match ofInt? i with
  | some v => .ok v
  | none => .error .overflow

/-- Exact integer arithmetic; a quotient is truncated and a remainder has the dividend's sign. -/
def intArith (op : ArithOp) (a b : Int) : Except EvalError Value :=
  match op with
  | .add => checked (a + b)
  | .sub => checked (a - b)
  | .mul => checked (a * b)
  | .div => if b = 0 then .error .divisionByZero else checked (a.tdiv b)
  | .rem =>
    if b = 0 then .error .divisionByZero
    else if a.tdiv b ≤ Int64.maxValue.toInt then checked (a.tmod b)
    else .error .overflow

def floatArith (op : ArithOp) (x y : Double) : Except EvalError Value :=
  match op with
  | .add => .ok (float (x + y))
  | .sub => .ok (float (x - y))
  | .mul => .ok (float (x * y))
  | .div => if Double.isZero y then .error .divisionByZero else .ok (float (x / y))
  | .rem => if Double.isZero y then .error .divisionByZero else .ok (float (Double.remainder x y))

/-- Arithmetic is exact on integers, in doubles once one side is a double, and unknown on NULL. -/
def arith (op : ArithOp) (v w : Value) : Except EvalError Value :=
  match v, w with
  | null, _ => .ok null
  | _, null => .ok null
  | int a, int b => intArith op a.toInt b.toInt
  | v, w =>
    match v.toDouble?, w.toDouble? with
    | some x, some y => floatArith op x y
    | _, _ => .error (.mismatch "numeric" (if v.isNumeric then w else v).typeName)

def compareWith (op : Comparison) (v w : Value) : Except EvalError Value :=
  if v.isNull || w.isNull then .ok null
  else
    match v.compare? w with
    | some o => .ok (bool (op.accepts o))
    | none => .error (.mismatch v.typeName w.typeName)

def negate : Value → Except EvalError Value
  | null => .ok null
  | int i => checked (-i.toInt)
  | float x => .ok (float (-x))
  | v => .error (.mismatch "numeric" v.typeName)

def truth : Value → Except EvalError (Option Bool)
  | bool b => .ok (some b)
  | null => .ok none
  | v => .error (.mismatch "BOOLEAN" v.typeName)

def ofTruth : Option Bool → Value
  | some b => bool b
  | none => null

def apply (f : ScalarFunction) (args : List Value) : Except EvalError Value :=
  match f, args with
  | .coalesce, vs => .ok ((vs.find? fun v => !v.isNull).getD null)
  | _, [null] => .ok null
  | .abs, [int i] => checked i.toInt.natAbs
  | .abs, [float x] => .ok (float x.abs)
  | .lower, [text s] => .ok (text (lowerCase s))
  | .upper, [text s] => .ok (text (upperCase s))
  | f, [v] => .error (.undefinedFor f v.typeName)
  | f, _ => .error (.argumentCount f)

end Value

namespace Expr

mutual
def eval (env : Environment) : Expr → Except EvalError Value
  | literal v => .ok v
  | column c => env.lookup c
  | compare op l r => do
    let v ← eval env l
    let w ← eval env r
    v.compareWith op w
  | arith op l r => do
    let v ← eval env l
    let w ← eval env r
    v.arith op w
  | connect op es => evalTerms env op false es
  | not e => do
    let t ← (← eval env e).truth
    .ok (.ofTruth (t.map (!·)))
  | negate e => do
    (← eval env e).negate
  | isNull negated e => do
    .ok (.bool ((← eval env e).isNull != negated))
  | call f es => do
    .ok (← Value.apply f (← evalAll env es))
  | aggregate f d e => .error (.ungrouped (aggregate f d e))
  | aggregateAll f d => .error (.ungrouped (aggregateAll f d))

/-- The terms of a connective up to the first that decides; `sawNull` tells whether an earlier one
was unknown. -/
def evalTerms (env : Environment) (op : Connective) (sawNull : Bool) :
    List Expr → Except EvalError Value
  | [] => .ok (if sawNull then .null else .bool (!op.decisive))
  | e :: es => do
    match ← (← eval env e).truth with
    | some b => if b = op.decisive then .ok (.bool b) else evalTerms env op sawNull es
    | none => evalTerms env op true es

def evalAll (env : Environment) : List Expr → Except EvalError (List Value)
  | [] => .ok []
  | e :: es => do
    let v ← eval env e
    let vs ← evalAll env es
    .ok (v :: vs)
end

/-- A predicate holds only where it is true; unknown does not count. -/
def holds (e : Expr) (env : Environment) : Except EvalError Bool := do
  let t ← (← eval env e).truth
  .ok (t.getD false)

end Expr

end RelQuery
