import RelQuery.SqlType

namespace RelQuery

/-- A column reference, with or without the table it belongs to. -/
structure ColumnName where
  table : Option String
  column : String
  deriving DecidableEq, Inhabited

namespace ColumnName

def unqualified (column : String) : ColumnName := ⟨none, column⟩

def display (c : ColumnName) : String :=
  match c.table with
  | some t => t ++ "." ++ c.column
  | none => c.column

/-- Unqualified names come before those of any table. -/
def tableOrder : Option String → Option String → Ordering
  | none, none => .eq
  | none, some _ => .lt
  | some _, none => .gt
  | some s, some t => Ord.compare s t

def order (a b : ColumnName) : Ordering :=
  (tableOrder a.table b.table).then (Ord.compare a.column b.column)

end ColumnName

inductive Comparison
  | eq | ne | lt | le | gt | ge
  deriving DecidableEq

namespace Comparison

def display : Comparison → String
  | eq => "="
  | ne => "!="
  | lt => "<"
  | le => "<="
  | gt => ">"
  | ge => ">="

/-- The comparison that holds with its sides exchanged. -/
def flip : Comparison → Comparison
  | lt => gt
  | le => ge
  | gt => lt
  | ge => le
  | c => c

def accepts (c : Comparison) (o : Ordering) : Bool :=
  match c with
  | eq => o == .eq
  | ne => o != .eq
  | lt => o == .lt
  | le => o != .gt
  | gt => o == .gt
  | ge => o != .lt

end Comparison

inductive Connective
  | and | or
  deriving DecidableEq

namespace Connective

def display : Connective → String
  | and => "AND"
  | or => "OR"

/-- The truth value that settles a connective whatever the other terms are. -/
def decisive : Connective → Bool
  | and => false
  | or => true

end Connective

inductive ArithOp
  | add | sub | mul | div | rem
  deriving DecidableEq

def ArithOp.display : ArithOp → String
  | .add => "+"
  | .sub => "-"
  | .mul => "*"
  | .div => "/"
  | .rem => "%"

inductive ScalarFunction
  | coalesce | abs | lower | upper
  deriving DecidableEq

def ScalarFunction.display : ScalarFunction → String
  | .coalesce => "COALESCE"
  | .abs => "ABS"
  | .lower => "LOWER"
  | .upper => "UPPER"

inductive AggregateFunction
  | count | sum | avg | min | max
  deriving DecidableEq

def AggregateFunction.display : AggregateFunction → String
  | .count => "COUNT"
  | .sum => "SUM"
  | .avg => "AVG"
  | .min => "MIN"
  | .max => "MAX"

/-- Expressions. `aggregate` is a call on an argument, `aggregateAll` a call on all rows. -/
inductive Expr
  | literal (v : Value)
  | column (name : ColumnName)
  | compare (op : Comparison) (left right : Expr)
  | arith (op : ArithOp) (left right : Expr)
  | connect (op : Connective) (terms : List Expr)
  | not (inner : Expr)
  | negate (inner : Expr)
  | isNull (negated : Bool) (inner : Expr)
  | call (fn : ScalarFunction) (args : List Expr)
  | aggregate (fn : AggregateFunction) (distinct : Bool) (arg : Expr)
  | aggregateAll (fn : AggregateFunction) (distinct : Bool)
  deriving Inhabited

namespace Expr

def column? : Expr → Option ColumnName
  | column name => some name
  | _ => none

def isAggregate : Expr → Bool
  | aggregate .. | aggregateAll .. => true
  | _ => false

def children : Expr → List Expr
  | literal _ | column _ | aggregateAll .. => []
  | compare _ l r | arith _ l r => [l, r]
  | connect _ es | call _ es => es
  | not e | negate e | isNull _ e | aggregate _ _ e => [e]

mutual
def any (p : Expr → Bool) : Expr → Bool
  | literal v => p (literal v)
  | column n => p (column n)
  | aggregateAll f d => p (aggregateAll f d)
  | compare op l r => p (compare op l r) || (any p l || any p r)
  | arith op l r => p (arith op l r) || (any p l || any p r)
  | connect op es => p (connect op es) || anyOf p es
  | not e => p (not e) || any p e
  | negate e => p (negate e) || any p e
  | isNull n e => p (isNull n e) || any p e
  | call f es => p (call f es) || anyOf p es
  | aggregate f d e => p (aggregate f d e) || any p e

def anyOf (p : Expr → Bool) : List Expr → Bool
  | [] => false
  | e :: es => any p e || anyOf p es
end

def containsAggregate (e : Expr) : Bool := e.any isAggregate

mutual
/-- Every column reference, from left to right, with repetitions. -/
def columns : Expr → List ColumnName
  | literal _ | aggregateAll .. => []
  | column n => [n]
  | compare _ l r | arith _ l r => columns l ++ columns r
  | connect _ es | call _ es => columnsOf es
  | not e | negate e | isNull _ e | aggregate _ _ e => columns e

def columnsOf : List Expr → List ColumnName
  | [] => []
  | e :: es => columns e ++ columnsOf es
end

mutual
/-- Structural equality, with literals compared by `Value.same`. -/
def same : Expr → Expr → Bool
  | literal v, literal w => v.same w
  | column m, column n => m == n
  | compare o l r, compare o' l' r' => o == o' && same l l' && same r r'
  | arith o l r, arith o' l' r' => o == o' && same l l' && same r r'
  | connect o es, connect o' es' => o == o' && sameAll es es'
  | not e, not e' => same e e'
  | negate e, negate e' => same e e'
  | isNull n e, isNull n' e' => n == n' && same e e'
  | call f es, call f' es' => f == f' && sameAll es es'
  | aggregate f d e, aggregate f' d' e' => f == f' && d == d' && same e e'
  | aggregateAll f d, aggregateAll f' d' => f == f' && d == d'
  | _, _ => false

def sameAll : List Expr → List Expr → Bool
  | [], [] => true
  | e :: es, f :: fs => same e f && sameAll es fs
  | _, _ => false
end

/-- The terms an expression contributes to a connective: its own if it is one of the same kind. -/
def termsOf (op : Connective) : Expr → List Expr
  | connect op' es => if op' = op then es else [connect op' es]
  | e => [e]

/-- Joins two expressions by a connective, without nesting it in itself. -/
def join (op : Connective) (a b : Expr) : Expr := connect op (termsOf op a ++ termsOf op b)

def and (a b : Expr) : Expr := join .and a b

def or (a b : Expr) : Expr := join .or a b

/-- The conjunction of all terms; a single term stands for itself. -/
def conjunction? : List Expr → Option Expr
  | [] => none
  | [e] => some e
  | es => some (connect .and es)

end Expr

end RelQuery
