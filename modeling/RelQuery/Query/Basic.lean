import RelQuery.JoinKind
import RelQuery.SelectItem

namespace RelQuery

inductive JoinCondition
  | none
  | on (predicate : Expr)
  | using (columns : List String)
  | natural

/-- All of a statement but the relation that it reads. -/
structure SelectBody where
  items : List SelectItem
  filter : Option Expr
  groupBy : List Expr
  having : Option Expr
  orderBy : List OrderKey
  limit : Option Nat
  offset : Nat

/-- The relation that a statement reads. A statement without one reads a single row without columns;
a derived relation is the result of another statement, under a name. -/
inductive Source
  | single
  | table (table : String) (name : Option String)
  | derived (source : Source) (body : SelectBody) (name : String)
  | join (left right : Source) (kind : JoinKind) (condition : JoinCondition)

structure Select where
  source : Source
  body : SelectBody

def SelectBody.isTrivial (b : SelectBody) : Bool :=
  match b.items with
  | [.wildcard none] => true
  | _ => false

end RelQuery
