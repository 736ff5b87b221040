import RelQuery.Expr.Display

namespace RelQuery

/-- An output of a select list: all columns, of one table or of all, or an expression, perhaps under
another name. -/
inductive SelectItem
  | wildcard (table : Option String)
  | expr (e : Expr) (name : Option String)

namespace SelectItem

def display : SelectItem → String
  | wildcard (some t) => t ++ ".*"
  | wildcard none => "*"
  | expr e (some a) => e.display ++ " AS " ++ a
  | expr e none => e.display

def map (f : Expr → Expr) : SelectItem → SelectItem
  | expr e a => expr (f e) a
  | item => item

end SelectItem

structure OrderKey where
  expr : Expr
  ascending : Bool

namespace OrderKey

def display (k : OrderKey) : String := k.expr.display ++ (if k.ascending then " ASC" else " DESC")

def map (f : Expr → Expr) (k : OrderKey) : OrderKey := { k with expr := f k.expr }

end OrderKey

end RelQuery
