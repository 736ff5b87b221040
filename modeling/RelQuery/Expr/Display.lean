import RelQuery.Expr.Basic

namespace RelQuery.Expr

/-- Operands of these forms are written in parentheses. -/
def needsParentheses : Expr → Bool
  | compare .. | arith .. | connect .. | not _ => true
  | _ => false

def enclose (e : Expr) (text : String) : String :=
  if needsParentheses e then "(" ++ text ++ ")" else text

mutual
def display : Expr → String
  | literal v => v.display
  | column n => n.display
  | compare op l r => enclose l (display l) ++ " " ++ op.display ++ " " ++ enclose r (display r)
  | arith op l r => enclose l (display l) ++ " " ++ op.display ++ " " ++ enclose r (display r)
  | connect op es => (" " ++ op.display ++ " ").intercalate (displayOperands es)
  | not e => "NOT " ++ enclose e (display e)
  | negate e => "-" ++ enclose e (display e)
  | isNull negated e =>
    enclose e (display e) ++ (if negated then " IS NOT NULL" else " IS NULL")
  | call f es => f.display ++ "(" ++ ", ".intercalate (displayAll es) ++ ")"
  | aggregate f distinct e =>
    f.display ++ "(" ++ (if distinct then "DISTINCT " else "") ++ display e ++ ")"
  | aggregateAll f distinct => f.display ++ "(" ++ (if distinct then "DISTINCT " else "") ++ "*)"

def displayAll : List Expr → List String
  | [] => []
  | e :: es => display e :: displayAll es

def displayOperands : List Expr → List String
  | [] => []
  | e :: es => enclose e (display e) :: displayOperands es
end

end RelQuery.Expr
