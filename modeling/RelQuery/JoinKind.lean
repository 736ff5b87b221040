namespace RelQuery

inductive JoinKind
  | inner | cross | leftOuter | rightOuter | fullOuter | semi | anti
  deriving DecidableEq

namespace JoinKind

def display : JoinKind → String
  | inner => "INNER"
  | cross => "CROSS"
  | leftOuter => "LEFT OUTER"
  | rightOuter => "RIGHT OUTER"
  | fullOuter => "FULL OUTER"
  | semi => "SEMIJOIN"
  | anti => "ANTIJOIN"

/-- A left row without a partner appears in the result, padded with NULLs. -/
def preservesLeft : JoinKind → Bool
  | leftOuter | fullOuter => true
  | _ => false

/-- Without right rows the result is empty. -/
def needsRight : JoinKind → Bool
  | inner | cross | semi => true
  | _ => false

/-- The result has the columns of the left input alone. -/
def leftColumnsOnly : JoinKind → Bool
  | semi | anti => true
  | _ => false

end JoinKind

end RelQuery
