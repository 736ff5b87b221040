import RelQuery.Query.Planning
import RelQuery.Query.Reference

namespace RelQuery

/-- Values that fall into one group: of one kind and equal, doubles by their bits, but for the sign
of a zero. -/
def Value.alike : Value → Value → Bool
  | null, null => true
  | bool a, bool b => a == b
  | int i, int j => i == j
  | float x, float y => (Double.isZero x && Double.isZero y) || x == y
  | text s, text t => s == t
  | _, _ => false

def Row.alike (x y : Row) : Bool := x.isEqv y Value.alike

namespace SelectBody

variable (b : SelectBody) (s : Schema)

/-- The values of the keys in each group of rows, in the order in which the groups occur first. -/
def groups (rows : List Row) : Except EvalError (List Row) := do
  let keys ← rows.mapM fun r => b.groupBy.mapM (·.eval (.single s r))
  .ok (keys.eraseDupsBy Row.alike)

/-- What the key that an expression is holds in a group. -/
def keyValue (keys : Row) (e : Expr) : Value := (keys[b.groupBy.findIdx (e.same ·)]?).getD .null

/-- The rows of a statement that selects keys, over the rows of its source. -/
def keyReference (rows : List Row) : Except EvalError (List Row) := do
  let rows ← keepTrue s b.filter rows
  let groups ← b.groups s rows
  let selected := Planning.Outputs.itemExprs b.items
  .ok (windowRows b.limit b.offset (groups.map fun keys => selected.map (b.keyValue keys)))

end SelectBody

end RelQuery
