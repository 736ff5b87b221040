import RelQuery.Schema

namespace RelQuery

def Value.sqlType : Value → SqlType
  | .null | .int _ => .integer
  | .bool _ => .boolean
  | .float _ => .double
  | .text s => .varCharOf s

namespace Expr

/-- The type of a column whose reference does not resolve, and of an empty list of texts. -/
def defaultText : SqlType := .varChar 255

def sqlType (s : Schema) : Expr → SqlType
  | literal v => v.sqlType
  | column c =>
    match s.resolve c with
    | .ok (info, _) => info.type
    | .error _ => defaultText
  | compare .. | connect .. | not _ | isNull .. => .boolean
  | arith _ l r =>
    if (sqlType s l).isInteger && (sqlType s r).isInteger then .bigInt else .double
  | negate e => sqlType s e
  | call f es =>
    match es with
    | e :: _ => sqlType s e
    | [] =>
      match f with
      | .coalesce | .abs => .integer
      | .lower | .upper => defaultText
  | aggregate f _ e =>
    match f with
    | .count => .bigInt
    | .avg => .double
    | .sum => if (sqlType s e).isInteger then .bigInt else .double
    | .min | .max => sqlType s e
  | aggregateAll f _ =>
    match f with
    | .count => .bigInt
    | .avg | .sum => .double
    | .min | .max => .integer

end Expr

end RelQuery
