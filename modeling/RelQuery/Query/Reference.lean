import RelQuery.Expr.Eval
import RelQuery.Expr.Traverse
import RelQuery.Query.Basic

namespace RelQuery

namespace Expr

/-- What columns stand for, where it is known. -/
abbrev Meaning := ColumnName → Except EvalError Value

/-- The value that a column stands for, in its place. -/
def meant (ρ : Meaning) : Expr → Expr
  | column n =>
    match ρ n with
    | .ok v => literal v
    | .error _ => column n
  | e => e

/-- The value of an expression whose columns stand for given values. -/
def evalWith (ρ : Meaning) (e : Expr) : Except EvalError Value := (e.mapNodes (meant ρ)).eval ⟨[]⟩

end Expr

/-- A reference denotes a column of this name. -/
def ColumnName.answers (n r : ColumnName) : Bool :=
  n.column == r.column && (r.table.isNone || n.table == r.table)

/-- A column of a result: its name, and its value over a row of the source. -/
structure Field where
  name : ColumnName
  value : Row → Except EvalError Value

namespace SelectItem

/-- An output is named by its alias, a column by its own name, and what is computed by its text. -/
def fieldName (s : Schema) (e : Expr) : Option String → ColumnName
  | some a => .unqualified a
  | none =>
    match e.column? with
    | some n =>
      match s.resolve n with
      | .ok (c, _) => c.fullName
      | .error _ => n
    | none => .unqualified e.display

def fields (s : Schema) : SelectItem → List Field
  | wildcard t =>
    (s.columns.zipIdx.filter fun c => t.isNone || c.1.table == t).map fun c =>
      ⟨c.1.fullName, fun r => .ok ((r[c.2]?).getD .null)⟩
  | expr e a => [⟨fieldName s e a, fun r => e.eval (.single s r)⟩]

end SelectItem

def keepTrue (s : Schema) (p : Option Expr) (rows : List Row) : Except EvalError (List Row) :=
  match p with
  | none => .ok rows
  | some p => do
    let tests ← rows.mapM fun r => p.holds (.single s r)
    .ok (((rows.zip tests).filter (·.2)).map (·.1))

/-- The rows of a window: some are passed over, and then at most so many are kept. -/
def windowRows (limit : Option Nat) (offset : Nat) (rows : List Row) : List Row :=
  match limit with
  | some n => (rows.drop offset).take n
  | none => rows.drop offset

namespace SelectBody

variable (b : SelectBody) (s : Schema)

def fields : List Field := b.items.flatMap (·.fields s)

/-- The expression that an unqualified name is the alias of. -/
def aliased? (n : ColumnName) : Option Expr :=
  if n.table.isSome then none
  else
    b.items.findSome? fun
      | .expr e (some a) => if a = n.column then some e else none
      | _ => none

/-- What a column of a sort key stands for: the item of which it is the alias, or else the column of
the source that it denotes, or else the column of the result that it denotes. -/
def meaning (r : Row) : Expr.Meaning := fun n =>
  match b.aliased? n with
  | some e => e.eval (.single s r)
  | none =>
    if s.resolves n then Environment.lookup (.single s r) n
    else
      match (b.fields s).filter (·.name.answers n) with
      | [f] => f.value r
      | [] => .error (.unresolved (.unknown n))
      | _ => .error (.unresolved (.ambiguous n))

def keyRow (r : Row) : Except EvalError Row :=
  b.orderBy.mapM fun k => k.expr.evalWith (b.meaning s r)

def outputRow (r : Row) : Except EvalError Row := (b.fields s).mapM (·.value r)

/-- The rows of a statement without grouping, over the rows of its source. -/
def reference (rows : List Row) : Except EvalError (List Row) := do
  let rows ← keepTrue s b.filter rows
  let rows ← keepTrue s b.having rows
  let keys ← rows.mapM (b.keyRow s)
  let sorted := (keys.zip rows).mergeSort fun x y =>
    (Row.order (b.orderBy.map OrderKey.ascending) x.1 y.1).isLE
  let outputs ← sorted.mapM fun x => b.outputRow s x.2
  .ok (windowRows b.limit b.offset outputs)

end SelectBody

end RelQuery
