import RelQuery.Operator.Basic
import RelQuery.Expr.Typing

namespace RelQuery

namespace Project

/-- How one column of the result comes about. -/
inductive Output
  | column (position : Nat)
  | computed (e : Expr)

/-- The columns of a schema that pass a test, as they are. -/
def copies (s : Schema) (p : Column → Bool) : List (Output × Column) :=
  (s.columns.zipIdx.filter (p ·.1)).map fun c => (.column c.2, c.1)

/-- The outputs of one item over the schema of the child. -/
def resolveItem (s : Schema) : SelectItem → Except QueryError (List (Output × Column))
  | .wildcard none => .ok (copies s fun _ => true)
  | .wildcard (some t) =>
    match copies s (·.table == some t) with
    | [] => .error (.invalidArgument (.unmatchedWildcard t))
    | cs => .ok cs
  | .expr e name =>
    match e.column? with
    | none => .ok [(.computed e, ⟨name.getD e.display, none, e.sqlType s⟩)]
    | some c =>
      match s.resolve c with
      | .error err => .error (.ofResolve err)
      | .ok (info, i) =>
        match name with
        | none => .ok [(.column i, info)]
        | some a => .ok [(.column i, ⟨a, none, e.sqlType s⟩)]

def resolveItems (s : Schema) : List SelectItem → Except QueryError (List (Output × Column))
  | [] => .ok []
  | item :: items => do
    let cs ← resolveItem s item
    let ds ← resolveItems s items
    .ok (cs ++ ds)

def outputStats (stats : List ColumnStats) : Output → ColumnStats
  | .column i => (stats[i]?).getD .unknown
  | .computed _ => .unknown

def profile (c : Config) (outputs : List (Output × Column)) (child : Status) : Profile :=
  let schema : Schema := ⟨outputs.map (·.2)⟩
  { schema := schema
    cost := c.costModel.project child.cost schema.rowSize
    columns := outputs.map fun o => outputStats child.columns o.1 }

/-- A column that the row lacks is NULL. -/
def outputValue (s : Schema) (r : Row) : Output → Except QueryError Value
  | .column i => .ok ((r[i]?).getD .null)
  | .computed e => Operator.evalRow s e r

def outputRow (s : Schema) (outputs : List Output) (r : Row) : Except QueryError Row :=
  outputs.mapM (outputValue s r)

def settle (items : List SelectItem) (c : Config) (child : Status) :
    Except QueryError (Profile × List Output) := do
  let outputs ← resolveItems child.schema items
  .ok (profile c outputs child, outputs.map (·.1))

def next (child : Operator) (db : Storage) (s : Wrapped (List Output) child.State) :
    Outcome (Option Tuple) (Wrapped (List Output) child.State) :=
  match child.next db s.child with
  | (.error e, cs) => (.error e, { s with child := cs })
  | (.ok none, cs) => (.ok none, { s with child := cs })
  | (.ok (some t), cs) =>
    match outputRow (child.status cs).schema s.settled t.values with
    | .error e => (.error e, { s with child := cs })
    | .ok r => (.ok (some (.computed r)), { s with status := s.status.count, child := cs })

theorem next_some {child : Operator} {db : Storage} {s s' : Wrapped (List Output) child.State}
    {t : Tuple}
    (h : next child db s = (.ok (some t), s')) :
    child.remaining db s'.child < child.remaining db s.child := by
  unfold next at h
  split at h
  · simp at h
  · simp at h
  · next u c hc =>
    split at h
    · simp at h
    · obtain ⟨-, rfl⟩ := Prod.mk.inj h
      exact child.next_lt hc

def label (items : List SelectItem) : String :=
  "Project[values: " ++ ", ".intercalate (items.map SelectItem.display) ++ "]"

end Project

def Operator.project (items : List SelectItem) (child : Operator) : Operator :=
  .wrapped .project (Project.label items) child.marks (.unmarkable .project) [] child
    { start := []
      settle := Project.settle items
      next := Project.next child
      next_some := Project.next_some }

end RelQuery
