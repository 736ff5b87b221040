import RelQuery.Operator.Filter
import RelQuery.Operator.Group
import RelQuery.Operator.Join
import RelQuery.Operator.Limit
import RelQuery.Operator.Project
import RelQuery.Operator.Rename
import RelQuery.Operator.Scan
import RelQuery.Operator.Sorting
import RelQuery.Operator.Values

namespace RelQuery

inductive Plan
  | scan (table : TableInfo) (predicate : Option Expr)
  | values (schema : Schema) (rows : List Row)
  | filter (predicate : Expr) (child : Plan)
  | project (items : List SelectItem) (child : Plan)
  | rename (table : String) (child : Plan)
  | sort (keys : List OrderKey) (child : Plan)
  | limit (limit : Option Nat) (offset : Nat) (child : Plan)
  | group (groupBy : List Expr) (aggregates : AggregateMap) (child : Plan)
  | join (kind : JoinKind) (predicate : Option Expr) (swapped : Bool) (left right : Plan)
  | barrier (child : Plan)

namespace Plan

def operator : Plan → Operator
  | scan t p => .scan t p
  | values s rows => .values s rows
  | filter p c => .filter p c.operator
  | project items c => .project items c.operator
  | rename t c => .rename t c.operator
  | sort keys c => .sort keys c.operator
  | limit l o c => .limit l o c.operator
  | group keys calls c => .group keys calls c.operator
  | join k p swapped l r => .join k p swapped l.operator r.operator
  | barrier c => .barrier c.operator

/-- One row without columns. -/
def singleRow : Plan := values .empty [[]]

def children : Plan → List Plan
  | scan .. | values .. => []
  | filter _ c | project _ c | rename _ c | sort _ c | limit _ _ c | group _ _ c | barrier c => [c]
  | join _ _ _ l r => [l, r]

end Plan

namespace Report

mutual
/-- One line per operator, the children indented below it. -/
def explainAt (depth : Nat) : Report → String
  | node _ label status _ _ children =>
    let indent := String.ofList (List.replicate (2 * depth) ' ')
    let cost := match status.profile with
      | some p => " cost=" ++ p.cost.display
      | none => ""
    indent ++ label ++ cost ++ "\n" ++ explainAll (depth + 1) children

def explainAll (depth : Nat) : List Report → String
  | [] => ""
  | r :: rs => explainAt depth r ++ explainAll depth rs
end

def explain (r : Report) : String := explainAt 0 r

end Report

structure Cursor where
  plan : Plan
  config : Config
  state : plan.operator.State

namespace Cursor

def ofPlan (p : Plan) (c : Config) : Cursor := ⟨p, c, p.operator.start⟩

def setState (c : Cursor) (s : c.plan.operator.State) : Cursor := { c with state := s }

def run {α : Type} (c : Cursor)
    (f : c.plan.operator.State → Outcome α c.plan.operator.State) : Except QueryError α × Cursor :=
  ((f c.state).1, c.setState (f c.state).2)

def status (c : Cursor) : Status := c.plan.operator.status c.state

def schema (c : Cursor) : Schema := c.status.schema

def marks (c : Cursor) : Bool := c.plan.operator.marks

def orderedBy (c : Cursor) : List OrderKey := c.plan.operator.orderedBy

def report (c : Cursor) : Report := c.plan.operator.report c.state

def explain (c : Cursor) : String := c.report.explain

def kept (c : Cursor) : List Tuple := c.plan.operator.kept c.state

def prepare (c : Cursor) : Except QueryError Unit × Cursor :=
  c.run (c.plan.operator.prepare c.config)

def rewind (c : Cursor) : Except QueryError Unit × Cursor := c.run c.plan.operator.rewind

def next (c : Cursor) (db : Storage) : Except QueryError (Option Tuple) × Cursor :=
  c.run (c.plan.operator.next db)

def mark (c : Cursor) : Except QueryError Unit × Cursor := c.run c.plan.operator.mark

def reset (c : Cursor) : Except QueryError Unit × Cursor := c.run c.plan.operator.reset

def cleanUp (c : Cursor) : Cursor := c.setState (c.plan.operator.cleanUp c.state)

/-- The same plan and settings, unprepared. -/
def duplicate (c : Cursor) : Cursor := ofPlan c.plan c.config

def configure (c : Cursor) (config : Config) : Cursor := { c with config := config }

def remaining (c : Cursor) (db : Storage) : Nat := c.plan.operator.remaining db c.state

/-- Takes tuples until there are no more or one fails; tells what came and how it ended. -/
def drainFor (db : Storage) : Nat → Cursor → List Tuple × Except QueryError Unit × Cursor
  | 0, c => ([], .ok (), c)
  | fuel + 1, c =>
    match c.next db with
    | (.error e, c) => ([], .error e, c)
    | (.ok none, c) => ([], .ok (), c)
    | (.ok (some t), c) =>
      let (ts, rest) := drainFor db fuel c
      (t :: ts, rest)

def drain (c : Cursor) (db : Storage) : List Tuple × Except QueryError Unit × Cursor :=
  drainFor db (c.remaining db + 1) c

/-- Runs the plan from its start and gives all its tuples, without their pages. The cursor is
cleaned up when the run succeeds. -/
def collect (c : Cursor) (db : Storage) : Except QueryError (List Tuple) × Cursor :=
  match c.rewind with
  | (.error e, c) => (.error e, c)
  | (.ok _, c) =>
    match c.drain db with
    | (_, .error e, c) => (.error e, c)
    | (ts, .ok _, c) => (.ok (ts.map Tuple.unpin), c.cleanUp)

def prepared (p : Plan) (config : Config) : Except QueryError Cursor :=
  match (ofPlan p config).prepare with
  | (.error e, _) => .error e
  | (.ok _, c) => .ok c

end Cursor

end RelQuery
