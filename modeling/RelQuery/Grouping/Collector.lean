import RelQuery.Error
import RelQuery.Expr.Traverse

namespace RelQuery

/-- Aggregate calls under the names of their columns, in the order of the names. -/
abbrev AggregateMap := List (String × Expr)

namespace AggregateMap

/-- Adds a call under a name, unless the name is taken. -/
def insertNew (key : String) (call : Expr) : AggregateMap → AggregateMap
  | [] => [(key, call)]
  | (k, e) :: rest =>
    match compare key k with
    | .lt => (key, call) :: (k, e) :: rest
    | .eq => (k, e) :: rest
    | .gt => (k, e) :: insertNew key call rest

/-- Files a call under a name, in the place of an earlier one. -/
def insert (key : String) (call : Expr) : AggregateMap → AggregateMap
  | [] => [(key, call)]
  | (k, e) :: rest =>
    match compare key k with
    | .lt => (key, call) :: (k, e) :: rest
    | .eq => (key, call) :: rest
    | .gt => (k, e) :: insert key call rest

def keys (m : AggregateMap) : List String := m.map (·.1)

def calls (m : AggregateMap) : List Expr := m.map (·.2)

end AggregateMap

/-- The name of the column that holds the result of an aggregate call. -/
def aggregateKey (call : Expr) : String := "#" ++ call.display

/-- The calls collected so far, the clause that may hold none, and the number of calls around the
node in hand. -/
structure AggregateCollector where
  collected : AggregateMap
  disallowedIn : Option String
  depth : Nat

namespace AggregateCollector

abbrev Collecting := ExceptT QueryError (StateM AggregateCollector)

def empty : AggregateCollector := ⟨[], none, 0⟩

def refusing (clause : String) : AggregateCollector := ⟨[], some clause, 0⟩

/-- From here on calls are refused, in the name of a clause. -/
def disallow (c : AggregateCollector) (clause : String) : AggregateCollector :=
  { c with disallowedIn := some clause }

def allow (c : AggregateCollector) : AggregateCollector := { c with disallowedIn := none }

def enter (e : Expr) : Collecting Unit := do
  if e.isAggregate then
    let c ← get
    match c.disallowedIn with
    | some clause => throw (.illegalAggregate (.notAllowedIn clause e))
    | none =>
      if 0 < c.depth then
        throw (.illegalAggregate (.nested e))
      else
        set { c with depth := c.depth + 1 }

def leave (e : Expr) : Collecting Expr := do
  if e.isAggregate then
    let key := aggregateKey e
    modify fun c =>
      { c with depth := c.depth - 1, collected := c.collected.insertNew key e }
    return .column (.unqualified key)
  else
    return e

/-- Collects the aggregate calls of an expression and puts their columns in their place. -/
def replace (c : AggregateCollector) (e : Expr) : Except QueryError Expr × AggregateCollector :=
  (e.traverse enter leave).run.run { c with depth := 0 }

def check (clause : String) (e : Expr) : Except QueryError Expr :=
  ((refusing clause).replace e).1

/-- Collects from several expressions in turn, up to the first failure. -/
def replaceAll (c : AggregateCollector) :
    List Expr → Except QueryError (List Expr × AggregateCollector)
  | [] => .ok ([], c)
  | e :: es => do
    let (r, c) := c.replace e
    let e ← r
    let (es, c) ← c.replaceAll es
    .ok (e :: es, c)

end AggregateCollector

/-- Puts a column in the place of every expression, other than a column, that a grouping
computes. -/
def replaceGrouped (groupBy : List Expr) (e : Expr) : Expr :=
  e.mapNodes fun x =>
    if x.column?.isNone && groupBy.any (x.same ·) then .column (.unqualified x.display) else x

end RelQuery
