import RelQuery.Plan
import RelQuery.Query.Basic

namespace RelQuery

namespace Planning

def whereClause : String := "the WHERE clause"

def groupByClause : String := "the GROUP BY clause"

def onClause : String := "the ON clause"

/-- Lays an operator over a plan and prepares the result. -/
def layer (config : Config) (c : Cursor) (f : Plan → Plan) : Except QueryError Cursor :=
  Cursor.prepared (f c.plan) config

/-- Lays an operator over a plan, where there is one to lay. -/
def layerSome {α : Type} (config : Config) (c : Cursor) (f : α → Plan → Plan) :
    Option α → Except QueryError Cursor
  | some a => layer config c (f a)
  | none => .ok c

/-- Lays an operator over a plan, where a condition asks for it. -/
def layerIf (config : Config) (c : Cursor) (wanted : Bool) (f : Plan → Plan) :
    Except QueryError Cursor :=
  if wanted then layer config c f else .ok c

/-- A scan of a table, with a predicate that holds no aggregate call. -/
def scan (db : Storage) (config : Config) (table : String) (predicate : Option Expr) :
    Except QueryError Cursor := do
  if table.isEmpty then throw (.invalidArgument .emptyTableName)
  let predicate ← predicate.mapM (AggregateCollector.check whereClause)
  let info ← db.openTable table
  Cursor.prepared (.scan info predicate) config

/-- The parts of a statement that may hold aggregate calls. -/
structure Outputs where
  items : List SelectItem
  having : Option Expr
  orderBy : List OrderKey

namespace Outputs

def itemExprs : List SelectItem → List Expr
  | [] => []
  | .expr e _ :: items => e :: itemExprs items
  | .wildcard _ :: items => itemExprs items

/-- Puts expressions, one for each that an item has, into the items. -/
def setItems : List SelectItem → List Expr → List SelectItem
  | .expr _ a :: items, e :: es => .expr e a :: setItems items es
  | item :: items, es => item :: setItems items es
  | [], _ => []

/-- Puts columns in the place of the aggregate calls, and gives the calls. -/
def collect (o : Outputs) : Except QueryError (Outputs × AggregateMap) := do
  let (items, c) ← AggregateCollector.empty.replaceAll (itemExprs o.items)
  let (having, c) ← c.replaceAll o.having.toList
  let (keys, c) ← c.replaceAll (o.orderBy.map OrderKey.expr)
  .ok
    ({ items := setItems o.items items
       having := having.head?
       orderBy := List.zipWith (fun k e => { k with expr := e }) o.orderBy keys },
      c.collected)

def overGroups (groupBy : List Expr) (o : Outputs) : Outputs :=
  { items := o.items.map (.map (replaceGrouped groupBy))
    having := o.having.map (replaceGrouped groupBy)
    orderBy := o.orderBy.map (.map (replaceGrouped groupBy)) }

end Outputs

/-- Some unqualified key column is the alias of an item that is not that very column. -/
def shadowed (columns : List ColumnName) (items : List SelectItem) : Bool :=
  columns.any fun c =>
    c.table.isNone && items.any fun
      | .expr e (some a) => a == c.column && e.column? != some c
      | _ => false

/-- The sort keys can be computed before the projection, and mean the same there. -/
def sortsFirst (keys : List OrderKey) (items : List SelectItem) (s : Schema) : Bool :=
  let columns := keys.flatMap (·.expr.columns)
  !keys.isEmpty && !shadowed columns items && columns.all s.resolves

/-- Lays a statement over the plan of its source. -/
def body (config : Config) (c : Cursor) (b : SelectBody) : Except QueryError Cursor := do
  let predicate ← b.filter.mapM (AggregateCollector.check whereClause)
  let c ← layerSome config c .filter predicate
  let _ ← b.groupBy.mapM (AggregateCollector.check groupByClause)
  let (outputs, calls) ← Outputs.collect ⟨b.items, b.having, b.orderBy⟩
  let grouped := !b.groupBy.isEmpty || !calls.isEmpty
  let c ← layerIf config c grouped (.group b.groupBy calls)
  let outputs := if grouped then outputs.overGroups b.groupBy else outputs
  let c ← layerSome config c .filter outputs.having
  let first := sortsFirst outputs.orderBy b.items c.schema
  let c ← layerIf config c first (.sort outputs.orderBy)
  let c ← layerIf config c (!b.isTrivial) (.project outputs.items)
  let c ← layerIf config c (!outputs.orderBy.isEmpty && !first) (.sort outputs.orderBy)
  layerIf config c (b.limit.isSome || 0 < b.offset) (.limit b.limit b.offset)

/-- The one column of a name that one input of a join has. -/
def sharedColumn (s : Schema) (side column : String) : Except QueryError ColumnName :=
  match s.candidates (.unqualified column) with
  | [c] => .ok c.1.fullName
  | [] => .error (.invalidArgument (.missingJoinColumn column side))
  | _ => .error (.invalidArgument (.ambiguousJoinColumn column side))

def sharedPair (left right : Schema) (column : String) :
    Except QueryError (ColumnName × ColumnName) := do
  let l ← sharedColumn left "left" column
  let r ← sharedColumn right "right" column
  .ok (l, r)

/-- The predicate of a join, and the columns that its inputs share. -/
def joinTerms (left right : Schema) :
    JoinCondition → Except QueryError (Option Expr × List String)
  | .none => .ok (none, [])
  | .on p => do
    let p ← AggregateCollector.check onClause p
    .ok (some p, [])
  | .using columns => shared columns
  | .natural => shared (left.commonNames right)
where
  shared (columns : List String) : Except QueryError (Option Expr × List String) := do
    let pairs ← columns.mapM (sharedPair left right)
    .ok (Expr.conjunction? (pairs.map fun p => .compare .eq (.column p.1) (.column p.2)), columns)

def sharedItem (kind : JoinKind) (column : String) (pair : ColumnName × ColumnName) : SelectItem :=
  match kind with
  | .fullOuter => .expr (.call .coalesce [.column pair.1, .column pair.2]) (some column)
  | .rightOuter => .expr (.column pair.2) none
  | _ => .expr (.column pair.1) none

def ownItems (shared : List String) (s : Schema) : List SelectItem :=
  (s.columns.filter fun c => !shared.contains c.name).map fun c => .expr (.column c.fullName) none

/-- Each shared column once, then the other columns of the inputs. -/
def sharedItems (kind : JoinKind) (left right : Schema) (shared : List String) :
    Except QueryError (List SelectItem) := do
  let pairs ← shared.mapM (sharedPair left right)
  let first := List.zipWith (sharedItem kind) shared pairs
  let rest := if kind.leftColumnsOnly then [] else ownItems shared right
  .ok (first ++ ownItems shared left ++ rest)

/-- A right outer join runs as a left outer join with its inputs exchanged. -/
def joinPlan (kind : JoinKind) (predicate : Option Expr) (left right : Plan) : Plan :=
  if kind = .rightOuter then .join .leftOuter predicate true right left
  else .join kind predicate false left right

def join (config : Config) (left right : Cursor) (kind : JoinKind) (condition : JoinCondition) :
    Except QueryError Cursor := do
  let (predicate, shared) ← joinTerms left.schema right.schema condition
  let c ← Cursor.prepared (joinPlan kind predicate left.plan right.plan) config
  if shared.isEmpty then
    .ok c
  else
    let items ← sharedItems kind left.schema right.schema shared
    layer config c (.project items)

/-- The plan of a relation. -/
def source (db : Storage) (config : Config) : Source → Except QueryError Cursor
  | .single => Cursor.prepared .singleRow config
  | .table table name => do
    let c ← scan db config table none
    match name with
    | none => .ok c
    | some a => if a = table then .ok c else layer config c (.rename a)
  | .derived s b name => do
    let c ← source db config s
    let c ← body config c b
    layer config c (.rename name)
  | .join left right kind condition => do
    let l ← source db config left
    let r ← source db config right
    join config l r kind condition

end Planning

/-- Plans a statement. It must not stand inside another. -/
def Select.plan (db : Storage) (config : Config) (enclosing : List Select) (s : Select) :
    Except QueryError Cursor := do
  if !enclosing.isEmpty then throw .correlatedSubquery
  let c ← Planning.source db config s.source
  Planning.body config c s.body

end RelQuery
