import RelQuery.Pins.Operators
import RelQuery.Query.Planning

namespace RelQuery

/-- Things under names; a new thing takes the place of an older one of its name. -/
abbrev Named (α : Type) := List (String × α)

namespace Named

variable {α : Type}

def get? (m : Named α) (name : String) : Option α := List.lookup name m

def erase (m : Named α) (name : String) : Named α := m.filter (·.1 != name)

def put (m : Named α) (name : String) (a : α) : Named α := (name, a) :: erase m name

end Named

structure Session where
  storage : Storage
  config : Config
  cursors : Named Cursor
  held : Named Tuple
  /-- The counters of the pages. -/
  pins : PinCounts

/-- The operations on a cursor that only succeed or fail. -/
inductive Control
  | prepare | rewind | cleanUp | mark | reset

inductive Action
  | createTable (table : String) (columns : List (String × SqlType))
  | insert (table : String) (row : Row)
  | update (location : Location) (row : Row)
  | delete (location : Location)
  | analyze (table : String)
  | pinned
  | rowsPerPage
  | openTable (table : String)
  | read (table : String) (page slot : Nat) (hold : Option String := none)
  | setConfig (config : Config)
  | query (select : Select) (enclosing : List Select)
  | plan (name : String) (select : Select) (enclosing : List Select)
  | planScan (name table : String) (predicate : Option Expr)
  | build (name : String) (plan : Plan)
  | control (name : String) (operation : Control)
  | next (name : String) (hold : Option String)
  | drain (name : String)
  | collect (name : String)
  | duplicate (name copy : String)
  | configure (name : String) (config : Config)
  | inspect (name : String)
  | discard (name : String)
  | look (tuple : String)
  | unpin (tuple : String)
  | drop (tuple : String)
  | copy (tuple copy : String)
  | detach (tuple copy : String)
  | concat (tuple other copy : String)

inductive Reply
  | done
  | storageFailed (e : StorageError)
  | failed (e : QueryError)
  | noCursor
  | noTuple
  | location (l : Location)
  | stats (s : TableStats)
  | count (n : Nat)
  | table (info : TableInfo) (pages : Nat)
  | tuple (t : Option Tuple)
  | rows (ts : List Tuple)
  | drained (ts : List Tuple) (ending : Except QueryError Unit)
  | cursor (c : Cursor)
  | answer (c : Cursor) (rows : Except QueryError (List Tuple)) (pinned : Nat)

namespace Session

def start (rowsPerPage : Nat) (config : Config) : Session :=
  ⟨.create rowsPerPage, config, [], [], []⟩

/-- Every tuple that is alive: those in hand and those that the cursors hold. -/
def tuples (s : Session) : List Tuple := s.held.map (·.2) ++ s.cursors.flatMap (·.2.kept)

/-- The number of pins on a page, as its counter tells. -/
def pinCount (s : Session) (p : PageId) : Int := s.pins.count p

/-- The pages whose counters tell that they are pinned. -/
def pinned (s : Session) : List PageId := s.storage.pageIds.filter fun p => 0 < s.pinCount p

def pinnedPages (s : Session) : Nat := s.pinned.length

def countPins (s : Session) (es : List PinEvent) : Session := { s with pins := s.pins.run es }

def stored (s : Session) : Except StorageError Storage → Reply × Session
  | .ok db => (.done, { s with storage := db })
  | .error e => (.storageFailed e, s)

def withCursor (s : Session) (name : String) (f : Cursor → Reply × Session) : Reply × Session :=
  match s.cursors.get? name with
  | some c => f c
  | none => (.noCursor, s)

def withTuple (s : Session) (name : String) (f : Tuple → Reply × Session) : Reply × Session :=
  match s.held.get? name with
  | some t => f t
  | none => (.noTuple, s)

def putCursor (s : Session) (name : String) (c : Cursor) : Session :=
  { s with cursors := s.cursors.put name c }

def putTuple (s : Session) (name : String) (t : Tuple) : Session :=
  { s with held := s.held.put name t }

def planned (s : Session) (name : String) : Except QueryError Cursor → Reply × Session
  | .ok c => (.cursor c, s.putCursor name c)
  | .error e => (.failed e, s)

def control (c : Cursor) : Control → Except QueryError Unit × Cursor
  | .prepare => c.prepare
  | .rewind => c.rewind
  | .cleanUp => (.ok (), c.cleanUp)
  | .mark => c.mark
  | .reset => c.reset

/-- The pins of a statement, whose cursor is dropped after its run. -/
def queryPins (s : Session) (c : Cursor) : List PinEvent :=
  c.collectPins s.storage ++ Tuple.releaseAll (c.collect s.storage).2.kept

def query (s : Session) (select : Select) (enclosing : List Select) : Reply :=
  match select.plan s.storage s.config enclosing with
  | .error e => .failed e
  | .ok c => .answer c (c.collect s.storage).1 (s.countPins (s.queryPins c)).pinnedPages

/-- Keeps a tuple, if it is to be held, in the place of an older one of its name. -/
def holding (s : Session) (hold : Option String) (t : Tuple) : Session :=
  match hold with
  | some h => s.putTuple h t
  | none => s

def next (s : Session) (name : String) (hold : Option String) (c : Cursor) : Reply × Session :=
  let (r, c) := c.next s.storage
  let s := s.putCursor name c
  match r with
  | .error e => (.failed e, s)
  | .ok none => (.tuple none, s)
  | .ok (some t) => (.tuple (some t), s.holding hold t)

def effect (s : Session) : Action → Reply × Session
  | .createTable table columns => s.stored (s.storage.createTable table columns)
  | .insert table row =>
    match s.storage.insert table row with
    | .ok (l, db) => (.location l, { s with storage := db })
    | .error e => (.storageFailed e, s)
  | .update l row => s.stored (s.storage.update l row)
  | .delete l => s.stored (s.storage.delete l)
  | .analyze table =>
    match s.storage.analyze table with
    | .ok (stats, db) => (.stats stats, { s with storage := db })
    | .error e => (.storageFailed e, s)
  | .pinned => (.count s.pinnedPages, s)
  | .rowsPerPage => (.count s.storage.rowsPerPage, s)
  | .openTable table =>
    match s.storage.table table with
    | .ok t => (.table ⟨t.name, t.schema, t.currentStats⟩ t.pages.length, s)
    | .error e => (.failed (.storage e), s)
  | .read table page slot hold =>
    match s.storage.table table with
    | .error e => (.failed (.storage e), s)
    | .ok t =>
      match t.readFrom page slot with
      | none => (.tuple none, s)
      | some x => (.tuple (some x), s.holding hold x)
  | .setConfig config => (.done, { s with config := config })
  | .query select enclosing => (s.query select enclosing, s)
  | .plan name select enclosing => s.planned name (select.plan s.storage s.config enclosing)
  | .planScan name table predicate =>
    s.planned name (Planning.scan s.storage s.config table predicate)
  | .build name plan => s.planned name (.ok (.ofPlan plan .default))
  | .control name operation =>
    s.withCursor name fun c =>
      let (r, c) := control c operation
      (match r with
       | .ok _ => .done
       | .error e => .failed e,
        s.putCursor name c)
  | .next name hold => s.withCursor name (s.next name hold)
  | .drain name =>
    s.withCursor name fun c =>
      let (ts, ending, c) := c.drain s.storage
      (.drained ts ending, s.putCursor name c)
  | .collect name =>
    s.withCursor name fun c =>
      let (r, c) := c.collect s.storage
      (match r with
       | .ok ts => .rows ts
       | .error e => .failed e,
        s.putCursor name c)
  | .duplicate name copy =>
    s.withCursor name fun c => (.cursor c.duplicate, s.putCursor copy c.duplicate)
  | .configure name config =>
    s.withCursor name fun c => (.done, s.putCursor name (c.configure config))
  | .inspect name => s.withCursor name fun c => (.cursor c, s)
  | .discard name =>
    s.withCursor name fun _ => (.done, { s with cursors := s.cursors.erase name })
  | .look h => s.withTuple h fun t => (.tuple (some t), s)
  | .unpin h => s.withTuple h fun t => (.tuple (some t.unpin), s.putTuple h t.unpin)
  | .drop h => s.withTuple h fun _ => (.done, { s with held := s.held.erase h })
  | .copy h copy => s.withTuple h fun t => (.tuple (some t), s.putTuple copy t)
  | .detach h copy => s.withTuple h fun t => (.tuple (some t.detach), s.putTuple copy t.detach)
  | .concat h other copy =>
    s.withTuple h fun t =>
      s.withTuple other fun u => (.tuple (some (t.concat u)), s.putTuple copy (t.concat u))

/-- A tuple that takes a name is the end of the one that had it. -/
def dropTuplePins (s : Session) (name : String) : List PinEvent :=
  Tuple.releaseAll (s.held.get? name).toList

/-- A cursor that takes a name is the end of the one that had it, with all that it holds. -/
def dropCursorPins (s : Session) (name : String) : List PinEvent :=
  Tuple.releaseAll (((s.cursors.get? name).map Cursor.kept).getD [])

/-- What becomes of a new tuple: it is held, or dropped at once. -/
def holdingPins (s : Session) (hold : Option String) (t : Tuple) : List PinEvent :=
  match hold with
  | some h => s.dropTuplePins h
  | none => t.released

def controlPins (c : Cursor) : Control → List PinEvent
  | .prepare => []
  | .rewind => c.rewindPins
  | .cleanUp => c.cleanUpPins
  | .mark => c.plan.pins.mark c.state
  | .reset => c.plan.pins.reset c.state

def nextPins (s : Session) (hold : Option String) (c : Cursor) : List PinEvent :=
  c.nextPins s.storage ++
    match (c.next s.storage).1 with
    | .ok (some t) => s.holdingPins hold t
    | _ => []

def plannedPins (s : Session) (name : String) : Except QueryError Cursor → List PinEvent
  | .ok _ => s.dropCursorPins name
  | .error _ => []

def cursorPins (s : Session) (name : String) (f : Cursor → List PinEvent) : List PinEvent :=
  ((s.cursors.get? name).map f).getD []

def tuplePins (s : Session) (name : String) (f : Tuple → List PinEvent) : List PinEvent :=
  ((s.held.get? name).map f).getD []

/-- What an action does to the counters of the pages. -/
def pinEvents (s : Session) : Action → List PinEvent
  | .createTable .. | .insert .. | .update .. | .delete .. | .analyze .. | .pinned | .rowsPerPage
  | .openTable .. | .setConfig .. | .configure .. | .inspect .. | .look .. => []
  | .read table page slot hold =>
    match s.storage.readFrom table page slot with
    | none => []
    | some x => x.taken ++ s.holdingPins hold x
  | .query select enclosing =>
    match select.plan s.storage s.config enclosing with
    | .error _ => []
    | .ok c => s.queryPins c
  | .plan name select enclosing =>
    s.plannedPins name (select.plan s.storage s.config enclosing)
  | .planScan name table predicate =>
    s.plannedPins name (Planning.scan s.storage s.config table predicate)
  | .build name _ => s.dropCursorPins name
  | .control name operation => s.cursorPins name (controlPins · operation)
  | .next name hold => s.cursorPins name (s.nextPins hold)
  | .drain name => s.cursorPins name (·.drainPins s.storage)
  | .collect name => s.cursorPins name (·.collectPins s.storage)
  | .duplicate name copy => s.cursorPins name fun _ => s.dropCursorPins copy
  | .discard name => s.dropCursorPins name
  | .unpin h | .drop h => s.dropTuplePins h
  | .copy h copy => s.tuplePins h fun t => t.taken ++ s.dropTuplePins copy
  | .detach h copy => s.tuplePins h fun _ => s.dropTuplePins copy
  | .concat h other copy => s.tuplePins h fun _ => s.tuplePins other fun _ => s.dropTuplePins copy

def act (s : Session) (a : Action) : Reply × Session :=
  let (r, s') := s.effect a
  (r, { s' with pins := s.pins.run (s.pinEvents a) })

def run (s : Session) (actions : List Action) : Session :=
  actions.foldl (fun s a => (s.act a).2) s

/-- What a run of actions does to the counters of the pages. -/
def log (s : Session) : List Action → List PinEvent
  | [] => []
  | a :: as => s.pinEvents a ++ (s.act a).2.log as

end Session

end RelQuery
