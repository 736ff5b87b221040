import RelQuery.Storage.Table

namespace RelQuery

structure Storage where
  rowsPerPage : Nat
  tables : List Table

/-- What a plan keeps of a table: its name and columns, and the statistics at the time it was
opened. -/
structure TableInfo where
  name : String
  schema : Schema
  stats : TableStats

namespace Storage

def defaultRowsPerPage : Nat := 64

/-- An empty storage; a page holds at least one row. -/
def create (rowsPerPage : Nat) : Storage := ⟨max 1 rowsPerPage, []⟩

def find? (s : Storage) (name : String) : Option Table := s.tables.find? (·.name == name)

def table (s : Storage) (name : String) : Except StorageError Table :=
  match s.find? name with
  | some t => .ok t
  | none => .error (.tableNotFound name)

/-- Puts a table in the place of the one of the same name. -/
def put (s : Storage) (t : Table) : Storage :=
  { s with tables := s.tables.map fun u => if u.name == t.name then t else u }

def createTable (s : Storage) (name : String) (columns : List (String × SqlType)) :
    Except StorageError Storage :=
  match s.find? name with
  | some _ => .error (.tableAlreadyExists name)
  | none => .ok { s with tables := s.tables ++ [.create name columns s.rowsPerPage] }

def insert (s : Storage) (name : String) (r : Row) : Except StorageError (Location × Storage) := do
  let (l, t) ← (← s.table name).insert r
  .ok (l, s.put t)

def update (s : Storage) (l : Location) (r : Row) : Except StorageError Storage := do
  let t ← s.table l.table
  let r ← t.coerceRow r
  .ok (s.put (← t.replace l (some r)))

def delete (s : Storage) (l : Location) : Except StorageError Storage := do
  .ok (s.put (← (← s.table l.table).replace l none))

def analyze (s : Storage) (name : String) : Except StorageError (TableStats × Storage) := do
  let t ← s.table name
  let stats := t.measure
  .ok (stats, s.put { t with stats := some stats })

def openTable (s : Storage) (name : String) : Except QueryError TableInfo :=
  match s.table name with
  | .ok t => .ok ⟨t.name, t.schema, t.currentStats⟩
  | .error e => .error (.storage e)

/-- The first live row of a table at or after a position, pinned. -/
def readFrom (s : Storage) (name : String) (page slot : Nat) : Option Tuple :=
  (s.find? name).bind (·.readFrom page slot)

def slotsFrom (s : Storage) (name : String) (page slot : Nat) : Nat :=
  match s.find? name with
  | some t => t.slotsFrom page slot
  | none => 0

theorem slotsFrom_readFrom {s : Storage} {name : String} {page slot : Nat} {x : Tuple}
    (h : s.readFrom name page slot = some x) :
    ∃ l, x.location? = some l ∧
      s.slotsFrom name l.page (l.slot + 1) < s.slotsFrom name page slot := by
  obtain ⟨t, ht, hread⟩ := Option.bind_eq_some_iff.1 h
  simpa only [slotsFrom, ht] using Table.slotsFrom_readFrom hread

end Storage

end RelQuery
