import RelQuery.Storage.Basic

namespace RelQuery

/-- What a client asks of a storage. -/
inductive Change
  | createTable (name : String) (columns : List (String × SqlType))
  | insert (table : String) (row : Row)
  | update (location : Location) (row : Row)
  | delete (location : Location)
  | analyze (table : String)

/-- What came of a change: an error, or the place of the row where one was inserted. -/
abbrev Change.Result := Except StorageError (Option Location)

/-- Changes with what came of them. -/
abbrev History := List (Change × Change.Result)

/-- The places that the successful inserts into a table were given, in order. -/
def History.placed (table : String) (h : History) : List Location :=
  h.filterMap fun
    | (.insert name _, .ok (some l)) => if name = table then some l else none
    | _ => none

def History.places (h : History) : List Location := h.filterMap fun x => x.2.toOption.join

namespace Change

variable {σ : Type}

/-- A change that fails leaves the state as it was. -/
def settle (attempt : σ → Change → Except StorageError (Option Location × σ)) (s : σ) (c : Change) :
    Result × σ :=
  match attempt s c with
  | .ok (place, s') => (.ok place, s')
  | .error e => (.error e, s)

def run (attempt : σ → Change → Except StorageError (Option Location × σ)) (s : σ) :
    List Change → History × σ
  | [] => ([], s)
  | c :: cs =>
    let (r, s) := settle attempt s c
    let (h, s) := run attempt s cs
    ((c, r) :: h, s)

end Change

namespace Storage

def attempt (s : Storage) : Change → Except StorageError (Option Location × Storage)
  | .createTable name columns => (s.createTable name columns).map (none, ·)
  | .insert name r => (s.insert name r).map fun x => (some x.1, x.2)
  | .update l r => (s.update l r).map (none, ·)
  | .delete l => (s.delete l).map (none, ·)
  | .analyze name => (s.analyze name).map fun x => (none, x.2)

def changes : Storage → List Change → History × Storage := Change.run attempt

end Storage

namespace Location

/-- The place of the slot with a number, on pages of a size. -/
def numbered (size : Nat) (table : String) (k : Nat) : Location := ⟨table, k / size, k % size⟩

/-- The number of the slot at a place, if a page has it. -/
def number? (size : Nat) (l : Location) : Option Nat :=
  if l.slot < size then some (l.page * size + l.slot) else none

/-- In the order of pages and slots, a place does not come before the given one. -/
def isFrom (page slot : Nat) (l : Location) : Bool :=
  page < l.page || (page == l.page && slot ≤ l.slot)

end Location

/-- A table as its clients see it: a slot for each row that was ever inserted, in the order of the
inserts, empty once the row is deleted. -/
structure Ledger where
  name : String
  schema : Schema
  slots : List (Option Row)

namespace Ledger

def create (name : String) (columns : List (String × SqlType)) : Ledger :=
  ⟨name, ⟨columns.map fun c => ⟨c.1, some name, c.2⟩⟩, []⟩

def coerceRow (l : Ledger) (r : Row) : Except StorageError Row :=
  if r.length = l.schema.width then Table.coerceValues l.schema.columns r
  else .error (.columnCount l.name l.schema.width r.length)

/-- A row is entered behind all others; its place is that of the next number. -/
def insert (size : Nat) (l : Ledger) (r : Row) : Except StorageError (Location × Ledger) := do
  let r ← l.coerceRow r
  .ok (.numbered size l.name l.slots.length, { l with slots := l.slots ++ [some r] })

/-- Puts new contents into the slot of a live row. -/
def replace (size : Nat) (l : Ledger) (place : Location) (contents : Option Row) :
    Except StorageError Ledger :=
  match place.number? size with
  | none => .error (.invalidLocation place)
  | some k =>
    match l.slots[k]? with
    | some (some _) => .ok { l with slots := l.slots.set k contents }
    | _ => .error (.invalidLocation place)

/-- The live rows with their places, in the order of the inserts. -/
def entries (size : Nat) (l : Ledger) : List (Location × Row) :=
  l.slots.zipIdx.filterMap fun s => s.1.map fun r => (.numbered size l.name s.2, r)

end Ledger

/-- A storage as its clients see it. -/
structure Catalog where
  pageSize : Nat
  ledgers : List Ledger

namespace Catalog

def create (pageSize : Nat) : Catalog := ⟨pageSize, []⟩

def find? (c : Catalog) (name : String) : Option Ledger := c.ledgers.find? (·.name == name)

def ledger (c : Catalog) (name : String) : Except StorageError Ledger :=
  match c.find? name with
  | some l => .ok l
  | none => .error (.tableNotFound name)

/-- Puts a ledger in the place of the one of the same name. -/
def put (c : Catalog) (l : Ledger) : Catalog :=
  { c with ledgers := c.ledgers.map fun m => if m.name == l.name then l else m }

/-- The catalog that a change leads to. Measuring a table changes nothing in it. -/
def attempt (c : Catalog) : Change → Except StorageError (Option Location × Catalog)
  | .createTable name columns =>
    match c.find? name with
    | some _ => .error (.tableAlreadyExists name)
    | none => .ok (none, { c with ledgers := c.ledgers ++ [.create name columns] })
  | .insert name r => do
    let (place, l) ← (← c.ledger name).insert c.pageSize r
    .ok (some place, c.put l)
  | .update place r => do
    let l ← c.ledger place.table
    let r ← l.coerceRow r
    .ok (none, c.put (← l.replace c.pageSize place (some r)))
  | .delete place => do
    .ok (none, c.put (← (← c.ledger place.table).replace c.pageSize place none))
  | .analyze name => (c.ledger name).map fun _ => (none, c)

def changes : Catalog → List Change → History × Catalog := Change.run attempt

end Catalog

end RelQuery
