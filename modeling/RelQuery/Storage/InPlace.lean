import RelQuery.Storage.Ledger

namespace RelQuery

namespace Table

/-- The contents of a slot, nothing where no page has it. -/
def slot? (t : Table) (page slot : Nat) : Option (Option Row) := t.pages[page]?.bind (·[slot]?)

def openPage? (t : Table) : Option Page := t.pages.getLast?.filter (·.length < t.rowsPerPage)

end Table

/-- Steps that read and write a storage. A failure ends them and leaves the storage as it is
then. -/
abbrev Procedure (α : Type) := ExceptT StorageError (StateM Storage) α

namespace Procedure

def exec {α : Type} (p : Procedure α) (s : Storage) : Except StorageError α × Storage := p.run.run s

def table (name : String) : Procedure Table := do
  match (← get).find? name with
  | some t => pure t
  | none => throw (.tableNotFound name)

def write (name : String) (edit : Table → Table) : Procedure Unit :=
  modify fun s => { s with tables := s.tables.map fun t => if t.name == name then edit t else t }

def writePage (name : String) (page : Nat) (edit : Page → Page) : Procedure Unit :=
  write name fun t => { t with pages := t.pages.modify page edit }

def addPage (name : String) (p : Page) : Procedure Unit :=
  write name fun t => { t with pages := t.pages ++ [p] }

def createTable (name : String) (columns : List (String × SqlType)) : Procedure Unit := do
  match (← get).find? name with
  | some _ => throw (.tableAlreadyExists name)
  | none => modify fun s => { s with tables := s.tables ++ [.create name columns s.rowsPerPage] }

/-- The last page takes the row while it has room, then a new one. -/
def insert (name : String) (r : Row) : Procedure Location := do
  let t ← table name
  let r ← liftExcept (t.coerceRow r)
  match t.openPage? with
  | some p =>
    writePage name (t.pages.length - 1) (· ++ [some r])
    pure (t.location (t.pages.length - 1) p.length)
  | none =>
    addPage name [some r]
    pure (t.location t.pages.length 0)

/-- Only the slot of a live row is written. -/
def replace (t : Table) (l : Location) (contents : Option Row) : Procedure Unit :=
  match t.slot? l.page l.slot with
  | some (some _) => writePage t.name l.page (·.set l.slot contents)
  | _ => throw (.invalidLocation l)

def update (l : Location) (r : Row) : Procedure Unit := do
  let t ← table l.table
  let r ← liftExcept (t.coerceRow r)
  replace t l (some r)

def delete (l : Location) : Procedure Unit := do
  let t ← table l.table
  replace t l none

def analyze (name : String) : Procedure TableStats := do
  let t ← table name
  let stats := t.measure
  write name fun t => { t with stats := some stats }
  pure stats

def change : Change → Procedure (Option Location)
  | .createTable name columns => do
    createTable name columns
    pure none
  | .insert name r => some <$> insert name r
  | .update l r => do
    update l r
    pure none
  | .delete l => do
    delete l
    pure none
  | .analyze name => do
    let _ ← analyze name
    pure none

end Procedure

namespace Storage

/-- Makes a change in place: what came of it, and what it leaves behind. -/
def perform (s : Storage) (c : Change) : Change.Result × Storage := (Procedure.change c).exec s

/-- The storage that changes leave behind, whatever came of them. -/
def performAll (s : Storage) (cs : List Change) : Storage := cs.foldl (fun s c => (s.perform c).2) s

end Storage

end RelQuery
