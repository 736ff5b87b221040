import RelQuery.Value

namespace RelQuery

/-- A page of a table. -/
structure PageId where
  table : String
  page : Nat
  deriving DecidableEq

/-- A slot of a page of a table. -/
structure Location where
  table : String
  page : Nat
  slot : Nat
  deriving DecidableEq

namespace Location

def pageId (l : Location) : PageId := ⟨l.table, l.page⟩

def display (l : Location) : String :=
  l.table ++ "[" ++ toString l.page ++ ":" ++ toString l.slot ++ "]"

end Location

/-- Where a tuple was read, and whether it still pins the page. -/
structure Origin where
  location : Location
  pinned : Bool
  deriving DecidableEq

structure Tuple where
  values : Row
  origin : Option Origin
  deriving DecidableEq

namespace Tuple

def computed (values : Row) : Tuple := ⟨values, none⟩

def stored (values : Row) (location : Location) : Tuple := ⟨values, some ⟨location, true⟩⟩

def nulls (width : Nat) : Row := List.replicate width .null

def location? (t : Tuple) : Option Location := t.origin.map Origin.location

def isPinned (t : Tuple) : Bool := t.origin.any Origin.pinned

/-- Gives up the page and remembers the location. -/
def unpin (t : Tuple) : Tuple :=
  { t with origin := t.origin.map fun o => { o with pinned := false } }

def detach (t : Tuple) : Tuple := computed t.values

def concat (t u : Tuple) : Tuple := computed (t.values ++ u.values)

def pin? (t : Tuple) : Option PageId :=
  match t.origin with
  | some ⟨location, true⟩ => some location.pageId
  | _ => none

end Tuple

end RelQuery
