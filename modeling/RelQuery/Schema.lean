import RelQuery.Expr.Basic

namespace RelQuery

structure Column where
  name : String
  table : Option String
  type : SqlType
  deriving DecidableEq

namespace Column

/-- A reference denotes the column if the names agree, and the tables too where it names one. -/
def answers (c : Column) (r : ColumnName) : Bool :=
  c.name == r.column &&
    match r.table with
    | some t => c.table == some t
    | none => true

def fullName (c : Column) : ColumnName := ⟨c.table, c.name⟩

def display (c : Column) : String := c.fullName.display ++ ":" ++ c.type.display

end Column

structure Schema where
  columns : List Column
  deriving DecidableEq

/-- How a column reference fails to resolve. -/
inductive ResolveError
  | unknown (name : ColumnName)
  | ambiguous (name : ColumnName)
  deriving DecidableEq

namespace Schema

def empty : Schema := ⟨[]⟩

def width (s : Schema) : Nat := s.columns.length

def concat (s t : Schema) : Schema := ⟨s.columns ++ t.columns⟩

/-- The columns a reference may denote, with their positions. -/
def candidates (s : Schema) (r : ColumnName) : List (Column × Nat) :=
  s.columns.zipIdx.filter fun c => c.1.answers r

/-- The positions of the columns a reference may denote. -/
def positions (s : Schema) (r : ColumnName) : List Nat := (s.candidates r).map (·.2)

/-- The one column a reference denotes, with its position. -/
def resolve (s : Schema) (r : ColumnName) : Except ResolveError (Column × Nat) :=
  match s.candidates r with
  | [c] => .ok c
  | [] => .error (.unknown r)
  | _ => .error (.ambiguous r)

def resolves (s : Schema) (r : ColumnName) : Bool := (s.resolve r).isOk

/-- All references resolve; the first that does not gives the error. -/
def check (s : Schema) : List ColumnName → Except ResolveError Unit
  | [] => .ok ()
  | r :: rs => do
    let _ ← s.resolve r
    s.check rs

/-- The column names of the first schema that the second has too, each once, in order. -/
def commonNames (s t : Schema) : List String :=
  (s.columns.filter fun c => t.columns.any (·.name == c.name)).foldl
    (fun names c => if names.contains c.name then names else names ++ [c.name]) []

/-- The columns at the given positions; positions outside are passed over. -/
def project (s : Schema) (positions : List Nat) : Schema :=
  ⟨positions.filterMap (s.columns[·]?)⟩

def rename (s : Schema) (table : String) : Schema :=
  ⟨s.columns.map fun c => { c with table := some table }⟩

def rowSize (s : Schema) : Float32 :=
  Single.sum (s.columns.map fun c => Single.ofNat c.type.storageSize)

def display (s : Schema) : String := "[" ++ ", ".intercalate (s.columns.map Column.display) ++ "]"

end Schema

end RelQuery
