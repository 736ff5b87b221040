import RelQuery.Estimate.Cost
import RelQuery.Interchange.Document
import RelQuery.SqlType

namespace RelQuery

namespace Document

def variant? : Document → Option (String × Option Document)
  | text s => some (s, none)
  | object [(k, d)] => some (k, some d)
  | _ => none

/-- The contents of a variant that has none: nothing, or an explicit `null`. -/
def isUnit : Option Document → Bool
  | none | some null => true
  | _ => false

def field? (d : Document) (count : Nat) (name : String) (place : Nat) : Option Document :=
  match d with
  | object fields => fields.lookup name
  | array items => if items.length = count then items[place]? else none
  | _ => none

/-- Objects, and arrays of the right length, can be records. -/
def isRecord (d : Document) (count : Nat) : Bool :=
  match d with
  | object _ => true
  | array items => items.length == count
  | _ => false

/-- An optional field is absent or `null` when it has no value. -/
def optional? {α : Type} (decode : Document → Option α) : Option Document → Option (Option α)
  | none | some null => some none
  | some d => (decode d).map some

def toBool? : Document → Option Bool
  | bool b => some b
  | _ => none

def toText? : Document → Option String
  | text s => some s
  | _ => none

def toInt? (low high : Int) : Document → Option Int
  | number (.integer i) => if low ≤ i ∧ i ≤ high then some i else none
  | _ => none

def toNat? (bits : Nat) (d : Document) : Option Nat :=
  (d.toInt? 0 (twoPow bits - 1 : Nat)).map Int.toNat

def toDouble? : Document → Option Double
  | number (.integer i) => some (Double.ofInt i)
  | number (.double x) => some x
  | _ => none

def toSingle? : Document → Option Float32
  | number (.integer i) => some (.ofModel (.ofInt i))
  | number (.double x) => some (Double.toSingle x)
  | number (.single x) => some x
  | _ => none

def ofOption {α : Type} (encode : α → Document) : Option α → Document
  | some a => encode a
  | none => null

end Document

namespace Value

def ofDocument? (d : Document) : Option Value := do
  match ← d.variant? with
  | ("Null", contents) => if Document.isUnit contents then some null else none
  | ("Bool", some d) => d.toBool?.map bool
  | ("Int", some d) =>
    (d.toInt? Int64.minValue.toInt Int64.maxValue.toInt).map fun i => int (.ofInt i)
  | ("Float", some d) => d.toDouble?.map float
  | ("String", some d) => d.toText?.map text
  | _ => none

def toDocument : Value → Document
  | null => .text "Null"
  | bool b => .object [("Bool", .bool b)]
  | int i => .object [("Int", .ofInt i.toInt)]
  | float x => .object [("Float", .number (.double x))]
  | text s => .object [("String", .text s)]

end Value

namespace SqlType

/-- The types without a length, by their names in documents. -/
def simpleNames : List (String × SqlType) :=
  [("Boolean", boolean), ("TinyInt", tinyInt), ("SmallInt", smallInt), ("Integer", integer),
    ("BigInt", bigInt), ("Float", float), ("Double", double)]

def ofDocument? (d : Document) : Option SqlType := do
  match ← d.variant? with
  | ("Char", some d) => (d.toNat? 16).map char
  | ("VarChar", some d) => (d.toNat? 16).map varChar
  | (name, contents) => if Document.isUnit contents then simpleNames.lookup name else none

def toDocument : SqlType → Document
  | boolean => .text "Boolean"
  | tinyInt => .text "TinyInt"
  | smallInt => .text "SmallInt"
  | integer => .text "Integer"
  | bigInt => .text "BigInt"
  | float => .text "Float"
  | double => .text "Double"
  | char n => .object [("Char", .ofInt n)]
  | varChar n => .object [("VarChar", .ofInt n)]

end SqlType

namespace ColumnStats

def ofDocument? (d : Document) : Option ColumnStats := do
  guard (d.isRecord 4)
  let min ← Document.optional? Value.ofDocument? (d.field? 4 "min_value" 0)
  let max ← Document.optional? Value.ofDocument? (d.field? 4 "max_value" 1)
  let distinct ← Document.optional? (Document.toNat? 64) (d.field? 4 "num_unique_values" 2)
  let nulls ← Document.optional? (Document.toNat? 64) (d.field? 4 "num_null_values" 3)
  return ⟨min, max, distinct, nulls⟩

def toDocument (s : ColumnStats) : Document :=
  .object
    [("min_value", .ofOption Value.toDocument s.min),
      ("max_value", .ofOption Value.toDocument s.max),
      ("num_unique_values", .ofOption (fun n : Nat => .ofInt n) s.distinct),
      ("num_null_values", .ofOption (fun n : Nat => .ofInt n) s.nulls)]

end ColumnStats

namespace TableStats

def ofDocument? (d : Document) : Option TableStats := do
  let tuples ← (← d.field? 4 "num_tuples" 0).toNat? 64
  let pages ← (← d.field? 4 "num_data_pages" 1).toNat? 64
  let averageSize ← (← d.field? 4 "avg_tuple_size" 2).toSingle?
  match ← d.field? 4 "column_stats" 3 with
  | .array items => return ⟨tuples, pages, averageSize, ← items.mapM ColumnStats.ofDocument?⟩
  | _ => none

def toDocument (s : TableStats) : Document :=
  .object
    [("num_tuples", .ofInt s.tuples), ("num_data_pages", .ofInt s.pages),
      ("avg_tuple_size", .number (.single s.averageSize)),
      ("column_stats", .array (s.columns.map ColumnStats.toDocument))]

end TableStats

namespace PlanCost

def ofDocument? (d : Document) : Option PlanCost := do
  let tuples ← (← d.field? 4 "num_tuples" 0).toSingle?
  let tupleSize ← (← d.field? 4 "tuple_size" 1).toSingle?
  let cpu ← (← d.field? 4 "cpu_cost" 2).toSingle?
  let blockReads ← (← d.field? 4 "num_block_ios" 3).toNat? 64
  return ⟨tuples, tupleSize, cpu, .ofNat blockReads⟩

def toDocument (c : PlanCost) : Document :=
  .object
    [("num_tuples", .number (.single c.tuples)), ("tuple_size", .number (.single c.tupleSize)),
      ("cpu_cost", .number (.single c.cpu)), ("num_block_ios", .ofInt c.blockReads.toNat)]

end PlanCost

end RelQuery
