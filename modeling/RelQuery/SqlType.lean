import RelQuery.Value
import RelQuery.Text.Clip

namespace RelQuery

inductive SqlType
  | boolean
  | tinyInt
  | smallInt
  | integer
  | bigInt
  | float
  | double
  | char (length : Nat)
  | varChar (length : Nat)
  deriving DecidableEq, Inhabited

/-- Why a value does not fit a type. -/
inductive ValueError
  | typeMismatch (expected actual : String) (shown : Option String)
  | outOfRange (expected shown : String)
  | invalid (reason : String)
  deriving DecidableEq

namespace ValueError

def mismatchOf (expected actual shown : String) : ValueError :=
  typeMismatch expected actual (some (clip shown))

def rangeOf (expected shown : String) : ValueError := outOfRange expected (clip shown)

def message : ValueError → String
  | typeMismatch expected actual shown =>
    "type mismatch: expected " ++ expected ++ ", got " ++ actual ++
      (match shown with
       | some v => " (value: " ++ v ++ ")"
       | none => "")
  | outOfRange expected shown => "value out of range for " ++ expected ++ ": " ++ shown
  | invalid reason => "validation error: " ++ reason

end ValueError

namespace SqlType

def isInteger : SqlType → Bool
  | tinyInt | smallInt | integer | bigInt => true
  | _ => false

def isFloating : SqlType → Bool
  | float | double => true
  | _ => false

def isNumeric (t : SqlType) : Bool := t.isInteger || t.isFloating

/-- The longest length a character type can declare. -/
def maxLength : Nat := 65535

def varCharOf (s : String) : SqlType := varChar (min s.length maxLength)

/-- Estimated bytes per stored value; variable-length texts are taken as half full. -/
def storageSize : SqlType → Nat
  | boolean | tinyInt => 1
  | smallInt => 2
  | integer | float => 4
  | bigInt | double => 8
  | char n => n
  | varChar n => n / 2 + 2

def display : SqlType → String
  | boolean => "BOOLEAN"
  | tinyInt => "TINYINT"
  | smallInt => "SMALLINT"
  | integer => "INTEGER"
  | bigInt => "BIGINT"
  | float => "FLOAT"
  | double => "DOUBLE"
  | char n => "CHAR(" ++ toString n ++ ")"
  | varChar n => "VARCHAR(" ++ toString n ++ ")"

def intBits? : SqlType → Option Nat
  | tinyInt => some 8
  | smallInt => some 16
  | integer => some 32
  | bigInt => some 64
  | _ => none

def textLength? : SqlType → Option Nat
  | char n | varChar n => some n
  | _ => none

def inSignedRange (bits : Nat) (i : Int) : Bool :=
  -(twoPow (bits - 1) : Int) ≤ i && i < (twoPow (bits - 1) : Int)

/-- Checks a value against a column type. NULL fits every type, and an integer widens to a
double. -/
def coerce (t : SqlType) : Value → Except ValueError Value
  | .null => .ok .null
  | .bool b => if t = boolean then .ok (.bool b) else mismatch (.bool b)
  | .int i =>
    match t.intBits? with
    | some bits =>
      if inSignedRange bits i.toInt then .ok (.int i)
      else .error (.rangeOf t.display (toString i.toInt))
    | none => if t.isFloating then .ok (.float (Double.ofInt i.toInt)) else mismatch (.int i)
  | .float x => if t.isFloating then .ok (.float x) else mismatch (.float x)
  | .text s =>
    match t.textLength? with
    | some n => if s.length ≤ n then .ok (.text s) else .error (.rangeOf t.display s)
    | none => mismatch (.text s)
where
  mismatch (v : Value) : Except ValueError Value :=
    .error (.mismatchOf t.display v.typeName v.display)

end SqlType

end RelQuery
