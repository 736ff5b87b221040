import RelQuery.Number.Decimal

namespace RelQuery

namespace Document

/-- A number of a document. Integers and fractions are told apart, and a fraction is written with
the digits of its precision. -/
inductive Number
  | integer (i : Int)
  | double (x : Double)
  | single (x : Float32)

end Document

inductive Document
  | null
  | bool (b : Bool)
  | number (n : Document.Number)
  | text (s : String)
  | array (items : List Document)
  | object (fields : List (String × Document))
  deriving Inhabited

namespace Document

def ofInt (i : Int) : Document := number (.integer i)

/-- What is not a finite number has no text and is written as `null`. -/
def Number.render : Number → String
  | integer i => toString i
  | double x => ((BinaryNumber.ofDouble x).document? .double .double).getD "null"
  | single x => ((BinaryNumber.ofSingle x).document? .single .single).getD "null"

def hexDigits (width n : Nat) : List Char :=
  let ds := Nat.toDigits 16 n
  List.replicate (width - ds.length) '0' ++ ds

/-- A character inside quotes: quotes, backslashes and control characters are escaped. -/
def escape (c : Char) : List Char :=
  match c with
  | '"' => ['\\', '"']
  | '\\' => ['\\', '\\']
  | '\n' => ['\\', 'n']
  | '\r' => ['\\', 'r']
  | '\t' => ['\\', 't']
  | c =>
    if c.toNat = 8 then ['\\', 'b']
    else if c.toNat = 12 then ['\\', 'f']
    else if c.toNat < 32 then '\\' :: 'u' :: hexDigits 4 c.toNat
    else [c]

def quote (s : String) : String := "\"" ++ String.ofList (s.toList.flatMap escape) ++ "\""

mutual
/-- The text without any blanks, the fields of an object in the order they are given. -/
def render : Document → String
  | null => "null"
  | bool b => if b then "true" else "false"
  | number n => n.render
  | text s => quote s
  | array items => "[" ++ ",".intercalate (renderItems items) ++ "]"
  | object fields => "\x7b" ++ ",".intercalate (renderFields fields) ++ "\x7d"

def renderItems : List Document → List String
  | [] => []
  | d :: ds => render d :: renderItems ds

def renderFields : List (String × Document) → List String
  | [] => []
  | (k, d) :: fields => (quote k ++ ":" ++ render d) :: renderFields fields
end

end Document

end RelQuery
