import RelQuery.Number.Binary

namespace RelQuery

/-- The number `digits · 10 ^ exponent`. -/
structure Decimal where
  digits : Nat
  exponent : Int
  deriving DecidableEq

namespace Decimal

/-- Where a number half-way between two integers is rounded. -/
inductive Tie
  | up
  | even

def roundQuotient (tie : Tie) (n d : Nat) : Nat :=
  let q := n / d
  match compare (2 * (n % d)) d with
  | .lt => q
  | .gt => q + 1
  | .eq =>
    match tie with
    | .up => q + 1
    | .even => q + q % 2

def digitChars (n : Nat) : List Char := Nat.toDigits 10 n

def digitCount (n : Nat) : Nat := (digitChars n).length

/-- The numbers that round to one binary number, over a common denominator. -/
structure Interval where
  low : Nat
  middle : Nat
  high : Nat
  denominator : Nat
  closed : Bool

namespace Interval

/-- All numbers that round to `mantissa · 2 ^ exponent`. The neighbour below a power of two is half
as far away, and the ends belong to the interval when the mantissa is even. -/
def ofBinary (f : BinaryFormat) (mantissa : Nat) (exponent : Int) : Interval :=
  let below := if mantissa = twoPow f.fractionBits ∧ f.leastExponent < exponent then 1 else 2
  let scale := twoPow (exponent - 2).toNat
  { low := (4 * mantissa - below) * scale
    middle := 4 * mantissa * scale
    high := (4 * mantissa + 2) * scale
    denominator := twoPow (2 - exponent).toNat
    closed := mantissa % 2 == 0 }

def rescale (r : Interval) (e : Int) : Interval :=
  let up := tenPow (-e).toNat
  { r with
    low := r.low * up
    middle := r.middle * up
    high := r.high * up
    denominator := r.denominator * tenPow e.toNat }

def contains (r : Interval) (n : Nat) : Bool :=
  let x := n * r.denominator
  if r.closed then r.low ≤ x && x ≤ r.high else r.low < x && x < r.high

/-- The integer of the interval that is next to its middle. -/
def nearestInteger? (tie : Tie) (r : Interval) : Option Nat :=
  let n := r.middle / r.denominator
  match r.contains n, r.contains (n + 1) with
  | true, true => some (roundQuotient tie r.middle r.denominator)
  | true, false => some n
  | false, true => some (n + 1)
  | false, false => none

/-- The number of digits before the decimal point; negative where zeros follow the point. -/
def order (r : Interval) : Int :=
  (digitCount (r.middle * tenPow 400 / r.denominator) : Int) - 400

/-- Seventeen digits tell every double from its neighbours. -/
def maxDigits : Nat := 17

/-- The coarsest decimal grid from `10 ^ e` downwards that meets the interval. -/
def search (tie : Tie) (r : Interval) : Nat → Int → Decimal
  | 0, e => let s := r.rescale e; ⟨s.middle / s.denominator, e⟩
  | fuel + 1, e =>
    match (r.rescale e).nearestInteger? tie with
    | some n => ⟨n, e⟩
    | none => search tie r fuel (e - 1)

end Interval

/-- The fewest digits that read back as `mantissa · 2 ^ exponent`, and of those the nearest. -/
def shortest (tie : Tie) (f : BinaryFormat) (mantissa : Nat) (exponent : Int) : Decimal :=
  let r := Interval.ofBinary f mantissa exponent
  let d := r.search tie Interval.maxDigits (r.order - 1)
  if d.digits = 10 then ⟨1, d.exponent + 1⟩ else d

/-- The digits without an exponent; a point only where digits follow it. -/
def positional (d : Decimal) : String :=
  let cs := digitChars d.digits
  if 0 ≤ d.exponent then
    String.ofList (cs ++ List.replicate d.exponent.toNat '0')
  else
    let places := (-d.exponent).toNat
    let cs := List.replicate (places + 1 - cs.length) '0' ++ cs
    String.ofList (cs.take (cs.length - places) ++ '.' :: cs.drop (cs.length - places))

/-- Which numbers a data format writes without an exponent: those whose decimal point stands after
more than `least` and at most `most` digits. -/
structure Style where
  least : Int
  most : Int

def Style.double : Style := ⟨-5, 16⟩

def Style.single : Style := ⟨-6, 13⟩

/-- An exponent with its sign, also where it is positive. -/
def exponentText (e : Int) : String := if e < 0 then toString e else "+" ++ toString e

/-- The data-format text: positional with a fraction, or one digit before the point and an
exponent. -/
def scientific (style : Style) (d : Decimal) : String :=
  let cs := digitChars d.digits
  let point := (cs.length : Int) + d.exponent
  if style.least < point ∧ point ≤ style.most then
    if 0 ≤ d.exponent then d.positional ++ ".0" else d.positional
  else
    let fraction := cs.drop 1
    let dot := if fraction.isEmpty then [] else ['.']
    String.ofList (cs.take 1 ++ dot ++ fraction) ++ "e" ++ exponentText (point - 1)

end Decimal

namespace BinaryNumber

def signed (negative : Bool) (text : String) : String :=
  if negative then "-" ++ text else text

/-- The shortest text that reads back, never with an exponent. -/
def display (f : BinaryFormat) : BinaryNumber → String
  | .notANumber => "NaN"
  | .infinite s => signed s "inf"
  | .finite s 0 _ => signed s "0"
  | .finite s m e => signed s (Decimal.shortest .up f m e).positional

def displayTenths : BinaryNumber → String
  | .notANumber => "NaN"
  | .infinite s => signed s "inf"
  | .finite s m e =>
    let tenths := Decimal.roundQuotient .even (m * 10 * twoPow e.toNat) (twoPow (-e).toNat)
    signed s (toString (tenths / 10) ++ "." ++ toString (tenths % 10))

/-- The text in a data document; only finite numbers have one. -/
def document? (f : BinaryFormat) (style : Decimal.Style) : BinaryNumber → Option String
  | .finite s 0 _ => some (signed s "0.0")
  | .finite s m e => some (signed s ((Decimal.shortest .even f m e).scientific style))
  | _ => none

end BinaryNumber

namespace Double

def display (x : Double) : String := (BinaryNumber.ofDouble x).display .double

end Double

namespace Single

def displayTenths (x : Float32) : String := (BinaryNumber.ofSingle x).displayTenths

end Single

end RelQuery
