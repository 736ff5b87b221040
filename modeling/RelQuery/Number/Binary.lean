import RelQuery.Number.Power

namespace RelQuery

/-- The widths of the two fields of a binary interchange format. -/
structure BinaryFormat where
  fractionBits : Nat
  exponentBits : Nat

namespace BinaryFormat

def double : BinaryFormat := ⟨52, 11⟩

def single : BinaryFormat := ⟨23, 8⟩

/-- The exponent of the smallest positive number of the format. -/
def leastExponent (f : BinaryFormat) : Int :=
  2 - (twoPow (f.exponentBits - 1) : Int) - f.fractionBits

end BinaryFormat

/-- A double as the pattern of its bits, which also tells apart what is not a number. -/
structure Double where
  ofBits ::
  bits : UInt64
  deriving DecidableEq, Inhabited

/-- What a bit pattern stands for; a finite one is `± mantissa · 2 ^ exponent`. -/
inductive BinaryNumber
  | notANumber
  | infinite (negative : Bool)
  | finite (negative : Bool) (mantissa : Nat) (exponent : Int)
  deriving DecidableEq

namespace BinaryNumber

def decode (f : BinaryFormat) (bits : Nat) : BinaryNumber :=
  let fraction := bits % twoPow f.fractionBits
  let biased := bits / twoPow f.fractionBits % twoPow f.exponentBits
  let negative := bits / twoPow (f.fractionBits + f.exponentBits) % 2 == 1
  if biased = twoPow f.exponentBits - 1 then
    if fraction = 0 then .infinite negative else .notANumber
  else if biased = 0 then
    .finite negative fraction f.leastExponent
  else
    .finite negative (twoPow f.fractionBits + fraction) (f.leastExponent + (biased - 1 : Nat))

def ofDouble (x : Double) : BinaryNumber := decode .double x.bits.toNat

def ofSingle (x : Float32) : BinaryNumber := decode .single x.toBits.toNat

end BinaryNumber

open Float.Model (UnpackedFloat Format) in
/-- The unpacked number nearest to `± mantissa · 2 ^ exponent`; a zero keeps its sign. -/
def nearest (format : Format) (negative : Bool) (mantissa : Nat) (exponent : Int) : UnpackedFloat :=
  let sign : UnpackedFloat.Sign := if negative then .negative else .positive
  .normalize format (sign.apply mantissa) exponent sign

namespace Double

def toFloat (x : Double) : Float := .ofBits x.bits

def ofFloat (x : Float) : Double := .ofBits x.toBits

def isNaN (x : Double) : Bool := x.toFloat.isNaN

def ofInt (i : Int) : Double := .ofFloat (.ofModel (.ofInt i))

/-- The double nearest to `± mantissa · 2 ^ exponent`. -/
def ofParts (negative : Bool) (mantissa : Nat) (exponent : Int) : Double :=
  .ofFloat (.ofModel (.pack (nearest .binary64 negative mantissa exponent)))

/-- What arithmetic gives where there is no number: the quiet pattern that carries nothing. -/
def notANumber : Double := .ofBits 0x7ff8000000000000

def infinity (negative : Bool) : Double :=
  .ofBits (if negative then 0xfff0000000000000 else 0x7ff0000000000000)

instance : Add Double := ⟨fun x y => .ofFloat (x.toFloat + y.toFloat)⟩

instance : Sub Double := ⟨fun x y => .ofFloat (x.toFloat - y.toFloat)⟩

instance : Mul Double := ⟨fun x y => .ofFloat (x.toFloat * y.toFloat)⟩

instance : Div Double := ⟨fun x y => .ofFloat (x.toFloat / y.toFloat)⟩

def signBit : Nat := twoPow 63

def signMask : UInt64 := .ofNat signBit

-- The sign is a bit of its own, also of what is not a number.
instance : Neg Double := ⟨fun x => .ofBits (x.bits ^^^ signMask)⟩

def abs (x : Double) : Double := .ofBits (x.bits &&& ~~~signMask)

/-- The place of a double in the numeric order, counted from zero along the representable numbers.
Both zeros have place 0, and what is not a number has none. -/
def place? (x : Double) : Option Int :=
  let bits : Nat := x.bits.toNat
  let magnitude : Nat := bits % signBit
  if magnitude ≤ 0x7ff0000000000000 then
    some (if bits < signBit then (magnitude : Int) else -magnitude)
  else
    none

/-- The numeric order; `none` when one side is not a number. -/
def compare? (x y : Double) : Option Ordering :=
  match place? x, place? y with
  | some p, some q => some (compare p q)
  | _, _ => none

/-- Numeric equality: the zeros are equal, and what is not a number equals nothing. -/
def same (x y : Double) : Bool := compare? x y == some .eq

def isZero (x : Double) : Bool := place? x == some 0

/-- The exact remainder of truncated division; it has the sign of the dividend. -/
def remainder (x y : Double) : Double :=
  match BinaryNumber.ofDouble x, BinaryNumber.ofDouble y with
  | .finite s m e, .finite _ n f =>
    if n = 0 then notANumber
    else
      let low := min e f
      ofParts s (m * twoPow (e - low).toNat % (n * twoPow (f - low).toNat)) low
  | .finite .., .infinite _ => x
  | _, _ => notANumber

def toSingle (x : Double) : Float32 :=
  match BinaryNumber.ofDouble x with
  | .notANumber => .ofBits 0x7fc00000
  | .infinite s => .ofBits (if s then 0xff800000 else 0x7f800000)
  | .finite s m e => .ofModel (.pack (nearest .binary32 s m e))

end Double

namespace Single

/-- The single-precision number nearest to a natural number. -/
def ofNat (n : Nat) : Float32 := .ofModel (.ofNat n)

/-- The larger operand, or the one that is a number; of two equal ones the first. -/
def max (x y : Float32) : Float32 :=
  if x.isNaN then y else if x < y then y else x

/-- The smaller operand, or the one that is a number; of two equal ones the first. -/
def min (x y : Float32) : Float32 :=
  if x.isNaN then y else if y < x then y else x

/-- Confines a number to the unit interval; what is not a number stays. -/
def clampUnit (x : Float32) : Float32 :=
  if x < 0.0 then 0.0 else if 1.0 < x then 1.0 else x

/-- The left-to-right sum, started from negative zero. -/
def sum (xs : List Float32) : Float32 := xs.foldl (· + ·) (-0.0)

def product (xs : List Float32) : Float32 := xs.foldl (· * ·) 1.0

end Single

end RelQuery
