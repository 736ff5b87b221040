import RelQuery.Value

namespace RelQuery

/-- A number in eight bytes, most significant first. -/
def bigEndian (n : UInt64) : List UInt8 :=
  [(n >>> 56).toUInt8, (n >>> 48).toUInt8, (n >>> 40).toUInt8, (n >>> 32).toUInt8,
    (n >>> 24).toUInt8, (n >>> 16).toUInt8, (n >>> 8).toUInt8, n.toUInt8]

/-- The double itself, and positive zero for both zeros. -/
def Double.unsigned (x : Double) : Double := if x.isZero then .ofBits 0 else x

/-- A value in a key: behind a byte for its kind, numbers in eight bytes and a text behind its
length. A double is the pattern of its bits, but for the sign of a zero. -/
def Value.field : Value → List UInt8
  | null => [0]
  | bool b => [1, if b then 1 else 0]
  | int i => 2 :: bigEndian i.toUInt64
  | float x => 3 :: bigEndian x.unsigned.bits
  | text s => 4 :: bigEndian (.ofNat s.utf8ByteSize) ++ s.toByteArray.data.toList

/-- The key of a row, by whose bytes rows belong together. -/
def Row.keyBytes (r : Row) : List UInt8 := r.flatMap Value.field

def Value.keyBytes (v : Value) : List UInt8 := Row.keyBytes [v]

end RelQuery
