namespace TypedTree

/-- A binary number of single precision, by its 32 bits. -/
structure Single where
  bits : UInt32
deriving DecidableEq, Repr

/-- A binary number of double precision, by its 64 bits. -/
structure Double where
  bits : UInt64
deriving DecidableEq, Repr

namespace Double

def ofFields (negative : Bool) (exponent fraction : Nat) : Double :=
  ⟨UInt64.ofNat ((if negative then Nat.pow 2 63 else 0) + exponent * Nat.pow 2 52 + fraction)⟩

def isNegative (x : Double) : Bool := x.bits.toNat / Nat.pow 2 63 == 1

def exponentField (x : Double) : Nat := x.bits.toNat / Nat.pow 2 52 % Nat.pow 2 11

def fractionField (x : Double) : Nat := x.bits.toNat % Nat.pow 2 52

/-- What a double stands for. A finite one is `mantissa * 2 ^ exponent` up to its sign. -/
inductive Magnitude where
  | finite (mantissa : Nat) (exponent : Int)
  | infinite
  | notANumber
deriving DecidableEq, Repr

def magnitude (x : Double) : Magnitude :=
  if x.exponentField == 2047 then
    if x.fractionField == 0 then .infinite else .notANumber
  else if x.exponentField == 0 then .finite x.fractionField (-1074)
  else .finite (Nat.pow 2 52 + x.fractionField) (x.exponentField - 1075)

end Double

namespace Single

def isNegative (x : Single) : Bool := x.bits.toNat / Nat.pow 2 31 == 1

def exponentField (x : Single) : Nat := x.bits.toNat / Nat.pow 2 23 % Nat.pow 2 8

def fractionField (x : Single) : Nat := x.bits.toNat % Nat.pow 2 23

/-- The same number in double precision. Numbers too small for the normal form of single precision
have one in double precision. -/
def widen (x : Single) : Double :=
  let fraction := x.fractionField
  if x.exponentField == 255 then .ofFields x.isNegative 2047 (fraction * Nat.pow 2 29)
  else if x.exponentField != 0 then
    .ofFields x.isNegative (x.exponentField + 896) (fraction * Nat.pow 2 29)
  else if fraction == 0 then .ofFields x.isNegative 0 0
  else
    let top := fraction.log2
    .ofFields x.isNegative (top + 874) ((fraction - Nat.pow 2 top) * Nat.pow 2 (52 - top))

end Single

end TypedTree
