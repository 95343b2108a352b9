import TypedTree.Number.Binary

namespace TypedTree

/-- The number `digits * 10 ^ exponent`. -/
structure Decimal where
  digits : Nat
  exponent : Int
deriving DecidableEq, Repr

/-- The numbers that are read as one binary number: those between the ends, in units of
`2 ^ exponent`, with the ends or without them. -/
structure Reading where
  low : Nat
  value : Nat
  high : Nat
  exponent : Int
  withEnds : Bool

namespace Reading

/-- What is read as `mantissa * 2 ^ exponent`. Below the least mantissa the next number is only half
as far away, unless the exponent is the least one. -/
def of (mantissa : Nat) (exponent : Int) : Reading where
  low := 4 * mantissa - (if mantissa = Nat.pow 2 52 ∧ exponent ≠ -1074 then 1 else 2)
  value := 4 * mantissa
  high := 4 * mantissa + 2
  exponent := exponent - 2
  withEnds := mantissa % 2 == 0

/-- Whether `c` units of `b` lie in the interval, which is measured in units of `a`. -/
def contains (r : Reading) (a b c : Nat) : Bool :=
  if r.withEnds then r.low * a ≤ c * b && c * b ≤ r.high * a
  else r.low * a < c * b && c * b < r.high * a

/-- The multiple of `10 ^ exponent` in the interval that is nearest to its number; of two the
greater. -/
def nearest? (r : Reading) (exponent : Int) : Option Nat :=
  let a := Nat.pow 2 r.exponent.toNat * Nat.pow 10 (-exponent).toNat
  let b := Nat.pow 10 exponent.toNat * Nat.pow 2 (-r.exponent).toNat
  let below := r.value * a / b
  let isBelow := below != 0 && r.contains a b below
  let isAbove := r.contains a b (below + 1)
  if isAbove && (!isBelow || (2 * below + 1) * b ≤ 2 * r.value * a) then some (below + 1)
  else if isBelow then some below
  else none

/-- The decimal of the greatest exponent, from the given one down, that lies in the interval. -/
def search (r : Reading) : Nat → Int → Decimal
  | 0, exponent => ⟨0, exponent⟩
  | fuel + 1, exponent =>
    match r.nearest? exponent with
    | some digits => ⟨digits, exponent⟩
    | none => r.search fuel (exponent - 1)

end Reading

/-- The decimal of the fewest digits that is read as `mantissa * 2 ^ exponent`, and of those the
nearest. The search starts at a power of ten beyond the number, and seventeen digits suffice. -/
def shortestDecimal (mantissa : Nat) (exponent : Int) : Decimal :=
  if mantissa = 0 then ⟨0, 0⟩
  else
    (Reading.of mantissa exponent).search 24
      ((mantissa.log2 + exponent + 1) * 30103 / 100000 + 1)

structure NumberFormat where
  /-- The least number of places after the point. -/
  places : Nat
  /-- The positions of the first digit for which no exponent is written. -/
  positional : Int → Bool

/-- The digits with a point among them, with at least the given number of places after it. -/
def positionalText (places : Nat) (d : Decimal) : String :=
  let digits := Nat.toDigits 10 d.digits ++ List.replicate d.exponent.toNat '0'
  let after := (-d.exponent).toNat
  let digits := List.replicate (after + 1 - digits.length) '0' ++ digits
  let whole := digits.take (digits.length - after)
  let part := digits.drop (digits.length - after)
  let part := part ++ List.replicate (places - part.length) '0'
  String.ofList (if part.isEmpty then whole else whole ++ '.' :: part)

/-- The digits with a point after the first one, and the exponent of that one. -/
def exponentText (first : Int) (d : Decimal) : String :=
  let digits := Nat.toDigits 10 d.digits
  let mantissa := if digits.length ≤ 1 then digits else digits.take 1 ++ '.' :: digits.drop 1
  String.ofList mantissa ++ "e" ++ toString first

/-- The text of a number in the fewest digits that are read as the same number. -/
def Double.text (format : NumberFormat) (x : Double) : String :=
  match x.magnitude with
  | .notANumber => "NaN"
  | .infinite => if x.isNegative then "-inf" else "inf"
  | .finite mantissa exponent =>
    let d := shortestDecimal mantissa exponent
    let first := d.exponent + (Nat.toDigits 10 d.digits).length - 1
    let text :=
      if d.digits = 0 ∨ format.positional first then positionalText format.places d
      else exponentText first d
    if x.isNegative then "-" ++ text else text

end TypedTree
