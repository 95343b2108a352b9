import TypedTree.Toml.Scan
import TypedTree.Toml.Table

namespace TypedTree.Toml

open Scan

def isDecimal (c : Char) : Bool := '0' ≤ c && c ≤ '9'

/-- Digits with single underscores between them, after the first one. -/
def groupedRest (isDigit : Char → Bool) : List Char → List Char × List Char
  | [] => ([], [])
  | '_' :: c :: rest =>
    if isDigit c then
      let (digits, left) := groupedRest isDigit rest
      (c :: digits, left)
    else ([], '_' :: c :: rest)
  | c :: rest =>
    if isDigit c then
      let (digits, left) := groupedRest isDigit rest
      (c :: digits, left)
    else ([], c :: rest)

/-- Digits with single underscores between them. -/
def grouped (isDigit : Char → Bool) : Scan (List Char) := do
  let first ← satisfy isDigit
  let rest ← modifyGet (groupedRest isDigit)
  return first :: rest

def digitValue (c : Char) : Nat :=
  if isDecimal c then c.toNat - '0'.toNat
  else if 'a' ≤ c then c.toNat - 'a'.toNat + 10
  else c.toNat - 'A'.toNat + 10

def numberOf (base : Nat) (digits : List Char) : Nat :=
  digits.foldl (fun value c => base * value + digitValue c) 0

def sign : Scan Bool := do
  match ← optional (char '-') with
  | some () => return true
  | none =>
    let _ ← optional (char '+')
    return false

/-- A decimal number without needless zeros in front. -/
def decimalDigits : Scan (List Char) := do
  match ← peek with
  | some '0' => return [← next]
  | _ => grouped isDecimal

/-- Integers have 64 bits. -/
def bounded (value : Int) : Scan Entry :=
  if -0x8000000000000000 ≤ value ∧ value < 0x8000000000000000 then return .integer value
  else failure

def basedInteger (mark : String) (base : Nat) (isDigit : Char → Bool) : Scan Entry := do
  keyword mark
  bounded (numberOf base (← grouped isDigit))

def isHexadecimal (c : Char) : Bool :=
  isDecimal c || ('a' ≤ c && c ≤ 'f') || ('A' ≤ c && c ≤ 'F')

def integer : Scan Entry := do
  match ← get with
  | '0' :: 'x' :: _ => basedInteger "0x" 16 isHexadecimal
  | '0' :: 'o' :: _ => basedInteger "0o" 8 fun c => '0' ≤ c && c ≤ '7'
  | '0' :: 'b' :: _ => basedInteger "0b" 2 fun c => c == '0' || c == '1'
  | _ =>
    let negative ← sign
    let value : Int := numberOf 10 (← decimalDigits)
    bounded (if negative then -value else value)

def exponent : Scan Int := do
  let _ ← satisfy fun c => c == 'e' || c == 'E'
  let negative ← sign
  let value : Int := numberOf 10 (← grouped isDecimal)
  return if negative then -value else value

def fraction : Scan (List Char) := do
  char '.'
  grouped isDecimal

/-- Whether `digits * 10 ^ exponent` is too great for double precision: from half way between the
greatest number and the next power of two on. -/
def exceedsDouble (digits : Nat) (exponent : Int) : Bool :=
  let size : Int := (Nat.toDigits 10 digits).length + exponent
  if digits == 0 || size < 300 then false
  else if size > 400 then true
  else
    (Nat.pow 2 1024 - Nat.pow 2 970) * Nat.pow 10 (-exponent).toNat ≤
      digits * Nat.pow 10 exponent.toNat

/-- A number with a fraction or an exponent. -/
def fractional : Scan Entry := do
  let negative ← sign
  let whole ← decimalDigits
  let part ← optional fraction
  let power ← optional exponent
  if part.isNone && power.isNone then failure
  let part := part.getD []
  if !negative && exceedsDouble (numberOf 10 (whole ++ part)) (power.getD 0 - part.length) then
    failure
  return .number

def special : Scan Entry := do
  let _ ← sign
  keyword "inf" <|> keyword "nan"
  return .number

/-- A number of the given count of digits, after the digits read so far. -/
def fixedDigits : Nat → Nat → Scan Nat
  | 0, value => return value
  | count + 1, value => do
    let c ← satisfy isDecimal
    fixedDigits count (10 * value + digitValue c)

/-- A number of two digits between the given bounds. -/
def twoDigits (least greatest : Nat) : Scan Nat := do
  let value ← fixedDigits 2 0
  if least ≤ value && value ≤ greatest then return value else failure

def isLeapYear (year : Nat) : Bool := year % 4 == 0 && (year % 100 != 0 || year % 400 == 0)

def daysIn (year month : Nat) : Nat :=
  if month == 2 then if isLeapYear year then 29 else 28
  else if month == 4 || month == 6 || month == 9 || month == 11 then 30
  else 31

def date : Scan Unit := do
  let year ← fixedDigits 4 0
  char '-'
  let month ← twoDigits 1 12
  char '-'
  let _ ← twoDigits 1 (daysIn year month)

def time : Scan Unit := do
  let _ ← twoDigits 0 23
  char ':'
  let _ ← twoDigits 0 59
  char ':'
  let _ ← twoDigits 0 60
  let _ ← optional do
    char '.'
    let _ ← satisfy isDecimal
    takeWhile isDecimal

def offset : Scan Unit := do
  match ← next with
  | 'Z' | 'z' => return
  | '+' | '-' =>
    let _ ← twoDigits 0 23
    char ':'
    let _ ← twoDigits 0 59
  | _ => failure

def moment : Scan Entry := do
  match ← optional date with
  | some () =>
    let _ ← optional do
      let _ ← satisfy fun c => c == 'T' || c == 't' || c == ' '
      time
      optional offset
    return .moment
  | none =>
    time
    return .moment

def numeric : Scan Entry := moment <|> fractional <|> special <|> integer

end TypedTree.Toml
