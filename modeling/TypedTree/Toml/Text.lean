import TypedTree.Toml.Scan

namespace TypedTree.Toml

open Scan

def hexValue? (c : Char) : Option Nat :=
  if '0' ≤ c && c ≤ '9' then some (c.toNat - '0'.toNat)
  else if 'a' ≤ c && c ≤ 'f' then some (c.toNat - 'a'.toNat + 10)
  else if 'A' ≤ c && c ≤ 'F' then some (c.toNat - 'A'.toNat + 10)
  else none

/-- A number of the given count of hexadecimal digits, after the digits read so far. -/
def hexNumber : Nat → Nat → Scan Nat
  | 0, value => return value
  | count + 1, value => do
    match hexValue? (← next) with
    | some digit => hexNumber count (16 * value + digit)
    | none => failure

/-- The character with the code point that the given count of digits says. -/
def codePoint (count : Nat) : Scan Char := do
  let value ← hexNumber count 0
  if value.isValidChar then return Char.ofNat value else failure

/-- What follows a backslash. -/
def escaped : Scan Char := do
  match ← next with
  | 'b' => return '\x08'
  | 't' => return '\t'
  | 'n' => return '\n'
  | 'f' => return '\x0c'
  | 'r' => return '\r'
  | '"' => return '"'
  | '\\' => return '\\'
  | 'u' => codePoint 4
  | 'U' => codePoint 8
  | _ => failure

/-- A text on one line up to its closing quote. -/
def basicBody : Nat → Scan (List Char)
  | 0 => failure
  | fuel + 1 => do
    match ← next with
    | '"' => return []
    | '\\' =>
      let c ← escaped
      return c :: (← basicBody fuel)
    | c => if isPlain c then return c :: (← basicBody fuel) else failure

def basicText : Scan String := do
  char '"'
  return String.ofList (← basicBody (← fuel))

/-- Up to two quotes may stand right before the three that close a text of many lines. -/
def closing (quote : Char) : Scan (List Char) := do
  match ← get with
  | a :: b :: rest =>
    if a = quote ∧ b = quote then
      set rest
      return [a, b]
    else if a = quote then
      set (b :: rest)
      return [a]
    else return []
  | [a] => if a = quote then do set ([] : List Char); return [a] else return []
  | [] => return []

/-- A backslash at the end of a line takes all blanks and line ends after it away. -/
def lineContinuation : Scan Unit := do
  blanks
  newline
  skipBlankLines (← fuel)
where
  skipBlankLines : Nat → Scan Unit
    | 0 => return
    | fuel + 1 => do
      blanks
      match ← optional newline with
      | some () => skipBlankLines fuel
      | none => return

/-- A text of many lines up to its closing quotes; only basic texts have escapes. -/
def multilineBody (quote : Char) (escapes : Bool) : Nat → Scan (List Char)
  | 0 => failure
  | fuel + 1 => do
    if (← optional (exactly [quote, quote, quote])).isSome then closing quote
    else if (← optional newline).isSome then return '\n' :: (← multilineBody quote escapes fuel)
    else
      let c ← next
      if escapes && c == '\\' then
        if (← optional lineContinuation).isSome then multilineBody quote escapes fuel
        else
          let c ← escaped
          return c :: (← multilineBody quote escapes fuel)
      else if isPlain c then return c :: (← multilineBody quote escapes fuel)
      else failure

/-- A text of many lines. A line end right after the opening quotes is not part of it. -/
def multilineText (quote : Char) (escapes : Bool) : Scan String := do
  exactly [quote, quote, quote]
  let _ ← optional newline
  return String.ofList (← multilineBody quote escapes (← fuel))

def literalText : Scan String := do
  char '\''
  let body ← takeWhile fun c => isPlain c && c != '\''
  char '\''
  return String.ofList body

def quotedText : Scan String :=
  multilineText '"' true <|> multilineText '\'' false <|> basicText <|> literalText

def isBareKeyChar (c : Char) : Bool := c.isAlphanum || c == '_' || c == '-'

def bareKey : Scan String := do
  match ← takeWhile isBareKeyChar with
  | [] => failure
  | cs => return String.ofList cs

/-- One part of a key with the blanks around it. -/
def keyPart : Scan String := do
  blanks
  let key ← basicText <|> literalText <|> bareKey
  blanks
  return key

def keyParts : Nat → Scan (List String)
  | 0 => failure
  | fuel + 1 => do
    let first ← keyPart
    match ← optional (char '.') with
    | some () => return first :: (← keyParts fuel)
    | none => return [first]

/-- A dotted key as its path and its last part. It has fewer than eighty parts. -/
def key : Scan (List String × String) := do
  let parts ← keyParts 79
  match parts.getLast? with
  | some last => return (parts.dropLast, last)
  | none => failure

end TypedTree.Toml
