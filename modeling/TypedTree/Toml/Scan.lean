namespace TypedTree.Toml

/-- A step of reading, which takes characters from the front of what is left. -/
abbrev Scan := StateT (List Char) Option

namespace Scan

def next : Scan Char := fun cs =>
  match cs with
  | [] => none
  | c :: rest => some (c, rest)

def peek : Scan (Option Char) := do return (← get).head?

def satisfy (p : Char → Bool) : Scan Char := do
  let c ← next
  if p c then return c else failure

def char (c : Char) : Scan Unit := do
  let _ ← satisfy (· == c)

def exactly : List Char → Scan Unit
  | [] => return
  | c :: rest => do
    char c
    exactly rest

def keyword (s : String) : Scan Unit := exactly s.toList

def takeWhile (p : Char → Bool) : Scan (List Char) :=
  modifyGet fun cs => (cs.takeWhile p, cs.dropWhile p)

def isBlank (c : Char) : Bool := c == ' ' || c == '\t'

def blanks : Scan Unit := do
  let _ ← takeWhile isBlank

/-- A character that may stand in a text or a comment; of the controls only the tab may. -/
def isPlain (c : Char) : Bool := c == '\t' || (' ' ≤ c && c != '\x7f')

def newline : Scan Unit := char '\n' <|> keyword "\r\n"

def atEnd : Scan Unit := do
  match ← get with
  | [] => return
  | _ => failure

def comment : Scan Unit := do
  char '#'
  let _ ← takeWhile isPlain

/-- The end of a line or of the whole text. -/
def lineEnd : Scan Unit := newline <|> atEnd

/-- What may follow on a line that is complete. -/
def restOfLine : Scan Unit := do
  blanks
  let _ ← optional comment
  lineEnd

/-- Blanks and lines that hold at most a comment. -/
def emptyLines : Nat → Scan Unit
  | 0 => return
  | fuel + 1 => do
    blanks
    match ← peek with
    | some '#' =>
      comment
      newline
      emptyLines fuel
    | some '\n' | some '\r' =>
      newline
      emptyLines fuel
    | _ => return

/-- More steps than there are characters left are never needed. -/
def fuel : Scan Nat := do return (← get).length + 1

def skipEmptyLines : Scan Unit := do emptyLines (← fuel)

end Scan

end TypedTree.Toml
