import TypedTree.Toml.Number
import TypedTree.Toml.Text

namespace TypedTree.Toml

open Scan

def boolean : Scan Entry :=
  (do keyword "true"; return .boolean true) <|> (do keyword "false"; return .boolean false)

def scalar : Scan Entry := do
  match ← peek with
  | some '"' | some '\'' => return .text (← quotedText)
  | some 't' | some 'f' => boolean
  | _ => numeric

/-- The items of a list up to its closing bracket; a comma may follow the last one. -/
def listItems (value : Scan Entry) : Nat → Scan (List Entry)
  | 0 => failure
  | fuel + 1 => do
    skipEmptyLines
    match ← optional (char ']') with
    | some () => return []
    | none =>
      let item ← value
      skipEmptyLines
      match ← optional (char ',') with
      | some () => return item :: (← listItems value fuel)
      | none =>
        char ']'
        return [item]

/-- A key, an equals sign and what is given to the key. -/
def keyValue (value : Scan Entry) : Scan (List String × String × Entry) := do
  let (path, key) ← key
  char '='
  blanks
  return (path, key, ← value)

/-- Adds the entries of a table in braces, at least one and on one line. -/
def inlineEntries (value : Scan Entry) (table : Table) : Nat → Scan Table
  | 0 => failure
  | fuel + 1 => do
    let (path, key, entry) ← keyValue value
    blanks
    match table.insert? path key entry with
    | none => failure
    | some table =>
      match ← optional (char ',') with
      | some () => inlineEntries value table fuel
      | none =>
        char '\x7d'
        return table

def inlineTable (value : Scan Entry) : Scan Table := do
  char '\x7b'
  blanks
  match ← optional (char '\x7d') with
  | some () => return .empty
  | none => inlineEntries value .empty (← fuel)

/-- A value whose lists and braces are nested at most `depth` deep. -/
def valueUpTo : Nat → Scan Entry
  | 0 => scalar
  | depth + 1 => do
    match ← peek with
    | some '[' =>
      char '['
      return .list (← listItems (valueUpTo depth) (← fuel))
    | some '\x7b' => return .inline (← inlineTable (valueUpTo depth))
    | _ => scalar

/-- A value. Eighty lists or braces inside each other are too many. -/
def value : Scan Entry := valueUpTo 79

/-- The tables read so far, and the path of the one that keys go to. -/
structure Draft where
  root : Table
  path : List String

namespace Draft

def header (d : Draft) : Scan Draft := do
  char '['
  let repeated := (← optional (char '[')).isSome
  let (path, key) ← key
  char ']'
  if repeated then char ']'
  restOfLine
  let start := if repeated then d.root.startElement? path key else d.root.startTable? path key
  match start with
  | some root => return ⟨root, path ++ [key]⟩
  | none => failure

/-- A key with its value on a line. -/
def assignment (d : Draft) : Scan Draft := do
  let (path, key, entry) ← keyValue value
  restOfLine
  match d.root.updateAt false (·.insert? path key entry) d.path with
  | some root => return { d with root := root }
  | none => failure

/-- Reads line after line. -/
def lines (d : Draft) : Nat → Scan Draft
  | 0 => failure
  | fuel + 1 => do
    blanks
    match ← peek with
    | none => return d
    | some '#' =>
      comment
      lineEnd
      d.lines fuel
    | some '\n' | some '\r' =>
      newline
      d.lines fuel
    | some '[' => (← d.header).lines fuel
    | some _ => (← d.assignment).lines fuel

end Draft

def document : Scan Table := do
  let _ ← optional (char '\ufeff')
  let d ← Draft.lines ⟨.empty, []⟩ (← fuel)
  return d.root

/-- The table that a text stands for. -/
def parse? (s : String) : Option Table := (document.run s.toList).map (·.1)

end TypedTree.Toml
