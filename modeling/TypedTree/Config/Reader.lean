import TypedTree.Config
import TypedTree.Toml.Document

namespace TypedTree

inductive ConfigError where
  | unreadable (path : String)
  | malformed (path : String)
deriving DecidableEq, Repr

def ConfigError.message : ConfigError → String
  | unreadable path => "failed to read config file " ++ path
  | malformed path => "failed to parse config file " ++ path

namespace Config

open Toml

/-- The one field of a section. A section is a table or the list of its fields, and a moment is one
without fields. -/
def field? (key : String) : Entry → Option (Option Entry)
  | .table t | .inline t => some (t.get? key)
  | .list items => some items.head?
  | .tables items => some (items.head?.map .table)
  | .moment => some none
  | .text _ | .integer _ | .number | .boolean _ => none

/-- Reads the one field of a section, where it is given. -/
def readSection? {α : Type} (t : Table) (name key : String) (read? : Entry → Option α)
    (default : α) : Option α := do
  match t.get? name with
  | none => return default
  | some given =>
    match ← field? key given with
    | none => return default
    | some entry => read? entry

def boolean? : Entry → Option Bool
  | .boolean value => some value
  | _ => none

def policyNamed? (name : String) : Option LiteralPolicy :=
  if name = "complete" then some .complete
  else if name = "unsupported" then some .unsupported
  else none

/-- Whether there is nothing inside a list or a table. -/
def isHollow : Entry → Bool
  | .table t | .inline t => t.entries.isEmpty
  | .list items => items.isEmpty
  | .tables items => items.isEmpty
  | _ => false

/-- A policy by its name, or by a table with the name as its only key and nothing under it. -/
def policy? : Entry → Option LiteralPolicy
  | .text name => policyNamed? name
  | .table t | .inline t =>
    match t.entries with
    | [(name, entry)] => if isHollow entry then policyNamed? name else none
    | _ => none
  | _ => none

def moduleName? (t : Table) (default : String) : Option String :=
  match t.get? "module_name" with
  | none => some default
  | some (.text name) => some name
  | some _ => none

def ofTable? (t : Table) : Option Config := do
  let default : Config := {}
  return {
    moduleName := ← moduleName? t default.moduleName
    literals := ← readSection? t "constants" "enum_and_class_literals" policy? default.literals
    reorderArguments :=
      ← readSection? t "calls" "reorder_arguments" boolean? default.reorderArguments
    verifyBound := ← readSection? t "verify" "bound_symbols" boolean? default.verifyBound }

def ofToml? (s : String) : Option Config := (Toml.parse? s).bind ofTable?

def ofFile (path : String) (content : Option ByteArray) : Except ConfigError Config :=
  match content.bind String.fromUTF8? with
  | none => .error (.unreadable path)
  | some text =>
    match ofToml? text with
    | none => .error (.malformed path)
    | some config => .ok config

end Config

end TypedTree
