import TypedTree.Number.Binary
import TypedTree.Source.Span

namespace TypedTree

/-- Position of a descriptor among the built-in and the declared ones. -/
structure DescId where
  index : Nat
deriving DecidableEq, Repr

/-- Position of a type among the built-in ones and those of the unit. -/
structure TypeId where
  index : Nat
deriving DecidableEq, Repr

inductive Scalar where
  | text (value : String)
  | int (value : Int32)
  | long (value : Int64)
  | short (value : Int16)
  | byte (value : Int8)
  | uint (value : UInt32)
  | ulong (value : UInt64)
  | ushort (value : UInt16)
  | ubyte (value : UInt8)
  | boolean (value : Bool)
  | float (value : Single)
  | double (value : Double)
  | char (value : Char)
  | null
deriving DecidableEq, Repr

mutual

/-- A value known before the program runs. -/
inductive Constant where
  | scalar (value : Scalar)
  | array (elements : List Constant) (type : TypeId)
  | enumEntry (entry : DescId) (type : TypeId)
  | nested (use : AnnotationUse)
  | classLiteral (referenced type : TypeId)
  /-- A value that analysis could not find. -/
  | failed (message : String)

/-- An annotation with the arguments written for it, in source order. -/
structure AnnotationUse where
  type : TypeId
  arguments : List (Name × Constant)

end

/-- Writing an argument again replaces its value and keeps its place. -/
def AnnotationUse.withArgument (use : AnnotationUse) (name : Name) (value : Constant) :
    AnnotationUse :=
  if use.arguments.any (·.1 == name) then
    { use with arguments := use.arguments.map fun a => if a.1 == name then (name, value) else a }
  else { use with arguments := use.arguments ++ [(name, value)] }

end TypedTree
