namespace TypedTree

/-- Variance of a type parameter, or of a type argument where it is used. -/
inductive Variance where
  | invariant
  | contravariant
  | covariant
deriving DecidableEq, Repr

/-- The source word of a variance; an invariant parameter is written without one. -/
def Variance.keyword : Variance → String
  | .invariant => ""
  | .contravariant => "in"
  | .covariant => "out"

inductive Visibility where
  | everywhere
  | inModule
  | inSubclasses
  | inContainer
  /-- Declared inside the body of a callable. -/
  | inBody
deriving DecidableEq, Repr

inductive Modality where
  | final
  | overridable
  | abstract
  | sealed
deriving DecidableEq, Repr

inductive ClassKind where
  | plain
  | interface
  | enumClass
  | enumEntry
  | object
  | annotationClass
deriving DecidableEq, Repr

def ClassKind.keyword : ClassKind → String
  | .plain => "class"
  | .interface => "interface"
  | .enumClass => "enum class"
  | .enumEntry => "enum entry"
  | .object => "object"
  | .annotationClass => "annotation class"

end TypedTree
