import TypedTree.Fragment.Type

namespace TypedTree

inductive SymbolKind where
  | classLike
  | function
  | anonymousFunction
  | constructor
  | property
  | accessor
  | typeParameter
  | valueParameter
  | typeAlias
  | initializer
deriving DecidableEq, Repr

/-- The qualified name of a declaration. -/
structure SymbolIdentity where
  package : List Name
  /-- The classes around the declaration, outermost first. -/
  enclosing : List Name
  name : Name
  /-- Declared inside the body of a callable. -/
  isLocal : Bool
deriving DecidableEq, Repr

/-- The identity of a helper that no package holds. -/
def SymbolIdentity.unqualified (name : Name) : SymbolIdentity := ⟨[], [], name, true⟩

/-- A second owner for something that has one. -/
inductive BindError where
  | symbolBound (name : Name) (existing attempted : DeclId)
  | functionTargetBound (existing : DeclId)
  | exprTargetBound (existing : ExprId)
deriving DecidableEq, Repr

def BindError.message : BindError → String
  | .symbolBound name existing attempted =>
    s!"symbol {name} is already bound to declaration {existing.index}, " ++
      s!"cannot rebind to declaration {attempted.index}"
  | .functionTargetBound existing =>
    s!"function target is already bound to declaration {existing.index}"
  | .exprTargetBound existing =>
    s!"expression target is already bound to expression {existing.index}"

/-- Stands for a declaration wherever it is referred to. -/
structure Symbol where
  kind : SymbolKind
  identity : SymbolIdentity
  /-- The declaration, once there is one. -/
  owner : Option DeclId := none
deriving DecidableEq, Repr

namespace Symbol

def name (s : Symbol) : Name := s.identity.name

def isBound (s : Symbol) : Bool := s.owner.isSome

/-- An owner is given once and never replaced. -/
def bind (s : Symbol) (decl : DeclId) : Except BindError Symbol :=
  match s.owner with
  | some existing => .error (.symbolBound s.name existing decl)
  | none => .ok { s with owner := some decl }

end Symbol

end TypedTree
