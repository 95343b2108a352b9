import TypedTree.Facts.Descriptor
import TypedTree.Fragment.Type

namespace TypedTree

inductive Origin where
  | source
  /-- A signature only, for something outside the unit. -/
  | stub
  | synthetic
deriving DecidableEq, Repr

structure ClassDecl where
  kind : ClassKind
  visibility : Visibility
  modality : Modality
  isData : Bool
  isInner : Bool
  isCompanion : Bool
  typeParameters : List DeclId
  supertypes : List TreeType
  declarations : List DeclId
deriving DecidableEq

structure FunctionDecl where
  visibility : Visibility
  modality : Modality
  flags : FunctionFlags
  typeParameters : List DeclId
  dispatchReceiver : Option TreeType
  extensionReceiver : Option TreeType
  valueParameters : List DeclId
  returnType : TreeType
  body : Option ExprId
  overridden : List SymbolId
  /-- Only lambdas and function expressions carry their label. -/
  label : Option Name
deriving DecidableEq

structure ConstructorDecl where
  isPrimary : Bool
  visibility : Visibility
  valueParameters : List DeclId
  returnType : TreeType
  delegatedCall : Option ExprId
  body : Option ExprId
deriving DecidableEq

structure PropertyDecl where
  visibility : Visibility
  modality : Modality
  isVar : Bool
  isLocal : Bool
  isConst : Bool
  isLateinit : Bool
  returnType : TreeType
  dispatchReceiver : Option TreeType
  extensionReceiver : Option TreeType
  typeParameters : List DeclId
  initializer : Option ExprId
  delegate : Option ExprId
  getter : Option DeclId
  setter : Option DeclId
deriving DecidableEq

/-- A variable of a body that is assigned once. -/
def PropertyDecl.localValue (type : TreeType) (value : ExprId) : PropertyDecl :=
  ⟨.inBody, .final, false, true, false, false, type, none, none, [], some value, none, none, none⟩

structure AccessorDecl where
  property : SymbolId
  isSetter : Bool
  visibility : Visibility
  returnType : TreeType
  valueParameters : List DeclId
  body : Option ExprId
deriving DecidableEq

structure TypeParameterDecl where
  index : Nat
  variance : Variance
  isReified : Bool
  bounds : List TreeType
deriving DecidableEq

structure ValueParameterDecl where
  type : TreeType
  defaultValue : Option ExprId
  isVararg : Bool
  isCrossinline : Bool
  isNoinline : Bool
  /-- The property that a constructor parameter declares. -/
  property : Option SymbolId
deriving DecidableEq

def ValueParameterDecl.plain (type : TreeType) : ValueParameterDecl :=
  ⟨type, none, false, false, false, none⟩

structure TypeAliasDecl where
  visibility : Visibility
  typeParameters : List DeclId
  expanded : TreeType
deriving DecidableEq

inductive DeclKind where
  | classLike (decl : ClassDecl)
  | function (decl : FunctionDecl)
  | constructor (decl : ConstructorDecl)
  | property (decl : PropertyDecl)
  | accessor (decl : AccessorDecl)
  | initializer (body : ExprId)
  | typeParameter (decl : TypeParameterDecl)
  | valueParameter (decl : ValueParameterDecl)
  | typeAlias (decl : TypeAliasDecl)
deriving DecidableEq

namespace DeclKind

def describe : DeclKind → String
  | .classLike _ => "class"
  | .function _ => "function"
  | .constructor _ => "constructor"
  | .property _ => "property"
  | .accessor _ => "property accessor"
  | .initializer _ => "anonymous initializer"
  | .typeParameter _ => "type parameter"
  | .valueParameter _ => "value parameter"
  | .typeAlias _ => "type alias"

/-- The type of the values that a variable or a parameter holds. -/
def valueType? : DeclKind → Option TreeType
  | .property decl => some decl.returnType
  | .valueParameter decl => some decl.type
  | _ => none

end DeclKind

structure Decl where
  symbol : SymbolId
  origin : Origin
  annotations : List ExprId
  kind : DeclKind
deriving DecidableEq

end TypedTree
