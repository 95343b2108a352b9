import TypedTree.Facts.Constant
import TypedTree.Source.Modifier

namespace TypedTree

structure ClassInfo where
  kind : ClassKind := .plain
  modality : Modality := .final
  isData : Bool := false
  isInner : Bool := false
  isCompanion : Bool := false
  typeParameters : List DescId := []
  supertypes : List TypeId := []
  constructors : List DescId := []
  primaryConstructor : Option DescId := none

/-- The primary constructor, or else the only one. -/
def ClassInfo.mainConstructor? (c : ClassInfo) : Option DescId :=
  match c.primaryConstructor, c.constructors with
  | some primary, _ => some primary
  | none, [only] => some only
  | none, _ => none

structure FunctionFlags where
  isOperator : Bool := false
  isInfix : Bool := false
  isInline : Bool := false
  isSuspend : Bool := false
  isTailrec : Bool := false
deriving DecidableEq, Repr

structure FunctionInfo where
  modality : Modality := .final
  typeParameters : List DescId := []
  valueParameters : List DescId := []
  returnType : TypeId
  dispatchReceiver : Option TypeId := none
  extensionReceiver : Option TypeId := none
  flags : FunctionFlags := {}
  /-- Lambdas and function expressions. -/
  isAnonymous : Bool := false
  overridden : List DescId := []

structure ConstructorInfo where
  isPrimary : Bool
  valueParameters : List DescId
  returnType : TypeId

structure PropertyInfo where
  type : TypeId
  isVar : Bool
  isLocal : Bool
  isConst : Bool
  isLateinit : Bool
  modality : Modality
  dispatchReceiver : Option TypeId
  extensionReceiver : Option TypeId
  typeParameters : List DescId
  getter : Option DescId
  setter : Option DescId

structure AccessorInfo where
  property : DescId
  isSetter : Bool
  returnType : TypeId
  valueParameters : List DescId

structure TypeParameterInfo where
  index : Nat
  variance : Variance
  isReified : Bool
  upperBounds : List TypeId

structure ValueParameterInfo where
  index : Nat
  type : TypeId
  declaresDefault : Bool
  isVararg : Bool
  isCrossinline : Bool
  isNoinline : Bool

structure TypeAliasInfo where
  typeParameters : List DescId
  expanded : TypeId

inductive DescriptorKind where
  | classLike (info : ClassInfo)
  | function (info : FunctionInfo)
  | constructor (info : ConstructorInfo)
  | property (info : PropertyInfo)
  | accessor (info : AccessorInfo)
  | typeParameter (info : TypeParameterInfo)
  | valueParameter (info : ValueParameterInfo)
  | typeAlias (info : TypeAliasInfo)

/-- The words for a kind of descriptor in an error message. -/
def DescriptorKind.describe : DescriptorKind → String
  | .classLike _ => "class"
  | .function _ => "function"
  | .constructor _ => "constructor"
  | .property _ => "property"
  | .accessor _ => "property accessor"
  | .typeParameter _ => "type parameter"
  | .valueParameter _ => "value parameter"
  | .typeAlias _ => "type alias"

structure Descriptor where
  name : Name
  package : List Name
  /-- The declaration around this one; top-level declarations have none. -/
  container : Option DescId := none
  visibility : Visibility := .everywhere
  annotations : List AnnotationUse := []
  kind : DescriptorKind

namespace Descriptor

def class? (d : Descriptor) : Option ClassInfo :=
  match d.kind with
  | .classLike info => some info
  | _ => none

def function? (d : Descriptor) : Option FunctionInfo :=
  match d.kind with
  | .function info => some info
  | _ => none

def constructor? (d : Descriptor) : Option ConstructorInfo :=
  match d.kind with
  | .constructor info => some info
  | _ => none

def property? (d : Descriptor) : Option PropertyInfo :=
  match d.kind with
  | .property info => some info
  | _ => none

def accessor? (d : Descriptor) : Option AccessorInfo :=
  match d.kind with
  | .accessor info => some info
  | _ => none

def typeParameter? (d : Descriptor) : Option TypeParameterInfo :=
  match d.kind with
  | .typeParameter info => some info
  | _ => none

def valueParameter? (d : Descriptor) : Option ValueParameterInfo :=
  match d.kind with
  | .valueParameter info => some info
  | _ => none

def typeAlias? (d : Descriptor) : Option TypeAliasInfo :=
  match d.kind with
  | .typeAlias info => some info
  | _ => none

/-- The value parameters of something that can be called; other descriptors have none. -/
def valueParameters (d : Descriptor) : List DescId :=
  match d.kind with
  | .function info => info.valueParameters
  | .constructor info => info.valueParameters
  | .accessor info => info.valueParameters
  | _ => []

end Descriptor

inductive SourceTypeArgument where
  | star
  | projection (variance : Variance) (type : TypeId)
deriving DecidableEq, Repr

structure SimpleType where
  /-- A class or a type parameter; analysis may leave anything else here. -/
  classifier : DescId
  arguments : List SourceTypeArgument := []
  nullable : Bool := false
  annotations : List AnnotationUse := []

inductive SourceType where
  | simple (type : SimpleType)
  /-- A type of unknown nullability between two bounds. -/
  | flexible (lower upper : TypeId)
  | failed (message : String)

end TypedTree
