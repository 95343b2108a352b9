import TypedTree.Source.Operator

namespace TypedTree

structure NodeId where
  index : Nat
deriving DecidableEq, Repr

inductive DelegationKind where
  | toThis
  | toSuper
deriving DecidableEq, Repr

inductive TemplateEntry where
  | literal (text : String)
  /-- An escape, given by the text it stands for. -/
  | escape (text : String)
  | expression (node : NodeId)
deriving DecidableEq, Repr

inductive WhenSubject where
  | expression (node : NodeId)
  /-- The node is a property declaration. -/
  | declaration (property : NodeId)
deriving DecidableEq, Repr

inductive WhenCondition where
  /-- A value to compare with; malformed sources leave it out. -/
  | expression (node : Option NodeId)
  | inRange (range : NodeId) (negated : Bool)
  | isPattern (typeRef : NodeId) (negated : Bool)
deriving DecidableEq, Repr

structure WhenEntry where
  conditions : List WhenCondition
  body : Option NodeId
  isElse : Bool
deriving DecidableEq, Repr

structure CatchClause where
  parameter : NodeId
  body : NodeId
deriving DecidableEq, Repr

structure ClassNode where
  /-- Object literals have none. -/
  name : Option Name
  typeParameters : List NodeId
  primaryConstructor : Option NodeId
  /-- Call of a superclass constructor in the list of supertypes. -/
  superCall : Option NodeId
  declarations : List NodeId
  annotations : List NodeId
deriving DecidableEq, Repr

structure FunctionNode where
  /-- Anonymous functions have none. -/
  name : Option Name
  typeParameters : List NodeId
  parameters : List NodeId
  /-- A block, or the expression that the function returns. -/
  body : Option NodeId
  annotations : List NodeId
deriving DecidableEq, Repr

structure PropertyNode where
  name : Name
  isVar : Bool
  typeParameters : List NodeId
  initializer : Option NodeId
  delegate : Option NodeId
  getter : Option NodeId
  setter : Option NodeId
  annotations : List NodeId
deriving DecidableEq, Repr

structure ParameterNode where
  /-- Destructured parameters have none. -/
  name : Option Name
  defaultValue : Option NodeId
  destructuring : Option NodeId
  annotations : List NodeId
deriving DecidableEq, Repr

/-- The forms of source syntax. What analysis found out about a node is kept apart from it. -/
inductive NodeKind where
  | classDecl (node : ClassNode)
  | enumEntry (name : Name) (declarations annotations : List NodeId)
  | function (node : FunctionNode)
  | primaryConstructor (parameters annotations : List NodeId)
  | secondaryConstructor (parameters : List NodeId) (delegation body : Option NodeId)
      (annotations : List NodeId)
  | delegationCall (kind : DelegationKind) (arguments : List NodeId)
  | property (node : PropertyNode)
  | accessor (isSetter : Bool) (parameters : List NodeId) (body : Option NodeId)
      (annotations : List NodeId)
  | initializer (body : Option NodeId) (annotations : List NodeId)
  | typeParameter (name : Name) (annotations : List NodeId)
  | parameter (node : ParameterNode)
  | typeAlias (name : Name) (typeParameters annotations : List NodeId)
  | destructuring (entries : List NodeId) (initializer : Option NodeId)
  /-- An entry without a name skips its component. -/
  | destructuringEntry (name : Option Name)
  | constant
  | template (entries : List TemplateEntry)
  | nameReference (name : Name)
  | call (callee : NodeId) (arguments : List NodeId)
  | qualified (receiver selector : NodeId) (safe : Bool)
  | arrayAccess (array : NodeId) (indices : List NodeId)
  | unary (op : UnaryOp) (operand : NodeId) (prefixed : Bool)
  | binary (op : BinaryOp) (left : NodeId) (right : Option NodeId)
  | typeCheck (expression typeRef : NodeId) (negated : Bool)
  | cast (expression typeRef : NodeId) (safe : Bool)
  | ifElse (condition thenBranch elseBranch : Option NodeId)
  | whenCases (subject : Option WhenSubject) (entries : List WhenEntry)
  | whileLoop (condition body : Option NodeId)
  | doWhile (body condition : Option NodeId)
  | forLoop (parameter range : NodeId) (body : Option NodeId)
  | breakJump (label : Option Name)
  | continueJump (label : Option Name)
  | returnJump (label : Option Name) (value : Option NodeId)
  | labeled (label : Name) (body : NodeId)
  | lambda (parameters : List NodeId) (body : NodeId)
  | block (statements : List NodeId)
  | parenthesized (inner : NodeId)
  | thisRef (label : Option Name)
  | superRef (superType : Option NodeId)
  | throwing (exception : Option NodeId)
  | tryCatch (body : NodeId) (catches : List CatchClause) (finalizer : Option NodeId)
  | objectLiteral (declaration : NodeId)
  | classLiteral (receiver : NodeId)
  | callableReference (receiver : Option NodeId) (callee : NodeId)
  | annotated (annotations : List NodeId) (base : NodeId)
  | annotationEntry
  | typeReference
  | malformed (message : String)
deriving DecidableEq, Repr

/-- The words for a kind of node in an error message. -/
def NodeKind.describe : NodeKind → String
  | .classDecl _ => "class"
  | .enumEntry .. => "enum entry"
  | .function _ => "function"
  | .primaryConstructor .. => "primary constructor"
  | .secondaryConstructor .. => "secondary constructor"
  | .delegationCall .. => "delegation call"
  | .property _ => "property"
  | .accessor .. => "property accessor"
  | .initializer .. => "anonymous initializer"
  | .typeParameter .. => "type parameter"
  | .parameter _ => "parameter"
  | .typeAlias .. => "type alias"
  | .destructuring .. => "destructuring declaration"
  | .destructuringEntry _ => "destructuring entry"
  | .constant => "constant"
  | .template _ => "string template"
  | .nameReference _ => "name reference"
  | .call .. => "call"
  | .qualified .. => "qualified expression"
  | .arrayAccess .. => "array access"
  | .unary .. => "unary expression"
  | .binary .. => "binary expression"
  | .typeCheck .. => "type check"
  | .cast .. => "cast"
  | .ifElse .. => "if"
  | .whenCases .. => "when"
  | .whileLoop .. => "while"
  | .doWhile .. => "do-while"
  | .forLoop .. => "for"
  | .breakJump _ => "break"
  | .continueJump _ => "continue"
  | .returnJump .. => "return"
  | .labeled .. => "labeled expression"
  | .lambda .. => "lambda"
  | .block _ => "block"
  | .parenthesized _ => "parenthesized expression"
  | .thisRef _ => "this"
  | .superRef _ => "super"
  | .throwing _ => "throw"
  | .tryCatch .. => "try"
  | .objectLiteral _ => "object literal"
  | .classLiteral _ => "class literal"
  | .callableReference .. => "callable reference"
  | .annotated .. => "annotated expression"
  | .annotationEntry => "annotation entry"
  | .typeReference => "type reference"
  | .malformed _ => "error"

structure Node where
  kind : NodeKind
  span : Span
deriving DecidableEq, Repr

end TypedTree
