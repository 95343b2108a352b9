import TypedTree.Fragment.Store

namespace TypedTree

/-- What a walk over a typed tree meets. -/
inductive TreePart where
  | decl (id : DeclId)
  | expr (id : ExprId)
  /-- A type, by its classifier. -/
  | type (classifier : SymbolId)
  | symbol (id : SymbolId)
  | functionTarget (id : FunctionTargetId)
  | loopTarget (id : LoopTargetId)
  | whenRef (id : WhenRefId)
deriving DecidableEq, Repr

mutual

/-- A type and what it is made of: its classifier, its arguments, its annotations. -/
def TreeType.parts : TreeType → List TreePart
  | ⟨classifier, _, arguments, annotations⟩ =>
    .type classifier :: .symbol classifier ::
      (TypeProjection.partsOfAll arguments ++ annotations.map .expr)

def TypeProjection.partsOfAll : List TypeProjection → List TreePart
  | [] => []
  | .star :: rest => TypeProjection.partsOfAll rest
  | .projection _ type :: rest => type.parts ++ TypeProjection.partsOfAll rest

end

namespace TreePart

def decls (ids : List DeclId) : List TreePart := ids.map .decl

def exprs (ids : List ExprId) : List TreePart := ids.map .expr

def decl? (id : Option DeclId) : List TreePart := id.toList.map .decl

def expr? (id : Option ExprId) : List TreePart := id.toList.map .expr

def types (types : List TreeType) : List TreePart := types.flatMap (·.parts)

def type? (type : Option TreeType) : List TreePart := types type.toList

/-- The arguments that are given. -/
def arguments (slots : List (Option ExprId)) : List TreePart := exprs (slots.filterMap id)

end TreePart

open TreePart in
def DeclKind.parts : DeclKind → List TreePart
  | .classLike d => decls d.typeParameters ++ types d.supertypes ++ decls d.declarations
  | .function d =>
    decls d.typeParameters ++ type? d.dispatchReceiver ++ type? d.extensionReceiver ++
      decls d.valueParameters ++ d.returnType.parts ++ d.overridden.map .symbol ++ expr? d.body
  | .constructor d =>
    decls d.valueParameters ++ d.returnType.parts ++ expr? d.delegatedCall ++ expr? d.body
  | .property d =>
    decls d.typeParameters ++ d.returnType.parts ++ type? d.dispatchReceiver ++
      type? d.extensionReceiver ++ expr? d.initializer ++ expr? d.delegate ++ decl? d.getter ++
      decl? d.setter
  | .accessor d =>
    .symbol d.property :: (decls d.valueParameters ++ d.returnType.parts ++ expr? d.body)
  | .initializer body => [.expr body]
  | .typeParameter d => types d.bounds
  | .valueParameter d => d.type.parts ++ expr? d.defaultValue ++ d.property.toList.map .symbol
  | .typeAlias d => decls d.typeParameters ++ d.expanded.parts

def Decl.parts (d : Decl) : List TreePart := TreePart.exprs d.annotations ++ d.kind.parts

def Statement.part : Statement → TreePart
  | .declaration id => .decl id
  | .expression id => .expr id

open TreePart in
def Access.parts (a : Access) : List TreePart :=
  .symbol a.callee :: (expr? a.dispatchReceiver ++ expr? a.extensionReceiver ++
    types a.typeArguments)

open TreePart in
def WhenBranch.parts (b : WhenBranch) : List TreePart := expr? b.condition ++ [.expr b.result]

/-- The parts of an expression. The receiver of a safe call belongs to the call and not to the
subject that stands for it. -/
def ExprKind.parts : ExprKind → List TreePart
  | .literal _ _ | .unit | .malformed _ _ | .thisRef _ | .safeCallSubject _ => []
  | .block statements => statements.map (·.part)
  | .read access | .callableReference access => access.parts
  | .call access slots => access.parts ++ TreePart.arguments slots
  | .delegatedCall callee _ slots => .symbol callee :: TreePart.arguments slots
  | .assignment access value => access.parts ++ [.expr value]
  | .intrinsic _ operands => TreePart.exprs operands
  | .concatenation pieces => TreePart.exprs pieces
  | .vararg elements => TreePart.exprs elements
  | .elvis left right => [.expr left, .expr right]
  | .typeOperation _ argument operand => .expr argument :: operand.parts
  | .choice whenRef subject subjectVariable branches =>
    whenRef.toList.map .whenRef ++ TreePart.expr? subject ++ TreePart.decl? subjectVariable ++
      branches.flatMap (·.parts)
  | .whenSubject whenRef => [.whenRef whenRef]
  | .whileLoop target condition body | .doWhile target condition body =>
    [.loopTarget target, .expr condition, .expr body]
  | .breakJump target | .continueJump target => [.loopTarget target]
  | .returnJump target value => [.functionTarget target, .expr value]
  | .throwing exception => [.expr exception]
  | .tryCatch body catches finalizer =>
    .expr body :: (catches.flatMap (fun c => [.decl c.parameter, .expr c.body]) ++
      TreePart.expr? finalizer)
  | .superRef superType => TreePart.type? superType
  | .classReference classifier => [.symbol classifier]
  | .lambda function => [.decl function]
  | .anonymousObject object => [.decl object]
  | .safeCall receiver subject selector => [.expr receiver, .expr subject, .expr selector]
  | .spread expression => [.expr expression]
  | .delegateField property receiver => .symbol property :: TreePart.expr? receiver

/-- The parts of an expression with its type and its annotations, in the order of a walk. -/
def Expr.parts (e : Expr) : List TreePart :=
  e.type.parts ++ TreePart.exprs e.annotations ++ e.kind.parts

namespace Store

def below (s : Store) : TreePart → List TreePart
  | .decl id => ((s.decl? id).map (·.parts)).getD []
  | .expr id => ((s.expr? id).map (·.parts)).getD []
  | .type _ | .symbol _ | .functionTarget _ | .loopTarget _ | .whenRef _ => []

/-- A part and all that stands below it, down to the given depth, parents first. -/
def walkUpTo (s : Store) : Nat → TreePart → List TreePart
  | 0, _ => []
  | depth + 1, part => part :: (s.below part).flatMap (s.walkUpTo depth)

/-- A part and all that stands below it. No chain of declarations and expressions that own each
other is longer than the store, and one more step reaches the leaves. -/
def walk (s : Store) (part : TreePart) : List TreePart :=
  s.walkUpTo (s.decls.size + s.exprs.size + 1) part

end Store

/-- The ids of what a tree refers to, each once and in ascending order. -/
structure References where
  symbols : List Nat
  functionTargets : List Nat
  loopTargets : List Nat
  whenRefs : List Nat
deriving DecidableEq, Repr

def insertAscending (n : Nat) : List Nat → List Nat
  | [] => [n]
  | m :: rest =>
    if n < m then n :: m :: rest
    else if n = m then m :: rest
    else m :: insertAscending n rest

def ascending (ns : List Nat) : List Nat := ns.foldr insertAscending []

namespace TreePart

def symbol? : TreePart → Option SymbolId
  | .symbol id => some id
  | _ => none

def functionTarget? : TreePart → Option FunctionTargetId
  | .functionTarget id => some id
  | _ => none

def loopTarget? : TreePart → Option LoopTargetId
  | .loopTarget id => some id
  | _ => none

def whenRef? : TreePart → Option WhenRefId
  | .whenRef id => some id
  | _ => none

/-- One letter for the kind of a part, and its id. -/
def text : TreePart → String
  | .decl id => "d" ++ toString id.index
  | .expr id => "e" ++ toString id.index
  | .type classifier => "t" ++ toString classifier.index
  | .symbol id => "s" ++ toString id.index
  | .functionTarget id => "f" ++ toString id.index
  | .loopTarget id => "l" ++ toString id.index
  | .whenRef id => "w" ++ toString id.index

end TreePart

namespace Store

def symbolsBelow (s : Store) (part : TreePart) : List SymbolId :=
  (s.walk part).filterMap (·.symbol?)

def trace (s : Store) (part : TreePart) : String := " ".intercalate ((s.walk part).map (·.text))

/-- What the given declarations and all below them refer to. -/
def references (s : Store) (roots : List DeclId) : References :=
  let parts := roots.flatMap fun id => s.walk (.decl id)
  ⟨ascending ((parts.filterMap (·.symbol?)).map (·.index)),
    ascending ((parts.filterMap (·.functionTarget?)).map (·.index)),
    ascending ((parts.filterMap (·.loopTarget?)).map (·.index)),
    ascending ((parts.filterMap (·.whenRef?)).map (·.index))⟩

end Store

namespace Fragment

/-- What the whole fragment refers to. -/
def references (f : Fragment) : References := f.store.references f.roots

end Fragment

end TypedTree
