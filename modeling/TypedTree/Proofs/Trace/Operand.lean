import TypedTree.Fragment.Store

namespace TypedTree

def Access.operands (a : Access) : List ExprId :=
  a.dispatchReceiver.toList ++ a.extensionReceiver.toList

/-- One of the receivers is the given expression. -/
def Access.Through (a : Access) (e : ExprId) : Prop :=
  a.dispatchReceiver = some e ∨ a.extensionReceiver = some e

def Statement.operands : Statement → List ExprId
  | .declaration _ => []
  | .expression id => [id]

def WhenBranch.operands (b : WhenBranch) : List ExprId := b.condition.toList ++ [b.result]

/-- The expressions that an expression evaluates, one for each place. The receiver behind a subject
is evaluated by the safe call, and the subject by the selector. -/
def ExprKind.operands : ExprKind → List ExprId
  | .literal _ _ | .unit | .malformed _ _ | .thisRef _ | .safeCallSubject _ | .whenSubject _
  | .breakJump _ | .continueJump _ | .superRef _ | .classReference _ | .lambda _
  | .anonymousObject _ => []
  | .block statements => statements.flatMap (·.operands)
  | .read access | .callableReference access => access.operands
  | .call access slots => access.operands ++ slots.reduceOption
  | .delegatedCall _ _ slots => slots.reduceOption
  | .assignment access value => access.operands ++ [value]
  | .intrinsic _ operands => operands
  | .concatenation pieces => pieces
  | .vararg elements => elements
  | .elvis left right => [left, right]
  | .typeOperation _ argument _ => [argument]
  | .choice _ subject _ branches => subject.toList ++ branches.flatMap (·.operands)
  | .whileLoop _ condition body | .doWhile _ condition body => [condition, body]
  | .returnJump _ value => [value]
  | .throwing exception => [exception]
  | .tryCatch body catches finalizer => body :: (catches.map (·.body) ++ finalizer.toList)
  | .safeCall receiver _ selector => [receiver, selector]
  | .spread expression => [expression]
  | .delegateField _ receiver => receiver.toList

/-- What an expression reads, calls or assigns to. -/
def ExprKind.access? : ExprKind → Option Access
  | .read access | .call access _ | .assignment access _ => some access
  | _ => none

/-- The operands of an expression, those of its annotations among them. -/
def Expr.operands (e : Expr) : List ExprId := e.annotations ++ e.kind.operands

def DeclKind.operands : DeclKind → List ExprId
  | .classLike _ | .typeParameter _ | .typeAlias _ => []
  | .function d => d.body.toList
  | .constructor d => d.delegatedCall.toList ++ d.body.toList
  | .property d => d.initializer.toList ++ d.delegate.toList
  | .accessor d => d.body.toList
  | .initializer body => [body]
  | .valueParameter d => d.defaultValue.toList

def Decl.operands (d : Decl) : List ExprId := d.annotations ++ d.kind.operands

/-- The types that an expression stores besides its own. -/
def ExprKind.types : ExprKind → List TreeType
  | .read access | .callableReference access | .call access _ | .assignment access _ =>
    access.typeArguments
  | .typeOperation _ _ operand => [operand]
  | .superRef superType => superType.toList
  | _ => []

def DeclKind.types : DeclKind → List TreeType
  | .classLike d => d.supertypes
  | .function d => d.dispatchReceiver.toList ++ d.extensionReceiver.toList ++ [d.returnType]
  | .constructor d => [d.returnType]
  | .property d => d.returnType :: (d.dispatchReceiver.toList ++ d.extensionReceiver.toList)
  | .accessor d => [d.returnType]
  | .initializer _ => []
  | .typeParameter d => d.bounds
  | .valueParameter d => [d.type]
  | .typeAlias d => [d.expanded]

/-- What an expression is. -/
def Store.kind? (store : Store) (e : ExprId) : Option ExprKind := (store.expr? e).map (·.kind)

/-- The kind of declaration that a symbol stands for. -/
def DeclKind.Suits : DeclKind → SymbolKind → Prop
  | .classLike _, .classLike | .function _, .function | .function _, .anonymousFunction
  | .constructor _, .constructor | .property _, .property | .accessor _, .accessor
  | .initializer _, .initializer | .typeParameter _, .typeParameter
  | .valueParameter _, .valueParameter | .typeAlias _, .typeAlias => True
  | _, _ => False

end TypedTree
