import TypedTree.Fragment.Type
import TypedTree.Number.Binary
import TypedTree.Source.Node

namespace TypedTree

inductive Statement where
  | declaration (decl : DeclId)
  | expression (expr : ExprId)
deriving DecidableEq, Repr

/-- A reference to a callable or a variable with its receivers. -/
structure Access where
  callee : SymbolId
  dispatchReceiver : Option ExprId
  extensionReceiver : Option ExprId
  typeArguments : List TreeType
deriving DecidableEq

namespace Access

/-- A reference without receivers and type arguments. -/
def plain (callee : SymbolId) : Access := ⟨callee, none, none, []⟩

/-- The receiver that is printed: that of an extension hides the other one. -/
def receiver? (a : Access) : Option ExprId := a.extensionReceiver <|> a.dispatchReceiver

end Access

/-- Kinds of literals. Unsigned numbers have the kind of the signed ones. -/
inductive LiteralKind where
  | string
  | int
  | long
  | short
  | byte
  | boolean
  | float
  | double
  | char
  | null
deriving DecidableEq, Repr

inductive LiteralValue where
  | text (value : String)
  | integer (value : Int64)
  | number (value : Double)
  | boolean (value : Bool)
  | char (value : Char)
  | null
deriving DecidableEq, Repr

inductive Intrinsic where
  | equals
  | notEquals
  | identityEquals
  | identityNotEquals
  | less
  | lessOrEqual
  | greater
  | greaterOrEqual
  /-- The right operand runs only if the left one is true. -/
  | lazyAnd
  /-- The right operand runs only if the left one is false. -/
  | lazyOr
  | not
  | checkNotNull
deriving DecidableEq, Repr

def Intrinsic.spelling : Intrinsic → String
  | .equals => "=="
  | .notEquals => "!="
  | .identityEquals => "==="
  | .identityNotEquals => "!=="
  | .less => "<"
  | .lessOrEqual => "<="
  | .greater => ">"
  | .greaterOrEqual => ">="
  | .lazyAnd => "&&"
  | .lazyOr => "||"
  | .not => "!"
  | .checkNotNull => "!!"

inductive TypeOperator where
  | cast
  | safeCast
  | isOf
  | isNotOf
deriving DecidableEq, Repr

def TypeOperator.keyword : TypeOperator → String
  | .cast => "as"
  | .safeCast => "as?"
  | .isOf => "is"
  | .isNotOf => "!is"

/-- What is wrong with a source that an error expression stands for. -/
inductive Diagnostic where
  | malformed
  | expressionRequired
  | variableExpected
  | superNotAllowed
deriving DecidableEq, Repr

/-- One branch of a choice; the last resort has no condition. -/
structure WhenBranch where
  condition : Option ExprId
  result : ExprId
deriving DecidableEq, Repr

structure Catch where
  parameter : DeclId
  body : ExprId
deriving DecidableEq, Repr

inductive ExprKind where
  | literal (kind : LiteralKind) (value : LiteralValue)
  /-- Runs its statements in order and has the value of the last one. -/
  | block (statements : List Statement)
  | read (access : Access)
  /-- One slot for each value parameter; an empty one takes the default. -/
  | call (access : Access) (arguments : List (Option ExprId))
  | delegatedCall (callee : SymbolId) (kind : DelegationKind) (arguments : List (Option ExprId))
  | assignment (access : Access) (value : ExprId)
  | intrinsic (op : Intrinsic) (arguments : List ExprId)
  | concatenation (parts : List ExprId)
  | elvis (left right : ExprId)
  | typeOperation (op : TypeOperator) (argument : ExprId) (operand : TreeType)
  | choice (whenRef : Option WhenRefId) (subject : Option ExprId)
      (subjectVariable : Option DeclId) (branches : List WhenBranch)
  /-- The subject of the choice that owns the reference. -/
  | whenSubject (whenRef : WhenRefId)
  | whileLoop (target : LoopTargetId) (condition body : ExprId)
  | doWhile (target : LoopTargetId) (condition body : ExprId)
  | breakJump (target : LoopTargetId)
  | continueJump (target : LoopTargetId)
  | returnJump (target : FunctionTargetId) (value : ExprId)
  | throwing (exception : ExprId)
  | tryCatch (body : ExprId) (catches : List Catch) (finalizer : Option ExprId)
  | thisRef (label : Option Name)
  | superRef (superType : Option TreeType)
  | classReference (classifier : SymbolId)
  | callableReference (access : Access)
  | lambda (function : DeclId)
  | anonymousObject (object : DeclId)
  /-- The selector runs unless the receiver is null, and reads it through the subject. -/
  | safeCall (receiver subject selector : ExprId)
  /-- The receiver of a safe call where it is known not to be null. -/
  | safeCallSubject (receiver : ExprId)
  | vararg (elements : List ExprId)
  | spread (expression : ExprId)
  | delegateField (property : SymbolId) (receiver : Option ExprId)
  | unit
  | malformed (kind : Diagnostic) (message : String)
deriving DecidableEq

structure Expr where
  type : TreeType
  annotations : List ExprId := []
  kind : ExprKind
deriving DecidableEq

end TypedTree
