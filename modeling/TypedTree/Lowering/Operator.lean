import TypedTree.Lowering.Place

namespace TypedTree.Lower

/-- A constant expression; one without a value stands for a malformed source. -/
def lowerConstant (id : NodeId) : Lower ExprId := do
  let facts ← facts id
  let value ← required facts.constant "constant value" id
  match ← constant value facts.type with
  | some expr => return expr
  | none => malformed .malformed "constant has no value"

def lowerUnary (d : Descent) (scope : Scope) (id : NodeId) (op : UnaryOp) (operand : NodeId)
    (prefixed : Bool) : Lower ExprId := do
  match op with
  | .increment | .decrement => lowerIncrement d scope id operand prefixed
  | .notNull =>
    let argument ← d.expr scope operand
    addExpr (← expressionType id) (.intrinsic .checkNotNull [argument])
  | .minus | .plus | .not =>
    let type ← expressionType id
    match (← facts id).call, op with
    | some call, _ => buildCall d scope call type {}
    | none, .not =>
      let argument ← d.expr scope operand
      addExpr type (.intrinsic .not [argument])
    | none, _ => required none "resolved operator call" id

/-- The operators whose meaning no function gives. -/
def intrinsic? : BinaryOp → Option Intrinsic
  | .equals => some .equals
  | .notEquals => some .notEquals
  | .identityEquals => some .identityEquals
  | .identityNotEquals => some .identityNotEquals
  | .less => some .less
  | .lessOrEqual => some .lessOrEqual
  | .greater => some .greater
  | .greaterOrEqual => some .greaterOrEqual
  | .and => some .lazyAnd
  | .or => some .lazyOr
  | _ => none

def lowerMembership (d : Descent) (scope : Scope) (id : NodeId) (negated : Bool) :
    Lower ExprId := do
  let contains ← required (← facts id).call "resolved `contains` call" id
  let boolean ← booleanType
  let call ← buildCall d scope contains boolean {}
  if negated then addExpr boolean (.intrinsic .not [call]) else return call

def lowerBinary (d : Descent) (scope : Scope) (id : NodeId) (op : BinaryOp) (left : NodeId)
    (right : Option NodeId) : Lower ExprId := do
  if op.isAssignment then lowerAssignment d scope id op left right
  else
    match intrinsic? op, op with
    | some intrinsic, _ =>
      let left ← d.expr scope left
      let right ← lowerOptional d scope right "right operand"
      addExpr (← booleanType) (.intrinsic intrinsic [left, right])
    | none, .elvis =>
      let left ← d.expr scope left
      let right ← lowerOptional d scope right "right operand"
      addExpr (← expressionType id) (.elvis left right)
    | none, .contained => lowerMembership d scope id false
    | none, .notContained => lowerMembership d scope id true
    | none, _ =>
      let call ← required (← facts id).call "resolved operator call" id
      let type ← expressionType id
      buildCall d scope call type {}

def typeTest (negated : Bool) : TypeOperator := if negated then .isNotOf else .isOf

def lowerTypeCheck (d : Descent) (scope : Scope) (expression typeRef : NodeId) (negated : Bool) :
    Lower ExprId := do
  let argument ← d.expr scope expression
  let operand ← writtenType typeRef
  addExpr (← booleanType) (.typeOperation (typeTest negated) argument operand)

def lowerCast (d : Descent) (scope : Scope) (id expression typeRef : NodeId) (safe : Bool) :
    Lower ExprId := do
  let argument ← d.expr scope expression
  let operand ← writtenType typeRef
  addExpr (← expressionType id)
    (.typeOperation (if safe then .safeCast else .cast) argument operand)

/-- The class that a name refers to, or else that of a type or an expression. -/
def literalClassifier (receiver : NodeId) : Lower SymbolId := do
  let facts ← facts receiver
  match facts.target, facts.writtenType with
  | some target, _ => symbolFor target
  | none, some type => return (← convert type).classifier
  | none, none => return (← expressionType receiver).classifier

def lowerClassLiteral (id receiver : NodeId) : Lower ExprId := do
  let classifier ← literalClassifier receiver
  addExpr (← expressionType id) (.classReference classifier)

def lowerCallableReference (d : Descent) (scope : Scope) (id callee : NodeId) : Lower ExprId := do
  let call := (← facts id).call <|> (← facts callee).call
  let call ← required call "resolved callable reference" id
  let access ← buildAccess d scope call none
  addExpr (← expressionType id) (.callableReference access)

def lowerAnnotated (d : Descent) (scope : Scope) (annotations : List NodeId) (base : NodeId) :
    Lower ExprId := do
  let expr ← d.expr scope base
  let calls ← annotationEntries annotations
  annotateExpr expr calls
  return expr

end TypedTree.Lower
