import TypedTree.Lowering.Destructuring
import TypedTree.Lowering.Parameter

namespace TypedTree.Lower

/-- The body of a callable. An expression is the value that it returns. -/
def lowerFunctionBody (d : Descent) (scope : Scope) (target : FunctionTargetId) (body : NodeId) :
    Lower ExprId := do
  match (← node body).kind with
  | .block statements => lowerBlock d scope body statements
  | _ =>
    let value ← d.expr scope body
    let jump ← addExpr (← nothingType) (.returnJump target value)
    block [.expression jump]

/-- A function. Its target has the given label, or else its name. -/
def lowerFunction (d : Descent) (scope : Scope) (id : NodeId) (label : Option Name) :
    Lower DeclId := do
  match (← node id).kind with
  | .function function =>
    let desc ← declared id
    let descriptor ← descriptor desc
    match descriptor.function? with
    | none => unexpectedDeclaration descriptor "function"
    | some info =>
      let symbol ← symbolFor desc
      let annotations ← annotationEntries function.annotations
      let typeParameters ← function.typeParameters.mapM lowerTypeParameter
      let target ← newFunctionTarget (label <|> function.name) false
      let inner : Scope := .function target :: scope
      let valueParameters ← function.parameters.mapM (lowerValueParameter d inner)
      let body ← function.body.mapM (lowerFunctionBody d inner target)
      let dispatchReceiver ← convertOptional info.dispatchReceiver
      let extensionReceiver ← convertOptional info.extensionReceiver
      let returnType ← convert info.returnType
      let overridden ← info.overridden.mapM (symbolOf .function)
      declareCallable target symbol .source annotations (.function ⟨descriptor.visibility,
        info.modality, info.flags, typeParameters, dispatchReceiver, extensionReceiver,
        valueParameters, returnType, body, overridden,
        if function.name.isNone then label else none⟩)
  | _ => unexpected id "function"

def lowerAnonymousFunction (d : Descent) (scope : Scope) (id : NodeId) (label : Option Name) :
    Lower ExprId := do
  let function ← lowerFunction d scope id (label <|> scope.implicitLabel)
  addExpr (← expressionType id) (.lambda function)

/-- A parameter of a lambda, and the variables that unpack one that is destructured. -/
def lowerLambdaParameter (d : Descent) (scope : Scope) (parameter : NodeId) :
    Lower (DeclId × List Statement) := do
  let decl ← lowerValueParameter d scope parameter
  match (← node parameter).kind with
  | .parameter { destructuring := some destructuring, .. } =>
    let entries ← destructuredEntries destructuring
    let symbol := (← Lower.decl decl).symbol
    match ← declaredType decl with
    | none => unexpected parameter "value parameter"
    | some type => return (decl, ← lowerComponents d scope ⟨decl, symbol, type⟩ entries)
  | _ => return (decl, [])

/-- The parameters of a lambda, and the variables that unpack those that are destructured. -/
def lowerLambdaParameters (d : Descent) (scope : Scope) (parameters : List NodeId) :
    Lower (List DeclId × List Statement) := do
  let lowered ← parameters.mapM (lowerLambdaParameter d scope)
  return (lowered.map (·.1), lowered.flatMap (·.2))

/-- The statements of a lambda's body; the last one is not returned. -/
def lowerLambdaBody (d : Descent) (scope : Scope) (body : NodeId) : Lower (List Statement) := do
  match (← node body).kind with
  | .block statements => lowerStatements d scope statements
  | _ => splice (← d.expr scope body)

/-- A lambda without parameters has those of its signature. -/
def implicitParameters (parameters : List NodeId) (info : FunctionInfo) : Lower (List DeclId) :=
  if parameters.isEmpty then info.valueParameters.mapM syntheticParameter else return []

def lambdaBlock (statements : List Statement) : Lower ExprId := do
  if statements.isEmpty then block [.expression (← unitValue)] else block statements

/-- A lambda. Without a label it takes that of the call it is passed to. -/
def lowerLambda (d : Descent) (scope : Scope) (id : NodeId) (parameters : List NodeId)
    (body : NodeId) (label : Option Name) : Lower ExprId := do
  let desc ← declared id
  let descriptor ← descriptor desc
  match descriptor.function? with
  | none => unexpectedDeclaration descriptor "lambda"
  | some info =>
    let symbol ← symbolOf .anonymousFunction desc
    let label := label <|> scope.implicitLabel
    let target ← newFunctionTarget label true
    let inner : Scope := .function target :: scope
    let implicit ← implicitParameters parameters info
    let (written, unpacked) ← lowerLambdaParameters d inner parameters
    let statements ← lowerLambdaBody d inner body
    let body ← lambdaBlock (unpacked ++ statements)
    let extensionReceiver ← convertOptional info.extensionReceiver
    let returnType ← convert info.returnType
    let decl ← declareCallable target symbol .source [] (.function ⟨.inBody, .final, info.flags, [],
      none, extensionReceiver, implicit ++ written, returnType, some body, [], label⟩)
    addExpr (← expressionType id) (.lambda decl)

/-- A constructor that is written out. The header of a class holds the delegation of its primary
constructor. -/
def lowerConstructor (d : Descent) (scope : Scope) (id : NodeId) (superCall : Option NodeId) :
    Lower DeclId := do
  match (← node id).kind with
  | .primaryConstructor parameters annotations =>
    construct parameters superCall none annotations true
  | .secondaryConstructor parameters delegation body annotations =>
    construct parameters delegation body annotations false
  | _ => unexpected id "constructor"
where
  construct (parameters : List NodeId) (delegation body : Option NodeId)
      (annotations : List NodeId) (isPrimary : Bool) : Lower DeclId := do
    let desc ← declared id
    let descriptor ← descriptor desc
    match descriptor.constructor? with
    | none => unexpectedDeclaration descriptor "constructor"
    | some info =>
      let symbol ← symbolOf .constructor desc
      let annotations ← annotationEntries annotations
      let target ← newFunctionTarget none false
      let inner : Scope := .function target :: scope
      let valueParameters ← parameters.mapM (lowerValueParameter d inner)
      let delegatedCall ← delegation.mapM (lowerDelegationCall d inner)
      let body ← body.mapM (lowerFunctionBody d inner target)
      let returnType ← convert info.returnType
      declareCallable target symbol .source annotations (.constructor ⟨isPrimary,
        descriptor.visibility, valueParameters, returnType, delegatedCall, body⟩)

/-- The primary constructor of a class that does not write it out. -/
def syntheticConstructor (d : Descent) (scope : Scope) (desc : DescId)
    (superCall : Option NodeId) : Lower DeclId := do
  let descriptor ← descriptor desc
  match descriptor.constructor? with
  | none => unexpectedDeclaration descriptor "constructor"
  | some info =>
    let symbol ← symbolOf .constructor desc
    let target ← newFunctionTarget none false
    let inner : Scope := .function target :: scope
    let valueParameters ← info.valueParameters.mapM syntheticParameter
    let delegatedCall ← superCall.mapM (lowerDelegationCall d inner)
    let returnType ← convert info.returnType
    declareCallable target symbol .synthetic [] (.constructor ⟨true, descriptor.visibility,
      valueParameters, returnType, delegatedCall, none⟩)

end TypedTree.Lower
