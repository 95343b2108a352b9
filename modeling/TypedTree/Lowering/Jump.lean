import TypedTree.Lowering.Block

namespace TypedTree.Lower

def found {α : Type} : Except LowerError α → Lower α
  | .ok a => pure a
  | .error e => throw e

def lowerBreak (scope : Scope) (id : NodeId) (label : Option Name) : Lower ExprId := do
  let span := (← node id).span
  let target ← found (scope.loopTarget "break" label (← get).store span)
  addExpr (← nothingType) (.breakJump target)

def lowerContinue (scope : Scope) (id : NodeId) (label : Option Name) : Lower ExprId := do
  let span := (← node id).span
  let target ← found (scope.loopTarget "continue" label (← get).store span)
  addExpr (← nothingType) (.continueJump target)

/-- What a return gives back; without a value it is the unit value. -/
def returnedValue (d : Descent) (scope : Scope) : Option NodeId → Lower ExprId
  | some value => d.expr scope value
  | none => unitValue

def lowerReturn (d : Descent) (scope : Scope) (id : NodeId) (label : Option Name)
    (value : Option NodeId) : Lower ExprId := do
  let span := (← node id).span
  let target ← found (scope.returnTarget label (← get).store span)
  let value ← returnedValue d scope value
  addExpr (← nothingType) (.returnJump target value)

def lowerThrow (d : Descent) (scope : Scope) (exception : Option NodeId) : Lower ExprId := do
  let exception ← lowerOptional d scope exception "thrown exception"
  addExpr (← nothingType) (.throwing exception)

end TypedTree.Lower
