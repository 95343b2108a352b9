import TypedTree.Lowering.Call

namespace TypedTree.Lower

/-- The variable that a name stands for, through a receiver if one is given. -/
def assignedAccess (d : Descent) (scope : Scope) (name : NodeId) (receiver : Option ExprId) :
    Lower Access := do
  let facts ← facts name
  match facts.call with
  | some call => buildAccess d scope call receiver
  | none =>
    let target ← required facts.target "assigned variable" name
    return ⟨← symbolFor target, receiver, none, []⟩

/-- The assignment of a value to a variable, through a receiver if one is given. -/
def assignName (d : Descent) (scope : Scope) (name : NodeId) (value : ExprId)
    (receiver : Option ExprId) : Lower ExprId := do
  let access ← assignedAccess d scope name receiver
  addExpr (← unitType) (.assignment access value)

/-- The assignment of a value to what a node denotes. -/
def assignTo (d : Descent) (scope : Scope) (target : NodeId) (value : ExprId) : Lower ExprId := do
  match (← node target).kind with
  | .nameReference _ => assignName d scope target value none
  | .qualified _ selector false => assignName d scope (← deparenthesize selector) value none
  | .qualified receiver selector true =>
    let (receiver, subject) ← safeReceiver d scope receiver
    let selector ← assignName d scope (← deparenthesize selector) value (some subject)
    addExpr (← unitType) (.safeCall receiver subject selector)
  | .arrayAccess _ indices =>
    let set ← indexedSet target
    let indices ← indices.mapM (d.expr scope)
    let type ← unitType
    buildCall d scope set type ⟨none, some (indices.map some ++ [some value])⟩
  | _ => malformed .variableExpected "variable expected"

/-- Something that is read and then stored, whose parts are evaluated once before. -/
inductive Place where
  | name (node : NodeId)
  | member (selector : NodeId) (receiver : Temporary)
  | indexed (node : NodeId) (array : Temporary) (indices : List Temporary)
  /-- Safe calls and what is no variable: the store evaluates these again. -/
  | other (node : NodeId)

namespace Place

/-- The place of an array element, and the temporaries for the array and the indices. -/
def captureIndexed (d : Descent) (scope : Scope) (node array : NodeId) (indices : List NodeId) :
    Lower (Place × List Statement) := do
  let array ← Temporary.hold "<array>" (← d.expr scope array)
  let indices ← indices.zipIdx.mapM fun (index, position) => do
    Temporary.hold s!"<index_{position}>" (← d.expr scope index)
  return (.indexed node array indices, array.statement :: indices.map (·.statement))

def capture (d : Descent) (scope : Scope) (target : NodeId) : Lower (Place × List Statement) := do
  match (← Lower.node target).kind with
  | .nameReference _ => return (.name target, [])
  | .qualified receiver selector false =>
    let receiver ← Temporary.hold "<receiver>" (← d.expr scope receiver)
    return (.member (← deparenthesize selector) receiver, [receiver.statement])
  | .arrayAccess array indices => captureIndexed d scope target array indices
  | _ => return (.other target, [])

def isName : Place → Bool
  | .name _ => true
  | _ => false

def read (d : Descent) (scope : Scope) : Place → Lower ExprId
  | .name node | .other node => d.expr scope node
  | .member selector receiver => do
    let receiver ← receiver.read
    lowerSelector d scope selector ⟨some receiver, none⟩
  | .indexed node array indices => do
    let get ← indexedGet node
    let receiver ← array.read
    let indices ← indices.mapM (·.read)
    callOn d scope get (← convert get.result) receiver (indices.map some)

def store (d : Descent) (scope : Scope) (value : ExprId) : Place → Lower ExprId
  | .name node | .other node => assignTo d scope node value
  | .member selector receiver => do
    let receiver ← receiver.read
    assignName d scope selector value (some receiver)
  | .indexed node array indices => do
    let set ← indexedSet node
    let receiver ← array.read
    let indices ← indices.mapM (·.read)
    callOn d scope set (← unitType) receiver (indices.map some ++ [some value])

end Place

/-- A compound assignment to an array element: the array and the indices are evaluated once. -/
def lowerIndexedUpdate (d : Descent) (scope : Scope) (id access array : NodeId)
    (indices : List NodeId) (right : Option NodeId) : Lower ExprId := do
  let operator ← required (← facts id).call "resolved operator call" id
  let (place, captured) ← Place.captureIndexed d scope access array indices
  let element ← place.read d scope
  let value ← lowerOptional d scope right "assigned value"
  let type ← convert operator.result
  let updated ← callOn d scope operator type element [some value]
  let store ← place.store d scope updated
  block (captured ++ [.expression store])

def lowerAssignment (d : Descent) (scope : Scope) (id : NodeId) (op : BinaryOp) (left : NodeId)
    (right : Option NodeId) : Lower ExprId := do
  let facts ← facts id
  if op.isAugmented && facts.isOperatorAssignment then
    let call ← required facts.call "resolved assignment operator" id
    buildCall d scope call (← unitType) {}
  else
    let target ← deparenthesize left
    match op, (← node target).kind with
    | .assign, _ => assignTo d scope target (← lowerOptional d scope right "assigned value")
    | _, .arrayAccess array indices => lowerIndexedUpdate d scope id target array indices right
    | _, _ =>
      let call ← required facts.call "resolved operator call" id
      let type ← convert call.result
      assignTo d scope target (← buildCall d scope call type {})

/-- An increment, once the parts of its operand are there. After the operand the value is that from
before; before a name it is the name read again; before all else it is the new value. -/
def incrementPlace (d : Descent) (scope : Scope) (operator : ResolvedCall) (place : Place)
    (captured : List Statement) (prefixed : Bool) : Lower ExprId := do
  let unary ← Temporary.hold "<unary>" (← place.read d scope)
  let receiver ← unary.read
  let type ← convert operator.result
  let updated ← callOn d scope operator type receiver []
  let before := captured ++ [unary.statement]
  if !prefixed then
    let store ← place.store d scope updated
    let result ← unary.read
    block (before ++ [.expression store, .expression result])
  else if place.isName then
    let store ← place.store d scope updated
    let result ← place.read d scope
    block (before ++ [.expression store, .expression result])
  else
    let kept ← Temporary.hold "<unary-result>" updated
    let value ← kept.read
    let store ← place.store d scope value
    let result ← kept.read
    block (before ++ [kept.statement, .expression store, .expression result])

/-- An increment or a decrement. The parts of the operand are evaluated once. -/
def lowerIncrement (d : Descent) (scope : Scope) (id operand : NodeId) (prefixed : Bool) :
    Lower ExprId := do
  let target ← deparenthesize operand
  let operator ← required (← facts id).call "resolved increment operator" id
  let (place, captured) ← Place.capture d scope target
  incrementPlace d scope operator place captured prefixed

end TypedTree.Lower
