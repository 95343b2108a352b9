import TypedTree.Lowering.Destructuring

namespace TypedTree.Lower

/-- A loop that tests its condition first; the condition is outside of the loop. -/
def lowerWhile (d : Descent) (scope : Scope) (condition body : Option NodeId)
    (label : Option Name) : Lower ExprId := do
  let condition ← lowerOptional d scope condition "loop condition"
  let target ← newLoopTarget label
  let body ← lowerBody d (.loop target :: scope) body
  addLoop target (← unitType) (.whileLoop target condition body)

/-- A loop that tests its condition last; the condition is inside of the loop. -/
def lowerDoWhile (d : Descent) (scope : Scope) (body condition : Option NodeId)
    (label : Option Name) : Lower ExprId := do
  let target ← newLoopTarget label
  let body ← lowerBody d (.loop target :: scope) body
  let condition ← lowerOptional d (.loop target :: scope) condition "loop condition"
  addLoop target (← unitType) (.doWhile target condition body)

/-- The type of a loop's variable: its own, or else that of the next element. -/
def elementType (desc : DescId) (next : ExprId) : Lower TreeType := do
  match (← descriptor desc).property? with
  | some info => convert info.type
  | none => exprType next

def lowerLoopParameter (d : Descent) (scope : Scope) (parameter : NodeId) (next : ExprId) :
    Lower (List Statement) := do
  match (← node parameter).kind with
  | .parameter { destructuring := some destructuring, .. } =>
    let entries ← destructuredEntries destructuring
    let container ← Temporary.hold "<destruct>" next
    return container.statement :: (← lowerComponents d scope container entries)
  | .parameter { destructuring := none, annotations, .. } =>
    let desc ← declared parameter
    let symbol ← symbolFor desc
    let type ← elementType desc next
    let annotations ← annotationEntries annotations
    let decl ← declare symbol .source annotations (.property (.localValue type next))
    return [.declaration decl]
  | _ => unexpected parameter "loop parameter"

/-- A loop over a range: an iterator is held, and a loop takes its elements one by one. -/
def lowerFor (d : Descent) (scope : Scope) (id parameter range : NodeId) (body : Option NodeId)
    (label : Option Name) : Lower ExprId := do
  let calls ← required (← facts id).loop "iterator calls" id
  let range ← d.expr scope range
  let iteratorType ← convert calls.iterator.result
  let iterator ← Temporary.hold "<iterator>" (← callOn d scope calls.iterator iteratorType range [])
  let receiver ← iterator.read
  let condition ← callOn d scope calls.hasNext (← booleanType) receiver []
  let target ← newLoopTarget label
  let inner : Scope := .loop target :: scope
  let receiver ← iterator.read
  let nextType ← convert calls.next.result
  let next ← callOn d inner calls.next nextType receiver []
  let elements ← lowerLoopParameter d inner parameter next
  let body ← lowerBody d inner body
  let body ← block (elements ++ (← splice body))
  let loop ← addLoop target (← unitType) (.whileLoop target condition body)
  block [iterator.statement, .expression loop]

end TypedTree.Lower
