import TypedTree.Lowering.Block

namespace TypedTree

/-- The parts of a call that are built already. -/
structure CallParts where
  /-- Takes the place of the receiver written in the source. -/
  receiver : Option ExprId := none
  /-- Takes the place of the arguments, one slot for each parameter. -/
  arguments : Option (List (Option ExprId)) := none

namespace Lower

/-- The label of an implicit receiver: names in angle brackets are nobody's label. -/
def classLabel (name : Name) : Option Name := if name.startsWith "<" then none else some name

/-- The expression of a receiver, and what is left of the explicit one, which takes the place of the
first receiver that is written in the source. -/
def receiverExpr (d : Descent) (scope : Scope) (receiver : Receiver) (explicit : Option ExprId) :
    Lower (ExprId × Option ExprId) := do
  match receiver with
  | .expression node =>
    match explicit with
    | some expr => return (expr, none)
    | none => return (← d.expr scope node, none)
  | .implicitThis enclosing type =>
    let label := classLabel (← descriptor enclosing).name
    return (← addExpr (← convert type) (.thisRef label), explicit)
  | .extensionThis callable type =>
    let label := (← descriptor callable).name
    return (← addExpr (← convert type) (.thisRef (some label)), explicit)
  | .superOf type =>
    let type ← convert type
    return (← addExpr type (.superRef (some type)), explicit)
  | .classValue object type =>
    let symbol ← symbolOf .classLike object
    return (← addExpr (← convert type) (.read (.plain symbol)), explicit)

def optionalReceiver (d : Descent) (scope : Scope) (receiver : Option Receiver)
    (explicit : Option ExprId) : Lower (Option ExprId × Option ExprId) := do
  match receiver with
  | none => return (none, explicit)
  | some receiver =>
    let (expr, explicit) ← receiverExpr d scope receiver explicit
    return (some expr, explicit)

/-- The callee of a call with its receivers and type arguments. An explicit receiver that no written
one gave its place to becomes that of the extension, or else the dispatch receiver. -/
def buildAccess (d : Descent) (scope : Scope) (call : ResolvedCall) (explicit : Option ExprId) :
    Lower Access := do
  let callee ← symbolFor call.candidate
  let (extension, explicit) ← optionalReceiver d scope call.extensionReceiver explicit
  let (dispatch, explicit) ← optionalReceiver d scope call.dispatchReceiver explicit
  let typeArguments ← convertAll call.typeArguments
  match explicit with
  | none => return ⟨callee, dispatch, extension, typeArguments⟩
  | some _ =>
    if call.extensionReceiver.isSome then return ⟨callee, dispatch, explicit, typeArguments⟩
    else return ⟨callee, explicit, extension, typeArguments⟩

/-- An element of a vararg, which may be an array that is spread out. -/
def lowerElement (d : Descent) (scope : Scope) (element : VarargElement) : Lower ExprId := do
  let expr ← d.expr scope element.node
  if element.spread then addExpr (← exprType expr) (.spread expr) else return expr

/-- The type of the array that a vararg parameter receives. -/
def varargType : Option DescId → Lower TreeType
  | some parameter => do
    convert ((← descriptor parameter).valueParameter?.elim Builtin.nullableAnyType (·.type))
  | none => convert Builtin.nullableAnyType

/-- The array of the elements that a vararg parameter receives; no elements make no array. -/
def lowerVararg (d : Descent) (scope : Scope) (elements : List VarargElement)
    (parameter : Option DescId) : Lower (Option ExprId) := do
  if elements.isEmpty then return none
  else
    let lowered ← elements.mapM (lowerElement d scope)
    let type ← varargType parameter
    return some (← addExpr type (.vararg lowered))

/-- Whether an expression can be evaluated later without a difference. -/
def hasNoEffect : ExprKind → Bool
  | .lambda _ | .classReference _ | .literal _ _ => true
  | .callableReference access | .read access =>
    access.dispatchReceiver.isNone && access.extensionReceiver.isNone
  | _ => false

def lowerArgument (d : Descent) (scope : Scope) (argument : ValueArgument)
    (parameter : Option DescId) : Lower (Option ExprId) := do
  match argument with
  | .omitted => return none
  | .expression node => return some (← d.expr scope node)
  | .vararg elements => lowerVararg d scope elements parameter

/-- Keeps a value in a temporary, unless it can be evaluated later. -/
def keepArgument (value : ExprId) : Lower (List Statement × ExprId) := do
  if hasNoEffect (← expr value).kind then return ([], value)
  else
    let temporary ← Temporary.hold "<tmp>" value
    return ([temporary.statement], ← temporary.read)

def fillSlot (slots : List (Option ExprId)) (index : Nat) (value : Option ExprId) :
    Lower (List (Option ExprId)) :=
  if index < slots.length then return slots.set index value else throw .dangling

/-- Lowers the argument at a position, if there is one, and puts it into the slot of its parameter.
Gives the temporaries and the slots so far. -/
def placeArgument (d : Descent) (scope : Scope) (call : ResolvedCall) (parameters : List DescId)
    (reorder : Bool) (built : List Statement × List (Option ExprId)) (index : Nat) :
    Lower (List Statement × List (Option ExprId)) := do
  match call.arguments[index]? with
  | none => return built
  | some argument =>
    match ← lowerArgument d scope argument parameters[index]? with
    | some value =>
      if reorder then
        let kept ← keepArgument value
        return (built.1 ++ kept.1, ← fillSlot built.2 index (some kept.2))
      else return (built.1, ← fillSlot built.2 index (some value))
    | none => return (built.1, ← fillSlot built.2 index none)

/-- The arguments of a call by parameter, and the temporaries that have to come before it. The
arguments are lowered in the order of their evaluation. Where that is not the order of the
parameters, values whose evaluation matters are kept in temporaries. -/
def lowerArguments (d : Descent) (scope : Scope) (call : ResolvedCall) :
    Lower (List Statement × List (Option ExprId)) := do
  let parameters := (← descriptor call.candidate).valueParameters
  let reorder := (← read).config.reorderArguments && call.isReordered
  call.evaluationOrder.foldlM (placeArgument d scope call parameters reorder)
    ([], List.replicate call.arguments.length none)

def withPrelude (prelude : List Statement) (expr : ExprId) : Lower ExprId :=
  if prelude.isEmpty then return expr else block (prelude ++ [.expression expr])

/-- Whether naming a declaration reads it, rather than calls it. -/
def isRead (d : Descriptor) : Bool :=
  match d.kind with
  | .property _ | .valueParameter _ | .classLike _ => true
  | _ => false

/-- The arguments of a call: those that are built already, or else those of the source. -/
def callArguments (d : Descent) (scope : Scope) (call : ResolvedCall) :
    Option (List (Option ExprId)) → Lower (List Statement × List (Option ExprId))
  | some arguments => return ([], arguments)
  | none => lowerArguments d scope call

def buildCall (d : Descent) (scope : Scope) (call : ResolvedCall) (type : TreeType)
    (parts : CallParts) : Lower ExprId := do
  let access ← buildAccess d scope call parts.receiver
  if isRead (← descriptor call.candidate) then addExpr type (.read access)
  else
    let (prelude, arguments) ← callArguments d scope call parts.arguments
    withPrelude prelude (← addExpr type (.call access arguments))

/-- The call on a receiver that is built already, with the given arguments. -/
def callOn (d : Descent) (scope : Scope) (call : ResolvedCall) (type : TreeType)
    (receiver : ExprId) (arguments : List (Option ExprId)) : Lower ExprId :=
  buildCall d scope call type ⟨some receiver, some arguments⟩

/-- A name or a call, through what it resolved to. -/
def lowerSelector (d : Descent) (scope : Scope) (id : NodeId) (parts : CallParts) :
    Lower ExprId := do
  let type ← expressionType id
  let facts ← facts id
  match facts.call, (← node id).kind with
  | some call, .call _ _ =>
    let callee := (← descriptor call.candidate).name
    buildCall d (.callee callee :: scope) call type parts
  | some call, _ => buildCall d scope call type parts
  | none, .nameReference _ =>
    let target ← required facts.target "resolved reference" id
    let symbol ← symbolFor target
    addExpr type (.read ⟨symbol, parts.receiver, none, []⟩)
  | none, .call _ _ => required none "resolved call" id
  | none, _ => unexpected id "name or call"

/-- The receiver of a safe call, and what stands for it where it is known not to be null. -/
def safeReceiver (d : Descent) (scope : Scope) (receiver : NodeId) : Lower (ExprId × ExprId) := do
  let receiver ← d.expr scope receiver
  let subject ← addExpr (← exprType receiver).nonNull (.safeCallSubject receiver)
  return (receiver, subject)

def lowerQualified (d : Descent) (scope : Scope) (id receiver selector : NodeId) (safe : Bool) :
    Lower ExprId := do
  let selector ← deparenthesize selector
  if safe then
    let (receiver, subject) ← safeReceiver d scope receiver
    let selector ← lowerSelector d scope selector ⟨some subject, none⟩
    addExpr (← expressionType id) (.safeCall receiver subject selector)
  else lowerSelector d scope selector {}

def indexedGet (id : NodeId) : Lower ResolvedCall := do
  required ((← facts id).indexed.bind (·.get)) "indexed get call" id

def indexedSet (id : NodeId) : Lower ResolvedCall := do
  required ((← facts id).indexed.bind (·.set)) "indexed set call" id

def lowerArrayAccess (d : Descent) (scope : Scope) (id : NodeId) : Lower ExprId := do
  let get ← indexedGet id
  buildCall d scope get (← expressionType id) {}

/-- The call of another constructor of the class, or of its superclass. -/
def lowerDelegationCall (d : Descent) (scope : Scope) (id : NodeId) : Lower ExprId := do
  match (← node id).kind with
  | .delegationCall kind _ =>
    let call ← required (← facts id).call "resolved delegation call" id
    let callee ← symbolOf .constructor call.candidate
    let (prelude, arguments) ← lowerArguments d scope call
    withPrelude prelude (← addExpr (← unitType) (.delegatedCall callee kind arguments))
  | _ => unexpected id "delegation call"

end Lower

end TypedTree
