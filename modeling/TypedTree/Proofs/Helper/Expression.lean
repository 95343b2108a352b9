import TypedTree.Proofs.Helper.Pays

namespace TypedTree

/-- What is inside of a node is lowered without leaving a helper undeclared. -/
structure Descent.Tidy (σ : Setting) (d : Descent) : Prop where
  expr : ∀ scope id, TypedTree.Tidy σ (d.expr scope id)
  decl : ∀ scope id, TypedTree.Tidy σ (d.decl scope id)

namespace Tidy

variable {σ : Setting}

theorem splice {id : ExprId} : Tidy σ (Lower.splice id) :=
  expr.bind fun _ => by split <;> exact pure

theorem blockType : Tidy σ (Lower.blockType statements) := by
  unfold Lower.blockType
  split
  next => exact exprType
  next => exact convert

theorem block : Tidy σ (Lower.block statements) :=
  blockType.bind fun _ => addExpr

theorem annotationEntries : Tidy σ (Lower.annotationEntries nodes) :=
  Tidy.bind (mapM fun _ => facts.bind fun _ => required.bind fun _ => annotationCall) fun _ => pure

theorem hold : Tidy σ (Lower.Temporary.hold name value) :=
  Pays.fresh fun _ => exprType.bind fun _ => (Pays.declare (by decide)).bind fun _ => pure

theorem readTemporary {t : Lower.Temporary} : Tidy σ t.read := addExpr

theorem keepArgument : Tidy σ (Lower.keepArgument value) :=
  expr.bind fun _ => by
    split
    next => exact pure
    next => exact hold.bind fun _ => readTemporary.bind fun _ => pure

theorem fillSlot : Tidy σ (Lower.fillSlot slots index value) := by
  unfold Lower.fillSlot
  split
  next => exact pure
  next => exact throw

theorem varargType : Tidy σ (Lower.varargType parameter) := by
  cases parameter with
  | none => exact convert
  | some parameter => exact descriptor.bind fun _ => convert

theorem withPrelude {before : List Statement} {expr : ExprId} :
    Tidy σ (Lower.withPrelude before expr) := by
  unfold Lower.withPrelude
  split
  next => exact pure
  next => exact block

theorem indexedGet {id : NodeId} : Tidy σ (Lower.indexedGet id) := facts.bind fun _ => required

theorem indexedSet {id : NodeId} : Tidy σ (Lower.indexedSet id) := facts.bind fun _ => required

variable {d : Descent} (hd : d.Tidy σ)

include hd

section block

theorem lowerOptional {scope : Scope} {node : Option NodeId} {what : String} :
    Tidy σ (Lower.lowerOptional d scope node what) := by
  cases node with
  | none => exact malformed
  | some node => exact hd.expr scope node

theorem lowerStatements : Tidy σ (Lower.lowerStatements d scope nodes) :=
  Tidy.bind (mapM fun node => (hd.expr scope node).bind fun _ => splice) fun _ => pure

theorem lowerBlock {scope : Scope} {node : NodeId} {statements : List NodeId} :
    Tidy σ (Lower.lowerBlock d scope node statements) :=
  (lowerStatements hd).bind fun _ => facts.bind fun _ => by
    split
    next => exact convert.bind fun _ => addExpr
    next => exact block

theorem lowerBody : Tidy σ (Lower.lowerBody d scope body) := by
  cases body with
  | none => exact block
  | some body =>
    refine node.bind fun _ => ?_
    split
    next => exact lowerBlock hd
    next => exact (hd.expr scope body).bind fun _ => splice.bind fun _ => block

end block

section call

variable {scope : Scope}

theorem receiverExpr : Tidy σ (Lower.receiverExpr d scope receiver explicit) := by
  cases receiver with
  | expression node =>
    cases explicit with
    | none => exact (hd.expr scope node).bind fun _ => pure
    | some expr => exact pure
  | implicitThis _ _ =>
    exact descriptor.bind fun _ => convert.bind fun _ => addExpr.bind fun _ => pure
  | extensionThis _ _ =>
    exact descriptor.bind fun _ => convert.bind fun _ => addExpr.bind fun _ => pure
  | superOf _ => exact convert.bind fun _ => addExpr.bind fun _ => pure
  | classValue _ _ =>
    exact (symbolOf (by decide)).bind fun _ => convert.bind fun _ => addExpr.bind fun _ => pure

theorem optionalReceiver : Tidy σ (Lower.optionalReceiver d scope receiver explicit) := by
  cases receiver with
  | none => exact pure
  | some receiver => exact (receiverExpr hd).bind fun _ => pure

theorem buildAccess : Tidy σ (Lower.buildAccess d scope call explicit) :=
  symbolFor.bind fun _ => (optionalReceiver hd).bind fun ⟨_, _⟩ =>
    (optionalReceiver hd).bind fun ⟨_, explicit⟩ => convertAll.bind fun _ => by
      cases explicit with
      | none => exact pure
      | some _ =>
        dsimp only
        split <;> exact pure

theorem lowerElement : Tidy σ (Lower.lowerElement d scope element) :=
  (hd.expr scope element.node).bind fun _ => by
    split
    next => exact exprType.bind fun _ => addExpr
    next => exact pure

theorem lowerVararg : Tidy σ (Lower.lowerVararg d scope elements parameter) := by
  unfold Lower.lowerVararg
  split
  next => exact pure
  next =>
    exact Tidy.bind (mapM fun _ => lowerElement hd) fun _ => varargType.bind fun _ =>
      addExpr.bind fun _ => pure

theorem lowerArgument : Tidy σ (Lower.lowerArgument d scope argument parameter) := by
  cases argument with
  | omitted => exact pure
  | expression node => exact (hd.expr scope node).bind fun _ => pure
  | vararg _ => exact lowerVararg hd

theorem placeArgument :
    Tidy σ (Lower.placeArgument d scope call parameters reorder built index) := by
  unfold Lower.placeArgument
  split
  next => exact pure
  next =>
    refine (lowerArgument hd).bind fun value => ?_
    cases value with
    | none => exact fillSlot.bind fun _ => pure
    | some value =>
      dsimp only
      split
      next => exact keepArgument.bind fun _ => fillSlot.bind fun _ => pure
      next => exact fillSlot.bind fun _ => pure

theorem lowerArguments : Tidy σ (Lower.lowerArguments d scope call) :=
  descriptor.bind fun _ => read_bind (fun _ => rfl) (foldlM fun _ _ => placeArgument hd)

theorem callArguments : Tidy σ (Lower.callArguments d scope call arguments) := by
  cases arguments with
  | none => exact lowerArguments hd
  | some arguments => exact pure

theorem buildCall : Tidy σ (Lower.buildCall d scope call type parts) :=
  (buildAccess hd).bind fun _ => descriptor.bind fun _ => by
    split
    next => exact addExpr
    next => exact (callArguments hd).bind fun ⟨_, _⟩ => addExpr.bind fun _ => withPrelude

theorem callOn : Tidy σ (Lower.callOn d scope call type receiver arguments) := buildCall hd

theorem lowerSelector {id : NodeId} : Tidy σ (Lower.lowerSelector d scope id parts) :=
  expressionType.bind fun _ => facts.bind fun _ => node.bind fun _ => by
    split
    next => exact descriptor.bind fun _ => buildCall hd
    next => exact buildCall hd
    next => exact required.bind fun _ => symbolFor.bind fun _ => addExpr
    next => exact required
    next => exact unexpected

theorem safeReceiver : Tidy σ (Lower.safeReceiver d scope receiver) :=
  (hd.expr scope receiver).bind fun _ => exprType.bind fun _ => addExpr.bind fun _ => pure

theorem lowerDelegationCall {id : NodeId} : Tidy σ (Lower.lowerDelegationCall d scope id) :=
  node.bind fun _ => by
    split
    next =>
      exact facts.bind fun _ => required.bind fun _ => (symbolOf (by decide)).bind fun _ =>
        (lowerArguments hd).bind fun ⟨_, _⟩ => convert.bind fun _ => addExpr.bind fun _ =>
          withPrelude
    next => exact unexpected

end call

section template

variable {scope : Scope}

theorem lowerEntry : Tidy σ (Lower.lowerEntry d scope entry) := by
  cases entry with
  | literal _ => exact pure
  | escape _ => exact pure
  | expression node =>
    refine (hd.expr scope node).bind fun _ => expr.bind fun _ => ?_
    split <;> exact pure

omit hd in
theorem pendingLiteral : Tidy σ (Lower.pendingLiteral type text) := by
  unfold Lower.pendingLiteral
  split
  next => exact pure
  next => exact Tidy.bind addExpr fun _ => pure

theorem lowerEntries : Tidy σ (Lower.lowerEntries d scope string entries parts text) := by
  induction entries generalizing parts text with
  | nil => exact pure
  | cons entry rest ih =>
    refine (lowerEntry hd).bind fun piece => ?_
    cases piece with
    | text _ => exact ih
    | value _ => exact pendingLiteral.bind fun _ => ih

omit hd in
theorem concatenate : Tidy σ (Lower.lowerTemplate.concatenate string parts) :=
  (symbolOf (by decide)).bind fun _ => Tidy.bind (mapM fun _ => expr.bind fun _ => by
    split
    next => exact pure
    next => exact addExpr) fun _ => addExpr

theorem lowerTemplate : Tidy σ (Lower.lowerTemplate d scope entries) :=
  Tidy.bind convert fun _ => (lowerEntries hd).bind fun ⟨_, _⟩ => by
    dsimp only
    split
    next => exact addExpr
    next =>
      refine pendingLiteral.bind fun _ => ?_
      split
      next =>
        refine exprType.bind fun _ => ?_
        split
        next => exact pure
        next => exact concatenate
      next => exact concatenate

end template

section place

variable {scope : Scope}

theorem assignedAccess : Tidy σ (Lower.assignedAccess d scope name receiver) :=
  facts.bind fun _ => by
    split
    next => exact buildAccess hd
    next => exact required.bind fun _ => symbolFor.bind fun _ => pure

theorem assignName : Tidy σ (Lower.assignName d scope name value receiver) :=
  (assignedAccess hd).bind fun _ => Tidy.bind convert fun _ => addExpr

theorem assignTo : Tidy σ (Lower.assignTo d scope target value) :=
  node.bind fun _ => by
    split
    next => exact assignName hd
    next => exact deparenthesize.bind fun _ => assignName hd
    next =>
      exact (safeReceiver hd).bind fun ⟨_, _⟩ => deparenthesize.bind fun _ =>
        (assignName hd).bind fun _ => Tidy.bind convert fun _ => addExpr
    next =>
      exact indexedSet.bind fun _ => Tidy.bind (mapM fun index => hd.expr scope index) fun _ =>
        Tidy.bind convert fun _ => buildCall hd
    next => exact malformed

theorem captureIndexed {node array : NodeId} {indices : List NodeId} :
    Tidy σ (Lower.Place.captureIndexed d scope node array indices) :=
  (hd.expr scope array).bind fun _ => hold.bind fun _ =>
    Tidy.bind (mapM fun ⟨index, _⟩ => (hd.expr scope index).bind fun _ => hold) fun _ => pure

theorem capture : Tidy σ (Lower.Place.capture d scope target) :=
  node.bind fun _ => by
    split
    next => exact pure
    next =>
      exact (hd.expr scope _).bind fun _ => hold.bind fun _ => deparenthesize.bind fun _ => pure
    next => exact captureIndexed hd
    next => exact pure

theorem readPlace {place : Lower.Place} : Tidy σ (place.read d scope) := by
  cases place with
  | name node => exact hd.expr scope node
  | other node => exact hd.expr scope node
  | member _ _ => exact readTemporary.bind fun _ => lowerSelector hd
  | indexed _ _ _ =>
    exact indexedGet.bind fun _ => readTemporary.bind fun _ =>
      Tidy.bind (mapM fun _ => readTemporary) fun _ => convert.bind fun _ => callOn hd

theorem storePlace {place : Lower.Place} : Tidy σ (place.store d scope value) := by
  cases place with
  | name _ => exact assignTo hd
  | other _ => exact assignTo hd
  | member _ _ => exact readTemporary.bind fun _ => assignName hd
  | indexed _ _ _ =>
    exact indexedSet.bind fun _ => readTemporary.bind fun _ =>
      Tidy.bind (mapM fun _ => readTemporary) fun _ => Tidy.bind convert fun _ => callOn hd

end place

section operator

variable {scope : Scope}

omit hd in
theorem lowerConstant {id : NodeId} : Tidy σ (Lower.lowerConstant id) :=
  facts.bind fun _ => required.bind fun _ => constant.bind fun _ => by
    split
    next => exact pure
    next => exact malformed

end operator

section branch

variable {scope : Scope}

theorem ifBranches {id : NodeId} : Tidy σ (Lower.ifBranches d scope fuel id) := by
  induction fuel generalizing id with
  | zero => exact throw
  | succ fuel ih =>
    refine node.bind fun _ => ?_
    split
    next =>
      refine (lowerOptional hd).bind fun _ => (lowerBody hd).bind fun _ => ?_
      split
      next => exact pure
      next =>
        refine deparenthesize.bind fun _ => node.bind fun _ => ?_
        split
        next => exact ih.bind fun _ => pure
        next => exact (lowerBody hd).bind fun _ => pure
    next => exact unexpected

theorem plainCondition : Tidy σ (Lower.plainCondition d scope condition) := by
  cases condition with
  | expression node => exact lowerOptional hd
  | inRange _ _ => exact malformed
  | isPattern _ _ => exact malformed

theorem subjectCondition :
    Tidy σ (Lower.subjectCondition d scope whenRef subjectType condition) := by
  refine addExpr.bind fun _ => Tidy.bind convert fun _ => ?_
  cases condition with
  | expression node => exact (lowerOptional hd).bind fun _ => addExpr
  | inRange range negated =>
    refine facts.bind fun _ => required.bind fun _ => (buildCall hd).bind fun _ => ?_
    split
    next => exact addExpr
    next => exact pure
  | isPattern typeRef negated => exact writtenType.bind fun _ => addExpr

theorem lowerSubject : Tidy σ (Lower.lowerSubject d scope subject) := by
  cases subject with
  | none => exact pure
  | some subject =>
    cases subject with
    | expression node => exact (hd.expr scope node).bind fun _ => exprType.bind fun _ => pure
    | declaration property =>
      exact (hd.decl scope property).bind fun _ => declaredType.bind fun _ => pure

omit hd in
theorem joinConditions (hlower : ∀ c, Tidy σ (lower c)) {joined : Option ExprId}
    {conditions : List WhenCondition} :
    Tidy σ (Lower.joinConditions lower joined conditions) := by
  induction conditions generalizing joined with
  | nil => cases joined <;> exact pure
  | cons condition rest ih =>
    cases joined with
    | none => exact (hlower condition).bind fun _ => ih
    | some joined =>
      exact (hlower condition).bind fun _ => Tidy.bind convert fun _ => addExpr.bind fun _ => ih

theorem lowerWhenEntry (hlower : ∀ c, Tidy σ (lower c)) {entry : WhenEntry} :
    Tidy σ (Lower.lowerWhenEntry d scope lower entry) := by
  refine (lowerOptional hd).bind fun _ => ?_
  split
  next => exact pure
  next =>
    refine (joinConditions hlower).bind fun condition => ?_
    cases condition with
    | none => exact malformed.bind fun _ => pure
    | some condition => exact pure

end branch

section jump

variable {scope : Scope}

omit hd in
theorem found {α : Type} {result : Except LowerError α} : Tidy σ (Lower.found result) := by
  cases result with
  | ok a => exact pure
  | error e => exact throw

end jump

end Tidy

end TypedTree
