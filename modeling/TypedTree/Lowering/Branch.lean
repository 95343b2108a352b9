import TypedTree.Lowering.Operator

namespace TypedTree.Lower

/-- The branches of a chain of at most `fuel` conditionals: one for each, and one more for what
stands after the last. -/
def ifBranches (d : Descent) (scope : Scope) : Nat → NodeId → Lower (List WhenBranch)
  | 0, _ => throw .endless
  | fuel + 1, id => do
    match (← node id).kind with
    | .ifElse condition thenBranch elseBranch =>
      let condition ← lowerOptional d scope condition "condition"
      let result ← lowerBody d scope thenBranch
      match elseBranch with
      | none => return [⟨some condition, result⟩]
      | some otherwise =>
        let otherwise ← deparenthesize otherwise
        match (← node otherwise).kind with
        | .ifElse _ _ _ =>
          return ⟨some condition, result⟩ :: (← ifBranches d scope fuel otherwise)
        | _ => return [⟨some condition, result⟩, ⟨none, ← lowerBody d scope (some otherwise)⟩]
    | _ => unexpected id "if"

/-- A chain of conditionals is one choice without a subject. A chain that goes round a third time
never ends. -/
def lowerIf (d : Descent) (scope : Scope) (id : NodeId) : Lower ExprId := do
  let branches ← ifBranches d scope (3 * (← read).world.tree.nodes.size + 3) id
  addExpr (← expressionType id) (.choice none none none branches)

def plainCondition (d : Descent) (scope : Scope) : WhenCondition → Lower ExprId
  | .expression node => lowerOptional d scope node "condition"
  | .inRange _ _ | .isPattern _ _ =>
    malformed .malformed "`in` and `is` conditions need a `when` subject"

def subjectCondition (d : Descent) (scope : Scope) (whenRef : WhenRefId) (subjectType : TreeType)
    (condition : WhenCondition) : Lower ExprId := do
  let subject ← addExpr subjectType (.whenSubject whenRef)
  let boolean ← booleanType
  match condition with
  | .expression node =>
    let value ← lowerOptional d scope node "condition"
    addExpr boolean (.intrinsic .equals [subject, value])
  | .inRange range negated =>
    let contains ← required (← facts range).contains "`contains` call" range
    let call ← buildCall d scope contains boolean ⟨none, some [some subject]⟩
    if negated then addExpr boolean (.intrinsic .not [call]) else return call
  | .isPattern typeRef negated =>
    let operand ← writtenType typeRef
    addExpr boolean (.typeOperation (typeTest negated) subject operand)

/-- The subject of a choice: its value or its variable, and the type of either. -/
structure Subject where
  value : Option ExprId
  declaration : Option DeclId
  type : Option TreeType

def lowerSubject (d : Descent) (scope : Scope) : Option WhenSubject → Lower Subject
  | none => return ⟨none, none, none⟩
  | some (.expression node) => do
    let value ← d.expr scope node
    return ⟨some value, none, some (← exprType value)⟩
  | some (.declaration property) => do
    let decl ← d.decl scope property
    return ⟨none, some decl, ← declaredType decl⟩

/-- The conditions of one entry, joined from the left by a lazy or. -/
def joinConditions (lower : WhenCondition → Lower ExprId) :
    Option ExprId → List WhenCondition → Lower (Option ExprId)
  | joined, [] => return joined
  | none, condition :: rest => do joinConditions lower (some (← lower condition)) rest
  | some joined, condition :: rest => do
    let next ← lower condition
    let both ← addExpr (← booleanType) (.intrinsic .lazyOr [joined, next])
    joinConditions lower (some both) rest

/-- The branch of an entry. Its result is lowered before its conditions. -/
def lowerWhenEntry (d : Descent) (scope : Scope) (lower : WhenCondition → Lower ExprId)
    (entry : WhenEntry) : Lower WhenBranch := do
  let result ← lowerOptional d scope entry.body "branch result"
  if entry.isElse then return ⟨none, result⟩
  else
    match ← joinConditions lower none entry.conditions with
    | some condition => return ⟨some condition, result⟩
    | none => return ⟨some (← malformed .expressionRequired "expected condition"), result⟩

/-- A choice. The reference to its subject exists before the branches that use it. -/
def lowerWhen (d : Descent) (scope : Scope) (id : NodeId) (subject : Option WhenSubject)
    (entries : List WhenEntry) : Lower ExprId := do
  let subject ← lowerSubject d scope subject
  match subject.type with
  | none =>
    let branches ← entries.mapM (lowerWhenEntry d scope (plainCondition d scope))
    addExpr (← expressionType id) (.choice none subject.value subject.declaration branches)
  | some type =>
    let whenRef ← newWhenRef
    let branches ← entries.mapM (lowerWhenEntry d scope (subjectCondition d scope whenRef type))
    addChoice whenRef (← expressionType id)
      (.choice (some whenRef) subject.value subject.declaration branches)

end TypedTree.Lower
