import TypedTree.Lowering.Branch
import TypedTree.Lowering.Class
import TypedTree.Lowering.Jump
import TypedTree.Lowering.Loop
import TypedTree.Lowering.Template

namespace TypedTree.Lower

/-- A declaration, once the nodes inside it can be lowered. -/
def declarationStep (d : Descent) (scope : Scope) (id : NodeId) : Lower DeclId := do
  match (← node id).kind with
  | .classDecl _ => lowerClass d id
  | .enumEntry _ declarations annotations => lowerEnumEntry d id declarations annotations
  | .function _ => lowerFunction d scope id none
  | .property node => lowerProperty d scope id node
  | .typeAlias _ typeParameters annotations => lowerTypeAlias id typeParameters annotations
  | .secondaryConstructor _ _ _ _ => lowerConstructor d scope id none
  | .initializer body annotations => lowerInitializer d scope body annotations
  | _ => unexpected id "declaration"

def lowerCatch (d : Descent) (scope : Scope) (clause : CatchClause) : Lower Catch := do
  let parameter ← lowerValueParameter d scope clause.parameter
  return ⟨parameter, ← lowerBody d scope (some clause.body)⟩

def lowerTry (d : Descent) (scope : Scope) (id body : NodeId) (catches : List CatchClause)
    (finalizer : Option NodeId) : Lower ExprId := do
  let body ← lowerBody d scope (some body)
  let catches ← catches.mapM (lowerCatch d scope)
  let finalizer ← finalizer.mapM fun body => lowerBody d scope (some body)
  addExpr (← expressionType id) (.tryCatch body catches finalizer)

/-- A labelled expression. Only functions and loops take the label up. -/
def lowerLabeled (d : Descent) (scope : Scope) (label : Name) (body : NodeId) : Lower ExprId := do
  let inner ← deparenthesize body
  match (← node inner).kind with
  | .lambda parameters body => lowerLambda d scope inner parameters body (some label)
  | .function { name := none, .. } => lowerAnonymousFunction d scope inner (some label)
  | .whileLoop condition body => lowerWhile d scope condition body (some label)
  | .doWhile body condition => lowerDoWhile d scope body condition (some label)
  | .forLoop parameter range body => lowerFor d scope inner parameter range body (some label)
  | _ => d.expr scope body

/-- An expression, once the nodes inside it can be lowered. A declaration among expressions is a
block of its own. -/
def expressionStep (d : Descent) (scope : Scope) (id : NodeId) : Lower ExprId := do
  match (← node id).kind with
  | .classDecl _ | .property _ | .typeAlias _ _ _ | .function { name := some _, .. } =>
    block [.declaration (← declarationStep d scope id)]
  | .function { name := none, .. } => lowerAnonymousFunction d scope id none
  | .destructuring entries initializer => lowerDestructuring d scope entries initializer
  | .constant => lowerConstant id
  | .template entries => lowerTemplate d scope entries
  | .nameReference _ | .call _ _ => lowerSelector d scope id {}
  | .qualified receiver selector safe => lowerQualified d scope id receiver selector safe
  | .arrayAccess _ _ => lowerArrayAccess d scope id
  | .unary op operand prefixed => lowerUnary d scope id op operand prefixed
  | .binary op left right => lowerBinary d scope id op left right
  | .typeCheck expression typeRef negated => lowerTypeCheck d scope expression typeRef negated
  | .cast expression typeRef safe => lowerCast d scope id expression typeRef safe
  | .ifElse _ _ _ => lowerIf d scope id
  | .whenCases subject entries => lowerWhen d scope id subject entries
  | .whileLoop condition body => lowerWhile d scope condition body none
  | .doWhile body condition => lowerDoWhile d scope body condition none
  | .forLoop parameter range body => lowerFor d scope id parameter range body none
  | .breakJump label => lowerBreak scope id label
  | .continueJump label => lowerContinue scope id label
  | .returnJump label value => lowerReturn d scope id label value
  | .labeled label body => lowerLabeled d scope label body
  | .throwing exception => lowerThrow d scope exception
  | .tryCatch body catches finalizer => lowerTry d scope id body catches finalizer
  | .lambda parameters body => lowerLambda d scope id parameters body none
  | .objectLiteral declaration => lowerObjectLiteral d id declaration
  | .block statements => lowerBlock d scope id statements
  | .parenthesized inner => d.expr scope inner
  | .thisRef label => addExpr (← expressionType id) (.thisRef label)
  | .superRef _ => malformed .superNotAllowed "`super` is only allowed as a receiver"
  | .classLiteral receiver => lowerClassLiteral id receiver
  | .callableReference _ callee => lowerCallableReference d scope id callee
  | .annotated annotations base => lowerAnnotated d scope annotations base
  | .malformed message => malformed .malformed message
  | .enumEntry _ _ _ | .primaryConstructor _ _ | .secondaryConstructor _ _ _ _
  | .delegationCall _ _ | .accessor _ _ _ _ | .initializer _ _ | .typeParameter _ _
  | .parameter _ | .destructuringEntry _ | .annotationEntry | .typeReference =>
    unexpected id "expression"

/-- Lowers nodes that are nested at most `fuel` deep. -/
def descent : Nat → Descent
  | 0 => ⟨fun _ _ => throw .endless, fun _ _ => throw .endless⟩
  | fuel + 1 =>
    ⟨fun scope id => expressionStep (descent fuel) scope id,
      fun scope id => declarationStep (descent fuel) scope id⟩

/-- A chain of nested nodes that is longer than the tree goes round in a circle, and a few rounds
show whether it ends in an error. -/
def depthOf (w : World) : Nat := 8 * w.tree.nodes.size + 8

def lowerExpression (scope : Scope) (id : NodeId) : Lower ExprId := do
  (descent (depthOf (← read).world)).expr scope id

def lowerDeclaration (scope : Scope) (id : NodeId) : Lower DeclId := do
  (descent (depthOf (← read).world)).decl scope id

/-- A source file: its annotations, and its declarations in order. -/
def lowerFile (file : SourceFile) : Lower TreeFile := do
  let annotations ← annotationEntries file.annotations
  let declarations ← file.declarations.mapM (lowerDeclaration .root)
  return ⟨file.name, file.package, annotations, declarations⟩

end TypedTree.Lower
