import TypedTree.Proofs.Helper.Declaration

namespace TypedTree

open Lower

/-- Work that makes an expression. What comes out reads nothing but what stands for a descriptor. -/
inductive Forms (σ : Setting) : Lower ExprId → Prop
  | throw {e : LowerError} : Forms σ (MonadExcept.throw e)
  | addExpr {type kind} : (∀ access, kind ≠ .read access) → Forms σ (Lower.addExpr type kind)
  | reads {desc type receiver} : Forms σ (do
      let symbol ← symbolFor desc
      Lower.addExpr type (.read ⟨symbol, receiver, none, []⟩))
  | buildCall {d : Descent} {scope call type parts} : d.Tidy σ →
      Forms σ (Lower.buildCall d scope call type parts)
  | lowerConstant {id} : Forms σ (Lower.lowerConstant id)
  | lowerTemplate {d : Descent} {scope entries} : d.Tidy σ →
      (∀ scope id, Forms σ (d.expr scope id)) → Forms σ (Lower.lowerTemplate d scope entries)
  /-- What is made last counts. -/
  | after {α : Type} {m : Lower α} {k : α → Lower ExprId} : Tidy σ m → (∀ a, Forms σ (k a)) →
      Forms σ (m >>= k)
  /-- What is made first counts, if it is given back. -/
  | before {α : Type} {m : Lower ExprId} {k : ExprId → Lower α} : Forms σ m →
      (∀ e, Tidy σ (k e)) → Forms σ (do let e ← m; let _ ← k e; return e)
  | keepUnless {c : Bool} {m : Lower ExprId} {k : ExprId → Lower ExprId} : Forms σ m →
      (∀ e, Forms σ (k e)) → Forms σ (do let e ← m; if c then k e else return e)
  | read_bind {k : Setting → Lower ExprId} : (∀ v, k (σ.withVerify v) = k σ) → Forms σ (k σ) →
      Forms σ (read >>= k)

/-- A descent into the parts of a node that makes such expressions. -/
structure Descent.Forms (σ : Setting) (d : Descent) : Prop where
  tidy : d.Tidy σ
  expr : ∀ scope id, TypedTree.Forms σ (d.expr scope id)

namespace Forms

variable {σ : Setting} {scope : Scope} {id : NodeId}

theorem tidy (h : Forms σ m) : Tidy σ m := by
  induction h with
  | throw => exact .throw
  | addExpr _ => exact .addExpr
  | reads => exact Tidy.symbolFor.bind fun _ => Tidy.addExpr
  | buildCall hd => exact .buildCall hd
  | lowerConstant => exact .lowerConstant
  | lowerTemplate hd _ _ => exact .lowerTemplate hd
  | after h _ ih => exact h.bind ih
  | before _ hk ih => exact ih.bind fun e => (hk e).bind fun _ => Tidy.pure
  | keepUnless _ _ ih ihk =>
    refine ih.bind fun e => ?_
    split
    next => exact ihk e
    next => exact Tidy.pure
  | read_bind hv _ ih => exact .read_bind hv ih

theorem unexpected : Forms σ (Lower.unexpected id what) :=
  after Tidy.node fun _ => throw

theorem required : Forms σ (Lower.required none what id) :=
  after Tidy.node fun _ => throw

theorem unexpectedDeclaration : Forms σ (Lower.unexpectedDeclaration d what) := throw

theorem malformed : Forms σ (Lower.malformed kind message) :=
  after Tidy.convert fun _ => addExpr nofun

theorem block : Forms σ (Lower.block statements) :=
  after Tidy.blockType fun _ => addExpr nofun

theorem addLoop (h : ∀ access, kind ≠ .read access) :
    Forms σ (Lower.addLoop target type kind) :=
  before (addExpr h) fun _ => Builds.bindLoopTarget

theorem addChoice (h : ∀ access, kind ≠ .read access) :
    Forms σ (Lower.addChoice whenRef type kind) :=
  before (addExpr h) fun _ => Builds.bindWhenRef

theorem lowerClassLiteral : Forms σ (Lower.lowerClassLiteral id receiver) := by
  refine after ?_ fun _ => after Tidy.expressionType fun _ => addExpr nofun
  refine Tidy.facts.bind fun _ => ?_
  split
  next => exact Tidy.symbolFor
  next => exact Tidy.convert.bind fun _ => Tidy.pure
  next => exact Tidy.expressionType.bind fun _ => Tidy.pure

theorem lowerBreak : Forms σ (Lower.lowerBreak scope id label) :=
  after Tidy.node fun _ => after Tidy.get fun _ => after Tidy.found fun _ =>
    after Tidy.convert fun _ => addExpr nofun

theorem lowerContinue : Forms σ (Lower.lowerContinue scope id label) :=
  after Tidy.node fun _ => after Tidy.get fun _ => after Tidy.found fun _ =>
    after Tidy.convert fun _ => addExpr nofun

section descent

variable {d : Descent} (hd : d.Forms σ)

include hd

section call

theorem lowerBlock {node : NodeId} {statements : List NodeId} :
    Forms σ (Lower.lowerBlock d scope node statements) := by
  refine after (Tidy.lowerStatements hd.tidy) fun _ => after Tidy.facts fun facts => ?_
  cases facts.type with
  | none => exact block
  | some type => exact after Tidy.convert fun _ => addExpr nofun

theorem lowerSelector : Forms σ (Lower.lowerSelector d scope id parts) := by
  refine after Tidy.expressionType fun _ => after Tidy.facts fun _ => after Tidy.node fun _ => ?_
  split
  next => exact after Tidy.descriptor fun _ => buildCall hd.tidy
  next => exact buildCall hd.tidy
  next => exact after Tidy.required fun _ => reads
  next => exact required
  next => exact unexpected

theorem lowerQualified :
    Forms σ (Lower.lowerQualified d scope id receiver selector safe) := by
  refine after Tidy.deparenthesize fun _ => ?_
  split
  next =>
    exact after (Tidy.safeReceiver hd.tidy) fun ⟨_, _⟩ => after (Tidy.lowerSelector hd.tidy)
      fun _ => after Tidy.expressionType fun _ => addExpr nofun
  next => exact lowerSelector hd

theorem lowerArrayAccess : Forms σ (Lower.lowerArrayAccess d scope id) :=
  after Tidy.indexedGet fun _ => after Tidy.expressionType fun _ => buildCall hd.tidy

end call

section place

theorem assignName : Forms σ (Lower.assignName d scope name value receiver) :=
  after (Tidy.assignedAccess hd.tidy) fun _ => after Tidy.convert fun _ => addExpr nofun

theorem assignTo : Forms σ (Lower.assignTo d scope target value) := by
  refine after Tidy.node fun _ => ?_
  split
  next => exact assignName hd
  next => exact after Tidy.deparenthesize fun _ => assignName hd
  next =>
    exact after (Tidy.safeReceiver hd.tidy) fun ⟨_, _⟩ => after Tidy.deparenthesize fun _ =>
      after (Tidy.assignName hd.tidy) fun _ => after Tidy.convert fun _ => addExpr nofun
  next =>
    exact after Tidy.indexedSet fun _ => after (Tidy.mapM fun index => hd.tidy.expr scope index)
      fun _ => after Tidy.convert fun _ => buildCall hd.tidy
  next => exact malformed

theorem lowerIndexedUpdate :
    Forms σ (Lower.lowerIndexedUpdate d scope id access array indices right) :=
  after Tidy.facts fun _ => after Tidy.required fun _ =>
    after (Tidy.captureIndexed hd.tidy) fun ⟨_, _⟩ => after (Tidy.readPlace hd.tidy) fun _ =>
      after (Tidy.lowerOptional hd.tidy) fun _ => after Tidy.convert fun _ =>
        after (Tidy.callOn hd.tidy) fun _ => after (Tidy.storePlace hd.tidy) fun _ => block

theorem lowerAssignment :
    Forms σ (Lower.lowerAssignment d scope id op left right) := by
  refine after Tidy.facts fun _ => ?_
  split
  next => exact after Tidy.required fun _ => after Tidy.convert fun _ => buildCall hd.tidy
  next =>
    refine after Tidy.deparenthesize fun _ => after Tidy.node fun _ => ?_
    split
    next => exact after (Tidy.lowerOptional hd.tidy) fun _ => assignTo hd
    next => exact lowerIndexedUpdate hd
    next =>
      exact after Tidy.required fun _ => after Tidy.convert fun _ =>
        after (Tidy.buildCall hd.tidy) fun _ => assignTo hd

theorem lowerIncrement :
    Forms σ (Lower.lowerIncrement d scope id operand prefixed) := by
  refine after Tidy.deparenthesize fun _ => after Tidy.facts fun _ => after Tidy.required fun _ =>
    after (Tidy.capture hd.tidy) fun ⟨_, _⟩ => after (Tidy.readPlace hd.tidy) fun _ =>
      after Tidy.hold fun _ => after Tidy.readTemporary fun _ => after Tidy.convert fun _ =>
        after (Tidy.callOn hd.tidy) fun _ => ?_
  split
  next => exact after (Tidy.storePlace hd.tidy) fun _ => after Tidy.readTemporary fun _ => block
  next =>
    split
    next =>
      exact after (Tidy.storePlace hd.tidy) fun _ => after (Tidy.readPlace hd.tidy) fun _ => block
    next =>
      exact after Tidy.hold fun _ => after Tidy.readTemporary fun _ =>
        after (Tidy.storePlace hd.tidy) fun _ => after Tidy.readTemporary fun _ => block

end place

section operator

theorem lowerUnary :
    Forms σ (Lower.lowerUnary d scope id op operand prefixed) := by
  cases op with
  | increment => exact lowerIncrement hd
  | decrement => exact lowerIncrement hd
  | notNull =>
    exact after (hd.tidy.expr scope operand) fun _ => after Tidy.expressionType fun _ =>
      addExpr nofun
  | not =>
    refine after Tidy.expressionType fun _ => after Tidy.facts fun fact => ?_
    cases fact.call with
    | some call => exact buildCall hd.tidy
    | none => exact after (hd.tidy.expr scope operand) fun _ => addExpr nofun
  | minus | plus =>
    refine after Tidy.expressionType fun _ => after Tidy.facts fun fact => ?_
    cases fact.call with
    | some call => exact buildCall hd.tidy
    | none => exact required

theorem lowerMembership : Forms σ (Lower.lowerMembership d scope id negated) :=
  after Tidy.facts fun _ => after Tidy.required fun _ => after Tidy.convert fun _ =>
    keepUnless (buildCall hd.tidy) fun _ => addExpr nofun

theorem lowerBinary : Forms σ (Lower.lowerBinary d scope id op left right) := by
  unfold Lower.lowerBinary
  split
  next => exact lowerAssignment hd
  next =>
    split
    next =>
      exact after (hd.tidy.expr scope left) fun _ => after (Tidy.lowerOptional hd.tidy) fun _ =>
        after Tidy.convert fun _ => addExpr nofun
    next =>
      exact after (hd.tidy.expr scope left) fun _ => after (Tidy.lowerOptional hd.tidy) fun _ =>
        after Tidy.expressionType fun _ => addExpr nofun
    next => exact lowerMembership hd
    next => exact lowerMembership hd
    next =>
      exact after Tidy.facts fun _ => after Tidy.required fun _ => after Tidy.expressionType
        fun _ => buildCall hd.tidy

theorem lowerTypeCheck : Forms σ (Lower.lowerTypeCheck d scope expression typeRef negated) :=
  after (hd.tidy.expr scope expression) fun _ => after Tidy.writtenType fun _ =>
    after Tidy.convert fun _ => addExpr nofun

theorem lowerCast :
    Forms σ (Lower.lowerCast d scope id expression typeRef safe) :=
  after (hd.tidy.expr scope expression) fun _ => after Tidy.writtenType fun _ =>
    after Tidy.expressionType fun _ => addExpr nofun

theorem lowerCallableReference :
    Forms σ (Lower.lowerCallableReference d scope id callee) :=
  after Tidy.facts fun _ => after Tidy.facts fun _ => after Tidy.required fun _ =>
    after (Tidy.buildAccess hd.tidy) fun _ => after Tidy.expressionType fun _ => addExpr nofun

theorem lowerAnnotated : Forms σ (Lower.lowerAnnotated d scope annotations base) := by
  unfold Lower.lowerAnnotated
  simpa only [bind_assoc] using before (hd.expr scope base) fun _ =>
    Tidy.annotationEntries.bind fun _ => Builds.annotateExpr

end operator

section control

theorem lowerIf : Forms σ (Lower.lowerIf d scope id) :=
  read_bind (fun _ => rfl) (after (Tidy.ifBranches hd.tidy) fun _ =>
    after Tidy.expressionType fun _ => addExpr nofun)

theorem lowerWhen : Forms σ (Lower.lowerWhen d scope id subject entries) := by
  refine after (Tidy.lowerSubject hd.tidy) fun _ => ?_
  split
  next =>
    exact after (Tidy.mapM fun _ => Tidy.lowerWhenEntry hd.tidy fun _ =>
      Tidy.plainCondition hd.tidy) fun _ => after Tidy.expressionType fun _ => addExpr nofun
  next =>
    exact after Tidy.newWhenRef fun _ => after (Tidy.mapM fun _ => Tidy.lowerWhenEntry hd.tidy
      fun _ => Tidy.subjectCondition hd.tidy) fun _ => after Tidy.expressionType fun _ =>
        addChoice nofun

theorem lowerWhile : Forms σ (Lower.lowerWhile d scope condition body label) :=
  after (Tidy.lowerOptional hd.tidy) fun _ => after Tidy.newLoopTarget fun _ =>
    after (Tidy.lowerBody hd.tidy) fun _ => after Tidy.convert fun _ => addLoop nofun

theorem lowerDoWhile : Forms σ (Lower.lowerDoWhile d scope body condition label) :=
  after Tidy.newLoopTarget fun _ => after (Tidy.lowerBody hd.tidy) fun _ =>
    after (Tidy.lowerOptional hd.tidy) fun _ => after Tidy.convert fun _ => addLoop nofun

theorem lowerFor :
    Forms σ (Lower.lowerFor d scope id parameter range body label) :=
  after Tidy.facts fun _ => after Tidy.required fun _ => after (hd.tidy.expr scope range) fun _ =>
    after Tidy.convert fun _ => after (Tidy.callOn hd.tidy) fun _ => after Tidy.hold fun _ =>
      after Tidy.readTemporary fun _ => after Tidy.convert fun _ =>
        after (Tidy.callOn hd.tidy) fun _ => after Tidy.newLoopTarget fun _ =>
          after Tidy.readTemporary fun _ => after Tidy.convert fun _ =>
            after (Tidy.callOn hd.tidy) fun _ => after (Tidy.lowerLoopParameter hd.tidy) fun _ =>
              after (Tidy.lowerBody hd.tidy) fun _ => after Tidy.splice fun _ =>
                after Tidy.block fun _ => after Tidy.convert fun _ => after Tidy.addLoop fun _ =>
                  block

theorem lowerReturn : Forms σ (Lower.lowerReturn d scope id label value) := by
  refine after Tidy.node fun _ => after Tidy.get fun _ => after Tidy.found fun _ =>
    after (m := Lower.returnedValue d scope value) ?_ fun _ => after Tidy.convert fun _ =>
      addExpr nofun
  cases value with
  | none => exact Tidy.unitValue
  | some value => exact hd.tidy.expr scope value

theorem lowerThrow : Forms σ (Lower.lowerThrow d scope exception) :=
  after (Tidy.lowerOptional hd.tidy) fun _ => after Tidy.convert fun _ => addExpr nofun

theorem lowerTry : Forms σ (Lower.lowerTry d scope id body catches finalizer) :=
  after (Tidy.lowerBody hd.tidy) fun _ =>
    after (Tidy.mapM fun _ => (Tidy.lowerValueParameter hd.tidy).bind fun _ =>
      (Tidy.lowerBody hd.tidy).bind fun _ => Tidy.pure) fun _ =>
        after (Tidy.optionMapM fun _ => Tidy.lowerBody hd.tidy) fun _ =>
          after Tidy.expressionType fun _ => addExpr nofun

end control

section callable

theorem lowerAnonymousFunction :
    Forms σ (Lower.lowerAnonymousFunction d scope id label) :=
  after (Tidy.lowerFunction hd.tidy) fun _ => after Tidy.expressionType fun _ => addExpr nofun

theorem lowerLambda :
    Forms σ (Lower.lowerLambda d scope id parameters body label) := by
  refine after Tidy.declared fun _ => after Tidy.descriptor fun _ => ?_
  split
  next => exact unexpectedDeclaration
  next =>
    exact after (Tidy.symbolOf (by decide)) fun _ => after Tidy.newFunctionTarget fun _ =>
      after Tidy.implicitParameters fun _ =>
        after (Tidy.bind (Tidy.mapM fun _ => Tidy.lowerLambdaParameter hd.tidy) fun _ =>
          Tidy.pure) fun ⟨_, _⟩ =>
            after (Tidy.lowerLambdaBody hd.tidy) fun _ => after Tidy.lambdaBlock fun _ =>
              after Tidy.convertOptional fun _ => after Tidy.convert fun _ =>
                after (Tidy.declareCallable (by decide)) fun _ => after Tidy.expressionType
                  fun _ => addExpr nofun

theorem lowerObjectLiteral {id declaration : NodeId} :
    Forms σ (Lower.lowerObjectLiteral d id declaration) :=
  after (Tidy.lowerClass hd.tidy) fun _ => after Tidy.expressionType fun _ => addExpr nofun

theorem lowerDestructuring : Forms σ (Lower.lowerDestructuring d scope entries initializer) :=
  after (Tidy.lowerOptional hd.tidy) fun _ => after Tidy.hold fun _ =>
    after (Tidy.lowerComponents hd.tidy) fun _ => block

theorem lowerLabeled : Forms σ (Lower.lowerLabeled d scope label body) := by
  refine after Tidy.deparenthesize fun _ => after Tidy.node fun _ => ?_
  split
  next => exact lowerLambda hd
  next => exact lowerAnonymousFunction hd
  next => exact lowerWhile hd
  next => exact lowerDoWhile hd
  next => exact lowerFor hd
  next => exact hd.expr scope body

end callable

theorem expressionStep : Forms σ (Lower.expressionStep d scope id) := by
  refine after Tidy.node fun node => ?_
  cases node.kind with
  | classDecl _ | property _ | typeAlias _ _ _ =>
    exact after (Tidy.declarationStep hd.tidy) fun _ => block
  | function function =>
    obtain ⟨_ | _, _, _, _, _⟩ := function
    · exact lowerAnonymousFunction hd
    · exact after (Tidy.declarationStep hd.tidy) fun _ => block
  | destructuring _ _ => exact lowerDestructuring hd
  | constant => exact lowerConstant
  | template _ => exact lowerTemplate hd.tidy hd.expr
  | nameReference _ | call _ _ => exact lowerSelector hd
  | qualified _ _ _ => exact lowerQualified hd
  | arrayAccess _ _ => exact lowerArrayAccess hd
  | unary _ _ _ => exact lowerUnary hd
  | binary _ _ _ => exact lowerBinary hd
  | typeCheck _ _ _ => exact lowerTypeCheck hd
  | cast _ _ _ => exact lowerCast hd
  | ifElse _ _ _ => exact lowerIf hd
  | whenCases _ _ => exact lowerWhen hd
  | whileLoop _ _ => exact lowerWhile hd
  | doWhile _ _ => exact lowerDoWhile hd
  | forLoop _ _ _ => exact lowerFor hd
  | breakJump _ => exact lowerBreak
  | continueJump _ => exact lowerContinue
  | returnJump _ _ => exact lowerReturn hd
  | labeled _ _ => exact lowerLabeled hd
  | throwing _ => exact lowerThrow hd
  | tryCatch _ _ _ => exact lowerTry hd
  | lambda _ _ => exact lowerLambda hd
  | objectLiteral _ => exact lowerObjectLiteral hd
  | block _ => exact lowerBlock hd
  | parenthesized inner => exact hd.expr scope inner
  | thisRef _ => exact after Tidy.expressionType fun _ => addExpr nofun
  | superRef _ => exact malformed
  | classLiteral _ => exact lowerClassLiteral
  | callableReference _ _ => exact lowerCallableReference hd
  | annotated _ _ => exact lowerAnnotated hd
  | malformed _ => exact malformed
  | _ => exact unexpected

end descent

/-- By induction on the depth: each step is tidy once what is inside of it is. -/
theorem descent : (fuel : Nat) → (Lower.descent fuel).Forms σ
  | 0 => ⟨⟨fun _ _ => .throw, fun _ _ => .throw⟩, fun _ _ => throw⟩
  | fuel + 1 =>
    have hd := descent fuel
    ⟨⟨fun _ _ => (expressionStep hd).tidy, fun _ _ => .declarationStep hd.tidy⟩,
      fun _ _ => expressionStep hd⟩

end Forms

namespace Tidy

variable {σ : Setting}

theorem descent (fuel : Nat) : (Lower.descent fuel).Tidy σ := (Forms.descent fuel).tidy

theorem lowerFile (file : SourceFile) : Tidy σ (Lower.lowerFile file) :=
  annotationEntries.bind fun _ => Tidy.bind (mapM fun id =>
    read_bind (fun _ => rfl) ((descent _).decl .root id)) fun _ => pure

end Tidy

end TypedTree
