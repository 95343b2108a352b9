import TypedTree.Proofs.Conversion
import TypedTree.Proofs.Argument.Placement

namespace TypedTree

open Lower

def Expr.expansion (e : ExprId) : Expr → List Statement
  | ⟨_, [], .block statements⟩ => statements
  | _ => [.expression e]

/-- A statement of a block once it is lowered: its value and its type, and what it adds. -/
structure Segment where
  value : ExprId
  type : TreeType
  statements : List Statement

namespace World

/-- The statements of a body: those of a block, or else the body itself. -/
def statementsOf (w : World) (body : NodeId) : List NodeId :=
  match w.tree.node? body with
  | some ⟨.block statements, _⟩ => statements
  | _ => [body]

def blockType? (w : World) (body : NodeId) : Option TypeId :=
  match w.tree.node? body with
  | some ⟨.block _, _⟩ => (w.factsOf body).type
  | _ => none

end World

namespace State

variable {σ : Setting} {s s' : State} {e : ExprId} {τ τ' : TreeType}
  {statements before : List Statement} {parts : List Segment}

def Contributes (σ : Setting) (d : Descent) (scope : Scope) (s s' : State) (node : NodeId)
    (p : Segment) : Prop :=
  ∃ s1 s2 x, s.Le s1 ∧ s1.Apt σ ∧ (d.expr scope node).runFrom σ s1 = (.ok p.value, s2) ∧
    s2.store.expr? p.value = some x ∧ p.type = x.type ∧ p.statements = x.expansion p.value ∧
    s2.Le s'

theorem Contributes.within {d : Descent} {scope : Scope} {s0 s'' : State} {node : NodeId}
    {p : Segment}
    (h : Contributes σ d scope s s' node p) (h0 : s0.Le s) (h' : s'.Le s'') :
    Contributes σ d scope s0 s'' node p := by
  obtain ⟨s1, s2, x, h1, hs1, hrun, hx, htype, hstatements, h2⟩ := h
  exact ⟨s1, s2, x, h0.trans h1, hs1, hrun, hx, htype, hstatements, h2.trans h'⟩

/-- The type of the last statement, which for a declaration and for none is the unit type. -/
def Worth (s : State) (statements : List Statement) (τ : TreeType) : Prop :=
  match statements.getLast? with
  | some (.expression last) => ∃ x, s.store.expr? last = some x ∧ x.type = τ
  | _ => s.types.lookup Builtin.unitType = some τ

theorem Worth.mono (h : s.Worth statements τ) (hle : s.Le s') : s'.Worth statements τ := by
  unfold Worth at h ⊢
  split at h
  next =>
    obtain ⟨x, hx, hτ⟩ := h
    obtain ⟨y, hy, hxy⟩ := hle.expr hx
    exact ⟨y, hy, hxy.type.trans hτ⟩
  next => exact hle.types h

theorem Worth.unique (h : s.Worth statements τ) (h' : s.Worth statements τ') : τ = τ' := by
  unfold Worth at h h'
  split at h
  next hlast =>
    obtain ⟨x, hx, rfl⟩ := h
    rw [hlast] at h'
    obtain ⟨y, hy, rfl⟩ := h'
    cases hx.symm.trans hy
    rfl
  next hlast =>
    split at h'
    next last' hlast' => exact (hlast last' hlast').elim
    next => exact Option.some.inj (h.symm.trans h')

/-- The expression is a block of these statements, and has the type of the last one. -/
def IsBlock (s : State) (e : ExprId) (statements : List Statement) (τ : TreeType) : Prop :=
  (∃ x, s.store.expr? e = some x ∧ x.kind = .block statements ∧ x.type = τ) ∧
    s.Worth statements τ

theorem IsBlock.mono (h : s.IsBlock e statements τ) (hle : s.Le s') :
    s'.IsBlock e statements τ := by
  obtain ⟨⟨x, hx, hkind, htype⟩, hworth⟩ := h
  obtain ⟨y, hy, hxy⟩ := hle.expr hx
  exact ⟨⟨y, hy, hxy.kind.trans hkind, hxy.type.trans htype⟩, hworth.mono hle⟩

/-- The block is made of what the parts add. If the last part adds something, then the block ends
as that does, and it has the type of the part just where the part has that of its own end. -/
def Splices (s : State) (before : List Statement) (parts : List Segment) (e : ExprId) : Prop :=
  ∃ τ, s.IsBlock e (before ++ parts.flatMap (·.statements)) τ ∧
    ∀ p ∈ parts.getLast?, p.statements ≠ [] →
      (before ++ parts.flatMap (·.statements)).getLast? = p.statements.getLast? ∧
        (τ = p.type ↔ s.Worth p.statements p.type)

theorem IsBlock.splices (h : s.IsBlock e (before ++ parts.flatMap (·.statements)) τ) :
    s.Splices before parts e := by
  refine ⟨τ, h, fun p hp hne => ?_⟩
  obtain ⟨earlier, rfl⟩ := List.getLast?_eq_some_iff.1 hp
  have hlast : (before ++ (earlier ++ [p]).flatMap (·.statements)).getLast? =
      p.statements.getLast? := by
    obtain ⟨init, last, hp⟩ := List.eq_nil_or_concat p.statements |>.resolve_left hne
    simp [hp, ← List.append_assoc]
  have hworth : s.Worth p.statements τ := by
    have := h.2
    unfold Worth at this ⊢
    rwa [hlast] at this
  exact ⟨hlast, fun hτ => hτ ▸ hworth, fun hown => hworth.unique hown⟩

/-- Between two states, the nodes are lowered and make up the block. Where no type is recorded for
it, it has that of its last statement. -/
def Spliced (σ : Setting) (d : Descent) (scope : Scope) (s s' : State) (nodes : List NodeId)
    (recorded : Option TypeId) (e : ExprId) : Prop :=
  ∃ parts τ, List.Forall₂ (Contributes σ d scope s s') nodes parts ∧
    s'.store.expr? e = some ⟨τ, [], .block (parts.flatMap (·.statements))⟩ ∧
    (recorded = none → s'.Worth (parts.flatMap (·.statements)) τ)

theorem Spliced.splices {d : Descent} {scope : Scope} {nodes : List NodeId}
    {recorded : Option TypeId} (h : Spliced σ d scope s s' nodes recorded e)
    (hnone : recorded = none) :
    ∃ parts, List.Forall₂ (Contributes σ d scope s s') nodes parts ∧ s'.Splices [] parts e := by
  obtain ⟨parts, τ, hparts, he, hworth⟩ := h
  have hblock : s'.IsBlock e ([] ++ parts.flatMap (·.statements)) τ :=
    ⟨⟨_, he, rfl, rfl⟩, hworth hnone⟩
  exact ⟨parts, hparts, hblock.splices⟩

/-- The expression is a lambda whose function has the body. -/
def HasBody (s : State) (e body : ExprId) : Prop :=
  ∃ decl x f, s.store.kind? e = some (.lambda decl) ∧ s.store.decl? decl = some x ∧
    x.kind = .function f ∧ f.body = some body

/-- Between two states, the parameters of a lambda are unpacked by these statements. -/
def Unpacks (σ : Setting) (d : Descent) (scope : Scope) (s s' : State) (parameters : List NodeId)
    (statements : List Statement) : Prop :=
  ∃ s1 s2 written, s.Le s1 ∧ s1.Apt σ ∧
    (lowerLambdaParameters d scope parameters).runFrom σ s1 = (.ok (written, statements), s2) ∧
    s2.Le s'

/-- The expression is a block of the unit value. -/
def IsUnit (s : State) (e : ExprId) : Prop :=
  ∃ unit τ, s.store.kind? unit = some .unit ∧ s.types.lookup Builtin.unitType = some τ ∧
    s.IsBlock e [.expression unit] τ

theorem IsUnit.mono (h : s.IsUnit e) (hle : s.Le s') : s'.IsUnit e := by
  obtain ⟨unit, τ, hunit, hτ, he⟩ := h
  exact ⟨unit, τ, hle.kind? hunit, hle.types hτ, he.mono hle⟩

/-- Between two states, a lambda is lowered. Its body unpacks the parameters, and then is made of
what its statements add; if that is nothing at all, it is the unit value. -/
def LambdaSpliced (σ : Setting) (d : Descent) (scope : Scope) (s s' : State)
    (parameters : List NodeId) (body : NodeId) (e : ExprId) : Prop :=
  ∃ target before parts block, s'.HasBody e block ∧
    Unpacks σ d (.function target :: scope) s s' parameters before ∧
    List.Forall₂ (Contributes σ d (.function target :: scope) s s')
      (σ.world.statementsOf body) parts ∧
    if before ++ parts.flatMap (·.statements) = [] then s'.IsUnit block
    else s'.Splices before parts block

theorem isDeclared_mono {key : Key} (hle : s.Le s')
    (h : (s.declared? key).isSome) : (s'.declared? key).isSome := by
  obtain ⟨decl, hdecl⟩ := Option.isSome_iff_exists.1 h
  exact Option.isSome_iff_exists.2 ⟨decl, declared?_mono hle.table hdecl⟩

/-- The expression is a lambda whose function has the label, and so has the target that belongs to
the function. -/
def Labelled (s : State) (e : ExprId) (label : Option Name) : Prop :=
  ∃ decl x f t target, s.store.kind? e = some (.lambda decl) ∧ s.store.decl? decl = some x ∧
    x.kind = .function f ∧ f.label = label ∧ s.store.functionTarget? t = some target ∧
    target.owner = some decl ∧ target.label = label

/-- The function is declared, and was not declared before. -/
def Declares (s s' : State) (key : Key) : Prop :=
  s.declared? key = none ∧ (s'.declared? key).isSome

end State

theorem Lower.runFrom_splice {σ : Setting} {s : State} {e : ExprId} {x : Expr}
    (hx : s.store.expr? e = some x) : (splice e).runFrom σ s = (.ok (x.expansion e), s) := by
  rw [splice, runFrom_bind_ok _ _ (runFrom_expr hx)]
  obtain ⟨type, annotations, kind⟩ := x
  cases annotations <;> cases kind <;> rfl

namespace Yields

variable {σ : Setting} {s : State}

theorem expr_bind {β : Type} {Q : State → β → Prop} {e : ExprId} {k : Expr → Lower β}
    (h : ∀ x, s.store.expr? e = some x → Brings σ s (k x) Q) :
    Brings σ s (Lower.expr e >>= k) Q := by
  simp only [Lower.expr, bind_assoc]
  exact .get_bind (.present_bind h)

theorem converted {id : TypeId} : Brings σ s (Lower.convert id) fun s' τ =>
    s'.types.lookup id = some τ :=
  .given fun hs => (does Tidy.convert).imp fun _ _ _ hrun =>
    have ⟨_, _, _, hlookup⟩ := hs.2.convert_ok hrun
    hlookup

theorem blockType {statements : List Statement} :
    Brings σ s (Lower.blockType statements) fun s' τ => s'.Worth statements τ := by
  unfold Lower.blockType State.Worth
  cases statements.getLast? with
  | none => exact converted
  | some last =>
    cases last with
    | declaration _ => exact converted
    | expression e => exact .expr_bind fun x hx => .pure ⟨x, hx, rfl⟩

theorem addExpr_expr {type : TreeType} {kind : ExprKind} :
    Brings σ s (Lower.addExpr type kind) fun s' e =>
      s'.store.expr? e = some ⟨type, [], kind⟩ := by
  refine (does Tidy.addExpr).imp fun s' e _ hrun => ?_
  cases hrun
  simp [Store.expr?]

theorem typedBlock {statements : List Statement} :
    Brings σ s (Lower.block statements) fun s' e =>
      ∃ τ, s'.store.expr? e = some ⟨τ, [], .block statements⟩ ∧ s'.Worth statements τ := by
  refine .bind blockType fun τ s1 h1 _ hτ => ?_
  exact addExpr_expr.imp_le fun s2 e h2 he => ⟨τ, he, hτ.mono h2⟩

theorem lambdaBlock {statements : List Statement} :
    Brings σ s (Lower.lambdaBlock statements) fun s' e =>
      if statements = [] then s'.IsUnit e else ∃ τ, s'.IsBlock e statements τ := by
  unfold Lower.lambdaBlock
  cases statements with
  | nil =>
    simp only [Lower.unitValue, List.isEmpty_nil, if_true, bind_assoc]
    refine .bind converted fun τ s1 h1 _ hτ => ?_
    refine .bind addExpr_expr fun unit s2 h2 _ hunit => ?_
    refine typedBlock.imp_le ?_
    rintro s3 e h3 ⟨τ', he, hworth⟩
    have hunit3 : s3.Worth [.expression unit] τ := State.Worth.mono ⟨_, hunit, rfl⟩ h3
    cases hunit3.unique hworth
    exact ⟨unit, τ, h3.kind? (by simp [Store.kind?, hunit]), (h2.trans h3).types hτ,
      ⟨_, he, rfl, rfl⟩, hworth⟩
  | cons statement rest =>
    refine typedBlock.imp ?_
    rintro _ _ - ⟨τ, he, hworth⟩
    exact ⟨τ, ⟨_, he, rfl, rfl⟩, hworth⟩

theorem declareOnce {id : SymbolId} {key : Key} (hid : s.keyOf? id = some key)
    {calls : List ExprId} {kind : DeclKind} :
    Brings σ s (Lower.declare id .source calls kind) fun s' c =>
      s.declared? key = none ∧ s'.declared? key = some c ∧
        s'.store.decl? c = some ⟨id, .source, calls, kind⟩ := by
  intro hs
  have hwork : Builds σ false [id] (Lower.declare id .source calls kind) := .declare nofun
  have hup := hwork.upholds hs.1 hs.2
  refine ⟨hup.le, ⟨hwork.coherent hs.1, hup.faithful⟩, fun c hc => ?_⟩
  have hle := hup.le
  have hcached := (State.keyOf?_eq_some_iff hs.1.table).1 hid
  obtain ⟨x, hx, _⟩ := State.keyOf?_eq_some.1 hid
  rw [runFrom_declare hx] at hle hc ⊢
  cases ho : x.owner with
  | some owner => simp [ho] at hc
  | none =>
    simp only [ho] at hle hc ⊢
    cases hc
    refine ⟨by simp [State.declared?, hcached, hx, ho], State.declared?_eq_some.2
      ⟨id, { x with owner := some ⟨s.store.decls.size⟩ }, hle.table.cached hcached, ?_, rfl⟩,
      by simp [Store.addDecl, Store.decl?]⟩
    have hlt := (Array.getElem?_eq_some_iff.1 hx).1
    simp [SymbolTable.own, SymbolTable.get?, hlt]

theorem newFunctionTarget {label : Option Name} {isLambda : Bool} :
    Brings σ s (Lower.newFunctionTarget label isLambda) fun s' t =>
      ∃ x, s'.store.functionTarget? t = some x ∧ x.label = label := by
  refine (does Tidy.newFunctionTarget).imp fun s' t _ hrun => ?_
  cases hrun
  exact ⟨⟨label, isLambda, none⟩, by simp [Store.functionTarget?], rfl⟩

theorem bindFunctionTarget {t : FunctionTargetId} {decl : DeclId} {x : FunctionTarget}
    (hx : s.store.functionTarget? t = some x) :
    Brings σ s (Lower.bindFunctionTarget t decl) fun s' _ =>
      ∃ y, s'.store.functionTarget? t = some y ∧ y.owner = some decl ∧ y.label = x.label := by
  refine (does .bindFunctionTarget).imp fun s' _ _ hrun => ?_
  rcases owns_bindFunctionTarget (σ := σ) (s := s) t decl with ⟨e, he⟩ | ⟨_, hok⟩
  · cases he.symm.trans hrun
  · cases hok.symm.trans hrun
    have hx' : s.store.functionTargets[t.index]? = some x := hx
    exact ⟨{ x with owner := some decl },
      by simp [Store.own, Store.functionTarget?, Array.getElem?_modify, hx'], rfl, rfl⟩

section descent

variable {d : Descent} (hd : d.Naming σ) {scope : Scope}

include hd

theorem lowerSegment {node : NodeId} :
    Brings σ s (do Lower.splice (← d.expr scope node)) fun s' statements =>
      ∃ p : Segment, State.Contributes σ d scope s s' node p ∧ statements = p.statements := by
  refine .given fun hs => ?_
  refine .bind (does (hd.tidy.expr scope node)) fun e s1 _ _ hrun => ?_
  cases hx : s1.store.expr? e with
  | none =>
    refine (throw (e := .dangling)).of_runFrom ?_
    simp [Lower.splice, Lower.expr, present, runFrom_bind, hx]
  | some x =>
    refine (pure ?_).of_runFrom (runFrom_splice hx)
    exact ⟨⟨e, x.type, x.expansion e⟩, ⟨s, s1, x, .refl s, hs, hrun, hx, rfl, rfl, .refl s1⟩, rfl⟩

theorem lowerStatements {nodes : List NodeId} :
    Brings σ s (Lower.lowerStatements d scope nodes) fun s' statements =>
      ∃ parts, List.Forall₂ (State.Contributes σ d scope s s') nodes parts ∧
        statements = parts.flatMap (·.statements) := by
  refine .bind (mapM (S := fun s' node statements => ∃ p : Segment,
    State.Contributes σ d scope s s' node p ∧ statements = p.statements) ?_ ?_) ?_
  · rintro _ _ _ _ hle ⟨p, hp, h⟩
    exact ⟨p, hp.within (.refl s) hle, h⟩
  · intro node _ s1 h1
    refine (lowerSegment hd).imp ?_
    rintro s2 _ _ ⟨p, hp, h⟩
    exact ⟨p, hp.within h1 (.refl s2), h⟩
  · intro all s1 _ _ hall
    refine .pure ?_
    clear * - hall
    induction hall with
    | nil => exact ⟨[], .nil, rfl⟩
    | cons h _ ih =>
      obtain ⟨p, hp, rfl⟩ := h
      obtain ⟨parts, hparts, hflat⟩ := ih
      exact ⟨p :: parts, .cons hp hparts, by simp [hflat]⟩

theorem lowerSingle {node : NodeId} :
    Brings σ s (do Lower.splice (← d.expr scope node)) fun s' statements =>
      ∃ parts, List.Forall₂ (State.Contributes σ d scope s s') [node] parts ∧
        statements = parts.flatMap (·.statements) := by
  refine (lowerSegment hd).imp ?_
  rintro s1 _ _ ⟨p, hp, rfl⟩
  exact ⟨[p], .cons hp .nil, by simp⟩

theorem lowerLambdaBody {body : NodeId} :
    Brings σ s (Lower.lowerLambdaBody d scope body) fun s' statements =>
      ∃ parts, List.Forall₂ (State.Contributes σ d scope s s') (σ.world.statementsOf body) parts ∧
        statements = parts.flatMap (·.statements) := by
  refine .node_bind fun n hn => ?_
  obtain ⟨kind, span⟩ := n
  unfold World.statementsOf
  rw [hn]
  cases kind with
  | block nodes => exact lowerStatements hd
  | _ => exact lowerSingle hd

theorem lowerBlock {node : NodeId} {nodes : List NodeId} :
    Brings σ s (Lower.lowerBlock d scope node nodes) fun s' e =>
      State.Spliced σ d scope s s' nodes (σ.world.factsOf node).type e := by
  refine .bind (lowerStatements hd) ?_
  rintro _ s1 _ _ ⟨parts, hparts, rfl⟩
  refine .facts_bind ?_
  cases (σ.world.factsOf node).type with
  | none =>
    refine typedBlock.imp_le fun s2 e h2 ⟨τ, he, hworth⟩ => ?_
    exact ⟨parts, τ, hparts.imp fun _ _ hp => hp.within (.refl s) h2, he, fun _ => hworth⟩
  | some type =>
    refine .bind (work Tidy.convert) fun τ s2 h2 _ _ => ?_
    refine addExpr_expr.imp_le fun s3 e h3 he => ?_
    exact ⟨parts, τ, hparts.imp fun _ _ hp => hp.within (.refl s) (h2.trans h3), he, nofun⟩

theorem lowerBody {body : Option NodeId} :
    Brings σ s (Lower.lowerBody d scope body) fun s' e =>
      State.Spliced σ d scope s s' (body.elim [] σ.world.statementsOf)
        (body.bind σ.world.blockType?) e := by
  cases body with
  | none => exact typedBlock.imp fun _ _ _ ⟨τ, he, hworth⟩ => ⟨[], τ, .nil, he, fun _ => hworth⟩
  | some body =>
    refine .node_bind fun n hn => ?_
    obtain ⟨kind, span⟩ := n
    rw [Option.elim_some, Option.bind_some, World.statementsOf, World.blockType?, hn]
    cases kind with
    | block nodes => exact lowerBlock hd
    | _ =>
      rw [← bind_assoc]
      refine .bind (lowerSingle hd) ?_
      rintro _ s1 _ _ ⟨parts, hparts, rfl⟩
      refine typedBlock.imp_le fun s2 e h2 ⟨τ, he, hworth⟩ => ?_
      exact ⟨parts, τ, hparts.imp fun _ _ hp => hp.within (.refl s) h2, he, fun _ => hworth⟩

theorem lowerLambda {id body : NodeId} {parameters : List NodeId} {label : Option Name} :
    Brings σ s (Lower.lowerLambda d scope id parameters body label) fun s' e =>
      s'.Labelled e (label <|> scope.implicitLabel) ∧
        (∀ desc, (σ.world.factsOf id).declares = some desc →
          State.Declares s s' (.anonymousFunction, desc)) ∧
        State.LambdaSpliced σ d scope s s' parameters body e := by
  refine .declared_bind fun desc hdesc => .descriptor_bind fun descriptor _ => ?_
  split
  next => exact unexpectedDeclaration
  next =>
    refine .bind (symbolOf State.Apt.lasting (by decide) desc) fun symbol s1 h1 _ hid => ?_
    refine .bind newFunctionTarget fun target s2 h2 _ ⟨x, hx, hlabel⟩ => ?_
    refine .bind (work Tidy.implicitParameters) fun _ s3 h3 hs3 _ => ?_
    refine .bind (does (Tidy.bind (Tidy.mapM fun _ => Tidy.lowerLambdaParameter hd.tidy)
      fun _ => Tidy.pure)) fun ⟨written, before⟩ s4 h4 _ hrun => ?_
    refine .bind (lowerLambdaBody hd) fun _ s5 h5 _ ⟨parts, hparts, hflat⟩ => ?_
    refine .bind lambdaBlock fun block s6 h6 _ hblock => ?_
    refine .bind (work Tidy.convertOptional) fun _ s7 h7 _ _ => ?_
    refine .bind (work Tidy.convert) fun _ s8 h8 _ _ => ?_
    have h38 := h3.trans (h4.trans (h5.trans (h6.trans (h7.trans h8))))
    simp only [Lower.declareCallable, bind_assoc, pure_bind]
    refine .bind (declareOnce ((h2.trans h38).keyOf? hid))
      fun decl s9 h9 _ ⟨hnone, hsome, hdecl⟩ => ?_
    obtain ⟨y, hy, hxy⟩ := (h38.trans h9).targets.function hx
    refine .bind (bindFunctionTarget hy) fun _ s10 h10 _ ⟨z, hz, howner, hzlabel⟩ => ?_
    refine .bind (work Tidy.expressionType) fun _ s11 h11 _ _ => ?_
    refine addExpr_kind.imp_le fun s12 e h12 ⟨hkind, _⟩ => ?_
    have h102 := h10.trans (h11.trans h12)
    refine ⟨?_, fun desc' hdesc' => ?_, ?_⟩
    · obtain ⟨z', hz', hzz'⟩ := (h11.trans h12).targets.function hz
      exact ⟨decl, _, _, target, z', hkind, h102.decl hdecl, rfl, rfl, hz',
        hzz'.owner decl howner, hzz'.label.trans (hzlabel.trans (hxy.label.trans hlabel))⟩
    · cases hdesc.symm.trans hdesc'
      exact ⟨State.undeclared_mono (h1.trans (h2.trans h38)).table hnone,
        State.isDeclared_mono h102 (Option.isSome_of_eq_some hsome)⟩
    · have h03 := h1.trans (h2.trans h3)
      have h62 := h7.trans (h8.trans (h9.trans h102))
      refine ⟨target, before, parts, block, ⟨decl, _, _, hkind, h102.decl hdecl, rfl, rfl⟩,
        ⟨s3, s4, written, h03, hs3, hrun, h5.trans (h6.trans h62)⟩,
        hparts.imp fun _ _ hp => hp.within (h03.trans h4) (h6.trans h62), ?_⟩
      subst hflat
      split at hblock
      next hempty => exact (if_pos hempty).mpr (hblock.mono h62)
      next hne =>
        obtain ⟨τ, hblock⟩ := hblock
        exact (if_neg hne).mpr (hblock.mono h62).splices

end descent

end Yields

/-- The statements of a body without a recorded type, and those of a lambda, are spliced in the
order of the source. -/
theorem State.block_splices {σ : Setting} {s s' : State} (hs : s.Apt σ) {fuel : Nat}
    {scope : Scope} {e : ExprId} :
    (∀ node nodes, (σ.world.factsOf node).type = none →
      (lowerBlock (descent fuel) scope node nodes).runFrom σ s = (.ok e, s') →
      ∃ parts, List.Forall₂ (Contributes σ (descent fuel) scope s s') nodes parts ∧
        s'.Splices [] parts e) ∧
    (∀ body, body.bind σ.world.blockType? = none →
      (lowerBody (descent fuel) scope body).runFrom σ s = (.ok e, s') →
      ∃ parts, List.Forall₂ (Contributes σ (descent fuel) scope s s')
        (body.elim [] σ.world.statementsOf) parts ∧ s'.Splices [] parts e) ∧
    ∀ id parameters body label,
      (lowerLambda (descent fuel) scope id parameters body label).runFrom σ s = (.ok e, s') →
      LambdaSpliced σ (descent fuel) scope s s' parameters body e := by
  have hd : (descent fuel).Naming σ := Naming.descent fuel
  refine ⟨fun node nodes htype hrun => ?_, fun body htype hrun => ?_, ?_⟩
  · exact ((Yields.lowerBlock hd).of_ran hs hrun).splices htype
  · exact ((Yields.lowerBody hd).of_ran hs hrun).splices htype
  · intro id parameters body label hrun
    exact ((Yields.lowerLambda hd).of_ran hs hrun).2.2

/-- The block `{ 1; { … } }`, on its own and as the body of a lambda. -/
def nestedWorld (inner : List NodeId) (type : Option TypeId) : World where
  tree :=
    { nodes := #[
        ⟨.block [⟨1⟩, ⟨2⟩], .detached⟩,
        ⟨.constant, .detached⟩,
        ⟨.block inner, .detached⟩,
        ⟨.lambda [] ⟨0⟩, .detached⟩]
      files := [] }
  facts := #[
    {},
    { type := some Builtin.intType, constant := some (.scalar (.int 1)) },
    { type },
    { type := some Builtin.anyType, declares := some ⟨13⟩ }]
  declared := #[⟨"<anonymous>", [], none, .inBody, [], .function { returnType := Builtin.anyType }⟩]
  types := #[]

theorem State.block_splices_nestedWorld :
    let σ : Setting := ⟨nestedWorld [⟨1⟩] (some Builtin.anyType), {}⟩
    let r := (lowerBlock (descent 3) [] ⟨0⟩ [⟨1⟩, ⟨2⟩]).runFrom σ {}
    let l := (lowerLambda (descent 3) [] ⟨3⟩ [] ⟨0⟩ none).runFrom σ {}
    (∃ e parts, r.1 = .ok e ∧
      List.Forall₂ (Contributes σ (descent 3) [] {} r.2) [⟨1⟩, ⟨2⟩] parts ∧
      r.2.Splices [] parts e) ∧
    ∃ e block, l.1 = .ok e ∧ l.2.HasBody e block := by
  intro σ r l
  obtain ⟨e, hrun⟩ : ∃ e, r = (.ok e, r.2) := exists_ok (by decide +kernel)
  obtain ⟨e', hrun'⟩ : ∃ e, l = (.ok e, l.2) := exists_ok (by decide +kernel)
  obtain ⟨parts, hparts, hblock⟩ :=
    (@block_splices σ {} _ (Apt.start σ) 3 [] e).1 ⟨0⟩ [⟨1⟩, ⟨2⟩] rfl hrun
  obtain ⟨_, _, _, block, hbody, _⟩ :=
    (@block_splices σ {} _ (Apt.start σ) 3 [] e').2.2 ⟨3⟩ [] ⟨0⟩ none hrun'
  exact ⟨⟨e, parts, congrArg Prod.fst hrun, hparts, hblock⟩, e', block, congrArg Prod.fst hrun',
    hbody⟩

/-- A block inside a block gives up its own type, and if it is empty its unit value as well. -/
theorem State.nested_block_lost :
    let r (inner : List NodeId) (type : Option TypeId) :=
      (lowerBlock (descent 3) [] ⟨0⟩ [⟨1⟩, ⟨2⟩]).runFrom ⟨nestedWorld inner type, {}⟩ {}
    let typeOf (s : State) (e : ExprId) := (s.store.expr? e).map (·.type)
    let typed := r [⟨1⟩] (some Builtin.anyType)
    let empty := r [] none
    (typed.1.toOption = some ⟨3⟩ ∧ typed.2.store.kind? ⟨2⟩ = some (.block [.expression ⟨1⟩]) ∧
      typed.2.store.kind? ⟨3⟩ = some (.block [.expression ⟨0⟩, .expression ⟨1⟩]) ∧
      typeOf typed.2 ⟨3⟩ ≠ typeOf typed.2 ⟨2⟩) ∧
    empty.1.toOption = some ⟨2⟩ ∧ empty.2.store.kind? ⟨1⟩ = some (.block []) ∧
      empty.2.store.kind? ⟨2⟩ = some (.block [.expression ⟨0⟩]) ∧
      typeOf empty.2 ⟨2⟩ ≠ typeOf empty.2 ⟨1⟩ := by
  decide +kernel

end TypedTree
