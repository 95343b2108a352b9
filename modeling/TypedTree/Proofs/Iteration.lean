import TypedTree.Proofs.Choice

namespace TypedTree

open Lower

structure ForLoop where
  inner : NodeId
  label : Option Name
  parameter : NodeId
  range : NodeId
  body : Option NodeId

/-- The node is a loop over a range. A label may stand before it, and parentheses between them. -/
inductive World.IsFor (w : World) : NodeId → ForLoop → Prop
  | plain {id parameter range body span} :
      w.tree.node? id = some ⟨.forLoop parameter range body, span⟩ →
      IsFor w id ⟨id, none, parameter, range, body⟩
  | labelled {id label inner parameter range body span span'} :
      w.tree.node? id = some ⟨.labeled label inner, span⟩ →
      w.tree.node? (w.tree.deparenthesize inner) = some ⟨.forLoop parameter range body, span'⟩ →
      IsFor w id ⟨w.tree.deparenthesize inner, some label, parameter, range, body⟩

def Setting.turnVisits (σ : Setting) (scope : Scope) (l : ForLoop) : List Visit :=
  ((σ.world.destructured? l.parameter).elim [] (·.flatMap (σ.componentVisits scope))) ++
    (l.body.elim [] σ.world.statementsOf).map (scope, ·)

namespace Lower

variable {σ : Setting} {d : Descent} {scope : Scope} {id : NodeId} {l : ForLoop}
  {calls : LoopCalls}

/-- The part of a loop that is outside of it: the iterator, and the test for a next element. -/
def beginLoop (d : Descent) (scope : Scope) (calls : LoopCalls) (range : NodeId) :
    Lower (Temporary × ExprId) := do
  let range ← d.expr scope range
  let iteratorType ← convert calls.iterator.result
  let iterator ← Temporary.hold "<iterator>" (← callOn d scope calls.iterator iteratorType range [])
  let receiver ← iterator.read
  let condition ← callOn d scope calls.hasNext (← booleanType) receiver []
  return (iterator, condition)

/-- The loop with its target, which takes the next element first. -/
def takeTurns (d : Descent) (scope : Scope) (calls : LoopCalls) (l : ForLoop)
    (head : Temporary × ExprId) (target : LoopTargetId) : Lower ExprId := do
  let receiver ← head.1.read
  let nextType ← convert calls.next.result
  let next ← callOn d (.loop target :: scope) calls.next nextType receiver []
  let elements ← lowerLoopParameter d (.loop target :: scope) l.parameter next
  let body ← lowerBody d (.loop target :: scope) l.body
  let body ← block (elements ++ (← splice body))
  let loop ← addLoop target (← unitType) (.whileLoop target head.2 body)
  block [head.1.statement, .expression loop]

theorem lowerFor_eq : lowerFor d scope l.inner l.parameter l.range l.body l.label = (do
    let calls ← required (← facts l.inner).loop "iterator calls" l.inner
    let head ← beginLoop d scope calls l.range
    let target ← newLoopTarget l.label
    takeTurns d scope calls l head target) := by
  simp only [lowerFor, beginLoop, takeTurns, bind_assoc, pure_bind]

theorem same_of_isFor (h : σ.world.IsFor id l) :
    Same σ (expressionStep d scope id)
      (lowerFor d scope l.inner l.parameter l.range l.body l.label) := by
  cases h with
  | plain hn => exact same_node_bind hn _
  | labelled hn hinner =>
    refine (same_node_bind hn _).trans ((same_deparenthesize_bind _).trans ?_)
    exact same_node_bind hinner _

end Lower

namespace State

variable {σ : Setting} {d : Descent} {scope : Scope} {s s' s'' : State} {parameter : NodeId}
  {next : ExprId} {x : SymbolId} {first : Statement} {rest : List Statement}

/-- Before a loop, the iterator of the range is held by a new variable, and the condition tests a
read of that. -/
def Begins (σ : Setting) (d : Descent) (scope : Scope) (s s' : State) (calls : LoopCalls)
    (range : NodeId) (iterator : Temporary) (test condition : ExprId) : Prop :=
  ∃ value call, Gives σ d scope s s' range value ∧
    calls.iterator.IsCall σ d scope s s' (some value) [] call ∧
    s'.Introduces "<iterator>" iterator call ∧ s.table.get? iterator.symbol = none ∧
    ReadsNew s s' iterator test ∧ calls.hasNext.IsCall σ d scope s s' (some test) [] condition

/-- The first statement binds a variable to the next element: that of the source, or else a
container, from which the other statements take the components. -/
inductive Binds (σ : Setting) (d : Descent) (scope : Scope) : State → State → NodeId → ExprId →
    SymbolId → Statement → List Statement → Prop
  | plain {s s' parameter next desc x decl calls type} :
      σ.world.destructured? parameter = none → (σ.world.factsOf parameter).declares = some desc →
      s'.Denotes σ desc x →
      s'.store.decl? decl = some ⟨x, .source, calls, .property (.localValue type next)⟩ →
      Binds σ d scope s s' parameter next x (.declaration decl) []
  | destructured {s s1 s2 s' parameter next entries container added} :
      σ.world.destructured? parameter = some entries → s.Le s1 →
      s1.Introduces "<destruct>" container next →
      InTurn (Component σ d scope container.symbol) s1 s2 entries added → s1.Le s2 → s2.Le s' →
      Binds σ d scope s s' parameter next container.symbol container.statement (added.filterMap id)

theorem Binds.within {s0 : State} (h : Binds σ d scope s s' parameter next x first rest)
    (h0 : s0.Le s) (h' : s'.Le s'') : Binds σ d scope s0 s'' parameter next x first rest := by
  cases h with
  | plain hnone hdesc hx hdecl => exact .plain hnone hdesc (hx.mono h') (h'.decl hdecl)
  | destructured hentries h1 hheld hturn h2 h3 =>
    exact .destructured hentries (h0.trans h1) hheld hturn h2 (h3.trans h')

theorem Binds.declaration (h : Binds σ d scope s s' parameter next x first rest) :
    ∃ decl origin calls type, first = .declaration decl ∧
      s'.store.decl? decl = some ⟨x, origin, calls, .property (.localValue type next)⟩ := by
  cases h with
  | plain _ _ _ hdecl => exact ⟨_, _, _, _, rfl, hdecl⟩
  | destructured _ _ hheld _ h2 h3 => exact ⟨_, _, _, _, rfl, (h2.trans h3).decl hheld.decl⟩

theorem Le.loopOwner {target : LoopTargetId} {part : TreePart} (hle : s.Le s')
    (h : s.store.owner? (.loop target) = some part) :
    s'.store.owner? (.loop target) = some part := by
  simp only [Store.owner?, Option.map_eq_some_iff, Option.bind_eq_some_iff] at h ⊢
  obtain ⟨e, ⟨t, ht, howner⟩, rfl⟩ := h
  obtain ⟨t', ht', hle'⟩ := hle.targets.loop ht
  exact ⟨e, ⟨t', ht', hle'.owner e howner⟩, rfl⟩

end State

structure Iteration where
  read : ExprId
  next : ExprId
  element : SymbolId
  first : Statement
  rest : List Statement
  parts : List Segment
  body : ExprId
  loop : ExprId

/-- The statements behind the one that takes the next element. -/
def Iteration.others (i : Iteration) : List Statement :=
  i.rest ++ i.parts.flatMap (·.statements)

/-- In each turn the loop takes the next element by its first statement, which has a read of the
iterator to itself; then the components follow, and what the body of the source adds. -/
structure Iteration.Fits (σ : Setting) (d : Descent) (scope : Scope) (s s' : State)
    (calls : LoopCalls) (l : ForLoop) (iterator : Temporary) (condition : ExprId)
    (target : LoopTargetId) (i : Iteration) : Prop where
  read : State.ReadsNew s s' iterator i.read
  next : calls.next.IsCall σ d (.loop target :: scope) s s' (some i.read) [] i.next
  binds : State.Binds σ d (.loop target :: scope) s s' l.parameter i.next i.element i.first i.rest
  parts : List.Forall₂ (State.Contributes σ d (.loop target :: scope) s s')
    (l.body.elim [] σ.world.statementsOf) i.parts
  body : s'.store.kind? i.body = some (.block (i.first :: i.others))
  loop : s'.store.kind? i.loop = some (.whileLoop target condition i.body)
  owner : s'.store.owner? (.loop target) = some (.expr i.loop)

/-- Between two states, a loop over a range is lowered to a block of two statements: the variable
that holds the iterator, and the loop. The target of the loop, which gets the label, is not there
yet when the range is lowered. -/
def State.Iterates (σ : Setting) (d : Descent) (scope : Scope) (s s' : State) (calls : LoopCalls)
    (l : ForLoop) (condition : ExprId) (i : Iteration) (e : ExprId) : Prop :=
  ∃ iterator test target s1 s2, Begins σ d scope s s1 calls l.range iterator test condition ∧
    (newLoopTarget l.label).runFrom σ s1 = (.ok target, s2) ∧ s1.store.loopTarget? target = none ∧
    s1.Le s' ∧ i.Fits σ d scope s2 s' calls l iterator condition target ∧
    s'.store.kind? e = some (.block [iterator.statement, .expression i.loop])

/-- How a statement ends: it is done, it leaves a loop or goes on with one, or leaves the code. -/
inductive Flow where
  | done
  | leave (target : LoopTargetId)
  | again (target : LoopTargetId)
  | exit
deriving DecidableEq

def Flow.resumes (target : LoopTargetId) : Flow → Bool
  | .done => true
  | .again t => t = target
  | _ => false

/-- Code that runs where an iterator has some elements left. -/
structure Traversal (M V : Type) where
  remaining : M → List V
  value? : M → SymbolId → Option V
  test : ExprId → M → Bool → M → Prop
  step : Statement → M → Flow → M → Prop

namespace Traversal

variable {M V : Type} (μ : Traversal M V)

/-- The statements run one after the other, up to one that is not done. -/
inductive Passes : List Statement → M → Flow → M → Prop
  | nil {m} : Passes [] m .done m
  | cons {st sts m m1 m2 f} : μ.step st m .done m1 → Passes sts m1 f m2 →
      Passes (st :: sts) m f m2
  | stop {st sts m m1 f} : f ≠ .done → μ.step st m f m1 → Passes (st :: sts) m f m1

/-- One turn, with the value that the variable gets from the first statement. -/
inductive Turn (x : SymbolId) : List Statement → M → List V → Flow → M → Prop
  | nil {m} : Turn x [] m [] .done m
  | cons {st sts m m1 m2 f} : μ.step st m .done m1 → μ.Passes sts m1 f m2 →
      Turn x (st :: sts) m (μ.value? m1 x).toList f m2
  | stop {st sts m m1 f} : f ≠ .done → μ.step st m f m1 → Turn x (st :: sts) m [] f m1

/-- A run of a loop, with all values that the variable gets. It ends where its condition fails, or
else with the statement that does not go on with it. -/
inductive Runs (store : Store) (x : SymbolId) (e : ExprId) : M → List V → Option Flow → M → Prop
  | finish {m m' target condition body} :
      store.kind? e = some (.whileLoop target condition body) → μ.test condition m false m' →
      Runs store x e m [] none m'
  | turn {m m1 m2 m' target condition body sts vs ws f ending} :
      store.kind? e = some (.whileLoop target condition body) →
      store.kind? body = some (.block sts) → μ.test condition m true m1 →
      μ.Turn x sts m1 vs f m2 → f.resumes target → Runs store x e m2 ws ending m' →
      Runs store x e m (vs ++ ws) ending m'
  | leave {m m1 m2 target condition body sts vs f} :
      store.kind? e = some (.whileLoop target condition body) →
      store.kind? body = some (.block sts) → μ.test condition m true m1 →
      μ.Turn x sts m1 vs f m2 → f.resumes target = false → Runs store x e m vs (some f) m2

/-- The condition tests for elements, a variable with the next element for its value takes that, and
the other statements leave the iterator alone. -/
structure Suits (store : Store) (condition next : ExprId) (others : List Statement) : Prop where
  condition : ∀ {m b m'}, μ.test condition m b m' →
    μ.remaining m' = μ.remaining m ∧ (b = true ↔ μ.remaining m ≠ [])
  element : ∀ {decl x origin calls type m v vs f m'},
    store.decl? decl = some ⟨x, origin, calls, .property (.localValue type next)⟩ →
    μ.remaining m = v :: vs → μ.step (.declaration decl) m f m' →
    f = .done ∧ μ.value? m' x = some v ∧ μ.remaining m' = vs
  others : ∀ st ∈ others, ∀ {m f m'}, μ.step st m f m' → μ.remaining m' = μ.remaining m

variable {μ} {store : Store} {x : SymbolId} {e condition next body : ExprId} {target : LoopTargetId}
  {first : Statement} {others sts : List Statement} {m m' : M} {f : Flow} {vs : List V}

theorem Passes.remaining_eq (h : μ.Passes sts m f m')
    (hkeep : ∀ st ∈ sts, ∀ {m f m'}, μ.step st m f m' → μ.remaining m' = μ.remaining m) :
    μ.remaining m' = μ.remaining m := by
  induction h with
  | nil => rfl
  | cons hstep _ ih =>
    obtain ⟨hst, hsts⟩ := List.forall_mem_cons.1 fun st hst => @hkeep st hst
    exact (ih fun st hst => hsts st hst).trans (hst hstep)
  | stop _ hstep => exact hkeep _ List.mem_cons_self hstep

theorem exists_passes (htotal : ∀ st m, ∃ f m', μ.step st m f m') (sts : List Statement) (m : M) :
    ∃ f m', μ.Passes sts m f m' := by
  induction sts generalizing m with
  | nil => exact ⟨_, _, .nil⟩
  | cons st sts ih =>
    obtain ⟨f, m1, hstep⟩ := htotal st m
    by_cases hf : f = .done
    · subst hf
      obtain ⟨f, m2, hrest⟩ := ih m1
      exact ⟨f, m2, .cons hstep hrest⟩
    · exact ⟨f, m1, .stop hf hstep⟩

namespace Suits

variable (h : μ.Suits store condition next others)
  (hfirst : ∃ decl origin calls type, first = .declaration decl ∧
    store.decl? decl = some ⟨x, origin, calls, .property (.localValue type next)⟩)

include h hfirst

theorem turn (hturn : μ.Turn x (first :: others) m vs f m') (hne : μ.remaining m ≠ []) :
    ∃ v, vs = [v] ∧ μ.remaining m = v :: μ.remaining m' := by
  obtain ⟨decl, origin, calls, type, rfl, hdecl⟩ := hfirst
  obtain ⟨v, rest, hm⟩ := List.exists_cons_of_ne_nil hne
  cases hturn with
  | cons hstep hpasses =>
    obtain ⟨_, hv, hrest⟩ := h.element hdecl hm hstep
    rw [hv, hm, hpasses.remaining_eq h.others, hrest]
    exact ⟨v, rfl, rfl⟩
  | stop hf hstep => exact (hf (h.element hdecl hm hstep).1).elim

variable (hloop : store.kind? e = some (.whileLoop target condition body))
  (hbody : store.kind? body = some (.block (first :: others)))

include hloop hbody

/-- However a run ends, the variable was bound to the elements that are gone, in their order. -/
theorem remaining_eq {ending : Option Flow} (hruns : μ.Runs store x e m vs ending m') :
    μ.remaining m = vs ++ μ.remaining m' ∧ (ending = none → μ.remaining m' = []) := by
  induction hruns with
  | finish hkind htest =>
    cases hloop.symm.trans hkind
    obtain ⟨hsame, hempty⟩ := h.condition htest
    have hnil := not_not.1 (mt hempty.2 Bool.false_ne_true)
    rw [hsame, hnil]
    exact ⟨rfl, fun _ => rfl⟩
  | turn hkind hblock htest hturn _ _ ih =>
    cases hloop.symm.trans hkind
    cases hbody.symm.trans hblock
    obtain ⟨hsame, hne⟩ := h.condition htest
    obtain ⟨v, rfl, hv⟩ := h.turn hfirst hturn (hsame ▸ hne.1 rfl)
    exact ⟨by rw [← hsame, hv, ih.1]; rfl, ih.2⟩
  | leave hkind hblock htest hturn _ =>
    cases hloop.symm.trans hkind
    cases hbody.symm.trans hblock
    obtain ⟨hsame, hne⟩ := h.condition htest
    obtain ⟨v, rfl, hv⟩ := h.turn hfirst hturn (hsame ▸ hne.1 rfl)
    exact ⟨by rw [← hsame, hv]; rfl, nofun⟩

/-- Each turn takes an element, so a loop whose parts come to an end does so itself. -/
theorem exists_runs (htest : ∀ m, ∃ b m', μ.test condition m b m')
    (htotal : ∀ st m, ∃ f m', μ.step st m f m') (m : M) :
    ∃ vs ending m', μ.Runs store x e m vs ending m' := by
  induction hn : (μ.remaining m).length generalizing m with
  | zero =>
    obtain ⟨b, m', hb⟩ := htest m
    have hnil := List.length_eq_zero_iff.1 hn
    cases b with
    | false => exact ⟨_, _, _, .finish hloop hb⟩
    | true => exact ((h.condition hb).2.1 rfl hnil).elim
  | succ n ih =>
    obtain ⟨b, m1, hb⟩ := htest m
    cases b with
    | false => exact ⟨_, _, _, .finish hloop hb⟩
    | true =>
      obtain ⟨hsame, hne⟩ := h.condition hb
      obtain ⟨vs, f, m2, hturn⟩ : ∃ vs f m2, μ.Turn x (first :: others) m1 vs f m2 := by
        obtain ⟨f, m2, hpasses⟩ := exists_passes htotal (first :: others) m1
        cases hpasses with
        | cons hstep hpasses => exact ⟨_, _, _, .cons hstep hpasses⟩
        | stop hf hstep => exact ⟨_, _, _, .stop hf hstep⟩
      cases hf : f.resumes target with
      | false => exact ⟨_, _, _, .leave hloop hbody hb hturn hf⟩
      | true =>
        obtain ⟨v, _, hv⟩ := h.turn hfirst hturn (hsame ▸ hne.1 rfl)
        obtain ⟨ws, ending, m', hruns⟩ := ih m2 (by rw [hsame] at hv; simpa [hv] using hn)
        exact ⟨_, _, _, .turn hloop hbody hb hturn hf hruns⟩

end Suits

end Traversal

namespace Yields

variable {σ : Setting} {s : State}

theorem newLoopTarget {label : Option Name} :
    Brings σ s (Lower.newLoopTarget label) fun s' t =>
      (Lower.newLoopTarget label).runFrom σ s = (.ok t, s') ∧ s.store.loopTarget? t = none ∧
        s'.store.Has (.loop t) := by
  refine (does Tidy.newLoopTarget).imp fun s' t _ hrun => ⟨hrun, ?_⟩
  cases hrun
  simp [Store.loopTarget?, Store.Has]

theorem addLoop {target : LoopTargetId} {type : TreeType} {kind : ExprKind}
    (hh : s.store.Has (.loop target)) :
    Brings σ s (Lower.addLoop target type kind) fun s' e =>
      s'.store.kind? e = some kind ∧ s'.store.owner? (.loop target) = some (.expr e) := by
  refine .bind addExpr_kind fun e s1 h1 _ ⟨hkind, _⟩ => ?_
  refine .bind (owned .bindLoopTarget (owns_bindLoopTarget target e) (h1.targets.has hh) trivial)
    fun _ s2 h2 _ howner => ?_
  exact .pure ⟨h2.kind? hkind, howner⟩

section descent

variable {d : Descent} (hd : d.Naming σ) {scope : Scope} {calls : LoopCalls} {l : ForLoop}

include hd

theorem loopElements {parameter : NodeId} {next : ExprId} :
    Brings σ s (Lower.lowerLoopParameter d scope parameter next) fun s' statements =>
      ∃ x first rest, State.Binds σ d scope s s' parameter next x first rest ∧
        statements = first :: rest := by
  cases hentries : σ.world.destructured? parameter with
  | some entries =>
    refine (lowerLoopParameter hd hentries).imp_le ?_
    rintro s' _ _ ⟨container, added, s1, h1, hheld, hturn, h2, rfl⟩
    exact ⟨_, _, _, .destructured hentries h1 hheld hturn h2 (.refl s'), rfl⟩
  | none =>
    refine .node_bind fun n hn => ?_
    obtain ⟨kind, span⟩ := n
    split
    next _ _ pattern _ hkind =>
      cases hkind
      refine destructuredEntries_bind hn rfl fun entries hsome => ?_
      cases hentries.symm.trans hsome
    next hkind =>
      refine .declared_bind fun desc hdesc => ?_
      refine .bind denotes fun x s1 _ _ hx => ?_
      refine .bind (work Tidy.elementType) fun type s2 h2 _ _ => ?_
      refine .bind (work Tidy.annotationEntries) fun calls s3 h3 _ _ => ?_
      obtain ⟨c, hc, hkey⟩ := hx
      refine .bind (declareOnce ((h2.trans h3).keyOf? hkey)) fun decl s4 h4 _ hdecl => .pure ?_
      exact ⟨x, _, _, .plain hentries hdesc ⟨c, hc, (h2.trans (h3.trans h4)).keyOf? hkey⟩
        hdecl.2.2, rfl⟩
    next => exact unexpected

theorem beginLoop {range : NodeId} :
    Brings σ s (Lower.beginLoop d scope calls range) fun s' head =>
      ∃ test, State.Begins σ d scope s s' calls range head.1 test head.2 := by
  refine .bind (gives hd) fun value s1 h1 _ hvalue => ?_
  refine .bind (work Tidy.convert) fun _ s2 h2 _ _ => ?_
  refine .bind (isCall hd) fun call s3 h3 _ hcall => ?_
  refine .bind hold fun iterator s4 h4 _ ⟨hheld, hnew⟩ => ?_
  refine .bind readsNew fun test s5 h5 _ htest => ?_
  refine .bind (work Tidy.convert) fun _ s6 h6 _ _ => ?_
  refine .bind (isCall hd) fun condition s7 h7 _ hcondition => .pure ?_
  have h57 := h6.trans h7
  have h47 := h5.trans h57
  have h03 := h1.trans (h2.trans h3)
  exact ⟨test, value, call, hvalue.within (.refl s) (h2.trans (h3.trans (h4.trans h47))),
    hcall.within (h1.trans h2) (h4.trans h47), hheld.mono h47, h03.get?_eq_none hnew,
    htest.within (h03.trans h4) h57,
    hcondition.within (h03.trans (h4.trans (h5.trans h6))) (.refl s7)⟩

theorem takeTurns {head : Temporary × ExprId} {target : LoopTargetId}
    (hh : s.store.Has (.loop target)) :
    Brings σ s (Lower.takeTurns d scope calls l head target) fun s' e =>
      ∃ i : Iteration, i.Fits σ d scope s s' calls l head.1 head.2 target ∧
        s'.store.kind? e = some (.block [head.1.statement, .expression i.loop]) := by
  refine .bind readsNew fun read s1 h1 _ hread => ?_
  refine .bind (work Tidy.convert) fun _ s2 h2 _ _ => ?_
  refine .bind (isCall hd) fun next s3 h3 _ hnext => ?_
  refine .bind (loopElements hd) ?_
  rintro _ s4 h4 _ ⟨x, first, rest, hbinds, rfl⟩
  refine .bind (lowerBody hd) fun _ s5 h5 _ ⟨parts, τ, hparts, hblock, _⟩ => ?_
  refine .of_runFrom ?_ (runFrom_bind_ok _ _ (runFrom_splice hblock) _)
  refine .bind block fun body s6 h6 _ hbody => ?_
  refine .bind (work Tidy.convert) fun _ s7 h7 _ _ => ?_
  have h04 := h1.trans (h2.trans (h3.trans h4))
  have h57 := h6.trans h7
  refine .bind (addLoop ((h04.trans (h5.trans h57)).targets.has hh))
    fun loop s8 h8 _ ⟨hloop, howner⟩ => ?_
  refine block.imp_le fun s9 e h9 he => ?_
  have h59 := h57.trans (h8.trans h9)
  have h39 := h4.trans (h5.trans h59)
  refine ⟨⟨read, next, x, first, rest, parts, body, loop⟩, ?_, he⟩
  exact {
    read := hread.within (.refl s) (h2.trans (h3.trans h39))
    next := hnext.within (h1.trans h2) h39
    binds := hbinds.within (h1.trans (h2.trans h3)) (h5.trans h59)
    parts := hparts.imp fun _ _ hp => hp.within h04 h59
    body := (h7.trans (h8.trans h9)).kind? hbody
    loop := h9.kind? hloop
    owner := h9.loopOwner howner }

theorem lowerFor : Brings σ s
    (Lower.lowerFor d scope l.inner l.parameter l.range l.body l.label) fun s' e =>
      ∃ calls condition i, (σ.world.factsOf l.inner).loop = some calls ∧
        s.Iterates σ d scope s' calls l condition i e := by
  rw [lowerFor_eq]
  refine .facts_bind (.required_bind fun calls hcalls => ?_)
  refine .bind (beginLoop hd) fun head s1 _ _ ⟨test, hbegins⟩ => ?_
  refine .bind newLoopTarget fun target s2 h2 _ ⟨hrun, hnew, hh⟩ => ?_
  refine (takeTurns hd hh).imp_le fun s' e h' ⟨i, hfits, he⟩ => ?_
  exact ⟨calls, head.2, i, hcalls, head.1, test, target, s1, s2, hbegins, hrun, hnew, h2.trans h',
    hfits, he⟩

end descent

end Yields

namespace Visits

variable {σ : Setting} {scope : Scope} {calls : LoopCalls} {l : ForLoop}

theorem lowerStatements {nodes : List NodeId} :
    Visits σ (nodes.map (scope, ·)) fun d => Lower.lowerStatements d scope nodes := by
  rw [List.map_eq_flatMap]
  exact (mapM fun node _ => (visit scope node).before _).before _

theorem lowerBody {body : Option NodeId} :
    Visits σ ((body.elim [] σ.world.statementsOf).map (scope, ·))
      fun d => Lower.lowerBody d scope body := by
  cases body with
  | none => exact work _
  | some body =>
    refine node_bind fun n hn => ?_
    obtain ⟨kind, span⟩ := n
    rw [Option.elim_some, World.statementsOf, hn]
    cases kind with
    | block nodes => exact lowerStatements.before _
    | _ => exact (visit scope body).before _

theorem lowerLoopParameter {parameter : NodeId} {next : ExprId} :
    Visits σ ((σ.world.destructured? parameter).elim [] (·.flatMap (σ.componentVisits scope)))
      fun d => Lower.lowerLoopParameter d scope parameter next := by
  refine node_bind fun n hn => ?_
  obtain ⟨kind, span⟩ := n
  rw [World.destructured?, hn]
  cases kind with
  | parameter p =>
    obtain ⟨name, defaultValue, destructuring, annotations⟩ := p
    cases destructuring with
    | none => exact work _
    | some pattern =>
      simp only [Lower.destructuredEntries, bind_assoc]
      refine node_bind fun n' hn' => ?_
      obtain ⟨kind', span'⟩ := n'
      simp only [hn']
      cases kind' with
      | destructuring entries _ =>
        simp only [pure_bind, Option.elim_some]
        exact after _ fun container => lowerComponents.before _
      | _ =>
        simp only [unexpected, bind_assoc]
        exact node_bind fun _ _ => throw
  | _ => exact work _

variable (hone : ∀ call ∈ [calls.iterator, calls.hasNext, calls.next],
  call.writtenReceivers.length ≤ 1)

include hone

theorem beginLoop {range : NodeId} :
    Visits σ [(scope, range)] fun d => Lower.beginLoop d scope calls range := by
  show Visits σ ([(scope, range)] ++ []) _
  refine (visit scope range).bind fun value => after _ fun _ => ?_
  refine (callOn (hone _ (by simp))).bind fun call => after _ fun iterator => after _ fun read => ?_
  exact after _ fun _ => (callOn (hone _ (by simp))).before _

theorem takeTurns {head : Temporary × ExprId} {target : LoopTargetId} :
    Visits σ (σ.turnVisits (.loop target :: scope) l)
      fun d => Lower.takeTurns d scope calls l head target := by
  refine after _ fun read => after _ fun _ => (callOn (hone _ (by simp))).bind fun next => ?_
  exact lowerLoopParameter.bind fun _ => lowerBody.before _

end Visits

/-- A loop over a range becomes a block of two statements. The range alone is lowered outside of the
loop, and all else inside. The first statement of the loop takes the next element, so the variable
is bound to the elements in their order, each once, up to where the loop is left. -/
theorem State.loop_iterates {σ : Setting} {s s' : State} (hs : s.Apt σ) {fuel : Nat}
    {scope : Scope} {id : NodeId} {l : ForLoop} {e : ExprId} (hloop : σ.world.IsFor id l)
    (hrun : (expressionStep (descent fuel) scope id).runFrom σ s = (.ok e, s')) :
    ∃ calls condition i, (σ.world.factsOf l.inner).loop = some calls ∧
      s.Iterates σ (descent fuel) scope s' calls l condition i e ∧
      ((∀ call ∈ [calls.iterator, calls.hasNext, calls.next], call.writtenReceivers.length ≤ 1) →
        (∀ d, Same σ (expressionStep d scope id) (beginLoop d scope calls l.range >>= fun head =>
          newLoopTarget l.label >>= takeTurns d scope calls l head)) ∧
        Visits σ [(scope, l.range)] (fun d => beginLoop d scope calls l.range) ∧
        ∀ head target, Visits σ (σ.turnVisits (.loop target :: scope) l) fun d =>
          takeTurns d scope calls l head target) ∧
      ∀ (M V : Type) (μ : Traversal M V), μ.Suits s'.store condition i.next i.others →
        (∀ m vs ending m', μ.Runs s'.store i.element i.loop m vs ending m' →
          μ.remaining m = vs ++ μ.remaining m' ∧ (ending = none → μ.remaining m' = [])) ∧
        ((∀ m, ∃ b m', μ.test condition m b m') → (∀ st m, ∃ f m', μ.step st m f m') →
          ∀ m, ∃ vs ending m', μ.Runs s'.store i.element i.loop m vs ending m') := by
  have hlowered := (same_of_isFor hloop s).symm.trans hrun
  obtain ⟨calls, condition, i, hcalls, hiterates⟩ :=
    (Yields.lowerFor (Naming.descent fuel)).of_ran hs hlowered
  refine ⟨calls, condition, i, hcalls, hiterates, fun hone => ⟨fun d => ?_, ?_, ?_⟩, ?_⟩
  · refine (same_of_isFor hloop).trans ?_
    rw [lowerFor_eq]
    refine (same_facts_bind _).trans ?_
    rw [hcalls]
    exact .refl _
  · exact Visits.beginLoop hone
  · exact fun _ _ => Visits.takeTurns hone
  · intro M V μ hsuits
    obtain ⟨_, _, _, _, _, _, _, _, _, hfits, _⟩ := hiterates
    have hfirst := hfits.binds.declaration
    exact ⟨fun _ _ _ _ => hsuits.remaining_eq hfirst hfits.loop hfits.body,
      hsuits.exists_runs hfirst hfits.loop hfits.body⟩

/-- The loop `l@ (for (a in 1) { break@l })`. -/
def loopWorld : World where
  tree :=
    { nodes := #[
        ⟨.forLoop ⟨1⟩ ⟨2⟩ (some ⟨3⟩), .detached⟩,
        ⟨.parameter ⟨some "a", none, none, []⟩, .detached⟩,
        ⟨.constant, .detached⟩,
        ⟨.block [⟨6⟩], .detached⟩,
        ⟨.labeled "l" ⟨5⟩, .detached⟩,
        ⟨.parenthesized ⟨0⟩, .detached⟩,
        ⟨.breakJump (some "l"), .detached⟩]
      files := [] }
  facts := #[
    { loop := some {
        iterator := ⟨⟨13⟩, [], some (.expression ⟨2⟩), none, [], [], Builtin.anyType⟩
        hasNext := ⟨⟨14⟩, [], some (.expression ⟨2⟩), none, [], [], Builtin.booleanType⟩
        next := ⟨⟨15⟩, [], some (.expression ⟨2⟩), none, [], [], Builtin.intType⟩ } },
    { declares := some ⟨16⟩ },
    { type := some Builtin.intType, constant := some (.scalar (.int 1)) }]
  declared := #[
    ⟨"iterator", [], none, .everywhere, [], .function { returnType := Builtin.anyType }⟩,
    ⟨"hasNext", [], none, .everywhere, [], .function { returnType := Builtin.booleanType }⟩,
    ⟨"next", [], none, .everywhere, [], .function { returnType := Builtin.intType }⟩,
    ⟨"a", [], none, .inBody, [], .property ⟨Builtin.intType, false, true, false, false, .final,
      none, none, [], none, none⟩⟩]
  types := #[]

/-- Some numbers are left, and one was taken last. A declaration takes the next one, and an
expression leaves the loop where that is 2. -/
def loopNumbers : Traversal (List Nat × Option Nat) Nat where
  remaining m := m.1
  value? m _ := m.2
  test _ m b m' := m' = m ∧ b = !m.1.isEmpty
  step
    | .declaration _, m, f, m' => f = .done ∧ m' = (m.1.tail, m.1.head?)
    | .expression _, m, f, m' => f = (if m.2 = some 2 then .leave ⟨0⟩ else .done) ∧ m' = m

/-- The loop takes some of the numbers 1, 2 and 3, in their order, and leaves the others. -/
theorem State.loop_iterates_loopWorld :
    let σ : Setting := ⟨loopWorld, {}⟩
    let r := (expressionStep (descent 4) [] ⟨4⟩).runFrom σ {}
    ∃ e calls condition i, r.1 = .ok e ∧
      Iterates σ (descent 4) [] {} r.2 calls ⟨⟨0⟩, some "l", ⟨1⟩, ⟨2⟩, some ⟨3⟩⟩ condition i e ∧
      (∀ head target, Visits σ [([.loop target], ⟨6⟩)] fun d =>
        takeTurns d [] calls ⟨⟨0⟩, some "l", ⟨1⟩, ⟨2⟩, some ⟨3⟩⟩ head target) ∧
      loopNumbers.Suits r.2.store condition i.next i.others ∧
      ∃ vs ending m', loopNumbers.Runs r.2.store i.element i.loop ([1, 2, 3], none) vs ending m' ∧
        [1, 2, 3] = vs ++ m'.1 ∧ (ending = none → m'.1 = []) := by
  intro σ r
  obtain ⟨e, hrun⟩ : ∃ e, r = (.ok e, r.2) := exists_ok (by decide +kernel)
  obtain ⟨calls, condition, i, hcalls, hiterates, hvisits, hruns⟩ :=
    @loop_iterates σ {} _ (Apt.start σ) 4 [] ⟨4⟩ _ e (.labelled rfl rfl) hrun
  cases hcalls
  have hothers : i.others = [.expression ⟨6⟩] := by
    obtain ⟨_, _, _, _, _, _, _, _, _, hfits, he⟩ := hiterates
    have hresult : r.1.toOption = some ⟨10⟩ := by decide +kernel
    have hblock : r.2.store.kind? ⟨10⟩ = some (.block [.declaration ⟨0⟩, .expression ⟨9⟩]) := by
      decide +kernel
    have hwhile : r.2.store.kind? ⟨9⟩ = some (.whileLoop ⟨0⟩ ⟨3⟩ ⟨8⟩) := by decide +kernel
    have hbody : r.2.store.kind? ⟨8⟩ = some (.block [.declaration ⟨1⟩, .expression ⟨6⟩]) := by
      decide +kernel
    rw [hrun] at hresult
    obtain rfl : e = ⟨10⟩ := Option.some.inj hresult
    obtain ⟨-, hloop⟩ : _ ∧ i.loop = ⟨9⟩ := by simpa using he.symm.trans hblock
    have hkind := hfits.loop
    rw [hloop, hwhile] at hkind
    have hstatements := hfits.body
    rw [← (ExprKind.whileLoop.inj (Option.some.inj hkind)).2.2, hbody] at hstatements
    exact (List.cons.inj (ExprKind.block.inj (Option.some.inj hstatements))).2.symm
  have hsuits : loopNumbers.Suits r.2.store condition i.next i.others := by
    refine ⟨fun h => ⟨by rw [h.1], by simp [h.2, loopNumbers]⟩, fun _ hm h => ?_,
      fun st hst _ _ _ h => ?_⟩
    · obtain ⟨rfl, rfl⟩ := h
      simp only [loopNumbers] at hm
      simp [loopNumbers, hm]
    · rw [hothers, List.mem_singleton] at hst
      subst hst
      exact congrArg Prod.fst h.2
  obtain ⟨hall, hsome⟩ := hruns _ _ loopNumbers hsuits
  obtain ⟨vs, ending, m', h⟩ := hsome (fun m => ⟨_, _, rfl, rfl⟩) (fun st m => by
    cases st <;> exact ⟨_, _, rfl, rfl⟩) ([1, 2, 3], none)
  exact ⟨e, _, condition, i, congrArg Prod.fst hrun, hiterates, (hvisits (by decide)).2.2, hsuits,
    vs, ending, m', h, hall _ _ _ _ h⟩

end TypedTree
