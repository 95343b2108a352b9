import TypedTree.Proofs.Splicing
import TypedTree.Proofs.Update

namespace TypedTree

open Lower

def World.destructured? (w : World) (parameter : NodeId) : Option (List NodeId) :=
  match w.tree.node? parameter with
  | some ⟨.parameter { destructuring := some pattern, .. }, _⟩ =>
    match w.tree.node? pattern with
    | some ⟨.destructuring entries _, _⟩ => some entries
    | _ => none
  | _ => none

/-- The nodes that a component goes into: of the receivers that are written for it, the first one
gives its place to the container. -/
def Setting.componentVisits (σ : Setting) (scope : Scope) (entry : NodeId) : List Visit :=
  match σ.world.tree.node? entry with
  | some ⟨.destructuringEntry (some _), _⟩ =>
    (σ.world.factsOf entry).component.elim [] (·.writtenReceivers.drop 1 |>.map (scope, ·))
  | _ => []

namespace State

/-- One step after the other, from each state to the next. -/
inductive InTurn {α β : Type} (R : State → State → α → β → Prop) :
    State → State → List α → List β → Prop
  | nil {s} : InTurn R s s [] []
  | cons {s s1 s' x xs y ys} : R s s1 x y → InTurn R s1 s' xs ys →
      InTurn R s s' (x :: xs) (y :: ys)

/-- What becomes of an entry of a destructuring. One without a name adds nothing and leaves the
state as it is. A named one declares the local property of its own descriptor, and the value is its
own component call on a read of the container that is new. -/
inductive Component (σ : Setting) (d : Descent) (scope : Scope) (container : SymbolId) :
    State → State → NodeId → Option Statement → Prop
  | unnamed {s entry span} :
      σ.world.tree.node? entry = some ⟨.destructuringEntry none, span⟩ →
      Component σ d scope container s s entry none
  | named {s s' entry name span call desc c decl symbol property value read} :
      σ.world.tree.node? entry = some ⟨.destructuringEntry (some name), span⟩ →
      (σ.world.factsOf entry).component = some call →
      (σ.world.factsOf entry).declares = some desc → σ.world.descriptor? desc = some c →
      s.declared? (c.symbolKind, desc) = none → s'.declared? (c.symbolKind, desc) = some decl →
      s'.store.decl? decl = some ⟨symbol, .source, [], .property property⟩ →
      property.isLocal → property.initializer = some value → s.store.expr? read = none →
      s'.store.kind? read = some (.read (.plain container)) →
      call.IsCall σ d scope s s' (some read) [] value →
      Component σ d scope container s s' entry (some (.declaration decl))

/-- A parameter of a lambda is declared, and if it is destructured then its components are read
from it. -/
def UnpacksParameter (σ : Setting) (d : Descent) (scope : Scope) (s s' : State)
    (parameter : NodeId) (lowered : DeclId × List Statement) : Prop :=
  ∃ s1, (lowerValueParameter d scope parameter).runFrom σ s = (.ok lowered.1, s1) ∧
    match σ.world.destructured? parameter with
    | none => s' = s1 ∧ lowered.2 = []
    | some entries => ∃ x added, s1.store.decl? lowered.1 = some x ∧
        InTurn (Component σ d scope x.symbol) s1 s' entries added ∧ lowered.2 = added.filterMap id

end State

namespace Yields

variable {σ : Setting} {s : State}

theorem inTurn {I : State → Prop} {α β : Type} {xs : List α} {f : α → Lower β}
    {R : State → State → α → β → Prop}
    (h : ∀ x s, Yields σ I s (f x) fun s' y => R s s' x y) :
    Yields σ I s (xs.mapM f) fun s' ys => State.InTurn R s s' xs ys := by
  induction xs generalizing s with
  | nil => exact pure .nil
  | cons x xs ih =>
    rw [List.mapM_cons]
    refine bind (h x s) fun y s1 _ _ hy => ?_
    exact bind ih fun ys s2 _ _ hys => pure (.cons hy hys)

theorem componentProperty {desc : DescId} {type : TreeType} {value : ExprId} :
    Brings σ s (Lower.componentProperty desc type value) fun _ property =>
      property.isLocal ∧ property.initializer = some value := by
  refine .descriptor_bind fun _ _ => ?_
  split
  next => exact .bind (work Tidy.convert) fun _ _ _ _ _ => .pure ⟨rfl, rfl⟩
  next => exact .pure ⟨rfl, rfl⟩

theorem destructuredEntries_bind {β : Type} {Q : State → β → Prop} {parameter pattern : NodeId}
    {p : ParameterNode} {span : Span} {k : List NodeId → Lower β}
    (hn : σ.world.tree.node? parameter = some ⟨.parameter p, span⟩)
    (hp : p.destructuring = some pattern)
    (h : ∀ entries, σ.world.destructured? parameter = some entries →
      Brings σ s (k entries) Q) :
    Brings σ s (Lower.destructuredEntries pattern >>= k) Q := by
  obtain ⟨name, defaultValue, destructuring, annotations⟩ := p
  cases hp
  simp only [Lower.destructuredEntries, bind_assoc]
  refine .node_bind fun n hpattern => ?_
  obtain ⟨kind, span⟩ := n
  unfold World.destructured? at h
  rw [hn] at h
  simp only [hpattern] at h
  cases kind with
  | destructuring entries _ => exact h entries rfl
  | _ => exact .bind (P := fun _ _ => False) unexpected fun _ _ _ _ h => h.elim

section descent

variable {d : Descent} (hd : d.Naming σ) {scope : Scope}

include hd

theorem lowerComponent {container : Temporary} {entry : NodeId} :
    Brings σ s (Lower.lowerComponent d scope container entry) fun s' added =>
      State.Component σ d scope container.symbol s s' entry added := by
  refine .node_bind fun n hn => ?_
  obtain ⟨kind, span⟩ := n
  cases kind with
  | destructuringEntry name =>
    cases name with
    | none => exact .pure (.unnamed hn)
    | some name =>
      refine .facts_bind (.required_bind fun call hcall => .declared_bind fun desc hdesc => ?_)
      refine .bind denotes fun symbol s1 h1 _ ⟨c, hc, hsymbol⟩ => ?_
      refine .bind readsNew fun read s2 h2 _ ⟨hnew, hread⟩ => ?_
      refine .bind (work Tidy.convert) fun _ s3 h3 _ _ => ?_
      refine .bind (isCall hd) fun value s4 h4 _ hvalue => ?_
      refine .bind componentProperty fun property s5 h5 _ ⟨hlocal, hinitializer⟩ => ?_
      have h25 := h3.trans (h4.trans h5)
      refine .bind (declareOnce ((h2.trans h25).keyOf? hsymbol))
        fun decl s6 h6 _ ⟨hnone, hdeclared, hdecl⟩ => .pure ?_
      exact .named hn hcall hdesc hc (State.undeclared_mono (h1.trans (h2.trans h25)).table hnone)
        hdeclared hdecl hlocal hinitializer (h1.expr?_eq_none hnew)
        ((h25.trans h6).kind? hread)
        (hvalue.within (h1.trans (h2.trans h3)) (h5.trans h6))
  | _ => exact unexpected

theorem lowerComponents {container : Temporary} {entries : List NodeId} :
    Brings σ s (Lower.lowerComponents d scope container entries) fun s' statements =>
      ∃ added, State.InTurn (State.Component σ d scope container.symbol) s s' entries added ∧
        statements = added.filterMap id :=
  .bind (inTurn fun _ _ => lowerComponent hd) fun added _ _ _ hadded => .pure ⟨added, hadded, rfl⟩

theorem lowerDestructuring {entries : List NodeId} {initializer : Option NodeId} :
    Brings σ s (Lower.lowerDestructuring d scope entries initializer) fun s' e =>
      ∃ value container added s1 s2, s.Le s1 ∧
        (∀ node ∈ initializer, State.Gives σ d scope s s1 node value) ∧
        s1.Introduces "<destruct>" container value ∧
        State.InTurn (State.Component σ d scope container.symbol) s1 s2 entries added ∧ s2.Le s' ∧
        s'.store.kind? e = some (.block (container.statement :: added.filterMap id)) := by
  refine .bind (givesOptional hd) fun value s1 h1 _ hvalue => ?_
  refine .bind hold fun container s2 h2 _ ⟨hheld, _⟩ => ?_
  refine .bind (lowerComponents hd) ?_
  rintro _ s3 h3 _ ⟨added, hadded, rfl⟩
  refine block.imp_le fun s4 e h4 he => ?_
  exact ⟨value, container, added, s2, s3, h1.trans h2,
    fun node hnode => (hvalue node hnode).within (.refl s) h2, hheld, hadded, h4, he⟩

theorem lowerLoopParameter {parameter : NodeId} {entries : List NodeId} {next : ExprId}
    (hentries : σ.world.destructured? parameter = some entries) :
    Brings σ s (Lower.lowerLoopParameter d scope parameter next) fun s' statements =>
      ∃ container added s1, s.Le s1 ∧ s1.Introduces "<destruct>" container next ∧
        State.InTurn (State.Component σ d scope container.symbol) s1 s' entries added ∧ s1.Le s' ∧
        statements = container.statement :: added.filterMap id := by
  refine .node_bind fun n hn => ?_
  split
  next _ _ pattern _ hkind =>
    obtain ⟨_, span⟩ := n
    cases hkind
    refine destructuredEntries_bind hn rfl fun entries' hentries' => ?_
    cases hentries.symm.trans hentries'
    refine .bind hold fun container s1 h1 _ ⟨hheld, _⟩ => ?_
    refine .bind (lowerComponents hd) ?_
    rintro _ s2 h2 _ ⟨added, hadded, rfl⟩
    exact .pure ⟨container, added, s1, h1, hheld, hadded, h2, rfl⟩
  next hkind =>
    obtain ⟨_, span⟩ := n
    cases hkind
    simp [World.destructured?, hn] at hentries
  next => exact unexpected

theorem lowerLambdaParameter {parameter : NodeId} :
    Brings σ s (Lower.lowerLambdaParameter d scope parameter) fun s' lowered =>
      State.UnpacksParameter σ d scope s s' parameter lowered := by
  refine .bind (does (Tidy.lowerValueParameter hd.tidy)) fun decl s1 _ _ hrun => ?_
  refine .node_bind fun n hn => ?_
  split
  next _ _ pattern _ hkind =>
    obtain ⟨_, span⟩ := n
    cases hkind
    refine destructuredEntries_bind hn rfl fun entries hentries => ?_
    simp only [Lower.decl, declaredType, bind_assoc, pure_bind]
    refine .get_bind (.present_bind fun x hx => .get_bind (.present_bind fun y _ => ?_))
    split
    next => exact unexpected
    next type _ =>
      refine .bind (lowerComponents hd) ?_
      rintro _ s2 _ _ ⟨added, hadded, rfl⟩
      refine .pure ⟨s1, hrun, ?_⟩
      rw [hentries]
      exact ⟨x, added, hx, hadded, rfl⟩
  next hkind =>
    have hnone : σ.world.destructured? parameter = none := by
      unfold World.destructured?
      rw [hn]
      split
      next hparameter =>
        cases hparameter
        exact (hkind _ _ _ _ rfl).elim
      next => rfl
    refine .pure ⟨s1, hrun, ?_⟩
    rw [hnone]
    exact ⟨rfl, rfl⟩

theorem lowerLambdaParameters {parameters : List NodeId} :
    Brings σ s (Lower.lowerLambdaParameters d scope parameters) fun s' lowered =>
      ∃ each, State.InTurn (State.UnpacksParameter σ d scope) s s' parameters each ∧
        lowered.2 = each.flatMap (·.2) :=
  .bind (inTurn fun _ _ => lowerLambdaParameter hd) fun each _ _ _ hall => .pure ⟨each, hall, rfl⟩

end descent

end Yields

namespace Visits

variable {σ : Setting} {scope : Scope}

theorem lowerComponent {container : Temporary} {entry : NodeId} :
    Visits σ (σ.componentVisits scope entry) fun d =>
      Lower.lowerComponent d scope container entry := by
  refine node_bind fun n hn => ?_
  obtain ⟨kind, span⟩ := n
  unfold Setting.componentVisits
  rw [hn]
  cases kind with
  | destructuringEntry name =>
    cases name with
    | none => exact work _
    | some name =>
      refine facts_bind (required_bind fun call hcall => ?_)
      rw [hcall]
      refine after _ fun desc => after _ fun symbol => after _ fun r => after _ fun type => ?_
      refine before ?_ _
      simpa [Lower.callOn] using @buildCall σ scope call type ⟨some r, some []⟩
  | _ => exact work _

theorem lowerComponents {container : Temporary} {entries : List NodeId} :
    Visits σ (entries.flatMap (σ.componentVisits scope)) fun d =>
      Lower.lowerComponents d scope container entries :=
  (mapM fun _ _ => lowerComponent).before _

theorem lowerOptional {node : Option NodeId} {what : String} :
    Visits σ (node.toList.map (scope, ·)) fun d => Lower.lowerOptional d scope node what := by
  cases node with
  | none => exact work _
  | some node => exact visit scope node

theorem lowerDestructuring {entries : List NodeId} {initializer : Option NodeId} :
    Visits σ (initializer.toList.map (scope, ·) ++ entries.flatMap (σ.componentVisits scope))
      fun d => Lower.lowerDestructuring d scope entries initializer :=
  lowerOptional.bind fun _ => after _ fun _ => lowerComponents.before _

end Visits

theorem State.LambdaSpliced.unpacks {σ : Setting} {d : Descent} {scope : Scope} {s s' : State}
    {parameters : List NodeId} {body : NodeId} {e : ExprId}
    (h : LambdaSpliced σ d scope s s' parameters body e) (hd : d.Naming σ) :
    ∃ target block each rest s1 s2, s'.HasBody e block ∧
      s'.store.kind? block = some (.block (each.flatMap (·.2) ++ rest)) ∧ s.Le s1 ∧
      InTurn (UnpacksParameter σ d (.function target :: scope)) s1 s2 parameters each ∧
      s2.Le s' := by
  obtain ⟨target, before, parts, block, hbody, ⟨s1, s2, written, h1, hs1, hrun, h2⟩, _, hblock⟩ := h
  obtain ⟨each, hturn, hbefore⟩ := (Yields.lowerLambdaParameters hd).of_ran hs1 hrun
  change before = each.flatMap (·.2) at hbefore
  subst hbefore
  split at hblock
  next hempty =>
    obtain ⟨unit, τ, _, _, ⟨x, hx, hkind, _⟩, _⟩ := hblock
    refine ⟨target, block, each, [.expression unit], s1, s2, hbody, ?_, h1, hturn, h2⟩
    rw [(List.append_eq_nil_iff.1 hempty).1]
    simp [Store.kind?, hx, hkind]
  next =>
    obtain ⟨τ, ⟨⟨x, hx, hkind, _⟩, _⟩, _⟩ := hblock
    exact ⟨target, block, each, parts.flatMap (·.statements), s1, s2, hbody,
      by simp [Store.kind?, hx, hkind], h1, hturn, h2⟩

/-- A destructuring holds its value once, and then declares one local property for each named entry,
in their order: in a declaration, for the element of a loop, and for a parameter of a lambda, which
is the container itself. -/
theorem State.destructuring_components {σ : Setting} {s s' : State} (hs : s.Apt σ) {fuel : Nat}
    {scope : Scope} :
    (∀ pattern entries initializer span e,
      σ.world.tree.node? pattern = some ⟨.destructuring entries initializer, span⟩ →
      (expressionStep (descent fuel) scope pattern).runFrom σ s = (.ok e, s') →
      Visits σ (initializer.toList.map (scope, ·) ++ entries.flatMap (σ.componentVisits scope))
        (fun d => expressionStep d scope pattern) ∧
      ∃ value container added s1 s2, s.Le s1 ∧
        (∀ node ∈ initializer, Gives σ (descent fuel) scope s s1 node value) ∧
        s1.Introduces "<destruct>" container value ∧
        InTurn (Component σ (descent fuel) scope container.symbol) s1 s2 entries added ∧ s2.Le s' ∧
        s'.store.kind? e = some (.block (container.statement :: added.filterMap id))) ∧
    (∀ parameter entries next statements, σ.world.destructured? parameter = some entries →
      (lowerLoopParameter (descent fuel) scope parameter next).runFrom σ s =
        (.ok statements, s') →
      ∃ container added s1, s.Le s1 ∧ s1.Introduces "<destruct>" container next ∧
        InTurn (Component σ (descent fuel) scope container.symbol) s1 s' entries added ∧
        statements = container.statement :: added.filterMap id) ∧
    ∀ id parameters body label e,
      (lowerLambda (descent fuel) scope id parameters body label).runFrom σ s = (.ok e, s') →
      ∃ target block each rest s1 s2, s'.HasBody e block ∧
        s'.store.kind? block = some (.block (each.flatMap (·.2) ++ rest)) ∧ s.Le s1 ∧
        InTurn (UnpacksParameter σ (descent fuel) (.function target :: scope)) s1 s2 parameters
          each ∧ s2.Le s' := by
  have hd : (descent fuel).Naming σ := Naming.descent fuel
  refine ⟨fun pattern entries initializer span e hn hrun => ⟨?_, ?_⟩, ?_, ?_⟩
  · exact Visits.lowerDestructuring.of_same fun d => same_node_bind hn _
  · exact (Yields.lowerDestructuring hd).of_ran hs ((same_node_bind hn _ s).symm.trans hrun)
  · intro parameter entries next statements hentries hrun
    obtain ⟨container, added, s1, h1, hheld, hturn, _, hstatements⟩ :=
      (Yields.lowerLoopParameter hd hentries).of_ran hs hrun
    exact ⟨container, added, s1, h1, hheld, hturn, hstatements⟩
  · intro id parameters body label e hrun
    exact ((Yields.lowerLambda hd).of_ran hs hrun).2.2.unpacks hd

/-- The declaration `val (_, a) = 1`, and a lambda with the same pattern for its parameter. -/
def pairWorld : World where
  tree :=
    { nodes := #[
        ⟨.destructuring [⟨1⟩, ⟨2⟩] (some ⟨3⟩), .detached⟩,
        ⟨.destructuringEntry none, .detached⟩,
        ⟨.destructuringEntry (some "a"), .detached⟩,
        ⟨.constant, .detached⟩,
        ⟨.parameter ⟨none, none, some ⟨0⟩, []⟩, .detached⟩,
        ⟨.lambda [⟨4⟩] ⟨6⟩, .detached⟩,
        ⟨.block [], .detached⟩]
      files := [] }
  facts := #[
    {},
    {},
    { declares := some ⟨14⟩
      component := some ⟨⟨13⟩, [], some (.expression ⟨3⟩), none, [], [], Builtin.intType⟩ },
    { type := some Builtin.intType, constant := some (.scalar (.int 1)) },
    { declares := some ⟨15⟩ },
    { type := some Builtin.anyType, declares := some ⟨16⟩ }]
  declared := #[
    ⟨"component2", [], none, .everywhere, [], .function { returnType := Builtin.intType }⟩,
    ⟨"a", [], none, .inBody, [], .property ⟨Builtin.intType, false, true, false, false, .final,
      none, none, [], none, none⟩⟩,
    ⟨"<destruct>", [], none, .inBody, [], .valueParameter ⟨0, Builtin.intType, false,
      false, false, false⟩⟩,
    ⟨"<anonymous>", [], none, .inBody, [], .function { returnType := Builtin.unitType }⟩]
  types := #[]

theorem State.destructuring_components_pairWorld :
    let σ : Setting := ⟨pairWorld, {}⟩
    let r := (expressionStep (descent 4) [] ⟨0⟩).runFrom σ {}
    let l := (lowerLambda (descent 4) [] ⟨5⟩ [⟨4⟩] ⟨6⟩ none).runFrom σ {}
    Visits σ [([], ⟨3⟩)] (fun d => expressionStep d [] ⟨0⟩) ∧
      (∃ e container added s1 s2, r.1 = .ok e ∧
        InTurn (Component σ (descent 4) [] container) s1 s2 [⟨1⟩, ⟨2⟩] added) ∧
      ∃ e target each s1 s2, l.1 = .ok e ∧
        InTurn (UnpacksParameter σ (descent 4) [.function target]) s1 s2 [⟨4⟩] each := by
  intro σ r l
  obtain ⟨e, hrun⟩ : ∃ e, r = (.ok e, r.2) := exists_ok (by decide +kernel)
  obtain ⟨e', hrun'⟩ : ∃ e, l = (.ok e, l.2) := exists_ok (by decide +kernel)
  obtain ⟨hvisits, _, container, added, s1, s2, _, _, _, hturn, _⟩ :=
    (@destructuring_components σ {} _ (Apt.start σ) 4 []).1 ⟨0⟩ _ _ _ e rfl hrun
  obtain ⟨target, _, each, _, s3, s4, _, _, _, hturn', _⟩ :=
    (@destructuring_components σ {} _ (Apt.start σ) 4 []).2.2 ⟨5⟩ [⟨4⟩] ⟨6⟩ none e' hrun'
  exact ⟨hvisits, ⟨e, container.symbol, added, s1, s2, congrArg Prod.fst hrun, hturn⟩,
    e', target, each, s3, s4, congrArg Prod.fst hrun', hturn'⟩

end TypedTree
