import TypedTree.Proofs.LambdaLabel
import TypedTree.Proofs.Update

namespace TypedTree

open Lower

/-- Whenever the first node is lowered, the second one is lowered too. -/
def Setting.Involves (σ : Setting) (outer inner : NodeId) : Prop :=
  ∀ fuel scope s e s', State.Apt σ s →
    ((descent fuel).expr scope outer).runFrom σ s = (.ok e, s') →
    ∃ fuel scope e, State.Gives σ (descent fuel) scope s s' inner e

theorem Setting.Involves.refl {σ : Setting} (node : NodeId) : σ.Involves node node :=
  fun fuel scope s e s' hs hrun => ⟨fuel, scope, e, s, s', .refl s, hs, hrun, .refl s'⟩

theorem State.Gives.involved {outer inner : NodeId}
    (h : Gives σ (descent fuel) scope s s' outer e)
    (hinvolves : σ.Involves outer inner) :
    ∃ fuel scope e, Gives σ (descent fuel) scope s s' inner e := by
  obtain ⟨s1, s2, h1, hs1, hrun, h2⟩ := h
  obtain ⟨fuel, scope, e, hgives⟩ := hinvolves _ _ _ _ _ hs1 hrun
  exact ⟨fuel, scope, e, hgives.within h1 h2⟩

theorem Lower.runFrom_stripParentheses {id : NodeId} (n : Nat)
    (hrun : ((descent fuel).expr scope id).runFrom σ s = (.ok e, s')) :
    ∃ fuel, ((descent fuel).expr scope (σ.world.tree.stripParentheses n id)).runFrom σ s =
      (.ok e, s') := by
  induction n generalizing fuel id with
  | zero => exact ⟨fuel, hrun⟩
  | succ n ih =>
    unfold SourceTree.stripParentheses
    split
    next inner span hn =>
      cases fuel with
      | zero => cases hrun
      | succ fuel => exact ih ((same_node_bind hn _ s).symm.trans hrun)
    next => exact ⟨fuel, hrun⟩

/-- The only receiver that is written is lowered, and the access goes through it. -/
theorem ResolvedCall.Accesses.through {s s' : State} {call : ResolvedCall} {node : NodeId}
    (h : call.Accesses σ d scope s s' none access) (hwritten : call.writtenReceivers = [node]) :
    ∃ r, State.Gives σ d scope s s' node r ∧ call.Through r access := by
  have hreceives {node : NodeId} {receiver : Option ExprId}
      (h : State.Receives σ d scope s s' none node receiver) :
      ∃ r, State.Gives σ d scope s s' node r ∧ receiver = some r := by
    obtain ⟨r, hr, h | h⟩ := h
    · cases h
    · exact ⟨r, h.2, hr⟩
  unfold ResolvedCall.writtenReceivers at hwritten
  cases hx : call.extensionReceiver.bind (·.written?) with
  | some node' =>
    cases hw : call.dispatchReceiver.bind (·.written?) with
    | some _ => simp [hx, hw] at hwritten
    | none =>
      obtain rfl : node' = node := by simpa [hx, hw] using hwritten
      obtain ⟨r, hgives, hr⟩ := hreceives (h.extension node' hx)
      exact ⟨r, hgives, fun _ => hr, by simp [hw]⟩
  | none =>
    have hw : call.dispatchReceiver.bind (·.written?) = some node := by
      cases hw : call.dispatchReceiver.bind (·.written?) with
      | some _ => simpa [hx, hw] using hwritten
      | none => simp [hx, hw] at hwritten
    have hdispatch := h.dispatch node hw
    rw [explicitAfter_none] at hdispatch
    obtain ⟨r, hgives, hr⟩ := hreceives hdispatch
    exact ⟨r, hgives, by simp [hx], fun _ => hr⟩

namespace Yields

variable {σ : Setting} {s : State}

section descent

variable {d : Descent} (hd : d.Naming σ) {scope : Scope}

include hd

theorem buildCallWritten {call : ResolvedCall} {node : NodeId} {type : TreeType}
    (hwritten : call.writtenReceivers = [node]) :
    Brings σ s (Lower.buildCall d scope call type {}) fun s' _ =>
      ∃ r, State.Gives σ d scope s s' node r := by
  refine .bind (accesses hd) fun access s1 _ _ haccess => ?_
  obtain ⟨r, hr, _⟩ := haccess.through hwritten
  refine .descriptor_bind fun candidate _ => ?_
  split
  next =>
    exact (work Tidy.addExpr).imp_le fun _ _ h' _ => ⟨r, hr.within (.refl s) h'⟩
  next =>
    have hrest (built : List Statement × List (Option ExprId)) :
        Tidy σ (do Lower.withPrelude built.1 (← Lower.addExpr type (.call access built.2))) :=
      Tidy.addExpr.bind fun _ => Tidy.withPrelude
    exact (work ((Tidy.lowerArguments hd.tidy).bind hrest)).imp_le
      fun _ _ h' _ => ⟨r, hr.within (.refl s) h'⟩

theorem assignMember {access : ResolvedCall}
    (htarget : σ.world.tree.node? target = some ⟨.qualified receiver selector false, span⟩)
    (haccess : (σ.world.factsOf (σ.world.tree.deparenthesize selector)).call = some access)
    (hwritten : access.writtenReceivers = [receiver]) :
    Brings σ s (Lower.assignTo d scope target value) fun s' e =>
      ∃ r member, State.Gives σ d scope s s' receiver r ∧ access.Through r member ∧
        s'.store.kind? e = some (.assignment member value) := by
  refine .node_bind fun n hn => ?_
  cases htarget.symm.trans hn
  refine .deparenthesize_bind ((assignName hd).imp fun _ _ _ hassigns => ?_)
  obtain ⟨member, hmember, hkind⟩ := hassigns
  cases hmember with
  | call hcall hmember =>
    cases haccess.symm.trans hcall
    obtain ⟨r, hr, hthrough⟩ := hmember.through hwritten
    exact ⟨r, member, hr, hthrough, hkind⟩
  | target hnone => cases haccess.symm.trans hnone

end descent

end Yields

section member

variable {σ : Setting} {left receiver selector : NodeId} {span : Span} {access : ResolvedCall}
  (htarget : σ.world.tree.node? (σ.world.tree.deparenthesize left) =
    some ⟨.qualified receiver selector false, span⟩)
  (haccess : (σ.world.factsOf (σ.world.tree.deparenthesize selector)).call = some access)
  (hwritten : access.writtenReceivers = [receiver])

include htarget haccess hwritten

theorem Setting.involves_receiver : σ.Involves left receiver := by
  intro fuel scope s e s' hs hrun
  obtain ⟨fuel, hrun⟩ := runFrom_stripParentheses σ.world.tree.nodes.size hrun
  cases fuel with
  | zero => cases hrun
  | succ fuel =>
    have hrun := (same_node_bind htarget _ s).symm.trans hrun
    have hlowers : Brings σ s
        (lowerQualified (descent fuel) scope (σ.world.tree.deparenthesize left) receiver selector
          false) fun s' _ => ∃ scope r, State.Gives σ (descent fuel) scope s s' receiver r := by
      refine .deparenthesize_bind (.bind (.work Tidy.expressionType) fun type s1 h1 _ _ => ?_)
      refine .facts_bind (.node_bind fun n _ => ?_)
      rw [haccess]
      have hcall (scope : Scope) : Brings σ s1
          (buildCall (descent fuel) scope access type {}) fun s' _ =>
            ∃ scope r, State.Gives σ (descent fuel) scope s s' receiver r :=
        (Yields.buildCallWritten (Naming.descent fuel) hwritten).imp
          fun s' _ _ ⟨r, hr⟩ => ⟨scope, r, hr.within h1 (.refl s')⟩
      cases n.kind with
      | call _ _ => exact .descriptor_bind fun _ _ => hcall _
      | _ => exact hcall scope
    obtain ⟨scope, r, hr⟩ := hlowers.of_ran hs hrun
    exact ⟨fuel, scope, r, hr⟩

theorem Visits.assignMember :
    Visits σ [(scope, receiver)]
      fun d => assignTo d scope (σ.world.tree.deparenthesize left) value := by
  refine .node_bind fun n hn => ?_
  cases htarget.symm.trans hn
  refine .deparenthesize_bind ?_
  simpa [Setting.assignedReceivers, haccess, hwritten] using
    @Visits.assignName σ scope (σ.world.tree.deparenthesize selector) value none

/-- The receiver of the member is lowered inside the operand, and after that for the store. -/
theorem Yields.assignOperation {fuel : Nat} {scope : Scope} {s : State} {id : NodeId}
    {operator : ResolvedCall} (hoperator : (σ.world.factsOf id).call = some operator)
    (hoperand : operator.writtenReceivers = [left]) :
    Brings σ s (do
      let call ← Lower.required (σ.world.factsOf id).call "resolved operator call" id
      let type ← Lower.convert call.result
      Lower.assignTo (Lower.descent fuel) scope (σ.world.tree.deparenthesize left)
        (← Lower.buildCall (Lower.descent fuel) scope call type {})) fun s' e =>
      ∃ fuel' scope' s1 r1 r2 member value,
        State.Gives σ (Lower.descent fuel') scope' s s1 receiver r1 ∧
        State.Gives σ (Lower.descent fuel) scope s1 s' receiver r2 ∧ access.Through r2 member ∧
        s'.store.kind? e = some (.assignment member value) := by
  refine .required_bind fun call hcall => ?_
  cases hoperator.symm.trans hcall
  refine .bind (.work Tidy.convert) fun type s1 h1 _ _ => ?_
  refine .bind (.buildCallWritten (Naming.descent fuel) hoperand)
    fun value s2 _ _ ⟨operand, hleft⟩ => ?_
  obtain ⟨fuel', scope', r1, hr1⟩ :=
    hleft.involved (Setting.involves_receiver htarget haccess hwritten)
  refine (Yields.assignMember (Naming.descent fuel) htarget haccess hwritten).imp
    fun s' e _ ⟨r2, member, hr2, hmember⟩ => ?_
  exact ⟨fuel', scope', s2, r1, r2, member, value, hr1.within h1 (.refl s2), hr2, hmember⟩

end member

/-- A compound assignment to a member lowers the receiver of the member twice: inside the operand of
the operator, and then for the store. So it never succeeds where the receiver has a lambda in it,
which can be declared only once. -/
theorem State.compoundAssignment_receiver_twice {σ : Setting} {scope : Scope}
    {id left receiver selector : NodeId} {right : Option NodeId} {op : BinaryOp}
    {span span' : Span} {operator access : ResolvedCall}
    (hn : σ.world.tree.node? id = some ⟨.binary op left right, span⟩) (hop : op.isAugmented)
    (hplain : (σ.world.factsOf id).isOperatorAssignment = false)
    (htarget : σ.world.tree.node? (σ.world.tree.deparenthesize left) =
      some ⟨.qualified receiver selector false, span'⟩)
    (hoperator : (σ.world.factsOf id).call = some operator)
    (hoperand : operator.writtenReceivers = [left])
    (haccess : (σ.world.factsOf (σ.world.tree.deparenthesize selector)).call = some access)
    (hreceiver : access.writtenReceivers = [receiver]) :
    Visits σ ((scope, left) :: operator.argumentVisits σ scope ++ [(scope, receiver)])
      (fun d => expressionStep d scope id) ∧
    (∀ fuel s e s', s.Apt σ →
      (expressionStep (descent fuel) scope id).runFrom σ s = (.ok e, s') →
      ∃ fuel' scope' s1 r1 r2 member value, Gives σ (descent fuel') scope' s s1 receiver r1 ∧
        Gives σ (descent fuel) scope s1 s' receiver r2 ∧ access.Through r2 member ∧
        s'.store.kind? e = some (.assignment member value)) ∧
    ∀ lambda parameters body span desc, σ.Involves receiver lambda →
      σ.world.tree.node? lambda = some ⟨.lambda parameters body, span⟩ →
      (σ.world.factsOf lambda).declares = some desc → ∀ fuel s e s', s.Apt σ →
      (expressionStep (descent fuel) scope id).runFrom σ s ≠ (.ok e, s') := by
  have hsame (d : Descent) :=
    @same_augmented σ d scope id span op left right _ hn hop hplain htarget
  have htwice (fuel : Nat) (s : State) (e : ExprId) (s' : State) (hs : s.Apt σ)
      (hrun : (expressionStep (descent fuel) scope id).runFrom σ s = (.ok e, s')) :=
    (Yields.assignOperation htarget haccess hreceiver hoperator hoperand).of_ran hs
      ((hsame (descent fuel) s).symm.trans hrun)
  refine ⟨?_, htwice, ?_⟩
  · refine Visits.of_same (.required_bind fun call hcall => ?_) hsame
    cases hoperator.symm.trans hcall
    refine .after _ fun type => .bind ?_ fun _ => .assignMember htarget haccess hreceiver
    simpa [hoperand] using @Visits.buildCall σ scope operator type {}
  · intro lambda parameters body span desc hinvolves hlambda hdesc fuel s e s' hs hrun
    obtain ⟨fuel1, scope1, s1, r1, r2, _, _, hfirst, hsecond, _⟩ := htwice fuel s e s' hs hrun
    obtain ⟨fuel2, scope2, e2, s2, s3, _, hs2, hrun2, h3⟩ := hfirst.involved hinvolves
    obtain ⟨fuel4, scope4, e4, s4, s5, h4, hs4, hrun4, _⟩ := hsecond.involved hinvolves
    have hdeclared := (lambda_lowered hlambda hs2 hrun2).2 desc hdesc
    have hnone := (lambda_lowered hlambda hs4 hrun4).2 desc hdesc
    have hsome := isDeclared_mono (h3.trans h4) hdeclared.2
    rw [hnone.1] at hsome
    cases hsome

/-- The compound assignment `r.count += step`, where `r` may be any node. -/
def memberWorld (r : NodeKind) (facts : NodeFacts) : World where
  tree :=
    { nodes := #[
        ⟨.binary .plusAssign ⟨1⟩ (some ⟨4⟩), .detached⟩,
        ⟨.qualified ⟨2⟩ ⟨3⟩ false, .detached⟩,
        ⟨r, .detached⟩,
        ⟨.nameReference "count", .detached⟩,
        ⟨.nameReference "step", .detached⟩,
        ⟨.block [], .detached⟩]
      files := [] }
  facts := #[
    { call := some ⟨⟨13⟩, [], some (.expression ⟨1⟩), none, [.expression ⟨4⟩], [],
        Builtin.intType⟩ },
    {},
    facts,
    { type := some Builtin.intType
      call := some ⟨⟨14⟩, [], some (.expression ⟨2⟩), none, [], [], Builtin.intType⟩ },
    { type := some Builtin.intType, target := some ⟨15⟩ }]
  declared := #[
    ⟨"plus", [], none, .everywhere, [], .function { returnType := Builtin.intType }⟩,
    ⟨"count", [], none, .everywhere, [], .property ⟨Builtin.intType, true, false, false, false,
      .final, none, none, [], none, none⟩⟩,
    ⟨"step", [], none, .everywhere, [], .property ⟨Builtin.intType, true, false, false, false,
      .final, none, none, [], none, none⟩⟩,
    ⟨"<anonymous>", [], none, .inBody, [], .function { returnType := Builtin.unitType }⟩]
  types := #[]

theorem State.compoundAssignment_receiver_twice_memberWorld :
    let σ : Setting := ⟨memberWorld (.nameReference "step")
      { type := some Builtin.intType, target := some ⟨15⟩ }, {}⟩
    let τ : Setting := ⟨memberWorld (.lambda [] ⟨5⟩)
      { type := some Builtin.anyType, declares := some ⟨16⟩ }, {}⟩
    let r := (expressionStep (descent 4) [] ⟨0⟩).runFrom σ {}
    State.Apt σ {} ∧
      Visits σ [([], ⟨1⟩), ([], ⟨4⟩), ([], ⟨2⟩)] (fun d => expressionStep d [] ⟨0⟩) ∧
      (∃ e fuel scope s1 r1 r2, r.1 = .ok e ∧ Gives σ (descent fuel) scope {} s1 ⟨2⟩ r1 ∧
        Gives σ (descent 4) [] s1 r.2 ⟨2⟩ r2) ∧
      ∀ fuel e s', (expressionStep (descent fuel) [] ⟨0⟩).runFrom τ {} ≠ (.ok e, s') := by
  intro σ τ r
  obtain ⟨e, hrun⟩ : ∃ e, r = (.ok e, r.2) := exists_ok (by decide +kernel)
  obtain ⟨hvisits, htwice, _⟩ := @compoundAssignment_receiver_twice σ [] ⟨0⟩ ⟨1⟩ ⟨2⟩ ⟨3⟩
    (some ⟨4⟩) .plusAssign .detached .detached _ _ rfl rfl rfl rfl rfl rfl rfl rfl
  obtain ⟨fuel, scope, s1, r1, r2, _, _, hfirst, hsecond, _⟩ :=
    htwice 4 {} e r.2 (Apt.start σ) hrun
  obtain ⟨_, _, hnever⟩ := @compoundAssignment_receiver_twice τ [] ⟨0⟩ ⟨1⟩ ⟨2⟩ ⟨3⟩
    (some ⟨4⟩) .plusAssign .detached .detached _ _ rfl rfl rfl rfl rfl rfl rfl rfl
  exact ⟨Apt.start σ, hvisits,
    ⟨e, fuel, scope, s1, r1, r2, congrArg Prod.fst hrun, hfirst, hsecond⟩,
    fun fuel e s' => hnever ⟨2⟩ [] ⟨5⟩ .detached ⟨16⟩ (.refl _) rfl rfl fuel {} e s' (Apt.start τ)⟩

/-- The lambda in `{ }.count += step` is declared by the operand, and the store finds it declared
already. -/
theorem State.compoundAssignment_lambda_alreadyBound :
    ((expressionStep (descent 4) [] ⟨0⟩).runFrom ⟨memberWorld (.lambda [] ⟨5⟩)
      { type := some Builtin.anyType, declares := some ⟨16⟩ }, {}⟩ {}).1 =
        .error (.alreadyBound (.symbolBound "<anonymous>" ⟨0⟩ ⟨1⟩)) := by
  decide +kernel

end TypedTree
