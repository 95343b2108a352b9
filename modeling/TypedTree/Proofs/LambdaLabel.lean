import TypedTree.Proofs.Splicing
import TypedTree.Proofs.Visits

namespace TypedTree

open Lower

/-- A lambda has the label of its scope. It is declared once. -/
theorem State.lambda_lowered {σ : Setting} {lambda body : NodeId} {parameters : List NodeId}
    {span : Span} (hlambda : σ.world.tree.node? lambda = some ⟨.lambda parameters body, span⟩)
    {fuel : Nat} {scope : Scope} {s s' : State} {e : ExprId} (hs : s.Apt σ)
    (hrun : ((descent fuel).expr scope lambda).runFrom σ s = (.ok e, s')) :
    s'.Labelled e scope.implicitLabel ∧
      ∀ desc, (σ.world.factsOf lambda).declares = some desc →
        Declares s s' (.anonymousFunction, desc) := by
  cases fuel with
  | zero => cases hrun
  | succ fuel =>
    obtain ⟨hlabelled, hdeclares, _⟩ := (Yields.lowerLambda (Naming.descent fuel)).of_ran hs
      ((same_node_bind hlambda _ s).symm.trans hrun)
    exact ⟨hlabelled, hdeclares⟩

theorem Visits.qualifiedCall {σ : Setting} {scope : Scope} {id receiver selector : NodeId}
    {safe : Bool} : Visits σ (let name := σ.world.tree.deparenthesize selector
      if safe then
        (scope, receiver) :: (σ.selectorReceivers scope name).drop 1 ++
          σ.selectorArguments scope name
      else σ.selectorReceivers scope name ++ σ.selectorArguments scope name)
      fun d => lowerQualified d scope id receiver selector safe := by
  refine deparenthesize_bind ?_
  cases safe with
  | true =>
    simp only [if_true, safeReceiver, bind_assoc, pure_bind]
    refine (visit scope receiver).bind fun r => after _ fun type => after _ fun subject => ?_
    exact (@lowerSelector σ scope _ ⟨some subject, none⟩ rfl).before _
  | false => exact @lowerSelector σ scope _ {} rfl

/-- The name of the callee labels the lambdas among the receivers that are written for a call, just
as those among its arguments: both are lowered in the scope that has the name. Only the receiver of
a safe call is lowered in the scope around it. -/
theorem State.call_labels_receivers {σ : Setting} {scope : Scope} {id callee : NodeId}
    {arguments : List NodeId} {span : Span} {call : ResolvedCall} {candidate : Descriptor}
    (hn : σ.world.tree.node? id = some ⟨.call callee arguments, span⟩)
    (hcall : (σ.world.factsOf id).call = some call)
    (hcandidate : σ.world.descriptor? call.candidate = some candidate) :
    let inner : Scope := .callee candidate.name :: scope
    Visits σ (call.writtenReceivers.map (inner, ·) ++ call.argumentVisits σ inner)
      (fun d => expressionStep d scope id) ∧
    (∀ q receiver selector safe span,
      σ.world.tree.node? q = some ⟨.qualified receiver selector safe, span⟩ →
      σ.world.tree.deparenthesize selector = id →
      Visits σ (if safe then
          (scope, receiver) :: (call.writtenReceivers.drop 1).map (inner, ·) ++
            call.argumentVisits σ inner
        else call.writtenReceivers.map (inner, ·) ++ call.argumentVisits σ inner)
        (fun d => expressionStep d scope q)) ∧
    (∀ label store span,
      inner.returnTarget label store span = scope.returnTarget label store span) ∧
    ∀ lambda parameters body span,
      σ.world.tree.node? lambda = some ⟨.lambda parameters body, span⟩ →
      ∀ fuel s e s', s.Apt σ →
        (((descent fuel).expr inner lambda).runFrom σ s = (.ok e, s') →
          s'.Labelled e (some candidate.name)) ∧
        (((descent fuel).expr scope lambda).runFrom σ s = (.ok e, s') →
          s'.Labelled e scope.implicitLabel) := by
  intro inner
  have hscope : σ.selectorScope scope id call = inner := by
    simp only [Setting.selectorScope, hn, hcandidate, inner]
  have hreceivers : σ.selectorReceivers scope id = call.writtenReceivers.map (inner, ·) := by
    rw [Setting.selectorReceivers, hcall, Option.elim_some, hscope]
  have harguments : σ.selectorArguments scope id = call.argumentVisits σ inner := by
    rw [Setting.selectorArguments, hcall, Option.elim_some, hscope]
  refine ⟨?_, ?_, fun label store span => rfl, ?_⟩
  · rw [← hreceivers, ← harguments]
    exact (@Visits.lowerSelector σ scope id {} rfl).of_same fun d => same_node_bind hn _
  · rintro q receiver selector safe span hq rfl
    have hselects := @Visits.qualifiedCall σ scope q receiver selector safe
    simp only [hreceivers, harguments, ← List.map_drop] at hselects
    exact hselects.of_same fun d => same_node_bind hq _
  · intro lambda parameters body span hlambda fuel s e s' hs
    exact ⟨fun hrun => (lambda_lowered hlambda hs hrun).1,
      fun hrun => (lambda_lowered hlambda hs hrun).1⟩

/-- The call `{ return@f }.f()`, which may be a safe one. -/
def labelWorld (safe : Bool) : World where
  tree :=
    { nodes := #[
        ⟨.qualified ⟨1⟩ ⟨4⟩ safe, .detached⟩,
        ⟨.lambda [] ⟨2⟩, .detached⟩,
        ⟨.block [⟨3⟩], .detached⟩,
        ⟨.returnJump (some "f") none, .detached⟩,
        ⟨.call ⟨5⟩ [], .detached⟩,
        ⟨.nameReference "f", .detached⟩]
      files := [] }
  facts := #[
    { type := some Builtin.unitType },
    { type := some Builtin.anyType, declares := some ⟨14⟩ },
    {},
    {},
    { type := some Builtin.unitType
      call := some ⟨⟨13⟩, [], none, some (.expression ⟨1⟩), [], [], Builtin.unitType⟩ }]
  declared := #[
    ⟨"f", [], none, .everywhere, [], .function { returnType := Builtin.unitType }⟩,
    ⟨"<anonymous>", [], none, .inBody, [], .function { returnType := Builtin.unitType }⟩]
  types := #[]

theorem State.call_labels_receivers_labelWorld :
    let σ : Setting := ⟨labelWorld false, {}⟩
    let r := ((descent 6).expr [.callee "f", .root] ⟨1⟩).runFrom σ {}
    Visits σ [([.callee "f", .root], ⟨1⟩)] (fun d => expressionStep d [.root] ⟨0⟩) ∧
      ∃ e, r.1 = .ok e ∧ r.2.Labelled e (some "f") := by
  intro σ r
  obtain ⟨e, hrun⟩ : ∃ e, r = (.ok e, r.2) := exists_ok (by decide +kernel)
  obtain ⟨_, hvisits, _, hlabels⟩ := @call_labels_receivers σ [.root] ⟨4⟩ ⟨5⟩ [] .detached _ _ rfl
    rfl rfl
  exact ⟨hvisits ⟨0⟩ ⟨1⟩ ⟨4⟩ false .detached rfl rfl, e, congrArg Prod.fst hrun,
    (hlabels ⟨1⟩ [] ⟨2⟩ .detached rfl 6 {} e r.2 (Apt.start σ)).1 hrun⟩

/-- On its own and in the safe call, the lambda has no label for the return to find. In the plain
call it has the name of the callee. -/
theorem State.receiver_returns_to_callee :
    let run (safe : Bool) (id : NodeId) :=
      ((descent 6).expr [.root] id).runFrom ⟨labelWorld safe, {}⟩ {}
    (run false ⟨1⟩).1 = .error (.unresolvedLabel "f" .detached) ∧
      (run true ⟨0⟩).1 = .error (.unresolvedLabel "f" .detached) ∧
      (run false ⟨0⟩).1.toOption.isSome ∧
      ((run false ⟨0⟩).2.store.functionTarget? ⟨0⟩).map (·.label) = some (some "f") := by
  decide +kernel

end TypedTree
