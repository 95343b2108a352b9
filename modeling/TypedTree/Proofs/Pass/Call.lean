import TypedTree.Proofs.Pass.Arguments

namespace TypedTree.Tandem.Lawful

open Lower

variable {Stage : Type} [Preorder Stage] {T : Tandem Stage} {w : Stage} {g : Region}
  (hT : T.Lawful) {d : Descent} (hd : T.Descends d) {s1 s2 : Scope} (hs : T.scopes g w s1 s2)

include hT hd hs

theorem lowerArguments {call : ResolvedCall} (hc : T.world.Knows call.refs) :
    T.SameIn w s1 s2 (lowerArguments d · call) (T.preludes g) := by
  refine hT.descriptor_bind (hc _ (by simp [ResolvedCall.refs])) fun info _ hinfo => ?_
  refine Does.read_bind ?_
  have hp : ∀ p ∈ info.valueParameters, T.world.Finds (.desc p) := fun p hp => hinfo _ (by
    unfold Descriptor.valueParameters at hp
    split at hp <;>
      simp_all [Descriptor.refs, DescriptorKind.refs, Reference.descs])
  have hempty : T.preludes g w ([], List.replicate call.arguments.length none)
      ([], List.replicate call.arguments.length none) :=
    ⟨.nil, List.forall₂_same.2 fun x hx => by rw [List.eq_of_mem_replicate hx]; exact .none⟩
  refine Does.imp (Does.foldlM
    (P := fun w a b => T.preludes g w a b ∧ a.2.length = call.arguments.length)
    ⟨hempty, by simp⟩ fun i _ w' a b hle hab => ?_) fun _ _ _ _ h => h.1
  exact hT.placeArgument hd (scopes_later hle hs) hc hp hab.1 hab.2

theorem callArguments {call : ResolvedCall} (hc : T.world.Knows call.refs)
    {xs1 xs2 : Option (List (Option ExprId))} (hx : Option.Rel (T.slots g w) xs1 xs2) :
    T.Does w (callArguments d s1 call xs1) (callArguments d s2 call xs2) (T.preludes g) := by
  cases hx with
  | none => exact hT.lowerArguments hd hs hc
  | some hx => exact Does.pure ⟨.nil, hx⟩

theorem buildCall {call : ResolvedCall} (hc : T.world.Knows call.refs) {τ1 τ2 : TreeType}
    (hτ : T.types w τ1 τ2) {p1 p2 : CallParts} (hp : T.callParts g w p1 p2) :
    T.Does w (buildCall d s1 call τ1 p1) (buildCall d s2 call τ2 p2) (T.exprs g) := by
  refine Does.bind (hT.buildAccess hd hs hc hp.receiver) fun w1 a1 a2 h1 ha => ?_
  refine hT.descriptor_bind (hc _ (by simp [ResolvedCall.refs])) fun info _ _ => ?_
  have hτ1 := types_stable h1 hτ
  split
  · exact hT.addExpr hτ1 (.read ha) rfl
  · refine Does.bind (hT.callArguments hd (scopes_later h1 hs) hc
      (callParts_later h1 hp).arguments) fun w2 b1 b2 h2 hb => ?_
    refine Does.bind (hT.addExpr (types_stable h2 hτ1)
      (.call (accesses_later h2 ha) hb.2) rfl) fun w3 _ _ h3 he => ?_
    exact hT.withPrelude (statements_later h3 hb.1) he

theorem callOn {call : ResolvedCall} (hc : T.world.Knows call.refs) {τ1 τ2 : TreeType}
    (hτ : T.types w τ1 τ2) {r1 r2 : ExprId} (hr : T.parts g w r1 r2)
    {xs1 xs2 : List (Option ExprId)} (hx : T.slots g w xs1 xs2) :
    T.Does w (callOn d s1 call τ1 r1 xs1) (callOn d s2 call τ2 r2 xs2) (T.exprs g) :=
  hT.buildCall hd hs hc hτ ⟨.some hr, .some hx⟩

theorem lowerSelector {id : NodeId} (hid : T.Finds id) {p1 p2 : CallParts}
    (hp : T.callParts g w p1 p2) :
    T.Does w (lowerSelector d s1 id p1) (lowerSelector d s2 id p2) (T.exprs g) := by
  refine Does.bind hT.expressionType fun w1 τ1 τ2 h1 hτ => ?_
  have hs1 := scopes_later h1 hs
  have hp1 := callParts_later h1 hp
  refine facts_bind fun hf => hT.node_bind hid fun n _ _ => ?_
  have hcall : ∀ call, (T.world.factsOf id).call = some call → T.world.Knows call.refs :=
    fun call hcall r hr => hf r (by simp [NodeFacts.refs, hcall, hr])
  cases hfact : (T.world.factsOf id).call with
  | some call =>
    have hc := hcall call hfact
    split
    next heq _ =>
      cases heq
      refine hT.descriptor_bind (hc _ (by simp [ResolvedCall.refs])) fun callee _ _ => ?_
      exact hT.buildCall hd (.cons .callee hs1) hc hτ hp1
    next heq _ => exact Option.some.inj heq ▸ hT.buildCall hd hs1 hc hτ hp1
    all_goals contradiction
  | none =>
    split
    next heq _ => contradiction
    next heq _ => contradiction
    next =>
      refine hT.required_bind hid fun target htarget => ?_
      have hfound : T.world.Finds (.desc target) :=
        hf _ (by simp [NodeFacts.refs, htarget, Reference.desc?, Reference.descs])
      refine Does.bind (hT.symbolFor hfound) fun w2 _ _ h2 hsym => ?_
      have haccess : T.accesses g w2 ⟨_, p1.receiver, none, []⟩ ⟨_, p2.receiver, none, []⟩ :=
        ⟨hsym, given_later h2 hp1.receiver, .none, .nil⟩
      exact hT.addExpr (types_stable h2 hτ) (.read haccess) rfl
    next => exact hT.required_none hid
    next => exact hT.unexpected hid

theorem safeReceiver {receiver : NodeId} (hr : T.Finds receiver) :
    T.SameIn w s1 s2 (safeReceiver d · receiver) fun w' a b =>
      T.parts g w' a.1 b.1 ∧ T.parts g w' a.2 b.2 := by
  refine Does.bind (hd.expr hs hr) fun w1 e1 e2 _ he => ?_
  refine Does.bind (hT.exprType (.inl he)) fun w2 τ1 τ2 h2 hτ => ?_
  have hnonNull : T.types w2 τ1.nonNull τ2.nonNull := by
    cases hτ with
    | mk hc hargs hx => exact .mk hc hargs hx
  have he2 : T.parts g w2 e1 e2 := .inl (exprs_stable h2 he)
  exact Does.bind (hT.addExpr hnonNull (.safeCallSubject he2) rfl) fun w3 _ _ h3 hsub =>
    Does.pure ⟨part_later h3 he2, .inl hsub⟩

theorem lowerQualified {id receiver selector : NodeId} (hr : T.Finds receiver)
    (hsel : T.Finds selector) {safe : Bool} :
    T.SameIn w s1 s2 (lowerQualified d · id receiver selector safe) (T.exprs g) := by
  refine deparenthesize_bind hsel fun hsel' => ?_
  split
  · refine Does.bind (hT.safeReceiver hd hs hr) fun w1 a b h1 hab => ?_
    refine Does.bind (hT.lowerSelector hd (scopes_later h1 hs) hsel' ⟨.some hab.2, .none⟩)
      fun w2 x1 x2 h2 hx => ?_
    refine Does.bind hT.expressionType fun w3 _ _ h3 hτ => ?_
    exact hT.addExpr hτ (.safeCall (part_later (h2.trans h3) hab.1)
      (part_later (h2.trans h3) hab.2) (part_later h3 (.inl hx))) rfl
  · exact hT.lowerSelector hd hs hsel' callParts_none

omit hd hs

theorem indexedGet_bind {id : NodeId} (hid : T.Finds id) {α β : Type} {Q : Stage → α → β → Prop}
    {k1 : ResolvedCall → Lower α} {k2 : ResolvedCall → Lower β}
    (hk : ∀ call, T.world.Knows call.refs → T.Does w (k1 call) (k2 call) Q) :
    T.Does w (indexedGet id >>= k1) (indexedGet id >>= k2) Q := by
  simp only [indexedGet, bind_assoc]
  refine facts_bind fun hf => hT.required_bind hid fun call hcall => hk call fun r hr => hf r ?_
  obtain ⟨calls, hcalls, hget⟩ := Option.bind_eq_some_iff.1 hcall
  simp [NodeFacts.refs, hcalls, IndexedCalls.refs, hget, hr]

theorem indexedSet_bind {id : NodeId} (hid : T.Finds id) {α β : Type} {Q : Stage → α → β → Prop}
    {k1 : ResolvedCall → Lower α} {k2 : ResolvedCall → Lower β}
    (hk : ∀ call, T.world.Knows call.refs → T.Does w (k1 call) (k2 call) Q) :
    T.Does w (indexedSet id >>= k1) (indexedSet id >>= k2) Q := by
  simp only [indexedSet, bind_assoc]
  refine facts_bind fun hf => hT.required_bind hid fun call hcall => hk call fun r hr => hf r ?_
  obtain ⟨calls, hcalls, hset⟩ := Option.bind_eq_some_iff.1 hcall
  simp [NodeFacts.refs, hcalls, IndexedCalls.refs, hset, hr]

include hd hs

theorem lowerArrayAccess {id : NodeId} (hid : T.Finds id) :
    T.SameIn w s1 s2 (lowerArrayAccess d · id) (T.exprs g) := by
  refine hT.indexedGet_bind hid fun call hc => ?_
  exact Does.bind hT.expressionType fun w1 _ _ h1 hτ =>
    hT.buildCall hd (scopes_later h1 hs) hc hτ callParts_none

theorem lowerDelegationCall {id : NodeId} (hid : T.Finds id) :
    T.SameIn w s1 s2 (lowerDelegationCall d · id) (T.exprs g) := by
  refine hT.node_bind hid fun n _ _ => ?_
  split
  next =>
    refine facts_bind fun hf => hT.required_bind hid fun call hcall => ?_
    have hc : T.world.Knows call.refs := fun r hr => hf r (by simp [NodeFacts.refs, hcall, hr])
    refine Does.bind (hT.symbolOf (hc _ (by simp [ResolvedCall.refs])) ⟨by simp, by simp⟩)
      fun w1 _ _ h1 hsym => ?_
    refine Does.bind (hT.lowerArguments hd (scopes_later h1 hs) hc) fun w2 a b h2 hab => ?_
    refine Does.bind hT.unitType fun w3 _ _ h3 hτ => ?_
    refine Does.bind (hT.addExpr hτ (.delegatedCall (symbols_stable (h2.trans h3) hsym)
      (slots_later h3 hab.2)) rfl) fun w4 _ _ h4 he => ?_
    exact hT.withPrelude (statements_later (h3.trans h4) hab.1) he
  next => exact hT.unexpected hid

end TypedTree.Tandem.Lawful
