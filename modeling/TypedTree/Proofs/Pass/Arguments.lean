import TypedTree.Proofs.Pass.Access

namespace TypedTree.Tandem

open Lower

variable {Stage : Type} [Preorder Stage] {T : Tandem Stage} {w w' : Stage} {g : Region}

theorem preludes_later (h : w ≤ w') (hab : T.preludes g w a b) : T.preludes g w' a b :=
  ⟨statements_later h hab.1, slots_later h hab.2⟩

/-- Whether an expression can be evaluated later shows in its form. -/
theorem hasNoEffect_alike (h : ExprKind.Alike C g k1 k2) : hasNoEffect k1 = hasNoEffect k2 := by
  have haccess : ∀ {a b : Access}, Access.Alike C g a b →
      (a.dispatchReceiver.isNone && a.extensionReceiver.isNone) =
        (b.dispatchReceiver.isNone && b.extensionReceiver.isNone) := by
    intro a b hab
    have hnone : ∀ {x y : Option ExprId}, Option.Rel (C.part g) x y → x.isNone = y.isNone :=
      fun hxy => by cases hxy <;> rfl
    rw [hnone hab.dispatch, hnone hab.extension]
  cases h with
  | read ha | callableReference ha => exact haccess ha
  | _ => rfl

namespace Lawful

variable (hT : T.Lawful) {d : Descent} (hd : T.Descends d) {s1 s2 : Scope}
  (hs : T.scopes g w s1 s2)

include hT

theorem varargType (hp : ∀ p ∈ parameter, T.world.Finds (.desc p)) :
    T.Same w (varargType parameter) T.types := by
  cases parameter with
  | none => exact hT.convertBuiltin (by decide)
  | some parameter =>
    refine hT.descriptor_bind (hp parameter rfl) fun info _ hinfo => ?_
    cases hkind : info.kind with
    | valueParameter i =>
      simp only [Descriptor.valueParameter?, hkind, Option.elim]
      exact hT.convert (hinfo _ (by simp [Descriptor.refs, hkind, DescriptorKind.refs]))
    | _ =>
      simp only [Descriptor.valueParameter?, hkind, Option.elim]
      exact hT.convertBuiltin (by decide)

theorem keepArgument (he : T.parts g w e1 e2) :
    T.Does w (keepArgument e1) (keepArgument e2) fun w' a b =>
      T.statements g w' a.1 b.1 ∧ T.parts g w' a.2 b.2 := by
  refine hT.content_bind he fun x1 x2 hx => ?_
  rw [hasNoEffect_alike hx.kind]
  split
  · exact Does.pure ⟨.nil, he⟩
  · refine Does.bind (hT.hold he) fun w1 t1 t2 _ ht => ?_
    exact Does.bind (hT.readTemporary ht) fun w2 _ _ h2 hr =>
      Does.pure ⟨.cons (temporaries_stable h2 ht).statement .nil, .inl hr⟩

theorem withPrelude (hp : T.statements g w p1 p2) {e1 e2 : ExprId} (he : T.exprs g w e1 e2) :
    T.Does w (withPrelude p1 e1) (withPrelude p2 e2) (T.exprs g) := by
  unfold Lower.withPrelude
  cases hp with
  | nil => exact Does.pure he
  | cons h hs => exact hT.block (List.rel_append (.cons h hs) (.cons (.expression (.inl he)) .nil))

include hd hs

theorem lowerElement {element : VarargElement} (he : T.Finds element.node) :
    T.SameIn w s1 s2 (lowerElement d · element) (T.exprs g) := by
  refine Does.bind (hd.expr hs he) fun w1 e1 e2 _ he => ?_
  split
  · exact Does.bind (hT.exprType (.inl he)) fun w2 _ _ h2 ht =>
      hT.addExpr ht (.spread (part_later h2 (.inl he))) rfl
  · exact Does.pure he

theorem lowerVararg {elements : List VarargElement} (he : ∀ x ∈ elements, T.Finds x.node)
    {parameter : Option DescId} (hp : ∀ p ∈ parameter, T.world.Finds (.desc p)) :
    T.SameIn w s1 s2 (lowerVararg d · elements parameter) (T.given g) := by
  unfold Lower.lowerVararg
  split
  · exact Does.pure .none
  · have hlist := Does.mapM_same exprs_stable fun x hx w' hle =>
      hT.lowerElement hd (scopes_later hle hs) (he x hx)
    refine Does.bind hlist fun w1 xs1 xs2 _ hxs => ?_
    refine Does.bind (hT.varargType hp) fun w2 _ _ h2 ht => ?_
    have hparts : List.Forall₂ (T.parts g w2) xs1 xs2 :=
      hxs.imp fun _ _ hx => .inl (exprs_stable h2 hx)
    exact Does.bind (hT.addExpr ht (.vararg hparts) rfl) fun _ _ _ _ h => Does.pure (.some (.inl h))

theorem lowerArgument {argument : ValueArgument} (ha : T.world.Knows argument.refs)
    {parameter : Option DescId} (hp : ∀ p ∈ parameter, T.world.Finds (.desc p)) :
    T.SameIn w s1 s2 (lowerArgument d · argument parameter) (T.given g) := by
  cases argument with
  | omitted => exact Does.pure .none
  | expression node =>
    exact Does.bind (hd.expr hs (ha _ (by simp [ValueArgument.refs]))) fun _ _ _ _ h =>
      Does.pure (.some (.inl h))
  | vararg elements =>
    refine hT.lowerVararg hd hs (fun x hx => ha _ ?_) hp
    simpa [ValueArgument.refs, Reference.nodes] using ⟨x, hx, rfl⟩

omit hd hs

omit hT in
theorem fillSlot (hx : T.slots g w xs1 xs2) {i : Nat} (hi : i < xs1.length)
    {v1 v2 : Option ExprId} (hv : T.given g w v1 v2) :
    T.Does w (fillSlot xs1 i v1) (fillSlot xs2 i v2) fun w' a b =>
      T.slots g w' a b ∧ a.length = xs1.length := by
  unfold Lower.fillSlot
  rw [if_pos hi, if_pos (hx.length_eq ▸ hi)]
  refine Does.pure ⟨?_, by simp⟩
  clear hi
  induction hx generalizing i with
  | nil => exact .nil
  | cons hab hrest ih =>
    cases i with
    | zero => exact .cons hv hrest
    | succ i => exact .cons hab ih

include hd hs

theorem placeArgument {call : ResolvedCall} (hc : T.world.Knows call.refs)
    {parameters : List DescId} (hp : ∀ p ∈ parameters, T.world.Finds (.desc p)) {reorder : Bool}
    {a b : List Statement × List (Option ExprId)} (hab : T.preludes g w a b)
    (hlen : a.2.length = call.arguments.length) {i : Nat} :
    T.Does w (placeArgument d s1 call parameters reorder a i)
      (placeArgument d s2 call parameters reorder b i) fun w' a' b' =>
      T.preludes g w' a' b' ∧ a'.2.length = call.arguments.length := by
  unfold Lower.placeArgument
  cases harg : call.arguments[i]? with
  | none => exact Does.pure ⟨hab, hlen⟩
  | some argument =>
    have hi : i < a.2.length := hlen ▸ (List.getElem?_eq_some_iff.1 harg).1
    have hrefs : T.world.Knows argument.refs := fun r hr => hc r (by
      simp only [ResolvedCall.refs, List.mem_append, List.mem_flatMap]
      exact .inl (.inr ⟨argument, List.mem_of_getElem? harg, hr⟩))
    have hparameter : ∀ p ∈ parameters[i]?, T.world.Finds (.desc p) := fun p hpi =>
      hp p (List.mem_of_getElem? hpi)
    refine Does.bind (hT.lowerArgument hd hs hrefs hparameter) fun w1 v1 v2 h1 hv => ?_
    have hab1 := preludes_later h1 hab
    cases hv with
    | none =>
      exact Does.bind (Lawful.fillSlot hab1.2 hi .none) fun w2 _ _ h2 hslots =>
        Does.pure ⟨⟨statements_later h2 hab1.1, hslots.1⟩, hslots.2.trans hlen⟩
    | some hv =>
      simp only
      split
      · refine Does.bind (hT.keepArgument hv) fun w2 k1 k2 h2 hk => ?_
        have hab2 := preludes_later h2 hab1
        refine Does.bind (Lawful.fillSlot hab2.2 hi (.some hk.2)) fun w3 _ _ h3 hslots => ?_
        exact Does.pure ⟨⟨List.rel_append (statements_later h3 hab2.1) (statements_later h3 hk.1),
          hslots.1⟩, hslots.2.trans hlen⟩
      · exact Does.bind (Lawful.fillSlot hab1.2 hi (.some hv)) fun w2 _ _ h2 hslots =>
          Does.pure ⟨⟨statements_later h2 hab1.1, hslots.1⟩, hslots.2.trans hlen⟩

end Lawful

end TypedTree.Tandem
