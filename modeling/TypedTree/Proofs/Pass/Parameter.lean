import TypedTree.Proofs.Pass.Block

namespace TypedTree

/-- A node that declares a value parameter, if it declares anything. -/
def World.DeclaresParameter (w : World) (id : NodeId) : Prop :=
  ∀ desc, (w.factsOf id).declares = some desc → w.Fits .valueParameter desc

namespace Tandem.Lawful

open Lower

variable {Stage : Type} [Preorder Stage] {T : Tandem Stage} {w : Stage} {g : Region}
  (hT : T.Lawful) {d : Descent} (hd : T.Descends d) {s1 s2 : Scope}

theorem fits_valueParameter {world : World} {info : Descriptor}
    (hdesc : world.descriptor? desc = some info) {i : ValueParameterInfo}
    (hi : info.valueParameter? = some i) : world.Fits .valueParameter desc :=
  ⟨by simp, fun _ => ⟨info, hdesc, by simp [hi]⟩⟩

theorem finds_valueParameter {world : World} {info : Descriptor} (hinfo : world.Knows info.refs)
    {i : ValueParameterInfo} (hi : info.valueParameter? = some i) : world.Finds (.type i.type) :=
  World.Knows.kind hinfo _ (by simp [Descriptor.kind_of_valueParameter? hi, DescriptorKind.refs])

include hT

theorem syntheticParameter (hdesc : T.world.Finds (.desc desc)) :
    T.Same w (syntheticParameter desc) (T.decls g) := by
  refine hT.descriptor_bind hdesc fun info hfound hinfo => ?_
  split
  next => exact hT.unexpectedDeclaration
  next i hi =>
    refine Does.bind (hT.symbolOf hdesc (fits_valueParameter hfound hi)) fun w1 _ _ h1 hsym => ?_
    refine Does.bind (hT.convert (finds_valueParameter hinfo hi)) fun w2 _ _ h2 hτ => ?_
    exact hT.declare (symbols_stable h2 hsym) .nil (.valueParameter hτ .none .none)

theorem lowerTypeParameter {id : NodeId} (hid : T.Finds id) :
    T.Same w (lowerTypeParameter id) (T.decls g) := by
  refine hT.node_bind hid fun n _ hn => ?_
  split
  next name annotations hkind =>
    have hnotes : ∀ m ∈ annotations, T.Finds m := fun m hm =>
      hn _ (by simp [hkind, NodeKind.refs, Reference.nodes, hm])
    refine hT.declared_bind hid fun desc _ hdesc => ?_
    refine hT.descriptor_bind hdesc fun info hfound hinfo => ?_
    split
    next => exact hT.unexpectedDeclaration
    next i hi =>
      have hbounds : ∀ t ∈ i.upperBounds, T.world.Finds (.type t) := fun t ht =>
        World.Knows.kind hinfo _ (by
          simp [Descriptor.kind_of_typeParameter? hi, DescriptorKind.refs, Reference.types, ht])
      have hfits : T.world.Fits .typeParameter desc :=
        ⟨fun _ => ⟨info, hfound, by simp [hi]⟩, by simp⟩
      refine Does.bind (hT.symbolOf hdesc hfits) fun w1 _ _ h1 hsym => ?_
      refine Does.bind (hT.annotationEntries hnotes) fun w2 _ _ h2 hcalls => ?_
      refine Does.bind (hT.convertAll hbounds) fun w3 _ _ h3 hτs => ?_
      exact hT.declare (symbols_stable (h2.trans h3) hsym)
        (hcalls.imp fun _ _ => (T.ids_mono h3).note) (.typeParameter hτs)
  next => exact hT.unexpected hid

include hd

/-- A parameter that is lowered is one for its descriptor, too. -/
theorem lowerValueParameter (hs : T.scopes g w s1 s2) {id : NodeId} (hid : T.Finds id) :
    T.SameIn w s1 s2 (lowerValueParameter d · id) fun w' a b =>
      T.decls g w' a b ∧ T.world.DeclaresParameter id := by
  refine hT.node_bind hid fun n _ hn => ?_
  split
  next parameter hkind =>
    simp only [hkind, NodeKind.refs, World.knows_refs] at hn
    refine hT.declared_bind hid fun desc hdeclares hdesc => ?_
    refine hT.descriptor_bind hdesc fun info hfound hinfo => ?_
    split
    next => exact hT.unexpectedDeclaration
    next i hi =>
      have hfits := fits_valueParameter hfound hi
      have hparameter : T.world.DeclaresParameter id := fun desc' h =>
        Option.some.inj (hdeclares.symm.trans h) ▸ hfits
      refine Does.bind (hT.symbolOf hdesc hfits) fun w1 _ _ h1 hsym => ?_
      refine Does.bind (hT.annotationEntries hn.2) fun w2 _ _ h2 hcalls => ?_
      refine Does.bind (Does.optionMapM fun m hm => hd.expr (scopes_later (h1.trans h2) hs)
        (hn.1.1 m hm)) fun w3 _ _ h3 hdefault => ?_
      refine facts_bind fun hf => ?_
      have hproperty : ∀ p ∈ (T.world.factsOf id).constructorProperty,
          T.world.Finds (.desc p) := fun p hp =>
        hf _ (by simp [NodeFacts.refs, Option.mem_def.1 hp, Reference.desc?, Reference.descs])
      refine Does.bind (Does.optionMapM fun p hp =>
        hT.symbolOf (hproperty p hp) ⟨by simp, by simp⟩) fun w4 _ _ h4 hprop => ?_
      refine Does.bind (hT.convert (finds_valueParameter hinfo hi)) fun w5 _ _ h5 hτ => ?_
      have h25 := (h3.trans h4).trans h5
      refine (hT.declare (symbols_stable (h2.trans h25) hsym)
        (hcalls.imp fun _ _ => (T.ids_mono h25).note) (.valueParameter hτ
          (Option.rel_imp (fun _ _ he => .inl ((T.ids_mono (h4.trans h5)).expr he)) hdefault)
          (Option.rel_imp (fun _ _ => (T.ids_mono h5).symbol) hprop))).imp ?_
      exact fun _ _ _ _ hx => ⟨hx, hparameter⟩
  next => exact hT.unexpected hid

theorem lowerValueParameters (hs : T.scopes g w s1 s2) {ids : List NodeId}
    (hn : ∀ id ∈ ids, T.Finds id) :
    T.SameIn w s1 s2 (fun s => ids.mapM (Lower.lowerValueParameter d s))
      fun w' as bs => List.Forall₂ (T.decls g w') as bs ∧
        ∀ id ∈ ids, T.world.DeclaresParameter id :=
  Does.mapM_each decls_stable fun id hid _ hle =>
    hT.lowerValueParameter hd (scopes_later hle hs) (hn id hid)

end Tandem.Lawful

end TypedTree
