import TypedTree.Proofs.Pass.Call

namespace TypedTree.Tandem.Lawful

open Lower

variable {Stage : Type} [Preorder Stage] {T : Tandem Stage} {w : Stage} {g : Region}
  (hT : T.Lawful) {d : Descent} (hd : T.Descends d) {s1 s2 : Scope} (hs : T.scopes g w s1 s2)

theorem finds_property {info : Descriptor} (hinfo : T.world.Knows info.refs) {i : PropertyInfo}
    (hi : info.property? = some i) : T.world.Finds (.type i.type) :=
  World.Knows.kind hinfo _ (by simp [Descriptor.kind_of_property? hi, DescriptorKind.refs])

include hT

theorem componentProperty (hdesc : T.world.Finds (.desc desc)) {τ1 τ2 : TreeType}
    (hτ : T.types w τ1 τ2) {v1 v2 : ExprId} (hv : T.parts g w v1 v2) :
    T.Does w (componentProperty desc τ1 v1) (componentProperty desc τ2 v2) fun w' a b =>
      DeclKind.Alike (T.ids w') g (.property a) (.property b) := by
  refine hT.descriptor_bind hdesc fun info _ hinfo => ?_
  split
  next i hi =>
    exact Does.bind (hT.convert (finds_property hinfo hi)) fun w1 _ _ h1 hτ' =>
      Does.pure (.property hτ' .none .none .nil (.some (part_later h1 hv)) .none .none .none)
  next => exact Does.pure (.property hτ .none .none .nil (.some hv) .none .none .none)

theorem elementType (hdesc : T.world.Finds (.desc desc)) {e1 e2 : ExprId} (he : T.parts g w e1 e2) :
    T.Does w (elementType desc e1) (elementType desc e2) T.types := by
  refine hT.descriptor_bind hdesc fun info _ hinfo => ?_
  split
  next i hi => exact hT.convert (finds_property hinfo hi)
  next => exact hT.exprType he

theorem destructuredEntries_bind {id : NodeId} (hid : T.Finds id) {α β : Type}
    {Q : Stage → α → β → Prop} {k1 : List NodeId → Lower α} {k2 : List NodeId → Lower β}
    (hk : ∀ entries, (∀ n ∈ entries, T.Finds n) → T.Does w (k1 entries) (k2 entries) Q) :
    T.Does w (destructuredEntries id >>= k1) (destructuredEntries id >>= k2) Q := by
  simp only [destructuredEntries, bind_assoc]
  refine hT.node_bind hid fun n _ hn => ?_
  split
  next entries _ hkind =>
    rw [hkind] at hn
    simpa using hk entries fun m hm =>
      hn _ (by simp [NodeKind.refs, Reference.nodes, hm])
  next =>
    simp only [Lower.unexpected, bind_assoc]
    exact hT.node_bind hid fun _ _ _ => hT.throw (by simp) (by simp)

include hd hs

theorem lowerComponent {t1 t2 : Temporary} (ht : T.temporaries g w t1 t2) {entry : NodeId}
    (he : T.Finds entry) :
    T.Does w (lowerComponent d s1 t1 entry) (lowerComponent d s2 t2 entry) fun w' =>
      Option.Rel (Statement.Alike (T.ids w') g) := by
  refine hT.node_bind he fun n _ _ => ?_
  split
  next => exact Does.pure .none
  next =>
    refine facts_bind fun hf => hT.required_bind he fun component hcomponent => ?_
    have hc : T.world.Knows component.refs := fun r hr =>
      hf r (by simp [NodeFacts.refs, hcomponent, hr])
    refine hT.declared_bind he fun desc _ hdesc => ?_
    refine Does.bind (hT.symbolFor hdesc) fun w1 _ _ h1 hsym => ?_
    refine Does.bind (hT.readTemporary (k := g) (temporaries_stable h1 ht))
      fun w2 _ _ h2 hr => ?_
    refine Does.bind (hT.convert (hc _ (by simp [ResolvedCall.refs]))) fun w3 _ _ h3 hτ => ?_
    refine Does.bind (hT.callOn hd (scopes_later ((h1.trans h2).trans h3) hs) hc hτ
      (part_later h3 (.inl hr)) .nil) fun w4 _ _ h4 hv => ?_
    refine Does.bind (hT.componentProperty hdesc (types_stable h4 hτ) (.inl hv))
      fun w5 _ _ h5 hp => ?_
    have h15 := ((h2.trans h3).trans h4).trans h5
    exact Does.bind (hT.declare (symbols_stable h15 hsym) .nil hp) fun _ _ _ _ hx =>
      Does.pure (.some (.declaration hx))
  next => exact hT.unexpected he

theorem lowerComponents {t1 t2 : Temporary} (ht : T.temporaries g w t1 t2) {entries : List NodeId}
    (hn : ∀ n ∈ entries, T.Finds n) :
    T.Does w (lowerComponents d s1 t1 entries) (lowerComponents d s2 t2 entries)
      (T.statements g) := by
  have hstable : Stable fun w => Option.Rel (Statement.Alike (T.ids w) g) :=
    options_stable fun _ _ _ _ h hab => hab.mono (T.ids_mono h) (List.Subset.refl g)
  refine Does.bind (Does.mapM_same hstable fun n hmem w' hle => ?_) fun _ _ _ _ hall =>
    Does.pure (List.rel_filterMap (fun _ _ hab => hab) hall)
  exact hT.lowerComponent hd (scopes_later hle hs) (temporaries_stable hle ht) (hn n hmem)

theorem lowerDestructuring {entries : List NodeId} (hn : ∀ n ∈ entries, T.Finds n)
    {value : Option NodeId} (hv : ∀ n ∈ value, T.Finds n) :
    T.SameIn w s1 s2 (lowerDestructuring d · entries value) (T.exprs g) := by
  refine Does.bind (hT.lowerOptional hd hs hv) fun w1 _ _ h1 he => ?_
  refine Does.bind (hT.hold (.inl he)) fun w2 _ _ h2 ht => ?_
  refine Does.bind (hT.lowerComponents hd (scopes_later (h1.trans h2) hs) ht hn)
    fun w3 _ _ h3 hss => ?_
  exact hT.block (.cons (temporaries_stable h3 ht).statement hss)

end TypedTree.Tandem.Lawful
