import TypedTree.Proofs.Pass.Callable

namespace TypedTree

/-- What a property refers to is found. -/
structure World.KnowsProperty (w : World) (i : PropertyInfo) : Prop where
  type : w.Finds (.type i.type)
  dispatchReceiver : ∀ t ∈ i.dispatchReceiver, w.Finds (.type t)
  extensionReceiver : ∀ t ∈ i.extensionReceiver, w.Finds (.type t)
  getter : ∀ desc ∈ i.getter, w.Finds (.desc desc)
  setter : ∀ desc ∈ i.setter, w.Finds (.desc desc)

theorem World.knowsProperty {w : World} {info : Descriptor} (hinfo : w.Knows info.refs)
    {i : PropertyInfo} (hi : info.property? = some i) : w.KnowsProperty i := by
  have hrefs := World.Knows.kind hinfo
  simp only [Descriptor.kind_of_property? hi, DescriptorKind.refs, World.knows_refs] at hrefs
  obtain ⟨⟨⟨⟨⟨htype, hdispatch⟩, hextension⟩, _⟩, hgetter⟩, hsetter⟩ := hrefs
  exact ⟨htype, hdispatch, hextension, hgetter, hsetter⟩

namespace Tandem

open Lower

variable {Stage : Type} [Preorder Stage]

/-- What two properties store and run besides their initial values. -/
structure propertyPairs (T : Tandem Stage) (g : Region) (w : Stage) (a b : PropertyParts) :
    Prop where
  delegate : Option.Rel (T.exprs g w) a.delegate b.delegate
  getter : Option.Rel (T.decls g w) a.getter b.getter
  setter : Option.Rel (T.decls g w) a.setter b.setter

variable {T : Tandem Stage} {w : Stage} {g : Region}

theorem optionDecls_later (hle : w ≤ w') {x y : Option DeclId} (h : Option.Rel (T.decls g w) x y) :
    Option.Rel (T.decls g w') x y :=
  options_stable decls_stable hle h

namespace Lawful

variable (hT : T.Lawful) {d : Descent} (hd : T.Descends d) {s1 s2 : Scope}
  (hs : T.scopes g w s1 s2)

include hT

theorem thisReference (hr : ∀ t ∈ receiver, T.world.Finds (.type t)) :
    T.Same w (thisReference receiver) (T.exprs g) := by
  cases receiver with
  | some t => exact Does.bind (hT.convert (hr t rfl)) fun _ _ _ _ hτ => hT.addExpr hτ .thisRef rfl
  | none =>
    exact Does.bind (hT.convertBuiltin (by decide)) fun _ _ _ _ hτ => hT.addExpr hτ .literal rfl

theorem delegateField (hp : T.symbols w p1 p2) {receiver : Option TypeId}
    (hr : ∀ t ∈ receiver, T.world.Finds (.type t)) {τ1 τ2 : TreeType} (hτ : T.types w τ1 τ2) :
    T.Does w (delegateField p1 receiver τ1) (delegateField p2 receiver τ2) (T.exprs g) := by
  cases receiver with
  | some t =>
    refine Does.bind (hT.convert (hr t rfl)) fun w1 _ _ h1 hτ' => ?_
    refine Does.bind (hT.addExpr (g := g) hτ' .thisRef rfl) fun w2 _ _ h2 hthis => ?_
    exact hT.addExpr (types_stable (h1.trans h2) hτ)
      (.delegateField (symbols_stable (h1.trans h2) hp) (.some (.inl hthis))) rfl
  | none => exact hT.addExpr hτ (.delegateField hp .none) rfl

theorem propertyParameterType_bind (hc : T.world.Knows operator.refs) {α β : Type}
    {Q : Stage → α → β → Prop} {k1 : TypeId → Lower α} {k2 : TypeId → Lower β}
    (hk : ∀ t, T.world.Finds (.type t) → T.Does w (k1 t) (k2 t) Q) :
    T.Does w (propertyParameterType operator >>= k1) (propertyParameterType operator >>= k2) Q := by
  have hbuiltin : T.world.Finds (.type Builtin.nullableAnyType) :=
    T.world.finds_builtin_type (by decide)
  simp only [Lower.propertyParameterType, bind_assoc]
  refine hT.descriptor_bind (hc _ (by simp [ResolvedCall.refs])) fun info _ hinfo => ?_
  cases hparameter : info.valueParameters[1]? with
  | none => simpa using hk _ hbuiltin
  | some parameter =>
    simp only [bind_assoc]
    refine hT.descriptor_bind ?_ fun p _ hp => ?_
    · exact World.Knows.valueParameters hinfo _ (List.mem_of_getElem? hparameter)
    · rw [pure_bind, pure_bind]
      cases hi : p.valueParameter? with
      | none => exact hk _ hbuiltin
      | some i => exact hk _ (finds_valueParameter hp hi)

theorem propertyReference (hc : T.world.Knows operator.refs) {p1 p2 : SymbolId}
    (hp : T.symbols w p1 p2) :
    T.Does w (propertyReference operator p1) (propertyReference operator p2) (T.exprs g) := by
  refine hT.propertyParameterType_bind hc fun t ht => ?_
  exact Does.bind (hT.convert ht) fun w1 _ _ h1 hτ => hT.addExpr hτ
    (.callableReference (access_plain (symbols_stable h1 hp))) rfl

theorem accessorSymbol {declared : Option DescId}
    (hdesc : ∀ desc ∈ declared, T.world.Finds (.desc desc)) {name : Name} :
    T.Same w (accessorSymbol declared name) T.symbols := by
  cases declared with
  | some desc => exact hT.symbolOf (hdesc desc rfl) ⟨by simp, by simp⟩
  | none => exact hT.freshLocal

theorem lowerConstructorProperty (hdesc : T.world.Finds (.desc desc)) {parameter : NodeId}
    (hp : T.Finds parameter) (hparameter : T.world.DeclaresParameter parameter) :
    T.Same w (lowerConstructorProperty desc parameter) (T.decls g) := by
  refine hT.descriptor_bind hdesc fun info _ hinfo => ?_
  split
  next => exact hT.unexpectedDeclaration
  next i hi =>
    have hknows := World.knowsProperty hinfo hi
    refine Does.bind (hT.symbolOf hdesc ⟨by simp, by simp⟩) fun w1 _ _ h1 hsym => ?_
    refine hT.declared_bind hp fun pdesc hdeclares hpdesc => ?_
    refine Does.bind (hT.symbolOf hpdesc (hparameter _ hdeclares)) fun w2 _ _ h2 hpsym => ?_
    refine Does.bind (hT.convert hknows.type) fun w3 _ _ h3 hτ => ?_
    refine Does.bind (hT.addExpr (g := g) hτ
      (.read (access_plain (symbols_stable h3 hpsym))) rfl) fun w4 _ _ h4 hread => ?_
    refine Does.bind (hT.convertOptional hknows.dispatchReceiver) fun w5 _ _ h5 hτd => ?_
    exact hT.declare (symbols_stable (((h2.trans h3).trans h4).trans h5) hsym) .nil
      (.property (types_stable (h4.trans h5) hτ) hτd .none .nil
        (.some (part_later h5 (.inl hread))) .none .none .none)

include hd hs

theorem lowerAccessor {p1 p2 : SymbolId} (hp : T.symbols w p1 p2) {id : NodeId} (hid : T.Finds id) :
    T.Does w (lowerAccessor d s1 p1 id) (lowerAccessor d s2 p2 id) (T.decls g) := by
  refine hT.node_bind hid fun n _ hn => ?_
  split
  next isSetter parameters body annotations hkind =>
    simp only [hkind, NodeKind.refs, World.knows_refs] at hn
    refine hT.declared_bind hid fun desc _ hdesc => ?_
    refine hT.descriptor_bind hdesc fun info _ hinfo => ?_
    split
    next => exact hT.unexpectedDeclaration
    next i hi =>
      have hreturn : T.world.Finds (.type i.returnType) := World.Knows.kind hinfo _
        (by simp [Descriptor.kind_of_accessor? hi, DescriptorKind.refs])
      refine Does.bind (hT.symbolOf hdesc ⟨by simp, by simp⟩) fun w1 _ _ h1 hsym => ?_
      refine Does.bind (hT.annotationEntries hn.2) fun w2 _ _ h2 hcalls => ?_
      refine Runs.bind hT.newFunctionTarget fun w3 t1 t2 h3 hnew => ?_
      obtain ⟨hopen, ht⟩ := hnew
      have hin := scopes_function hs ((h1.trans h2).trans h3) ht
      refine Runs.bind (hT.lowerValueParameters hd hin hn.1.1) fun w4 _ _ h4 hvps => ?_
      refine Runs.bind (Does.optionMapM fun m hm => hT.lowerFunctionBody hd (scopes_later h4 hin)
        ((T.ids_mono h4).holder ht) (by simp) (hn.1.2 m hm)) fun w5 _ _ h5 hbody => ?_
      refine Runs.bind (hT.convert hreturn) fun w6 _ _ h6 hτ => ?_
      have h2' := ((h3.trans h4).trans h5).trans h6
      refine hT.declareCallable (hτ.1.trans (hbody.1.trans (hvps.1.trans hopen)))
        (symbols_stable (h2.trans h2') hsym) (notes_later h2' hcalls)
        (.accessor ?_ hτ.2 (decls_later (h5.trans h6) hvps.2.1) (given_of_expr h6 hbody.2)) rfl
      exact symbols_stable ((h1.trans h2).trans h2') hp
  next => exact hT.unexpected hid

theorem lowerDelegateValue {calls : DelegateCalls} (hcalls : T.world.Knows calls.refs)
    {i : PropertyInfo} (hi : T.world.KnowsProperty i) {p1 p2 : SymbolId} (hp : T.symbols w p1 p2)
    {delegate : NodeId} (hid : T.Finds delegate) :
    T.Does w (lowerDelegateValue d s1 calls i p1 delegate)
      (lowerDelegateValue d s2 calls i p2 delegate) (T.exprs g) := by
  refine Does.bind (hd.expr hs hid) fun w1 _ _ h1 hv => ?_
  cases hprovide : calls.provideDelegate with
  | none => exact Does.pure hv
  | some provide =>
    have hc : T.world.Knows provide.refs := fun r hr =>
      hcalls r (by simp [DelegateCalls.refs, hprovide, hr])
    refine Does.bind (hT.thisReference (g := g) hi.dispatchReceiver) fun w2 _ _ h2 hthis => ?_
    refine Does.bind (hT.propertyReference (g := g) hc (symbols_stable (h1.trans h2) hp))
      fun w3 _ _ h3 href => ?_
    refine Does.bind (hT.convert (hc _ (by simp [ResolvedCall.refs]))) fun w4 _ _ h4 hτ => ?_
    have h2' := h3.trans h4
    exact hT.callOn hd (scopes_later ((h1.trans h2).trans h2') hs) hc hτ
      (part_later (h2.trans h2') (.inl hv))
      (.cons (.some (part_later h2' (.inl hthis))) (.cons (.some (part_later h4 (.inl href))) .nil))

/-- The returns of a getter that a delegate provides are for itself. -/
theorem delegatedGetter {calls : DelegateCalls} (hcalls : T.world.Knows calls.refs)
    {info : Descriptor} {i : PropertyInfo} (hi : T.world.KnowsProperty i) {p1 p2 : SymbolId}
    (hp : T.symbols w p1 p2) {τ1 τ2 : TreeType} (hτ : T.types w τ1 τ2) :
    T.Does w (delegatedGetter d s1 calls info i p1 τ1) (delegatedGetter d s2 calls info i p2 τ2)
      (T.decls g) := by
  have hc : T.world.Knows calls.getValue.refs := fun r hr =>
    hcalls r (by simp [DelegateCalls.refs, hr])
  refine Does.bind (hT.accessorSymbol hi.getter) fun w1 _ _ h1 hsym => ?_
  refine Does.bind (hT.convert hi.type) fun w2 _ _ h2 hτr => ?_
  refine Runs.bind hT.newFunctionTarget fun w3 t1 t2 h3 hnew => ?_
  obtain ⟨hopen, ht⟩ := hnew
  have k3 := (h1.trans h2).trans h3
  have hin : T.scopes ((.function t1, .function t2) :: g) w3 s1 s2 :=
    hs.mono (T.ids_mono k3) (List.subset_cons_self _ g)
  refine Runs.bind (hT.delegateField (g := (.function t1, .function t2) :: g)
    (symbols_stable k3 hp) hi.dispatchReceiver (types_stable k3 hτ))
    fun w4 _ _ h4 hfield => ?_
  refine Runs.bind (hT.thisReference (g := (.function t1, .function t2) :: g) hi.dispatchReceiver)
    fun w5 _ _ h5 hthis => ?_
  refine Runs.bind (hT.propertyReference (g := (.function t1, .function t2) :: g) hc
    (symbols_stable ((k3.trans h4).trans h5) hp)) fun w6 _ _ h6 href => ?_
  have h3' := (h4.trans h5).trans h6
  refine Runs.bind (hT.callOn hd (scopes_later h3' hin) hc
    (types_stable (h3.trans h3') hτr) (part_later (h5.trans h6) (.inl hfield.2))
    (.cons (.some (part_later h6 (.inl hthis.2))) (.cons (.some (.inl href.2)) .nil)))
    fun w7 _ _ h7 hv => ?_
  refine Runs.bind hT.nothingType fun w8 _ _ h8 hτn => ?_
  have k8 := (h3'.trans h7).trans h8
  refine Runs.bind (hT.addExpr hτn.2 (.returnJump ((T.ids_mono k8).holder ht) (by simp)
    (part_later h8 (.inl hv.2))) rfl) fun w9 _ _ h9 hj => ?_
  refine Runs.bind (hT.block (.cons (.expression (.inl hj.2)) .nil)) fun v _ _ k hbody => ?_
  have h3'' := (k8.trans h9).trans k
  have hopen' := hbody.1.trans (hj.1.trans (hτn.1.trans (hv.1.trans (href.1.trans (hthis.1.trans
    (hfield.1.trans hopen))))))
  exact hT.declareCallable hopen' (symbols_stable ((h2.trans h3).trans h3'') hsym) .nil
    (.accessor (symbols_stable (k3.trans h3'') hp)
      (types_stable (h3.trans h3'') hτr) .nil (.some (.inl hbody.2))) rfl

theorem delegatedSetter {setValue : ResolvedCall} (hc : T.world.Knows setValue.refs)
    {info : Descriptor} {i : PropertyInfo} (hi : T.world.KnowsProperty i) {p1 p2 : SymbolId}
    (hp : T.symbols w p1 p2) {τ1 τ2 : TreeType} (hτ : T.types w τ1 τ2) :
    T.Does w (delegatedSetter d s1 setValue info i p1 τ1)
      (delegatedSetter d s2 setValue info i p2 τ2) (T.decls g) := by
  refine Does.bind (hT.accessorSymbol hi.setter) fun w1 _ _ h1 hsym => ?_
  refine Does.bind (hT.convert hi.type) fun w2 _ _ h2 hτv => ?_
  refine Does.bind hT.freshLocal fun w3 _ _ h3 hvsym => ?_
  refine Does.bind (hT.declare (g := g) hvsym .nil
    (.valueParameter (types_stable h3 hτv) .none .none)) fun w4 _ _ h4 hparam => ?_
  refine Runs.bind hT.newFunctionTarget fun w5 t1 t2 h5 hnew => ?_
  obtain ⟨hopen, ht⟩ := hnew
  have k5 := (((h1.trans h2).trans h3).trans h4).trans h5
  have hin : T.scopes ((.function t1, .function t2) :: g) w5 s1 s2 :=
    hs.mono (T.ids_mono k5) (List.subset_cons_self _ g)
  refine Runs.bind (hT.delegateField (g := (.function t1, .function t2) :: g)
    (symbols_stable k5 hp) hi.dispatchReceiver (types_stable k5 hτ))
    fun w6 _ _ h6 hfield => ?_
  refine Runs.bind (hT.thisReference (g := (.function t1, .function t2) :: g) hi.dispatchReceiver)
    fun w7 _ _ h7 hthis => ?_
  refine Runs.bind (hT.propertyReference (g := (.function t1, .function t2) :: g) hc
    (symbols_stable ((k5.trans h6).trans h7) hp)) fun w8 _ _ h8 href => ?_
  have h5' := (h6.trans h7).trans h8
  have h3' := (h4.trans h5).trans h5'
  refine Runs.bind (hT.addExpr (g := (.function t1, .function t2) :: g)
    (types_stable (h3.trans h3') hτv)
    (.read (access_plain (symbols_stable h3' hvsym))) rfl) fun w9 _ _ h9 hread => ?_
  refine Runs.bind hT.unitType fun v _ _ k hτu => ?_
  have h8' := h9.trans k
  refine Runs.bind (hT.callOn hd (scopes_later (h5'.trans h8') hin) hc hτu.2
    (part_later ((h7.trans h8).trans h8') (.inl hfield.2))
    (.cons (.some (part_later (h8.trans h8') (.inl hthis.2)))
      (.cons (.some (part_later h8' (.inl href.2)))
        (.cons (.some (part_later k (.inl hread.2))) .nil)))) fun v1 _ _ k1 hcall => ?_
  refine Runs.bind (hT.block (.cons (.expression (.inl hcall.2)) .nil)) fun v2 _ _ k2 hbody => ?_
  have h5'' := ((h5'.trans h8').trans k1).trans k2
  have h4'' := h5.trans h5''
  have hopen' := hbody.1.trans (hcall.1.trans (hτu.1.trans (hread.1.trans (href.1.trans
    (hthis.1.trans (hfield.1.trans hopen))))))
  exact hT.declareCallable hopen'
    (symbols_stable (((h2.trans h3).trans h4).trans h4'') hsym) .nil
    (.accessor (symbols_stable (k5.trans h5'') hp)
      (types_stable (k1.trans k2) hτu.2)
      (decls_weaken (List.subset_cons_self _ g) (.cons (decls_stable h4'' hparam) .nil))
      (.some (.inl hbody.2))) rfl

theorem lowerDelegate {id : NodeId} (hid : T.Finds id) {info : Descriptor} {i : PropertyInfo}
    (hi : T.world.KnowsProperty i) {p1 p2 : SymbolId} (hp : T.symbols w p1 p2) {delegate : NodeId}
    (hdelegate : T.Finds delegate) :
    T.Does w (lowerDelegate d s1 id info i p1 delegate) (lowerDelegate d s2 id info i p2 delegate)
      (T.propertyPairs g) := by
  refine facts_bind fun hf => hT.required_bind hid fun calls hcalls => ?_
  have hc : T.world.Knows calls.refs := fun r hr => hf r (by simp [NodeFacts.refs, hcalls, hr])
  refine Does.bind (hT.lowerDelegateValue hd hs hc hi hp hdelegate) fun w1 _ _ h1 hfield => ?_
  refine Does.bind (hT.exprType (.inl hfield)) fun w2 _ _ h2 hτ => ?_
  have k2 := h1.trans h2
  refine Does.bind (hT.delegatedGetter hd (scopes_later k2 hs) hc hi
    (symbols_stable k2 hp) hτ) fun w3 _ _ h3 hgetter => ?_
  have hfield3 := exprs_stable (h2.trans h3) hfield
  split
  next setValue hset hvar =>
    have hsc : T.world.Knows setValue.refs := fun r hr =>
      hc r (by simp [DelegateCalls.refs, hset, hr])
    refine Does.bind (hT.delegatedSetter hd (scopes_later (k2.trans h3) hs) hsc hi
      (symbols_stable (k2.trans h3) hp) (types_stable h3 hτ))
      fun w4 _ _ h4 hsetter => ?_
    exact Does.pure ⟨.some (exprs_stable h4 hfield3),
      .some (decls_stable h4 hgetter), .some hsetter⟩
  next => exact Does.pure ⟨.some hfield3, .some hgetter, .none⟩

theorem propertyParts {id : NodeId} (hid : T.Finds id) {info : Descriptor} {i : PropertyInfo}
    (hi : T.world.KnowsProperty i) {p1 p2 : SymbolId} (hp : T.symbols w p1 p2) {n : PropertyNode}
    (hn : T.world.Knows (NodeKind.property n).refs) :
    T.Does w (propertyParts d s1 id info i p1 n) (propertyParts d s2 id info i p2 n)
      (T.propertyPairs g) := by
  simp only [NodeKind.refs, World.knows_refs] at hn
  unfold Lower.propertyParts
  split
  next delegate hdelegate => exact hT.lowerDelegate hd hs hid hi hp (hn.1.1.1.2 _ hdelegate)
  next =>
    refine Does.bind (Does.optionMapM fun m hm => hT.lowerAccessor hd hs hp (hn.1.1.2 m hm))
      fun w1 _ _ h1 hgetter => ?_
    refine Does.bind (Does.optionMapM fun m hm => hT.lowerAccessor hd (scopes_later h1 hs)
      (symbols_stable h1 hp) (hn.1.2 m hm)) fun w2 _ _ h2 hsetter => ?_
    exact Does.pure ⟨.none, optionDecls_later h2 hgetter, hsetter⟩

theorem lowerProperty {id : NodeId} (hid : T.Finds id) {n : PropertyNode}
    (hn : T.world.Knows (NodeKind.property n).refs) :
    T.SameIn w s1 s2 (lowerProperty d · id n) (T.decls g) := by
  have hrefs := hn
  simp only [NodeKind.refs, World.knows_refs] at hrefs
  obtain ⟨⟨⟨⟨⟨htparams, hinit⟩, _⟩, _⟩, _⟩, hnotes⟩ := hrefs
  refine hT.declared_bind hid fun desc _ hdesc => ?_
  refine hT.descriptor_bind hdesc fun info _ hinfo => ?_
  split
  next => exact hT.unexpectedDeclaration
  next i hi =>
    have hknows := World.knowsProperty hinfo hi
    refine Does.bind (hT.symbolOf hdesc ⟨by simp, by simp⟩) fun w1 _ _ h1 hsym => ?_
    refine Does.bind (hT.annotationEntries hnotes) fun w2 _ _ h2 hcalls => ?_
    refine Does.bind (Does.mapM_same (decls_stable (T := T) (g := g)) fun m hm _ _ =>
      hT.lowerTypeParameter (htparams m hm)) fun w3 _ _ h3 htps => ?_
    refine Does.bind (hT.convert hknows.type) fun w4 _ _ h4 hτ => ?_
    have h14 := (h2.trans h3).trans h4
    refine Does.bind (Does.optionMapM fun m hm => hd.expr (scopes_later (h1.trans h14) hs)
      (hinit m hm)) fun w5 _ _ h5 hvalue => ?_
    refine Does.bind (hT.propertyParts hd (scopes_later ((h1.trans h14).trans h5) hs) hid hknows
      (symbols_stable (h14.trans h5) hsym) hn) fun w6 _ _ h6 hparts => ?_
    refine Does.bind (hT.convertOptional hknows.dispatchReceiver) fun w7 _ _ h7 hτd => ?_
    refine Does.bind (hT.convertOptional hknows.extensionReceiver) fun w8 _ _ h8 hτe => ?_
    have h6' := h7.trans h8
    have h4' := (h5.trans h6).trans h6'
    exact hT.declare (symbols_stable (h14.trans h4') hsym)
      (notes_later ((h3.trans h4).trans h4') hcalls)
      (.property (types_stable h4' hτ) (optionTypes_later h8 hτd) hτe
        (decls_later (h4.trans h4') htps) (given_of_expr (h6.trans h6') hvalue)
        (given_of_expr h6' hparts.delegate) (optionDecls_later h6' hparts.getter)
        (optionDecls_later h6' hparts.setter))

end Lawful

end Tandem

end TypedTree
