import TypedTree.Proofs.Trace.Expression

namespace TypedTree

open Desk Token Carries

instance : Carries Lower.PropertyParts := ⟨fun p => tokens p.delegate, inferInstance⟩

@[simp] theorem tokens_propertyParts (p : Lower.PropertyParts) : tokens p = tokens p.delegate := rfl

/-- A node that declares a value parameter, if it declares anything. -/
def World.NamesParameter (w : World) (id : NodeId) : Prop :=
  ∀ desc, (w.factsOf id).declares = some desc → w.Names (.valueParameter, desc)

namespace Does

variable {σ : Setting} {s : State} {d : Descent} {scope : Scope}

theorem any {α : Type} {m : Lower α} {Q : State → α → Prop} {G : α → Multiset Token}
    (h : Does σ s F m Q G) : Does σ s F m anything G :=
  h.imp (fun _ _ _ _ => trivial) fun _ => le_rfl

theorem syntheticParameter : Does σ s 0 (Lower.syntheticParameter desc) anything tokens := by
  refine descriptor_bind fun descriptor hdesc => ?_
  split
  next => exact unexpectedDeclaration
  next info hi =>
    have hk := Descriptor.kind_of_valueParameter? hi
    refine Does.seq (symbolOf_self hdesc (by simp [Descriptor.symbolKind, hk]))
      fun s1 symbol _ hsym => Does.seq convert fun s2 τ h2 hτ => ?_
    exact declare (h2.hasSymbol hsym) (fun _ => trivial)
      (by simpa [ValueParameterDecl.plain] using hτ) (by simp [ValueParameterDecl.plain])

theorem lowerTypeParameter {id : NodeId} :
    Does σ s 0 (Lower.lowerTypeParameter id) anything tokens := by
  refine node_bind fun _ _ => ?_
  split
  next =>
    refine declared_bind fun desc _ => descriptor_bind fun descriptor hdesc => ?_
    split
    next => exact unexpectedDeclaration
    next info hi =>
      have hk := Descriptor.kind_of_typeParameter? hi
      refine Does.seq (symbolOf_self hdesc (by simp [Descriptor.symbolKind, hk]))
        fun s1 symbol _ hsym => ?_
      refine Does.seq annotationEntries fun s2 calls h2 _ => ?_
      refine Does.seq convertAll fun s3 ts h3 hts => ?_
      exact declare ((h2.trans h3).hasSymbol hsym) (fun _ => trivial) (by simpa using hts) (by simp)
  next => exact unexpected

theorem thisReference : Does σ s 0 (Lower.thisReference receiver) anything tokens := by
  unfold Lower.thisReference
  split
  next => exact Does.seq convert fun _ _ _ hτ => addExpr hτ (by simp) (by simp)
  next => exact Does.seq convert fun _ _ _ hτ => addExpr hτ (by simp) (by simp)

theorem delegateField (hτ : s.Fits τ) :
    Does σ s 0 (Lower.delegateField property receiver τ) anything tokens := by
  unfold Lower.delegateField
  split
  next =>
    refine Does.seq convert fun _ _ h1 hρ => ?_
    refine Does.seq (addExpr hρ (by simp) (by simp)) fun _ _ h2 _ => ?_
    exact addExpr ((h1.trans h2).fits hτ) (by simp) (by simp)
  next => exact addExpr hτ (by simp) (by simp)

theorem propertyReference :
    Does σ s 0 (Lower.propertyReference operator property) anything tokens := by
  simp only [Lower.propertyReference, Lower.propertyParameterType, bind_assoc]
  refine descriptor_bind fun _ _ => ?_
  have hadd : ∀ id, Does σ s 0 (do
      Lower.addExpr (← Lower.convert id) (.callableReference (.plain property))) anything tokens :=
    fun _ => Does.seq convert fun _ _ _ hτ =>
      addExpr hτ (by simp [Access.plain]) (by simp [Access.plain])
  split
  next =>
    simp only [bind_assoc, pure_bind]
    exact descriptor_bind fun _ _ => hadd _
  next => simpa using hadd _

theorem accessorSymbol (hk : σ.world.Agrees (Key.optional .accessor declared)) :
    Does σ s 0 (Lower.accessorSymbol declared name) (fun s id => s.HasSymbol id .accessor)
      tokens := by
  cases declared with
  | none => exact freshLocal
  | some desc => exact symbolOf fun hw => hk hw _ (by simp [Key.optional, Key.all])

/-- The property of a constructor parameter reads the parameter's symbol. -/
theorem lowerConstructorProperty (hp : σ.world.NamesParameter parameter) :
    Does σ s 0 (Lower.lowerConstructorProperty desc parameter) anything tokens := by
  refine descriptor_bind fun descriptor hdesc => ?_
  split
  next => exact unexpectedDeclaration
  next info hi =>
    have hk := Descriptor.kind_of_property? hi
    refine Does.seq (symbolOf_self hdesc (by simp [Descriptor.symbolKind, hk]))
      fun s1 symbol _ hsym => declared_bind fun desc' hdesc' => ?_
    refine Does.seq (symbolOf fun _ => hp desc' hdesc') fun s2 _ h2 _ => ?_
    refine Does.seq convert fun s3 τ h3 hτ => ?_
    refine Does.seq (addExpr hτ (by simp [Access.plain]) (by simp [Access.plain]))
      fun s4 value h4 _ => Does.seq convertOptional fun s5 ρ h5 hρ => ?_
    have hτ5 := (h4.trans h5).fits hτ
    refine declare ((h2.trans (h3.trans (h4.trans h5))).hasSymbol hsym) (fun _ => trivial) ?_
      (by simp)
    simpa using ⟨hτ5, hρ⟩

theorem lowerConstructorProperties
    (hp : ∀ n parameters annotations, σ.world.tree.node? constructor = some n →
      n.kind = .primaryConstructor parameters annotations →
      ∀ p ∈ parameters, σ.world.NamesParameter p) :
    Does σ s 0 (Lower.lowerConstructorProperties constructor) anything tokens := by
  refine node_bind fun n hn => ?_
  split
  next parameters annotations hkind =>
    refine Does.seq (mapM_each fun parameter hmem _ _ => facts_bind ?_) fun _ _ _ _ =>
      pure trivial (by simp)
    split
    next =>
      exact (lowerConstructorProperty (hp n parameters annotations hn hkind parameter hmem)).map
        (fun _ _ _ _ => trivial) fun _ => by simp
    next => exact pure trivial (by simp)
  next => exact pure trivial (by simp)

theorem classDecl :
    Does σ s 0 (Lower.classDecl descriptor info typeParameters members) (fun s k =>
      k.Suits .classLike ∧ (∀ t ∈ k.types, s.Fits t) ∧ k.operands = []) fun _ => 0 :=
  Does.seq convertAll fun _ _ _ hts => pure ⟨trivial, by simpa using hts, rfl⟩ (by simp)

theorem lowerTypeAlias {id : NodeId} :
    Does σ s 0 (Lower.lowerTypeAlias id typeParameters annotations) anything tokens := by
  refine declared_bind fun desc _ => descriptor_bind fun descriptor hdesc => ?_
  split
  next => exact unexpectedDeclaration
  next info hi =>
    have hk := Descriptor.kind_of_typeAlias? hi
    refine Does.seq (symbolOf_self hdesc (by simp [Descriptor.symbolKind, hk]))
      fun s1 symbol _ hsym => Does.seq annotationEntries fun s2 calls h2 _ => ?_
    refine Does.seq (mapM_each fun _ _ _ _ => lowerTypeParameter) fun s3 _ h3 _ => ?_
    refine Does.seq convert fun s4 τ h4 hτ => ?_
    exact declare ((h2.trans (h3.trans h4)).hasSymbol hsym) (fun _ => trivial)
      (by simpa using hτ) (by simp)

variable (hd : Descends σ d)

include hd

theorem lowerValueParameter {id : NodeId} : Does σ s 0 (Lower.lowerValueParameter d scope id)
    (fun _ _ => σ.world.NamesParameter id) tokens := by
  refine node_bind fun _ _ => ?_
  split
  next =>
    refine declared_bind fun desc hdeclares => descriptor_bind fun descriptor hdesc => ?_
    split
    next => exact unexpectedDeclaration
    next info hi =>
      have hk : descriptor.symbolKind = .valueParameter := by
        simp [Descriptor.symbolKind, Descriptor.kind_of_valueParameter? hi]
      have hparameter : σ.world.NamesParameter id := fun desc' hdesc' => by
        cases hdeclares.symm.trans hdesc'
        exact names_self hdesc hk
      refine Does.seq (symbolOf_self hdesc hk) fun s1 symbol _ hsym => ?_
      refine Does.seq annotationEntries fun s2 calls h2 _ => ?_
      refine Does.seq (optionMapM fun _ _ => hd.expr) fun s3 value h3 _ => facts_bind ?_
      refine Does.seq (optionMapM (Q := anything) fun property hproperty => (symbolOf fun hw =>
        hw.facts id _ ?_).any) fun s4 property h4 _ => ?_
      · simp [NodeFacts.keys, hproperty, Key.optional, Key.all]
      refine Does.seq convert fun s5 τ h5 hτ => ?_
      exact imp (declare ((h2.trans (h3.trans (h4.trans h5))).hasSymbol hsym) (fun _ => trivial)
        (by simpa using hτ) (by simp [add_comm])) (fun _ _ _ _ => hparameter) fun _ => le_rfl
  next => exact unexpected

theorem lowerValueParameters {ids : List NodeId} :
    Does σ s 0 (ids.mapM (Lower.lowerValueParameter d scope))
      (fun _ _ => ∀ id ∈ ids, σ.world.NamesParameter id) tokens := by
  refine (mapM (P := fun id _ _ => σ.world.NamesParameter id) (fun _ h => h)
    fun _ _ _ _ => lowerValueParameter hd).imp (fun _ bs _ h => ?_) fun _ => le_rfl
  induction h with
  | nil => simp
  | cons ha _ ih => exact List.forall_mem_cons.2 ⟨ha, ih⟩

theorem lowerFunctionBody :
    Does σ s 0 (Lower.lowerFunctionBody d scope target body) anything tokens := by
  refine node_bind fun _ _ => ?_
  split
  next => exact lowerBlock hd
  next =>
    refine Does.seq hd.expr fun _ _ _ _ => Does.seq convert fun _ _ _ hτ => ?_
    exact Does.bind (R := 0) (addExpr hτ (by simp) rfl) (by simp) fun _ _ _ _ =>
      block.weaken (by simp)

theorem lowerFunction {id : NodeId} :
    Does σ s 0 (Lower.lowerFunction d scope id label) anything tokens := by
  refine node_bind fun _ _ => ?_
  split
  next =>
    refine declared_bind fun desc _ => descriptor_bind fun descriptor hdesc => ?_
    split
    next => exact unexpectedDeclaration
    next info hi =>
      have hk := Descriptor.kind_of_function? hi
      refine Does.seq symbolFor fun s1 symbol h1 hsym => ?_
      obtain ⟨descriptor', hdesc', hsym⟩ := hsym
      cases hdesc.symm.trans hdesc'
      refine Does.seq annotationEntries fun s2 calls h2 _ => ?_
      refine Does.seq (mapM_each fun _ _ _ _ => lowerTypeParameter) fun s3 _ h3 _ => ?_
      refine Does.seq newFunctionTarget fun s4 target h4 _ => ?_
      refine Does.seq (lowerValueParameters hd) fun s5 _ h5 _ => ?_
      refine Does.seq (optionMapM fun _ _ => lowerFunctionBody hd) fun s6 body h6 _ => ?_
      refine Does.seq convertOptional fun s7 dispatch h7 hdispatch => ?_
      refine Does.seq convertOptional fun s8 extension h8 hextension => ?_
      refine Does.seq convert fun s9 τ h9 hτ => ?_
      refine Does.seq (mapM_each fun desc hmem _ _ => (symbolOf fun hw =>
        hw.kind hdesc _ ?_).any) fun s10 _ h10 _ => ?_
      · simp [hk, DescriptorKind.keys, Key.all, hmem]
      have hle := h2.trans (h3.trans (h4.trans (h5.trans (h6.trans (h7.trans (h8.trans
        (h9.trans h10)))))))
      refine declareCallable (hle.hasSymbol hsym) (fun _ => ?_) ?_ (by simp [add_comm])
      · simp only [Descriptor.symbolKind, hk]
        cases info.isAnonymous <;> exact trivial
      · simp only [DeclKind.types, List.forall_mem_append, List.forall_mem_singleton,
          Option.mem_toList]
        exact ⟨⟨fun t ht => (h8.trans (h9.trans h10)).fits (hdispatch t ht),
          fun t ht => (h9.trans h10).fits (hextension t ht)⟩, h10.fits hτ⟩
  next => exact unexpected

theorem lowerAnonymousFunction {id : NodeId} :
    Does σ s 0 (Lower.lowerAnonymousFunction d scope id label) anything tokens :=
  Does.seq (lowerFunction hd) fun _ _ _ _ => Does.seq expressionType fun _ _ _ hτ =>
    addExpr hτ (by simp) (by simp)

theorem lowerLambdaParameter :
    Does σ s 0 (Lower.lowerLambdaParameter d scope parameter) anything tokens := by
  refine Does.seq (lowerValueParameter hd) fun s1 decl _ _ => node_bind fun _ _ => ?_
  split
  next =>
    refine destructuredEntries_bind fun entries => decl_bind fun x hx => ?_
    refine Does.seq declaredType fun s2 τ h2 hτ => ?_
    split
    next => exact unexpected
    next τ =>
      exact Does.seq (lowerComponents hd (hτ τ rfl)) fun _ _ _ _ => pure trivial (by simp)
  next => exact pure trivial (by simp)

omit hd in
theorem tokens_flatMap_snd (ps : List (DeclId × List Statement)) :
    tokens (ps.flatMap (·.2)) = tokens ps := by
  induction ps with
  | nil => rfl
  | cons p ps ih => simp [ih]

theorem lowerLambdaParameters :
    Does σ s 0 (Lower.lowerLambdaParameters d scope parameters) anything tokens :=
  Does.seq (mapM_each fun _ _ _ _ => lowerLambdaParameter hd) fun _ _ _ _ =>
    pure trivial (by simp [tokens_flatMap_snd])

theorem lowerLambdaBody : Does σ s 0 (Lower.lowerLambdaBody d scope body) anything tokens := by
  refine node_bind fun _ _ => ?_
  split
  next => exact lowerStatements hd
  next => exact spliced hd

omit hd in
theorem implicitParameters :
    Does σ s 0 (Lower.implicitParameters parameters info) anything tokens := by
  unfold Lower.implicitParameters
  split
  next => exact mapM_each fun _ _ _ _ => syntheticParameter
  next => exact pure trivial (by simp)

omit hd in
theorem lambdaBlock : Does σ s (tokens ss) (Lower.lambdaBlock ss) anything tokens := by
  unfold Lower.lambdaBlock
  split
  next =>
    exact Does.seq unitValue fun _ _ _ _ => block.weaken (le_of_eq_add (b := tokens ss) (by simp))
  next => exact block

theorem lowerLambda {id : NodeId}
    (hk : σ.world.Agrees (Key.optional .anonymousFunction (σ.world.factsOf id).declares)) :
    Does σ s 0 (Lower.lowerLambda d scope id parameters body label) anything tokens := by
  refine declared_bind fun desc hdeclares => descriptor_bind fun descriptor hdesc => ?_
  split
  next => exact unexpectedDeclaration
  next info hi =>
    refine Does.seq (symbolOf fun hw => hk hw _ (by simp [hdeclares, Key.optional, Key.all]))
      fun s1 symbol h1 hsym => Does.seq newFunctionTarget fun s2 target h2 _ => ?_
    refine Does.seq implicitParameters fun s3 _ h3 _ => ?_
    refine Does.seq (lowerLambdaParameters hd) fun s4 p h4 _ => ?_
    refine Does.seq (lowerLambdaBody hd) fun s5 ss h5 _ => ?_
    refine Does.bind (R := 0) lambdaBlock (by simp [add_comm]) fun s6 body h6 _ => ?_
    refine Does.seq convertOptional fun s7 ρ h7 hρ => Does.seq convert fun s8 τ h8 hτ => ?_
    have hle := h2.trans (h3.trans (h4.trans (h5.trans (h6.trans (h7.trans h8)))))
    refine Does.bind (R := 0) (declareCallable (hle.hasSymbol hsym) (fun _ => trivial) ?_ rfl)
      (by simp) fun s9 decl _ _ => ?_
    · simp only [DeclKind.types, List.forall_mem_append, List.forall_mem_singleton,
        Option.mem_toList]
      exact ⟨⟨by simp, fun t ht => h8.fits (hρ t ht)⟩, hτ⟩
    · exact Does.seq expressionType fun _ _ _ hτ => addExpr hτ (by simp) (by simp)

theorem construct {id : NodeId} :
    Does σ s 0 (Lower.lowerConstructor.construct d scope id parameters delegation body annotations
      isPrimary) (fun _ _ => ∀ p ∈ parameters, σ.world.NamesParameter p) tokens := by
  refine declared_bind fun desc _ => descriptor_bind fun descriptor hdesc => ?_
  split
  next => exact unexpectedDeclaration
  next info hi =>
    have hk := Descriptor.kind_of_constructor? hi
    refine Does.seq (symbolOf_self hdesc (by simp [Descriptor.symbolKind, hk]))
      fun s1 symbol h1 hsym => Does.seq annotationEntries fun s2 calls h2 _ => ?_
    refine Does.seq newFunctionTarget fun s3 target h3 _ => ?_
    refine Does.seq (lowerValueParameters hd) fun s4 _ h4 hparameters => ?_
    refine Does.seq (optionMapM fun _ _ => lowerDelegationCall hd) fun s5 _ h5 _ => ?_
    refine Does.seq (optionMapM fun _ _ => lowerFunctionBody hd) fun s6 _ h6 _ => ?_
    refine Does.seq convert fun s7 τ h7 hτ => ?_
    have hle := h2.trans (h3.trans (h4.trans (h5.trans (h6.trans h7))))
    exact imp (declareCallable (hle.hasSymbol hsym) (fun _ => trivial) (by simpa using hτ)
      (by simp; abel)) (fun _ _ _ _ => hparameters) fun _ => le_rfl

theorem lowerConstructor {id : NodeId} :
    Does σ s 0 (Lower.lowerConstructor d scope id superCall) (fun _ _ =>
      ∀ n parameters annotations, σ.world.tree.node? id = some n →
        n.kind = .primaryConstructor parameters annotations →
        ∀ p ∈ parameters, σ.world.NamesParameter p) tokens := by
  refine node_bind fun n hn => ?_
  split
  next hkind =>
    refine (construct hd).imp (fun _ _ _ hp n' parameters' annotations' hn' hkind' => ?_)
      fun _ => le_rfl
    cases hn.symm.trans hn'
    cases hkind.symm.trans hkind'
    exact hp
  next hkind =>
    refine (construct hd).imp (fun _ _ _ _ n' parameters' annotations' hn' hkind' => ?_)
      fun _ => le_rfl
    cases hn.symm.trans hn'
    cases hkind.symm.trans hkind'
  next => exact unexpected

theorem syntheticConstructor :
    Does σ s 0 (Lower.syntheticConstructor d scope desc superCall) anything tokens := by
  refine descriptor_bind fun descriptor hdesc => ?_
  split
  next => exact unexpectedDeclaration
  next info hi =>
    have hk := Descriptor.kind_of_constructor? hi
    refine Does.seq (symbolOf_self hdesc (by simp [Descriptor.symbolKind, hk]))
      fun s1 symbol h1 hsym => Does.seq newFunctionTarget fun s2 target h2 _ => ?_
    refine Does.seq (mapM_each fun _ _ _ _ => syntheticParameter) fun s3 _ h3 _ => ?_
    refine Does.seq (optionMapM fun _ _ => lowerDelegationCall hd) fun s4 _ h4 _ => ?_
    refine Does.seq convert fun s5 τ h5 hτ => ?_
    have hle := h2.trans (h3.trans (h4.trans h5))
    exact declareCallable (hle.hasSymbol hsym) (fun _ => trivial) (by simpa using hτ) (by simp)

theorem lowerAccessor {id : NodeId} :
    Does σ s 0 (Lower.lowerAccessor d scope property id) anything tokens := by
  refine node_bind fun _ _ => ?_
  split
  next =>
    refine declared_bind fun desc _ => descriptor_bind fun descriptor hdesc => ?_
    split
    next => exact unexpectedDeclaration
    next info hi =>
      have hk := Descriptor.kind_of_accessor? hi
      refine Does.seq (symbolOf_self hdesc (by simp [Descriptor.symbolKind, hk]))
        fun s1 symbol h1 hsym => Does.seq annotationEntries fun s2 calls h2 _ => ?_
      refine Does.seq newFunctionTarget fun s3 target h3 _ => ?_
      refine Does.seq (lowerValueParameters hd) fun s4 _ h4 _ => ?_
      refine Does.seq (optionMapM fun _ _ => lowerFunctionBody hd) fun s5 _ h5 _ => ?_
      refine Does.seq convert fun s6 τ h6 hτ => ?_
      have hle := h2.trans (h3.trans (h4.trans (h5.trans h6)))
      exact declareCallable (hle.hasSymbol hsym) (fun _ => trivial) (by simpa using hτ)
        (by simp [add_comm])
  next => exact unexpected

theorem lowerDelegateValue (hk : σ.world.Agrees calls.keys) :
    Does σ s 0 (Lower.lowerDelegateValue d scope calls info property delegate) anything
      tokens := by
  refine Does.seq hd.expr fun s1 value _ _ => ?_
  split
  next => exact pure trivial (by simp)
  next provide hprovide =>
    have hk' : σ.world.Agrees provide.keys :=
      hk.subset fun _ h => by simp [DelegateCalls.keys, hprovide, h]
    refine Does.seq thisReference fun s2 this _ _ => ?_
    refine Does.seq propertyReference fun s3 reference _ _ => Does.seq convert fun s4 τ _ hτ => ?_
    exact (callOn hd hk' hτ).weaken (le_of_eq (by simp; abel))

theorem delegatedGetter (hk : σ.world.Agrees calls.keys)
    (hg : σ.world.Agrees (Key.optional .accessor info.getter)) (hf : s.Fits fieldType) :
    Does σ s 0 (Lower.delegatedGetter d scope calls descriptor info property fieldType) anything
      tokens := by
  refine Does.seq (accessorSymbol hg) fun s1 symbol h1 hsym => ?_
  refine Does.seq convert fun s2 τ h2 hτ => Does.seq newFunctionTarget fun s3 target h3 _ => ?_
  refine Does.seq (delegateField ((h1.trans (h2.trans h3)).fits hf)) fun s4 receiver h4 _ => ?_
  refine Does.seq thisReference fun s5 this h5 _ => ?_
  refine Does.seq propertyReference fun s6 reference h6 _ => ?_
  have hτ6 := (h3.trans (h4.trans (h5.trans h6))).fits hτ
  refine Does.bind (R := 0) (callOn hd hk.append.1.append.1 hτ6) (by simp; abel)
    fun s7 value h7 _ => Does.seq convert fun s8 ρ h8 hρ => ?_
  refine Does.bind (R := 0) (addExpr hρ (by simp) rfl) (by simp) fun s9 jump h9 _ => ?_
  refine Does.bind (R := 0) block (by simp) fun s10 body h10 _ => ?_
  have hle := h7.trans (h8.trans (h9.trans h10))
  exact declareCallable ((h2.trans (h3.trans (h4.trans (h5.trans (h6.trans hle))))).hasSymbol hsym)
    (fun _ => trivial) (by simpa using hle.fits hτ6) (by simp)

theorem delegatedSetter (hk : σ.world.Agrees setValue.keys)
    (hg : σ.world.Agrees (Key.optional .accessor info.setter)) (hf : s.Fits fieldType) :
    Does σ s 0 (Lower.delegatedSetter d scope setValue descriptor info property fieldType) anything
      tokens := by
  refine Does.seq (accessorSymbol hg) fun s1 symbol h1 hsym => ?_
  refine Does.seq convert fun s2 τ h2 hτ => Does.seq freshLocal fun s3 valueSymbol h3 hvalue => ?_
  refine Does.seq (declare hvalue (fun _ => trivial) (by
    simpa [ValueParameterDecl.plain] using h3.fits hτ) (by simp [ValueParameterDecl.plain]))
    fun s4 parameter h4 _ => Does.seq newFunctionTarget fun s5 target h5 _ => ?_
  refine Does.seq (delegateField ((h1.trans (h2.trans (h3.trans (h4.trans h5)))).fits hf))
    fun s6 receiver h6 _ => Does.seq thisReference fun s7 this h7 _ => ?_
  refine Does.seq propertyReference fun s8 reference h8 _ => ?_
  have hτ8 := (h3.trans (h4.trans (h5.trans (h6.trans (h7.trans h8))))).fits hτ
  refine Does.seq (addExpr hτ8 (by simp [Access.plain]) (by simp [Access.plain]))
    fun s9 value h9 _ => Does.seq convert fun s10 unit h10 hunit => ?_
  refine Does.bind (R := 0) (callOn hd hk hunit) (by simp; abel) fun s11 call h11 _ => ?_
  refine Does.bind (R := 0) block (by simp) fun s12 body h12 _ => ?_
  have hle := h2.trans (h3.trans (h4.trans (h5.trans (h6.trans (h7.trans (h8.trans (h9.trans
    (h10.trans (h11.trans h12)))))))))
  exact declareCallable (hle.hasSymbol hsym) (fun _ => trivial)
    (by simpa using (h11.trans h12).fits hunit) (by simp)

theorem lowerDelegate {id : NodeId} (hg : σ.world.Agrees (Key.optional .accessor info.getter))
    (hs : σ.world.Agrees (Key.optional .accessor info.setter)) :
    Does σ s 0 (Lower.lowerDelegate d scope id descriptor info property delegate) anything
      tokens := by
  refine facts_bind (required_bind fun calls hcalls => ?_)
  have hk : σ.world.Agrees calls.keys := fun hw key hkey =>
    hw.facts id key (by simp [NodeFacts.keys, hcalls, hkey])
  refine Does.seq (lowerDelegateValue hd hk) fun s1 field _ _ => ?_
  refine Does.seq exprType fun s2 τ _ hτ => ?_
  refine Does.seq (delegatedGetter hd hk hg hτ) fun s3 getter h3 _ => ?_
  split
  next setValue hset _ =>
    have hk' : σ.world.Agrees setValue.keys :=
      hk.subset fun _ h => by simp [DelegateCalls.keys, hset, h]
    exact Does.seq (delegatedSetter hd hk' hs (h3.fits hτ)) fun _ _ _ _ => pure trivial (by simp)
  next => exact pure trivial (by simp)

theorem propertyParts {id : NodeId} (hg : σ.world.Agrees (Key.optional .accessor info.getter))
    (hs : σ.world.Agrees (Key.optional .accessor info.setter)) :
    Does σ s 0 (Lower.propertyParts d scope id descriptor info property node) anything tokens := by
  unfold Lower.propertyParts
  split
  next => exact lowerDelegate hd hg hs
  next =>
    refine Does.seq (optionMapM fun _ _ => lowerAccessor hd) fun _ _ _ _ => ?_
    exact Does.seq (optionMapM fun _ _ => lowerAccessor hd) fun _ _ _ _ => pure trivial (by simp)

theorem lowerProperty {id : NodeId} :
    Does σ s 0 (Lower.lowerProperty d scope id node) anything tokens := by
  refine declared_bind fun desc _ => descriptor_bind fun descriptor hdesc => ?_
  split
  next => exact unexpectedDeclaration
  next info hi =>
    have hk := Descriptor.kind_of_property? hi
    have hg : σ.world.Agrees (Key.optional .accessor info.getter) := fun hw key hkey =>
      hw.kind hdesc key (by simp [hk, DescriptorKind.keys, hkey])
    have hs : σ.world.Agrees (Key.optional .accessor info.setter) := fun hw key hkey =>
      hw.kind hdesc key (by simp [hk, DescriptorKind.keys, hkey])
    refine Does.seq (symbolOf_self hdesc (by simp [Descriptor.symbolKind, hk]))
      fun s1 symbol h1 hsym => Does.seq annotationEntries fun s2 calls h2 _ => ?_
    refine Does.seq (mapM_each fun _ _ _ _ => lowerTypeParameter) fun s3 _ h3 _ => ?_
    refine Does.seq convert fun s4 τ h4 hτ => ?_
    refine Does.seq (optionMapM fun _ _ => hd.expr) fun s5 initializer h5 _ => ?_
    refine Does.seq (propertyParts hd hg hs) fun s6 parts h6 _ => ?_
    refine Does.seq convertOptional fun s7 dispatch h7 hdispatch => ?_
    refine Does.seq convertOptional fun s8 extension h8 hextension => ?_
    have hle := h5.trans (h6.trans (h7.trans h8))
    refine declare ((h2.trans (h3.trans (h4.trans hle))).hasSymbol hsym) (fun _ => trivial) ?_
      (by simp; abel)
    simp only [DeclKind.types, List.forall_mem_cons, List.forall_mem_append, Option.mem_toList]
    exact ⟨hle.fits hτ, fun t ht => h8.fits (hdispatch t ht), hextension⟩

theorem lowerPrimaryConstructor :
    Does σ s 0 (Lower.lowerPrimaryConstructor d node info) anything tokens := by
  unfold Lower.lowerPrimaryConstructor
  split
  next =>
    refine Does.seq (lowerConstructor hd) fun _ _ _ hp => ?_
    exact Does.seq (lowerConstructorProperties hp) fun _ _ _ _ => pure trivial (by simp)
  next =>
    split
    next => exact pure trivial (by simp)
    next => exact Does.seq (syntheticConstructor hd) fun _ _ _ _ => pure trivial (by simp)
  next => exact pure trivial (by simp)

theorem lowerClass {id : NodeId} : Does σ s 0 (Lower.lowerClass d id) anything tokens := by
  refine node_bind fun _ _ => ?_
  split
  next =>
    refine declared_bind fun desc _ => descriptor_bind fun descriptor hdesc => ?_
    split
    next => exact unexpectedDeclaration
    next info hi =>
      have hk := Descriptor.kind_of_class? hi
      refine Does.seq (symbolOf_self hdesc (by simp [Descriptor.symbolKind, hk]))
        fun s1 symbol h1 hsym => Does.seq annotationEntries fun s2 calls h2 _ => ?_
      refine Does.seq (mapM_each fun _ _ _ _ => lowerTypeParameter) fun s3 _ h3 _ => ?_
      refine Does.seq (lowerPrimaryConstructor hd) fun s4 _ h4 _ => ?_
      refine Does.seq (mapM_each fun _ _ _ _ => hd.decl) fun s5 _ h5 _ => ?_
      refine Does.seq classDecl fun s6 kind h6 hkind => ?_
      have hle := h2.trans (h3.trans (h4.trans (h5.trans h6)))
      exact declare (hle.hasSymbol hsym) (fun _ => hkind.1) hkind.2.1 (by rw [hkind.2.2]; simp)
  next => exact unexpected

theorem lowerObjectLiteral {id : NodeId} :
    Does σ s 0 (Lower.lowerObjectLiteral d id declaration) anything tokens :=
  Does.seq (lowerClass hd) fun _ _ _ _ => Does.seq expressionType fun _ _ _ hτ =>
    addExpr hτ (by simp) (by simp)

theorem lowerEnumEntry {id : NodeId} :
    Does σ s 0 (Lower.lowerEnumEntry d id declarations annotations) anything tokens := by
  refine declared_bind fun desc _ => descriptor_bind fun descriptor hdesc => ?_
  split
  next => exact unexpectedDeclaration
  next info hi =>
    have hk := Descriptor.kind_of_class? hi
    refine Does.seq (symbolOf_self hdesc (by simp [Descriptor.symbolKind, hk]))
      fun s1 symbol h1 hsym => Does.seq annotationEntries fun s2 calls h2 _ => ?_
    refine Does.seq (mapM_each fun _ _ _ _ => hd.decl) fun s3 _ h3 _ => ?_
    refine Does.seq classDecl fun s4 kind h4 hkind => ?_
    exact declare ((h2.trans (h3.trans h4)).hasSymbol hsym) (fun _ => hkind.1) hkind.2.1
      (by rw [hkind.2.2]; simp)

theorem lowerInitializer :
    Does σ s 0 (Lower.lowerInitializer d scope body annotations) anything tokens := by
  refine Does.seq freshLocal fun s1 symbol h1 hsym => ?_
  refine Does.seq annotationEntries fun s2 calls h2 _ => Does.seq (lowerBody hd) fun s3 _ h3 _ => ?_
  exact declare ((h2.trans h3).hasSymbol hsym) (fun _ => trivial) (by simp) (by simp [add_comm])

end Does

end TypedTree
