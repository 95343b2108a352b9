import TypedTree.Proofs.Pass.Property

namespace TypedTree.Tandem

open Lower

variable {Stage : Type} [Preorder Stage] {T : Tandem Stage} {w : Stage} {g : Region}

/-- Code at the top of a file or of a class may stand anywhere. -/
theorem scopes_root : T.scopes g w .root .root := .cons .root .nil

namespace Lawful

variable (hT : T.Lawful) {d : Descent} (hd : T.Descends d) {s1 s2 : Scope}

include hT

theorem classDecl (hi : ∀ t ∈ i.supertypes, T.world.Finds (.type t))
    {ts1 ts2 ms1 ms2 : List DeclId} (hts : List.Forall₂ (T.decls [] w) ts1 ts2)
    (hms : List.Forall₂ (T.decls [] w) ms1 ms2) :
    T.Does w (classDecl info i ts1 ms1) (classDecl info i ts2 ms2) fun w' =>
      DeclKind.Alike (T.ids w') g := by
  refine Does.bind (hT.convertAll hi) fun w1 _ _ h1 hτs => ?_
  exact Does.pure (.classLike (decls_later h1 hts) hτs (decls_later h1 hms))

/-- Each property is read from a parameter that is lowered as such. -/
theorem lowerConstructorProperties (hid : T.Finds constructor)
    (hp : ∀ n parameters annotations, T.world.tree.node? constructor = some n →
      n.kind = .primaryConstructor parameters annotations →
      ∀ p ∈ parameters, T.world.DeclaresParameter p) :
    T.Same w (lowerConstructorProperties constructor) fun w' => List.Forall₂ (T.decls g w') := by
  refine hT.node_bind hid fun n hfound hn => ?_
  split
  next parameters annotations hkind =>
    have hstable : Stable fun w => Option.Rel (T.decls g w) := options_stable decls_stable
    refine Does.bind (Does.mapM_same hstable fun p hmem w' _ => ?_) fun _ _ _ _ hall =>
      Does.pure (List.rel_filterMap (fun _ _ hab => hab) hall)
    have hnode : T.Finds p :=
      hn _ (by simp [hkind, NodeKind.refs, Reference.nodes, hmem])
    refine facts_bind fun hf => ?_
    split
    next property hproperty =>
      have hdesc : T.world.Finds (.desc property) :=
        hf _ (by simp [NodeFacts.refs, hproperty, Reference.desc?, Reference.descs])
      rw [map_eq_pure_bind]
      exact Does.bind (hT.lowerConstructorProperty hdesc hnode (hp n _ _ hfound hkind p hmem))
        fun _ _ _ _ hx => Does.pure (.some hx)
    next => exact Does.pure .none
  next => exact Does.pure .nil

theorem lowerTypeAlias {id : NodeId} (hid : T.Finds id) {typeParameters annotations : List NodeId}
    (hp : ∀ p ∈ typeParameters, T.Finds p) (ha : ∀ m ∈ annotations, T.Finds m) :
    T.Same w (lowerTypeAlias id typeParameters annotations) (T.decls g) := by
  refine hT.declared_bind hid fun desc _ hdesc => ?_
  refine hT.descriptor_bind hdesc fun info _ hinfo => ?_
  split
  next => exact hT.unexpectedDeclaration
  next i hi =>
    have hexpanded : T.world.Finds (.type i.expanded) := World.Knows.kind hinfo _
      (by simp [Descriptor.kind_of_typeAlias? hi, DescriptorKind.refs])
    refine Does.bind (hT.symbolOf hdesc ⟨by simp, by simp⟩) fun w1 _ _ h1 hsym => ?_
    refine Does.bind (hT.annotationEntries ha) fun w2 _ _ h2 hcalls => ?_
    refine Does.bind (Does.mapM_same (decls_stable (T := T) (g := g)) fun m hm _ _ =>
      hT.lowerTypeParameter (hp m hm)) fun w3 _ _ h3 htps => ?_
    refine Does.bind (hT.convert hexpanded) fun w4 _ _ h4 hτ => ?_
    exact hT.declare (symbols_stable ((h2.trans h3).trans h4) hsym)
      (notes_later (h3.trans h4) hcalls) (.typeAlias (decls_later h4 htps) hτ)

include hd

theorem lowerPrimaryConstructor (hn : T.world.Knows (NodeKind.classDecl n).refs) {i : ClassInfo}
    (hi : ∀ desc ∈ i.primaryConstructor, T.world.Finds (.desc desc)) :
    T.Same w (lowerPrimaryConstructor d n i) fun w' => List.Forall₂ (T.decls g w') := by
  simp only [NodeKind.refs, World.knows_refs] at hn
  obtain ⟨⟨⟨⟨_, hconstructor⟩, hsuper⟩, _⟩, _⟩ := hn
  unfold Lower.lowerPrimaryConstructor
  split
  next constructor hc =>
    refine Does.bind (hT.lowerConstructor (g := g) hd scopes_root (hconstructor _ hc) hsuper)
      fun w1 _ _ h1 hx => ?_
    refine Does.bind (hT.lowerConstructorProperties (g := g) (hconstructor _ hc) hx.2)
      fun w2 _ _ h2 hps => ?_
    exact Does.pure (.cons (decls_stable h2 hx.1) hps)
  next constructor _ hc =>
    split
    next => exact Does.pure .nil
    next =>
      exact Does.bind (hT.syntheticConstructor (g := g) hd scopes_root (hi _ hc) hsuper)
        fun _ _ _ _ hx => Does.pure (.cons hx .nil)
  next => exact Does.pure .nil

omit hT in
/-- The members of a class see nothing of what is around it. -/
theorem members {ids : List NodeId} (hn : ∀ id ∈ ids, T.Finds id) :
    T.Same w (ids.mapM (d.decl .root)) fun w' => List.Forall₂ (T.decls g w') :=
  Does.mapM_same decls_stable fun id hid _ _ => hd.decl scopes_root (hn id hid)

theorem lowerClass {id : NodeId} (hid : T.Finds id) : T.Same w (lowerClass d id) (T.decls g) := by
  refine hT.node_bind hid fun n _ hn => ?_
  split
  next node hkind =>
    rw [hkind] at hn
    have hrefs := hn
    simp only [NodeKind.refs, World.knows_refs] at hrefs
    obtain ⟨⟨⟨⟨htparams, _⟩, _⟩, hmembers⟩, hnotes⟩ := hrefs
    refine hT.declared_bind hid fun desc _ hdesc => ?_
    refine hT.descriptor_bind hdesc fun info _ hinfo => ?_
    split
    next => exact hT.unexpectedDeclaration
    next i hi =>
      have hk := World.Knows.kind hinfo
      simp only [Descriptor.kind_of_class? hi, DescriptorKind.refs, World.knows_refs] at hk
      refine Does.bind (hT.symbolOf hdesc ⟨by simp, by simp⟩) fun w1 _ _ h1 hsym => ?_
      refine Does.bind (hT.annotationEntries hnotes) fun w2 _ _ h2 hcalls => ?_
      refine Does.bind (Does.mapM_same (decls_stable (T := T) (g := [])) fun m hm _ _ =>
        hT.lowerTypeParameter (htparams m hm)) fun w3 _ _ h3 htps => ?_
      refine Does.bind (hT.lowerPrimaryConstructor (g := []) hd hn hk.2) fun w4 _ _ h4 hcs => ?_
      refine Does.bind (members (g := []) hd hmembers) fun w5 _ _ h5 hms => ?_
      refine Does.bind (hT.classDecl (g := g) hk.1.1.2 (decls_later (h4.trans h5) htps)
        (List.rel_append (decls_later h5 hcs) hms)) fun w6 _ _ h6 hkind' => ?_
      have h2' := ((h3.trans h4).trans h5).trans h6
      exact hT.declare (symbols_stable (h2.trans h2') hsym) (notes_later h2' hcalls) hkind'
  next => exact hT.unexpected hid

theorem lowerObjectLiteral {id declaration : NodeId} (hdeclaration : T.Finds declaration) :
    T.Same w (lowerObjectLiteral d id declaration) (T.exprs g) := by
  refine Does.bind (hT.lowerClass (g := g) hd hdeclaration) fun w1 _ _ _ hx => ?_
  exact Does.bind hT.expressionType fun w2 _ _ h2 hτ =>
    hT.addExpr hτ (.anonymousObject (decls_stable h2 hx)) rfl

theorem lowerEnumEntry {id : NodeId} (hid : T.Finds id) {declarations annotations : List NodeId}
    (hm : ∀ m ∈ declarations, T.Finds m) (ha : ∀ m ∈ annotations, T.Finds m) :
    T.Same w (lowerEnumEntry d id declarations annotations) (T.decls g) := by
  refine hT.declared_bind hid fun desc _ hdesc => ?_
  refine hT.descriptor_bind hdesc fun info _ hinfo => ?_
  split
  next => exact hT.unexpectedDeclaration
  next i hi =>
    have hsupertypes : ∀ t ∈ i.supertypes, T.world.Finds (.type t) := fun t ht =>
      World.Knows.kind hinfo _
        (by simp [Descriptor.kind_of_class? hi, DescriptorKind.refs, Reference.types, ht])
    refine Does.bind (hT.symbolOf hdesc ⟨by simp, by simp⟩) fun w1 _ _ h1 hsym => ?_
    refine Does.bind (hT.annotationEntries ha) fun w2 _ _ h2 hcalls => ?_
    refine Does.bind (members (g := []) hd hm) fun w3 _ _ h3 hms => ?_
    refine Does.bind (hT.classDecl (g := g) hsupertypes .nil hms) fun w4 _ _ h4 hkind => ?_
    exact hT.declare (symbols_stable ((h2.trans h3).trans h4) hsym)
      (notes_later (h3.trans h4) hcalls) hkind

theorem lowerInitializer (hs : T.scopes g w s1 s2) {body : Option NodeId}
    (hb : ∀ n ∈ body, T.Finds n) {annotations : List NodeId} (ha : ∀ m ∈ annotations, T.Finds m) :
    T.SameIn w s1 s2 (lowerInitializer d · body annotations) (T.decls g) := by
  refine Does.bind hT.freshLocal fun w1 _ _ h1 hsym => ?_
  refine Does.bind (hT.annotationEntries ha) fun w2 _ _ h2 hcalls => ?_
  refine Does.bind (hT.lowerBody hd (scopes_later (h1.trans h2) hs) hb) fun w3 _ _ h3 he => ?_
  exact hT.declare (symbols_stable (h2.trans h3) hsym) (notes_later h3 hcalls)
    (.initializer (.inl he))

end Lawful

end TypedTree.Tandem
