import TypedTree.Proofs.Pass.Destructuring
import TypedTree.Proofs.Pass.Parameter

namespace TypedTree.Tandem

open Lower

variable {Stage : Type} [Preorder Stage]

def unpacked (T : Tandem Stage) (g : Region) (w : Stage) (a b : DeclId × List Statement) : Prop :=
  T.decls g w a.1 b.1 ∧ T.statements g w a.2 b.2

variable {T : Tandem Stage} {w : Stage} {g : Region}

theorem unpacked_stable : Stable (T.unpacked g) := fun _ _ _ _ h hab =>
  ⟨decls_stable h hab.1, statements_later h hab.2⟩

/-- The code inside of a callable may use its target besides what is around it. -/
theorem scopes_function (hs : T.scopes g w s1 s2) {w' : Stage} (h : w ≤ w')
    {t1 t2 : FunctionTargetId} (ht : (T.ids w').holder (.function t1) (.function t2)) :
    T.scopes ((.function t1, .function t2) :: g) w' (.function t1 :: s1) (.function t2 :: s2) :=
  .cons (.function ht (by simp)) (hs.mono (T.ids_mono h) (List.subset_cons_self _ g))

theorem decls_weaken (hg : g ⊆ g') {xs ys : List DeclId} (h : List.Forall₂ (T.decls g w) xs ys) :
    List.Forall₂ (T.decls g' w) xs ys :=
  h.imp fun _ _ => (T.ids w).decl_weaken hg

theorem decls_later (hle : w ≤ w') {xs ys : List DeclId} (h : List.Forall₂ (T.decls g w) xs ys) :
    List.Forall₂ (T.decls g w') xs ys :=
  lists_stable decls_stable hle h

theorem notes_later (hle : w ≤ w') {xs ys : List ExprId} (h : List.Forall₂ (T.notes w) xs ys) :
    List.Forall₂ (T.notes w') xs ys :=
  h.imp fun _ _ => (T.ids_mono hle).note

theorem given_of_expr (hle : w ≤ w') {x y : Option ExprId} (h : Option.Rel (T.exprs g w) x y) :
    Option.Rel ((T.ids w').part g) x y :=
  Option.rel_imp (fun _ _ he => .inl ((T.ids_mono hle).expr he)) h

theorem optionTypes_later (hle : w ≤ w') {x y : Option TreeType} (h : Option.Rel (T.types w) x y) :
    Option.Rel (T.types w') x y :=
  options_stable types_stable hle h

namespace Lawful

variable (hT : T.Lawful) {d : Descent} (hd : T.Descends d) {s1 s2 : Scope}
  (hs : T.scopes g w s1 s2)

include hT hd hs

theorem lowerFunctionBody {t1 t2 : FunctionTargetId}
    (ht : (T.ids w).holder (.function t1) (.function t2)) (hm : (.function t1, .function t2) ∈ g)
    {body : NodeId} (hb : T.Finds body) :
    T.Does w (lowerFunctionBody d s1 t1 body) (lowerFunctionBody d s2 t2 body) (T.exprs g) := by
  refine hT.node_bind hb fun n _ hn => ?_
  split
  next nodes hkind =>
    rw [hkind] at hn
    exact hT.lowerBlock hd hs fun m hm => hn _ (List.mem_map_of_mem hm)
  next =>
    refine Does.bind (hd.expr hs hb) fun w1 _ _ h1 hv => ?_
    refine Does.bind hT.nothingType fun w2 _ _ h2 hτ => ?_
    refine Does.bind (hT.addExpr hτ (.returnJump ((T.ids_mono (h1.trans h2)).holder ht) hm
      (part_later h2 (.inl hv))) rfl) fun w3 _ _ _ hj => ?_
    exact hT.block (.cons (.expression (.inl hj)) .nil)

theorem lowerFunction {id : NodeId} (hid : T.Finds id) {label : Option Name} :
    T.SameIn w s1 s2 (lowerFunction d · id label) (T.decls g) := by
  refine hT.node_bind hid fun n _ hn => ?_
  split
  next function hkind =>
    simp only [hkind, NodeKind.refs, World.knows_refs] at hn
    obtain ⟨⟨⟨htparams, hparams⟩, hbody⟩, hnotes⟩ := hn
    refine hT.declared_bind hid fun desc _ hdesc => ?_
    refine hT.descriptor_bind hdesc fun info _ hinfo => ?_
    split
    next => exact hT.unexpectedDeclaration
    next i hi =>
      have hrefs := World.Knows.kind hinfo
      simp only [Descriptor.kind_of_function? hi, DescriptorKind.refs, World.knows_refs] at hrefs
      obtain ⟨⟨⟨⟨_, hreturn⟩, hdispatch⟩, hextension⟩, hoverridden⟩ := hrefs
      refine Does.bind (hT.symbolFor hdesc) fun w1 _ _ h1 hsym => ?_
      refine Does.bind (hT.annotationEntries hnotes) fun w2 _ _ h2 hcalls => ?_
      refine Does.bind (Does.mapM_same (decls_stable (T := T) (g := g)) fun m hm _ _ =>
        hT.lowerTypeParameter (htparams m hm)) fun w3 _ _ h3 htps => ?_
      refine Runs.bind hT.newFunctionTarget fun w4 t1 t2 h4 hnew => ?_
      obtain ⟨hopen, ht⟩ := hnew
      have hin := scopes_function hs (((h1.trans h2).trans h3).trans h4) ht
      refine Runs.bind (hT.lowerValueParameters hd hin hparams) fun w5 _ _ h5 hvps => ?_
      refine Runs.bind (Does.optionMapM fun m hm => hT.lowerFunctionBody hd (scopes_later h5 hin)
        ((T.ids_mono h5).holder ht) (by simp) (hbody m hm)) fun w6 _ _ h6 heb => ?_
      refine Runs.bind (hT.convertOptional hdispatch) fun w7 _ _ h7 hτd => ?_
      refine Runs.bind (hT.convertOptional hextension) fun w8 _ _ h8 hτe => ?_
      refine Runs.bind (hT.convert hreturn) fun w9 _ _ h9 hτr => ?_
      refine Runs.bind (Does.mapM_same (symbols_stable (T := T)) fun o ho _ _ =>
        hT.symbolOf (hoverridden o ho) ⟨by simp, by simp⟩) fun v _ _ k hos => ?_
      have h6' := ((h7.trans h8).trans h9).trans k
      have h3' := ((h4.trans h5).trans h6).trans h6'
      have hopen' := hos.1.trans (hτr.1.trans (hτe.1.trans (hτd.1.trans (heb.1.trans
        (hvps.1.trans hopen)))))
      refine hT.declareCallable hopen' (symbols_stable ((h2.trans h3).trans h3') hsym)
        (notes_later (h3.trans h3') hcalls) (.function ?_ ?_ ?_ ?_ ?_ ?_ hos.2) rfl
      · exact decls_weaken (List.subset_cons_self _ g) (decls_later h3' htps)
      · exact optionTypes_later ((h8.trans h9).trans k) hτd.2
      · exact optionTypes_later (h9.trans k) hτe.2
      · exact decls_later (h6.trans h6') hvps.2.1
      · exact types_stable k hτr.2
      · exact given_of_expr h6' heb.2
  next => exact hT.unexpected hid

theorem lowerAnonymousFunction {id : NodeId} (hid : T.Finds id) {label : Option Name} :
    T.SameIn w s1 s2 (lowerAnonymousFunction d · id label) (T.exprs g) := by
  simp only [SameIn, Lower.lowerAnonymousFunction, hs.implicitLabel]
  refine Does.bind (hT.lowerFunction hd hs hid) fun w1 _ _ _ hx => ?_
  exact Does.bind hT.expressionType fun w2 _ _ h2 hτ =>
    hT.addExpr hτ (.lambda (decls_stable h2 hx)) rfl

theorem lowerLambdaParameter {id : NodeId} (hid : T.Finds id) :
    T.SameIn w s1 s2 (lowerLambdaParameter d · id) (T.unpacked g) := by
  refine Does.bind (hT.lowerValueParameter hd hs hid) fun w1 x1 x2 h1 hx => ?_
  refine hT.node_bind hid fun n _ hn => ?_
  split
  next _ _ _ destructuring _ hkind =>
    have hdestructuring : T.Finds destructuring :=
      hn _ (by simp [hkind, NodeKind.refs, Reference.node?, Reference.nodes])
    refine hT.destructuredEntries_bind hdestructuring fun entries hentries => ?_
    refine hT.decl_bind hx.1 fun y1 y2 _ hy => ?_
    refine Does.bind (hT.declaredType hx.1) fun w2 _ _ h2 hτ => ?_
    cases hτ with
    | none => exact hT.unexpected hid
    | some hτ =>
      refine Does.bind (hT.lowerComponents hd (scopes_later (h1.trans h2) hs)
        ⟨decls_stable h2 hx.1, symbols_stable h2 hy.symbol, hτ⟩ hentries)
        fun w3 _ _ h3 hss => Does.pure ⟨decls_stable (h2.trans h3) hx.1, hss⟩
  next => exact Does.pure ⟨hx.1, .nil⟩

theorem lowerLambdaParameters {ids : List NodeId} (hn : ∀ id ∈ ids, T.Finds id) :
    T.SameIn w s1 s2 (lowerLambdaParameters d · ids) fun w' a b =>
      List.Forall₂ (T.decls g w') a.1 b.1 ∧ T.statements g w' a.2 b.2 := by
  refine Does.bind (Does.mapM_same unpacked_stable fun id hid _ hle =>
    hT.lowerLambdaParameter hd (scopes_later hle hs) (hn id hid)) fun w1 _ _ _ hall => ?_
  exact Does.pure ⟨List.rel_map (fun _ _ h => h.1) hall, List.rel_flatMap hall fun _ _ h => h.2⟩

theorem lowerLambdaBody {body : NodeId} (hb : T.Finds body) :
    T.SameIn w s1 s2 (lowerLambdaBody d · body) (T.statements g) := by
  refine hT.node_bind hb fun n _ hn => ?_
  split
  next nodes hkind =>
    rw [hkind] at hn
    exact hT.lowerStatements hd hs fun m hm => hn _ (List.mem_map_of_mem hm)
  next => exact Does.bind (hd.expr hs hb) fun _ _ _ _ he => hT.splice (.inl he)

omit hd hs in
theorem implicitParameters {ids : List NodeId} {info : FunctionInfo}
    (hinfo : ∀ p ∈ info.valueParameters, T.world.Finds (.desc p)) :
    T.Same w (implicitParameters ids info) fun w' => List.Forall₂ (T.decls g w') := by
  unfold Lower.implicitParameters
  split
  next => exact Does.mapM_same decls_stable fun p hp _ _ => hT.syntheticParameter (hinfo p hp)
  next => exact Does.pure .nil

omit hd hs in
theorem lambdaBlock (hss : T.statements g w ss1 ss2) :
    T.Does w (lambdaBlock ss1) (lambdaBlock ss2) (T.exprs g) := by
  cases hss with
  | nil =>
    exact Does.bind hT.unitValue fun _ _ _ _ he => hT.block (.cons (.expression (.inl he)) .nil)
  | cons h hs => exact hT.block (.cons h hs)

theorem lowerLambda {id : NodeId} (hid : T.Finds id) {parameters : List NodeId}
    (hp : ∀ p ∈ parameters, T.Finds p) {body : NodeId} (hb : T.Finds body) {label : Option Name} :
    T.SameIn w s1 s2 (lowerLambda d · id parameters body label) (T.exprs g) := by
  refine hT.declared_bind hid fun desc _ hdesc => ?_
  refine hT.descriptor_bind hdesc fun info _ hinfo => ?_
  rw [hs.implicitLabel]
  split
  next => exact hT.unexpectedDeclaration
  next i hi =>
    have hrefs := World.Knows.kind hinfo
    simp only [Descriptor.kind_of_function? hi, DescriptorKind.refs, World.knows_refs] at hrefs
    obtain ⟨⟨⟨⟨⟨_, hvparams⟩, hreturn⟩, _⟩, hextension⟩, _⟩ := hrefs
    refine Does.bind (hT.symbolOf hdesc ⟨by simp, by simp⟩) fun w1 _ _ h1 hsym => ?_
    refine Runs.bind hT.newFunctionTarget fun w2 t1 t2 h2 hnew => ?_
    obtain ⟨hopen, ht⟩ := hnew
    have hin := scopes_function hs (h1.trans h2) ht
    refine Runs.bind (hT.implicitParameters
      (g := (.function t1, .function t2) :: g) hvparams) fun w3 _ _ h3 hips => ?_
    refine Runs.bind (hT.lowerLambdaParameters hd (scopes_later h3 hin) hp)
      fun w4 _ _ h4 hwps => ?_
    refine Runs.bind (hT.lowerLambdaBody hd (scopes_later (h3.trans h4) hin) hb)
      fun w5 _ _ h5 hss => ?_
    refine Runs.bind (hT.lambdaBlock (List.rel_append (statements_later h5 hwps.2.2) hss.2))
      fun w6 _ _ h6 hbody => ?_
    refine Runs.bind (hT.convertOptional hextension) fun w7 _ _ h7 hτe => ?_
    refine Runs.bind (hT.convert hreturn) fun w8 _ _ h8 hτr => ?_
    have h6' := h7.trans h8
    have h4' := (h5.trans h6).trans h6'
    have hopen' := hτr.1.trans (hτe.1.trans (hbody.1.trans (hss.1.trans (hwps.1.trans
      (hips.1.trans hopen)))))
    have hparams := List.rel_append (decls_later (h4.trans h4') hips.2)
      (decls_later h4' hwps.2.1)
    refine Runs.bind (hT.declareCallable hopen'
      (symbols_stable (((h2.trans h3).trans h4).trans h4') hsym) .nil
      (.function .nil .none (optionTypes_later h8 hτe.2) hparams hτr.2
        (.some (part_later h6' (.inl hbody.2))) .nil) rfl) fun w9 _ _ h9 hx => ?_
    refine Runs.bind hT.expressionType fun v _ _ k hτ => ?_
    refine Runs.imp (hT.addExpr hτ.2 (.lambda (decls_stable k hx.2)) rfl) ?_
    exact fun _ _ _ _ h => ⟨h.1.trans (hτ.1.trans hx.1), h.2⟩

/-- A constructor that is lowered had parameters only. -/
theorem construct {id : NodeId} (hid : T.Finds id) {parameters annotations : List NodeId}
    (hp : ∀ p ∈ parameters, T.Finds p) (ha : ∀ m ∈ annotations, T.Finds m)
    {delegation body : Option NodeId} (hc : ∀ m ∈ delegation, T.Finds m)
    (hb : ∀ m ∈ body, T.Finds m) {isPrimary : Bool} :
    T.SameIn w s1 s2
      (lowerConstructor.construct d · id parameters delegation body annotations isPrimary)
      fun w' x y => T.decls g w' x y ∧ ∀ p ∈ parameters, T.world.DeclaresParameter p := by
  refine hT.declared_bind hid fun desc _ hdesc => ?_
  refine hT.descriptor_bind hdesc fun info _ hinfo => ?_
  split
  next => exact hT.unexpectedDeclaration
  next i hi =>
    have hreturn : T.world.Finds (.type i.returnType) := World.Knows.kind hinfo _
      (by simp [Descriptor.kind_of_constructor? hi, DescriptorKind.refs])
    refine Does.bind (hT.symbolOf hdesc ⟨by simp, by simp⟩) fun w1 _ _ h1 hsym => ?_
    refine Does.bind (hT.annotationEntries ha) fun w2 _ _ h2 hcalls => ?_
    refine Runs.bind hT.newFunctionTarget fun w3 t1 t2 h3 hnew => ?_
    obtain ⟨hopen, ht⟩ := hnew
    have hin := scopes_function hs ((h1.trans h2).trans h3) ht
    refine Runs.bind (hT.lowerValueParameters hd hin hp) fun w4 _ _ h4 hvps => ?_
    refine Runs.bind (Does.optionMapM fun m hm =>
      hT.lowerDelegationCall hd (scopes_later h4 hin) (hc m hm)) fun w5 _ _ h5 hcall => ?_
    refine Runs.bind (Does.optionMapM fun m hm => hT.lowerFunctionBody hd
      (scopes_later (h4.trans h5) hin) ((T.ids_mono (h4.trans h5)).holder ht) (by simp) (hb m hm))
      fun w6 _ _ h6 hbody => ?_
    refine Runs.bind (hT.convert hreturn) fun w7 _ _ h7 hτ => ?_
    have h4' := (h5.trans h6).trans h7
    have h2' := (h3.trans h4).trans h4'
    have hopen' := hτ.1.trans (hbody.1.trans (hcall.1.trans (hvps.1.trans hopen)))
    refine Runs.imp (hT.declareCallable hopen' (symbols_stable (h2.trans h2') hsym)
      (notes_later h2' hcalls) (.constructor (decls_later h4' hvps.2.1) hτ.2
        (given_of_expr (h6.trans h7) hcall.2) (given_of_expr h7 hbody.2)) rfl) ?_
    exact fun _ _ _ _ h => ⟨h.1, h.2, hvps.2.2⟩

theorem lowerConstructor {id : NodeId} (hid : T.Finds id) {superCall : Option NodeId}
    (hc : ∀ m ∈ superCall, T.Finds m) :
    T.SameIn w s1 s2 (lowerConstructor d · id superCall) fun w' x y => T.decls g w' x y ∧
      ∀ n parameters annotations, T.world.tree.node? id = some n →
        n.kind = .primaryConstructor parameters annotations →
        ∀ p ∈ parameters, T.world.DeclaresParameter p := by
  refine hT.node_bind hid fun n hfound hn => ?_
  split
  next parameters annotations hkind =>
    simp only [hkind, NodeKind.refs, World.knows_refs] at hn
    refine (hT.construct hd hs hid hn.1 hn.2 hc (by simp)).imp fun _ _ _ _ hx => ⟨hx.1, ?_⟩
    intro m ps as hm hk
    cases hfound.symm.trans hm
    cases hkind.symm.trans hk
    exact hx.2
  next parameters delegation body annotations hkind =>
    simp only [hkind, NodeKind.refs, World.knows_refs] at hn
    refine (hT.construct hd hs hid hn.1.1.1 hn.2 hn.1.1.2 hn.1.2).imp
      fun _ _ _ _ hx => ⟨hx.1, ?_⟩
    intro m ps as hm hk
    cases hfound.symm.trans hm
    cases hkind.symm.trans hk
  next => exact hT.unexpected hid

theorem syntheticConstructor {desc : DescId} (hdesc : T.world.Finds (.desc desc))
    {superCall : Option NodeId} (hc : ∀ m ∈ superCall, T.Finds m) :
    T.SameIn w s1 s2 (syntheticConstructor d · desc superCall) (T.decls g) := by
  refine hT.descriptor_bind hdesc fun info _ hinfo => ?_
  split
  next => exact hT.unexpectedDeclaration
  next i hi =>
    have hrefs := World.Knows.kind hinfo
    simp only [Descriptor.kind_of_constructor? hi, DescriptorKind.refs, World.knows_refs] at hrefs
    refine Does.bind (hT.symbolOf hdesc ⟨by simp, by simp⟩) fun w1 _ _ h1 hsym => ?_
    refine Runs.bind hT.newFunctionTarget fun w2 t1 t2 h2 hnew => ?_
    obtain ⟨hopen, ht⟩ := hnew
    have hin := scopes_function hs (h1.trans h2) ht
    refine Runs.bind (Does.mapM_same (decls_stable (T := T)
      (g := (.function t1, .function t2) :: g)) fun p hp _ _ =>
      hT.syntheticParameter (hrefs.1 p hp)) fun w3 _ _ h3 hvps => ?_
    refine Runs.bind (Does.optionMapM fun m hm =>
      hT.lowerDelegationCall hd (scopes_later h3 hin) (hc m hm)) fun w4 _ _ h4 hcall => ?_
    refine Runs.bind (hT.convert hrefs.2) fun w5 _ _ h5 hτ => ?_
    have h3' := h4.trans h5
    exact hT.declareCallable (hτ.1.trans (hcall.1.trans (hvps.1.trans hopen)))
      (symbols_stable ((h2.trans h3).trans h3') hsym) .nil
      (.constructor (decls_later h3' hvps.2) hτ.2 (given_of_expr h5 hcall.2) .none) rfl

end Lawful

end TypedTree.Tandem
