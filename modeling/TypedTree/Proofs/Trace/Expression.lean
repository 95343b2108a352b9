import TypedTree.Proofs.Trace.Place
import TypedTree.Proofs.Trace.Template

namespace TypedTree

open Desk Token Carries

instance : Carries Lower.Subject := ⟨fun s => tokens s.value, inferInstance⟩

@[simp] theorem tokens_subject (s : Lower.Subject) : tokens s = tokens s.value := rfl

namespace Does

variable {σ : Setting} {s : State} {d : Descent} {scope : Scope}

theorem lowerConstant {id : NodeId} : Does σ s 0 (Lower.lowerConstant id) anything tokens := by
  refine facts_bind (required_bind fun value hvalue => ?_)
  refine Does.seq (constant fun hw key hkey => ?_) fun _ _ _ _ => ?_
  · exact hw.facts id key (by simp [NodeFacts.keys, hvalue, hkey])
  · split
    next => exact pure trivial (by simp)
    next => exact malformed.weaken (Multiset.zero_le _)

theorem found_bind {α β : Type} {Q : State → β → Prop} {G : β → Multiset Token}
    {r : Except LowerError α} {k : α → Lower β} (h : ∀ a, Does σ s F (k a) Q G) :
    Does σ s F (Lower.found r >>= k) Q G := by
  cases r with
  | error _ => exact throw
  | ok a => simpa [Lower.found] using h a

theorem lowerBreak {id : NodeId} :
    Does σ s 0 (Lower.lowerBreak scope id label) anything tokens := by
  refine node_bind fun _ _ => get_bind (found_bind fun _ => ?_)
  exact Does.seq convert fun _ _ _ hτ => addExpr hτ (by simp) (by simp)

theorem lowerContinue {id : NodeId} :
    Does σ s 0 (Lower.lowerContinue scope id label) anything tokens := by
  refine node_bind fun _ _ => get_bind (found_bind fun _ => ?_)
  exact Does.seq convert fun _ _ _ hτ => addExpr hτ (by simp) (by simp)

theorem literalClassifier : Does σ s 0 (Lower.literalClassifier receiver) anything tokens := by
  refine facts_bind ?_
  split
  next => exact symbolFor.imp (fun _ _ _ _ => trivial) fun _ => le_rfl
  next => exact Does.seq convert fun _ _ _ _ => pure trivial (by simp)
  next => exact Does.seq expressionType fun _ _ _ _ => pure trivial (by simp)

theorem lowerClassLiteral {id : NodeId} :
    Does σ s 0 (Lower.lowerClassLiteral id receiver) anything tokens :=
  Does.seq literalClassifier fun _ _ _ _ => Does.seq expressionType fun _ _ _ hτ =>
    addExpr hτ (by simp) (by simp)

theorem elementType : Does σ s 0 (Lower.elementType desc next) State.Fits tokens := by
  refine descriptor_bind fun _ _ => ?_
  split
  next => exact convert
  next => exact exprType

theorem destructuredEntries_bind {β : Type} {Q : State → β → Prop} {G : β → Multiset Token}
    {id : NodeId} {k : List NodeId → Lower β} (h : ∀ entries, Does σ s F (k entries) Q G) :
    Does σ s F (Lower.destructuredEntries id >>= k) Q G := by
  simp only [Lower.destructuredEntries, bind_assoc]
  refine node_bind fun _ _ => ?_
  split
  next => simpa using h _
  next =>
    simp only [Lower.unexpected, bind_assoc]
    exact node_bind fun _ _ => throw

variable (hd : Descends σ d)

include hd

theorem lowerReturn {id : NodeId} :
    Does σ s 0 (Lower.lowerReturn d scope id label value) anything tokens := by
  refine node_bind fun _ _ => get_bind (found_bind fun _ => ?_)
  refine Does.seq (P := anything) (H := tokens) ?_ fun _ _ _ _ =>
    Does.seq convert fun _ _ _ hτ => addExpr hτ (by simp) (by simp)
  cases value with
  | none => exact unitValue
  | some _ => exact hd.expr

theorem lowerThrow : Does σ s 0 (Lower.lowerThrow d scope exception) anything tokens :=
  Does.seq (lowerOptional hd) fun _ _ _ _ => Does.seq convert fun _ _ _ hτ =>
    addExpr hτ (by simp) (by simp)

theorem lowerUnary {id : NodeId} :
    Does σ s 0 (Lower.lowerUnary d scope id op operand prefixed) anything tokens := by
  cases op with
  | increment | decrement => exact lowerIncrement hd
  | notNull =>
    exact Does.seq hd.expr fun _ _ _ _ => Does.seq expressionType fun _ _ _ hτ =>
      addExpr hτ (by simp) (by simp)
  | minus | plus =>
    refine Does.seq expressionType fun s1 τ _ hτ => facts_bind ?_
    cases hcall : (σ.world.factsOf id).call with
    | some call => exact (buildCall hd (agrees_call hcall) hτ).weaken (by simp)
    | none => exact required_none
  | not =>
    refine Does.seq expressionType fun s1 τ _ hτ => facts_bind ?_
    cases hcall : (σ.world.factsOf id).call with
    | some call => exact (buildCall hd (agrees_call hcall) hτ).weaken (by simp)
    | none => exact Does.seq hd.expr fun _ _ h2 _ => addExpr (h2.fits hτ) (by simp) (by simp)

theorem lowerMembership {id : NodeId} :
    Does σ s 0 (Lower.lowerMembership d scope id negated) anything tokens := by
  refine facts_bind (required_bind fun contains hcall => Does.seq convert fun s1 τ _ hτ => ?_)
  refine Does.bind (R := 0) (buildCall hd (agrees_call hcall) hτ) (by simp) fun s2 _ h2 _ => ?_
  split
  next => exact addExpr (h2.fits hτ) (by simp) (by simp)
  next => exact pure trivial (by simp)

theorem lowerBinary {id : NodeId} :
    Does σ s 0 (Lower.lowerBinary d scope id op left right) anything tokens := by
  unfold Lower.lowerBinary
  split
  next => exact lowerAssignment hd
  next =>
    split
    next =>
      refine Does.seq hd.expr fun _ _ _ _ => Does.seq (lowerOptional hd) fun _ _ _ _ => ?_
      exact Does.seq convert fun _ _ _ hτ => addExpr hτ (by simp) (by simp [add_comm])
    next =>
      refine Does.seq hd.expr fun _ _ _ _ => Does.seq (lowerOptional hd) fun _ _ _ _ => ?_
      exact Does.seq expressionType fun _ _ _ hτ => addExpr hτ (by simp) (by simp [add_comm])
    next => exact lowerMembership hd
    next => exact lowerMembership hd
    next =>
      refine facts_bind (required_bind fun call hcall => ?_)
      exact Does.seq expressionType fun _ _ _ hτ =>
        (buildCall hd (agrees_call hcall) hτ).weaken (by simp)

theorem lowerTypeCheck :
    Does σ s 0 (Lower.lowerTypeCheck d scope expression typeRef negated) anything tokens := by
  refine Does.seq hd.expr fun _ _ _ _ => Does.seq writtenType fun _ _ _ hρ => ?_
  exact Does.seq convert fun _ _ h hτ => addExpr hτ (by simpa using h.fits hρ) (by simp)

theorem lowerCast {id : NodeId} :
    Does σ s 0 (Lower.lowerCast d scope id expression typeRef safe) anything tokens := by
  refine Does.seq hd.expr fun _ _ _ _ => Does.seq writtenType fun _ _ _ hρ => ?_
  exact Does.seq expressionType fun _ _ h hτ => addExpr hτ (by simpa using h.fits hρ) (by simp)

theorem lowerCallableReference {id : NodeId} :
    Does σ s 0 (Lower.lowerCallableReference d scope id callee) anything tokens := by
  refine facts_bind (facts_bind (required_bind fun call hcall => ?_))
  have hk : σ.world.Agrees call.keys := by
    rcases (Option.orElse_eq_some _ _ _).1 hcall with hcall | ⟨_, hcall⟩
    · exact agrees_call hcall
    · exact agrees_call hcall
  refine Does.bind (R := 0) (buildAccess hd hk) (by simp) fun _ a _ ha => ?_
  exact Does.seq expressionType fun _ _ h hτ =>
    addExpr hτ (by simpa using fun t ht => h.fits (ha.1 t ht)) (by simp)

theorem lowerAnnotated :
    Does σ s 0 (Lower.lowerAnnotated d scope annotations base) anything tokens := by
  refine Does.seq hd.expr fun _ e _ _ => Does.seq annotationEntries fun _ calls _ _ => ?_
  exact Does.bind (R := tokens e) annotateExpr (by simp) fun _ _ _ _ => pure trivial (by simp)

theorem ifBranches {id : NodeId} :
    Does σ s 0 (Lower.ifBranches d scope fuel id) anything tokens := by
  induction fuel generalizing s id with
  | zero => exact throw
  | succ fuel ih =>
    refine node_bind fun _ _ => ?_
    split
    next =>
      refine Does.seq (lowerOptional hd) fun _ _ _ _ => Does.seq (lowerBody hd) fun _ _ _ _ => ?_
      split
      next => exact pure trivial (by simp [add_comm])
      next =>
        refine deparenthesize_bind (node_bind fun _ _ => ?_)
        split
        next =>
          exact Does.seq ih fun _ _ _ _ => pure trivial (le_of_eq (by simp; abel))
        next =>
          exact Does.seq (lowerBody hd) fun _ _ _ _ => pure trivial (le_of_eq (by simp; abel))
    next => exact unexpected

theorem lowerIf {id : NodeId} : Does σ s 0 (Lower.lowerIf d scope id) anything tokens :=
  read_bind (Does.seq (ifBranches hd) fun _ _ _ _ => Does.seq expressionType fun _ _ _ hτ =>
    addExpr hτ (by simp) (by simp))

theorem plainCondition : Does σ s 0 (Lower.plainCondition d scope condition) anything tokens := by
  cases condition with
  | expression _ => exact lowerOptional hd
  | inRange _ _ | isPattern _ _ => exact malformed

theorem subjectCondition (hτ : s.Fits τ) {condition : WhenCondition} :
    Does σ s 0 (Lower.subjectCondition d scope whenRef τ condition) anything tokens := by
  refine Does.seq (addExpr hτ (by simp) (by simp)) fun s1 subject _ _ => ?_
  refine Does.seq convert fun s2 boolean h2 hb => ?_
  split
  next =>
    exact Does.seq (lowerOptional hd) fun _ _ h3 _ =>
      addExpr (h3.fits hb) (by simp) (by simp [add_comm])
  next range _ =>
    refine facts_bind (required_bind fun contains hcall => ?_)
    have hk : σ.world.Agrees contains.keys := fun hw key hkey =>
      hw.facts range key (by simp [NodeFacts.keys, hcall, hkey])
    refine Does.bind (R := 0) (buildCall hd hk hb) (by simp) fun s3 _ h3 _ => ?_
    split
    next => exact addExpr (h3.fits hb) (by simp) (by simp)
    next => exact pure trivial (by simp)
  next =>
    exact Does.seq writtenType fun _ _ h3 hρ => addExpr (h3.fits hb) (by simpa using hρ) (by simp)

theorem lowerSubject {subject : Option WhenSubject} :
    Does σ s 0 (Lower.lowerSubject d scope subject) (fun s x => ∀ t ∈ x.type, s.Fits t) tokens := by
  unfold Lower.lowerSubject
  split
  next => exact pure (by simp) (by simp)
  next =>
    refine Does.seq hd.expr fun _ _ _ _ => Does.seq exprType fun _ _ _ hτ => ?_
    exact pure (by simpa using hτ) (by simp)
  next =>
    exact Does.seq hd.decl fun _ _ _ _ => Does.seq declaredType fun _ _ _ hτ =>
      pure hτ (by simp)

omit hd in
theorem joinConditions (joined : Option ExprId) {conditions : List WhenCondition}
    (hl : ∀ c s', s.Le s' → Does σ s' 0 (lower c) anything tokens) :
    Does σ s (tokens joined) (Lower.joinConditions lower joined conditions) anything tokens := by
  induction conditions generalizing s joined with
  | nil =>
    unfold Lower.joinConditions
    exact pure trivial le_rfl
  | cons c cs ih =>
    cases joined with
    | none =>
      refine Does.seq (hl c s (.refl s)) fun s1 e h1 _ => ?_
      exact (ih _ fun c s' h' => hl c s' (h1.trans h')).weaken (by simp)
    | some joined =>
      refine Does.seq (hl c s (.refl s)) fun s1 e h1 _ => Does.seq convert fun s2 τ h2 hτ => ?_
      refine Does.bind (R := 0) (addExpr hτ (by simp) rfl) (by simp [add_comm]) fun s3 _ h3 _ => ?_
      exact (ih _ fun c s' h' => hl c s' (h1.trans (h2.trans (h3.trans h')))).weaken (by simp)

theorem lowerWhenEntry (hl : ∀ c s', s.Le s' → Does σ s' 0 (lower c) anything tokens) :
    Does σ s 0 (Lower.lowerWhenEntry d scope lower entry) anything tokens := by
  refine Does.seq (lowerOptional hd) fun s1 result h1 _ => ?_
  split
  next => exact pure trivial (by simp)
  next =>
    refine Does.bind (R := tokens result)
      (joinConditions none fun c s' h' => hl c s' (h1.trans h')) (by simp)
      fun s2 condition _ _ => ?_
    split
    next => exact pure trivial (by simp)
    next => exact Does.seq malformed fun _ _ _ _ => pure trivial (by simp)

theorem lowerWhen {id : NodeId} {subject : Option WhenSubject} {entries : List WhenEntry} :
    Does σ s 0 (Lower.lowerWhen d scope id subject entries) anything tokens := by
  refine Does.seq (lowerSubject hd) fun s1 x _ hx => ?_
  split
  next =>
    refine Does.seq (mapM_each fun _ _ _ _ => lowerWhenEntry hd fun _ _ _ => plainCondition hd)
      fun _ _ _ _ => ?_
    exact Does.seq expressionType fun _ _ _ hτ => addExpr hτ (by simp) (by simp [add_comm])
  next τ hτ =>
    refine Does.seq newWhenRef fun s2 whenRef h2 _ => ?_
    refine Does.seq (mapM_each fun _ _ _ h3 => lowerWhenEntry hd fun _ _ h4 =>
      subjectCondition hd ((h2.trans (h3.trans h4)).fits (hx τ hτ))) fun s3 _ _ _ => ?_
    exact Does.seq expressionType fun _ _ _ hτ => addChoice hτ (by simp) (by simp [add_comm])

omit hd in
theorem componentProperty (hτ : s.Fits τ) {value : ExprId} :
    Does σ s 0 (Lower.componentProperty desc τ value) (fun s p => (∀ t ∈ p.returnType ::
      (p.dispatchReceiver.toList ++ p.extensionReceiver.toList), s.Fits t) ∧
      p.initializer.toList ++ p.delegate.toList = [value]) fun _ => 0 := by
  refine descriptor_bind fun _ _ => ?_
  split
  next =>
    exact Does.seq convert fun _ _ _ hρ =>
      pure ⟨by simpa [PropertyDecl.localValue] using hρ, rfl⟩ (by simp)
  next => exact pure ⟨by simpa [PropertyDecl.localValue] using hτ, rfl⟩ le_rfl

theorem lowerComponent (hc : s.Fits container.type) {entry : NodeId} :
    Does σ s 0 (Lower.lowerComponent d scope container entry) anything tokens := by
  refine node_bind fun n hn => ?_
  split
  next => exact pure trivial (by simp)
  next hkind =>
    refine facts_bind (required_bind fun component hcall => declared_bind fun desc hdesc => ?_)
    have hk : σ.world.Agrees component.keys := fun hw key hkey =>
      hw.facts entry key (by simp [NodeFacts.keys, hcall, hkey])
    refine Does.seq symbolFor fun s1 symbol h1 hsym => ?_
    obtain ⟨descriptor, hdescriptor, hsym⟩ := hsym
    refine Does.seq (Temporary.read (h1.fits hc)) fun s2 receiver h2 _ => ?_
    refine Does.seq convert fun s3 τ h3 hτ => ?_
    refine Does.bind (R := 0) (callOn hd hk hτ) (by simp) fun s4 value h4 _ => ?_
    refine Does.seq (componentProperty (h4.fits hτ)) fun s5 property h5 hp => ?_
    have hsuits : σ.world.KindConsistent →
        (DeclKind.property property).Suits descriptor.symbolKind := fun hw => by
      rw [hw.node hn (.property, desc) (by simp [World.keysOfNode, hkind, hdesc, Key.optional,
        Key.all]) descriptor hdescriptor]
      trivial
    refine Does.bind (R := 0) (declare ((h2.trans (h3.trans (h4.trans h5))).hasSymbol hsym) hsuits
      hp.1 ?_) (add_zero _).symm fun s6 _ _ _ => pure trivial (by simp)
    simp only [DeclKind.operands, hp.2]
    simp
  next => exact unexpected

theorem lowerComponents (hc : s.Fits container.type) {entries : List NodeId} :
    Does σ s 0 (Lower.lowerComponents d scope container entries) anything tokens :=
  Does.seq (mapM_each fun _ _ _ h => lowerComponent hd (h.fits hc)) fun _ _ _ _ =>
    pure trivial (by simp)

theorem lowerDestructuring :
    Does σ s 0 (Lower.lowerDestructuring d scope entries initializer) anything tokens := by
  refine Does.seq (lowerOptional hd) fun _ _ _ _ => ?_
  refine Does.bind (R := 0) Temporary.hold rfl fun _ container _ hc => ?_
  exact Does.seq (lowerComponents hd hc) fun _ _ _ _ => block.weaken (by simp)

theorem lowerWhile :
    Does σ s 0 (Lower.lowerWhile d scope condition body label) anything tokens := by
  refine Does.seq (lowerOptional hd) fun _ _ _ _ => Does.seq newLoopTarget fun _ _ _ _ => ?_
  refine Does.seq (lowerBody hd) fun _ _ _ _ => Does.seq convert fun _ _ _ hτ => ?_
  exact addLoop hτ (by simp) (by simp [add_comm])

theorem lowerDoWhile :
    Does σ s 0 (Lower.lowerDoWhile d scope body condition label) anything tokens := by
  refine Does.seq newLoopTarget fun _ _ _ _ => Does.seq (lowerBody hd) fun _ _ _ _ => ?_
  refine Does.seq (lowerOptional hd) fun _ _ _ _ => Does.seq convert fun _ _ _ hτ => ?_
  exact addLoop hτ (by simp) (by simp)

theorem lowerLoopParameter
    (hp : σ.world.Agrees (Key.optional .property (σ.world.factsOf parameter).declares)) :
    Does σ s (tokens next) (Lower.lowerLoopParameter d scope parameter next) anything tokens := by
  refine node_bind fun _ _ => ?_
  split
  next =>
    refine destructuredEntries_bind fun entries => ?_
    refine Does.bind (R := 0) Temporary.hold (add_zero _).symm fun _ container _ hc => ?_
    exact Does.seq (lowerComponents hd hc) fun _ _ _ _ => pure trivial (by simp)
  next =>
    refine declared_bind fun desc hdesc => Does.seq symbolFor fun s1 symbol h1 hsym => ?_
    obtain ⟨descriptor, hdescriptor, hsym⟩ := hsym
    refine Does.seq elementType fun s2 τ h2 hτ => Does.seq annotationEntries fun s3 xs h3 _ => ?_
    have hsuits : σ.world.KindConsistent →
        (DeclKind.property (.localValue τ next)).Suits descriptor.symbolKind := fun hw => by
      rw [hp hw (.property, desc) (by simp [hdesc, Key.optional, Key.all]) descriptor hdescriptor]
      trivial
    refine Does.bind (R := 0) (declare ((h2.trans h3).hasSymbol hsym) hsuits ?_ ?_)
      (add_zero _).symm fun _ _ _ _ => pure trivial (by simp)
    · simpa [PropertyDecl.localValue] using h3.fits hτ
    · simp [PropertyDecl.localValue]
  next => exact unexpected

theorem lowerFor {id : NodeId}
    (hp : σ.world.Agrees (Key.optional .property (σ.world.factsOf parameter).declares)) :
    Does σ s 0 (Lower.lowerFor d scope id parameter range body label) anything tokens := by
  refine facts_bind (required_bind fun calls hcalls => ?_)
  have hk : σ.world.Agrees calls.keys := fun hw key hkey =>
    hw.facts id key (by simp [NodeFacts.keys, hcalls, hkey])
  refine Does.seq hd.expr fun s1 _ _ _ => Does.seq convert fun s2 _ _ hτ => ?_
  refine Does.bind (R := 0) (callOn hd hk.append.1.append.1 hτ) (by simp) fun s3 _ _ _ => ?_
  refine Does.bind (R := 0) Temporary.hold rfl fun s4 iterator h4 hi => ?_
  refine Does.seq (Temporary.read hi) fun s5 _ h5 _ => Does.seq convert fun s6 _ h6 hτ => ?_
  refine Does.bind (R := 0) (callOn hd hk.append.1.append.2 hτ) (by simp)
    fun s7 condition h7 _ => ?_
  refine Does.seq newLoopTarget fun s8 target h8 _ => ?_
  have hi8 := (h5.trans (h6.trans (h7.trans h8))).fits hi
  refine Does.seq (Temporary.read hi8) fun s9 _ _ _ => Does.seq convert fun s10 _ _ hτ => ?_
  refine Does.bind (R := tokens condition) (callOn hd hk.append.2 hτ) (by simp)
    fun s11 next _ _ => ?_
  refine Does.bind (R := tokens condition) (lowerLoopParameter hd hp) rfl
    fun s12 elements _ _ => ?_
  refine Does.seq (lowerBody hd) fun s13 body _ _ => ?_
  refine Does.bind (R := tokens elements + tokens condition) splice rfl fun s14 ss _ _ => ?_
  refine Does.bind (R := tokens condition) block (by simp; abel) fun s15 body _ _ => ?_
  refine Does.seq convert fun s16 _ _ hτ => ?_
  refine Does.bind (R := 0) (addLoop hτ (by simp) rfl) (by simp [add_comm]) fun s17 loop _ _ => ?_
  exact block.weaken (by simp)

end Does

end TypedTree
