import TypedTree.Proofs.Pass.Assignment

namespace TypedTree.Tandem.Lawful

open Lower

variable {Stage : Type} [Preorder Stage] {T : Tandem Stage} {w : Stage} {g : Region}
  (hT : T.Lawful) {d : Descent} (hd : T.Descends d) {s1 s2 : Scope} (hs : T.scopes g w s1 s2)

include hT

theorem lowerConstant {id : NodeId} (hid : T.Finds id) :
    T.Same w (lowerConstant id) (T.exprs g) := by
  refine facts_bind fun hf => hT.required_bind hid fun value hvalue => ?_
  have hrefs : T.world.Knows value.refs := fun r hr =>
    hf r (by simp [NodeFacts.refs, hvalue, hr])
  have htype : ∀ t ∈ (T.world.factsOf id).type, T.world.Finds (.type t) := fun t ht =>
    hf _ (by simp [NodeFacts.refs, Option.mem_def.1 ht, Reference.type?, Reference.types])
  refine Does.bind (hT.constant hrefs htype) fun w1 x1 x2 _ hx => ?_
  cases hx with
  | none => exact hT.malformed
  | some he => exact Does.pure ((T.ids w1).expr_weaken (List.nil_subset g) he)

theorem literalClassifier : T.Same w (literalClassifier receiver) T.symbols := by
  have hclassifier : ∀ {w' : Stage} {a b : TreeType}, T.types w' a b →
      T.symbols w' a.classifier b.classifier := by
    intro w' a b hab
    cases hab with
    | mk hc _ _ => exact hc
  refine facts_bind fun hf => ?_
  split
  next target htarget =>
    exact hT.symbolFor
      (hf _ (by simp [NodeFacts.refs, htarget, Reference.desc?, Reference.descs]))
  next type _ htype =>
    have hfound : T.world.Finds (.type type) :=
      hf _ (by simp [NodeFacts.refs, htype, Reference.type?, Reference.types])
    exact Does.bind (hT.convert hfound) fun _ _ _ _ hτ => Does.pure (hclassifier hτ)
  next => exact Does.bind hT.expressionType fun _ _ _ _ hτ => Does.pure (hclassifier hτ)

theorem lowerClassLiteral {id : NodeId} : T.Same w (lowerClassLiteral id receiver) (T.exprs g) := by
  refine Does.bind hT.literalClassifier fun w1 _ _ _ hc => ?_
  exact Does.bind hT.expressionType fun w2 _ _ h2 hτ =>
    hT.addExpr hτ (.classReference (symbols_stable h2 hc)) rfl

include hd hs

theorem lowerUnary {id operand : NodeId} {op : UnaryOp} {prefixed : Bool} (hid : T.Finds id)
    (ho : T.Finds operand) :
    T.SameIn w s1 s2 (lowerUnary d · id op operand prefixed) (T.exprs g) := by
  have hresolved : ∀ {w' : Stage} {τ1 τ2 : TreeType} {call : ResolvedCall}, w ≤ w' →
      T.types w' τ1 τ2 → (T.world.factsOf id).call = some call →
      T.Does w' (Lower.buildCall d s1 call τ1 {}) (Lower.buildCall d s2 call τ2 {})
        (T.exprs g) := fun hle hτ hcall =>
    hT.buildCall hd (scopes_later hle hs)
      (fun r hr => T.world.knows_facts id r (by simp [NodeFacts.refs, hcall, hr])) hτ callParts_none
  cases op with
  | increment | decrement => exact hT.lowerIncrement hd hs hid ho
  | notNull =>
    refine Does.bind (hd.expr hs ho) fun w1 _ _ _ he => ?_
    exact Does.bind hT.expressionType fun w2 _ _ h2 hτ =>
      hT.addExpr hτ (.intrinsic (.cons (part_later h2 (.inl he)) .nil)) rfl
  | minus | plus =>
    refine Does.bind hT.expressionType fun w1 _ _ h1 hτ => facts_bind fun _ => ?_
    cases hcall : (T.world.factsOf id).call with
    | none => exact hT.required_none hid
    | some call => exact hresolved h1 hτ hcall
  | not =>
    refine Does.bind hT.expressionType fun w1 _ _ h1 hτ => facts_bind fun _ => ?_
    cases hcall : (T.world.factsOf id).call with
    | none =>
      refine Does.bind (hd.expr (scopes_later h1 hs) ho) fun w2 _ _ h2 he => ?_
      exact hT.addExpr (types_stable h2 hτ) (.intrinsic (.cons (.inl he) .nil)) rfl
    | some call => exact hresolved h1 hτ hcall

theorem lowerMembership {id : NodeId} (hid : T.Finds id) {negated : Bool} :
    T.SameIn w s1 s2 (lowerMembership d · id negated) (T.exprs g) := by
  refine facts_bind fun hf => hT.required_bind hid fun call hcall => ?_
  have hc : T.world.Knows call.refs := fun r hr => hf r (by simp [NodeFacts.refs, hcall, hr])
  refine Does.bind hT.booleanType fun w1 _ _ h1 hτ => ?_
  refine Does.bind (hT.buildCall hd (scopes_later h1 hs) hc hτ callParts_none)
    fun w2 _ _ h2 he => ?_
  split
  · exact hT.addExpr (types_stable h2 hτ) (.intrinsic (.cons (.inl he) .nil)) rfl
  · exact Does.pure he

theorem lowerBinary {id left : NodeId} {op : BinaryOp} {right : Option NodeId} (hid : T.Finds id)
    (hl : T.Finds left) (hr : ∀ n ∈ right, T.Finds n) :
    T.SameIn w s1 s2 (lowerBinary d · id op left right) (T.exprs g) := by
  unfold Lower.lowerBinary
  split
  · exact hT.lowerAssignment hd hs hid hl hr
  · split
    next =>
      refine Does.bind (hd.expr hs hl) fun w1 _ _ h1 hel => ?_
      refine Does.bind (hT.lowerOptional hd (scopes_later h1 hs) hr) fun w2 _ _ h2 her => ?_
      refine Does.bind hT.booleanType fun w3 _ _ h3 hτ => ?_
      exact hT.addExpr hτ (.intrinsic (.cons (part_later (h2.trans h3) (.inl hel))
        (.cons (part_later h3 (.inl her)) .nil))) rfl
    next =>
      refine Does.bind (hd.expr hs hl) fun w1 _ _ h1 hel => ?_
      refine Does.bind (hT.lowerOptional hd (scopes_later h1 hs) hr) fun w2 _ _ h2 her => ?_
      refine Does.bind hT.expressionType fun w3 _ _ h3 hτ => ?_
      exact hT.addExpr hτ (.elvis (part_later (h2.trans h3) (.inl hel))
        (part_later h3 (.inl her))) rfl
    next => exact hT.lowerMembership hd hs hid
    next => exact hT.lowerMembership hd hs hid
    next =>
      refine facts_bind fun hf => hT.required_bind hid fun call hcall => ?_
      have hc : T.world.Knows call.refs := fun r hr =>
        hf r (by simp [NodeFacts.refs, hcall, hr])
      exact Does.bind hT.expressionType fun w1 _ _ h1 hτ =>
        hT.buildCall hd (scopes_later h1 hs) hc hτ callParts_none

theorem lowerTypeCheck {expression typeRef : NodeId} {negated : Bool} (he : T.Finds expression)
    (ht : T.Finds typeRef) :
    T.SameIn w s1 s2 (lowerTypeCheck d · expression typeRef negated) (T.exprs g) := by
  refine Does.bind (hd.expr hs he) fun w1 _ _ h1 hx => ?_
  refine Does.bind (hT.writtenType ht) fun w2 _ _ h2 ho => ?_
  exact Does.bind hT.booleanType fun w3 _ _ h3 hτ => hT.addExpr hτ
    (.typeOperation (part_later (h2.trans h3) (.inl hx)) (types_stable h3 ho)) rfl

theorem lowerCast {id expression typeRef : NodeId} {safe : Bool} (he : T.Finds expression)
    (ht : T.Finds typeRef) :
    T.SameIn w s1 s2 (lowerCast d · id expression typeRef safe) (T.exprs g) := by
  refine Does.bind (hd.expr hs he) fun w1 _ _ h1 hx => ?_
  refine Does.bind (hT.writtenType ht) fun w2 _ _ h2 ho => ?_
  exact Does.bind hT.expressionType fun w3 _ _ h3 hτ => hT.addExpr hτ
    (.typeOperation (part_later (h2.trans h3) (.inl hx)) (types_stable h3 ho)) rfl

theorem lowerCallableReference {id callee : NodeId} (hid : T.Finds id) :
    T.SameIn w s1 s2 (lowerCallableReference d · id callee) (T.exprs g) := by
  refine facts_bind fun hf => facts_bind fun hf' => hT.required_bind hid fun call hcall => ?_
  have hc : T.world.Knows call.refs := fun r hr => by
    cases hown : (T.world.factsOf id).call with
    | some own =>
      have hsame : own = call := by simpa [hown] using hcall
      exact hf r (by simp [NodeFacts.refs, hown, hsame, hr])
    | none =>
      have hother : (T.world.factsOf callee).call = some call := by simpa [hown] using hcall
      exact hf' r (by simp [NodeFacts.refs, hother, hr])
  refine Does.bind (hT.buildAccess hd hs hc .none) fun w1 _ _ h1 ha => ?_
  exact Does.bind hT.expressionType fun w2 _ _ h2 hτ =>
    hT.addExpr hτ (.callableReference (accesses_later h2 ha)) rfl

theorem lowerAnnotated {annotations : List NodeId} {base : NodeId}
    (ha : ∀ n ∈ annotations, T.Finds n) (hb : T.Finds base) :
    T.SameIn w s1 s2 (lowerAnnotated d · annotations base) (T.exprs g) := by
  refine Does.bind (hd.expr hs hb) fun w1 _ _ h1 he => ?_
  refine Does.bind (hT.annotationEntries ha) fun w2 _ _ h2 hcalls => ?_
  have he2 := exprs_stable h2 he
  exact Does.bind (hT.annotateExpr he2 hcalls) fun w3 _ _ h3 _ =>
    Does.pure (exprs_stable h3 he2)

end TypedTree.Tandem.Lawful
