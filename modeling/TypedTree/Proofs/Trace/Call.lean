import TypedTree.Proofs.Trace.Types

namespace TypedTree

open Desk Token Carries

instance : Carries CallParts := ⟨fun p => tokens p.receiver + tokens p.arguments, inferInstance⟩

@[simp] theorem tokens_callParts (p : CallParts) :
    tokens p = tokens p.receiver + tokens p.arguments := rfl

instance : Carries Lower.Temporary := ⟨fun _ => 0, inferInstance⟩

@[simp] theorem tokens_temporary (t : Lower.Temporary) : tokens t = 0 := rfl

@[simp] theorem tokens_temporaries (ts : List Lower.Temporary) : tokens ts = 0 :=
  tokens_eq_zero fun _ _ => rfl

@[simp] theorem tokens_statement (t : Lower.Temporary) : tokens t.statement = 0 := rfl

theorem le_of_eq_add {a b c : Multiset Token} (h : c = a + b) : a ≤ c :=
  h ▸ Multiset.le_add_right a b

theorem tokens_set_le {α : Type} [Carries α] (as : List α) (i : Nat) (a : α) :
    tokens (as.set i a) ≤ tokens as + tokens a := by
  induction as generalizing i with
  | nil => exact Multiset.le_add_right (tokens []) _
  | cons b bs ih =>
    cases i with
    | zero => exact le_of_eq_add (b := tokens b) (by simp; abel)
    | succ i =>
      simp only [List.set_cons_succ, tokens_cons, add_assoc]
      exact add_le_add_right (ih i) _

namespace Does

/-- A descent into the parts of a node makes them, and gives them with their places open. -/
structure Descends (σ : Setting) (d : Descent) : Prop where
  expr : ∀ {s scope id}, Does σ s 0 (d.expr scope id) anything tokens
  decl : ∀ {s scope id}, Does σ s 0 (d.decl scope id) anything tokens

variable {σ : Setting} {s : State} {d : Descent} {scope : Scope}

theorem blockType : Does σ s 0 (Lower.blockType ss) State.Fits tokens := by
  unfold Lower.blockType
  split
  next => exact exprType
  next => exact convert

theorem blockKind : Does σ s (tokens ss) (Lower.block ss)
    (fun s e => s.store.kind? e = some (.block ss)) tokens :=
  Does.seq blockType fun _ _ _ hτ => addKind hτ (by simp) (by simp)

theorem block : Does σ s (tokens ss) (Lower.block ss) anything tokens :=
  blockKind.imp (fun _ _ _ _ => trivial) fun _ => le_rfl

theorem annotationEntries : Does σ s 0 (Lower.annotationEntries nodes) anything tokens := by
  refine Does.seq (mapM_each fun node _ _ _ => ?_) fun _ _ _ _ => pure trivial (by simp)
  refine facts_bind (required_bind fun use huse => annotationCall fun hw key hkey => ?_)
  exact hw.facts node key (by simp [NodeFacts.keys, huse, hkey])

namespace Temporary

theorem hold : Does σ s (tokens value)
    (Lower.Temporary.hold name value) (fun s t => s.Fits t.type) tokens := by
  refine Does.seq freshLocal fun s1 _ _ hsym => ?_
  refine Does.seq exprType fun s2 τ h2 hτ => ?_
  refine Does.bind (R := 0) (declare (h2.hasSymbol hsym) (fun _ => trivial) ?_ ?_) (add_zero _).symm
    fun s3 _ h3 _ => pure (h3.fits hτ) (Multiset.zero_le _)
  · simpa [PropertyDecl.localValue] using hτ
  · simp [PropertyDecl.localValue]

theorem read {t : Lower.Temporary} (ht : s.Fits t.type) : Does σ s 0 t.read anything tokens :=
  addExpr ht (by simp [Access.plain]) (by simp [Access.plain])

end Temporary

variable (hd : Descends σ d)

include hd

theorem lowerOptional : Does σ s 0 (Lower.lowerOptional d scope node what) anything tokens := by
  cases node with
  | none => exact malformed
  | some node => exact hd.expr

theorem spliced : Does σ s 0 (do Lower.splice (← d.expr scope node)) anything tokens :=
  Does.seq hd.expr fun _ _ _ _ => splice.weaken (by simp)

theorem lowerStatements : Does σ s 0 (Lower.lowerStatements d scope nodes) anything tokens :=
  Does.seq (mapM_each fun _ _ _ _ => spliced hd) fun _ _ _ _ => pure trivial (by simp)

theorem lowerBlock : Does σ s 0 (Lower.lowerBlock d scope node nodes) anything tokens := by
  refine Does.seq (lowerStatements hd) fun _ _ _ _ => facts_bind ?_
  split
  next => exact Does.seq convert fun _ _ _ hτ => addExpr hτ (by simp) (by simp)
  next => exact block.weaken (by simp)

theorem lowerBody : Does σ s 0 (Lower.lowerBody d scope body) anything tokens := by
  unfold Lower.lowerBody
  split
  next => exact block
  next =>
    refine node_bind fun _ _ => ?_
    split
    next => exact lowerBlock hd
    next =>
      rw [← bind_assoc]
      exact Does.seq (spliced hd) fun _ _ _ _ => block.weaken (by simp)

/-- The explicit receiver is either left or in use. -/
def Settles (explicit : Option ExprId) (p : Option ExprId × Option ExprId) : Prop :=
  p.2 = explicit ∨ p.1 = explicit ∧ p.2 = none

theorem receiverExpr (hk : σ.world.Agrees receiver.keys) :
    Does σ s (tokens explicit) (Lower.receiverExpr d scope receiver explicit)
      (fun _ p => Settles explicit (some p.1, p.2)) tokens := by
  unfold Lower.receiverExpr
  split
  next =>
    split
    next => exact pure (.inr ⟨rfl, rfl⟩) (by simp)
    next => exact Does.seq hd.expr fun _ _ _ _ => pure (.inl rfl) (by simp)
  next =>
    refine descriptor_bind fun _ _ => Does.seq convert fun _ _ _ hτ => ?_
    exact Does.seq (addExpr hτ (by simp) (by simp)) fun _ _ _ _ => pure (.inl rfl) (by simp)
  next =>
    refine descriptor_bind fun _ _ => Does.seq convert fun _ _ _ hτ => ?_
    exact Does.seq (addExpr hτ (by simp) (by simp)) fun _ _ _ _ => pure (.inl rfl) (by simp)
  next =>
    refine Does.seq convert fun _ _ _ hτ => ?_
    exact Does.seq (addExpr hτ (by simpa using hτ) (by simp)) fun _ _ _ _ =>
      pure (.inl rfl) (by simp)
  next =>
    refine Does.seq (symbolOf fun hw => hk hw _ (by simp [Receiver.keys])) fun _ _ _ _ => ?_
    refine Does.seq convert fun _ _ _ hτ => ?_
    exact Does.seq (addExpr hτ (by simp [Access.plain]) (by simp [Access.plain])) fun _ _ _ _ =>
      pure (.inl rfl) (by simp)

theorem optionalReceiver (hk : σ.world.Agrees (receiver.toList.flatMap (·.keys))) :
    Does σ s (tokens explicit) (Lower.optionalReceiver d scope receiver explicit)
      (fun _ => Settles explicit) tokens := by
  cases receiver with
  | none => exact pure (.inl rfl) (by simp)
  | some receiver =>
    exact Does.bind (R := 0) (receiverExpr hd (hk.subset (by simp))) (add_zero _).symm
      fun _ _ _ hp => pure hp (by simp)

/-- An explicit receiver gets into the access. -/
theorem buildAccess {call : ResolvedCall} (hk : σ.world.Agrees call.keys)
    {explicit : Option ExprId} : Does σ s (tokens explicit)
      (Lower.buildAccess d scope call explicit)
      (fun s a => (∀ t ∈ a.typeArguments, s.Fits t) ∧ ∀ e ∈ explicit, a.Through e) tokens := by
  refine Does.seq symbolFor fun s1 callee _ _ => ?_
  refine Does.bind (R := 0) (optionalReceiver hd hk.append.2) (by simp) fun s2 p _ hp => ?_
  obtain ⟨extension, left⟩ := p
  refine Does.bind (R := tokens extension) (optionalReceiver hd hk.append.1)
    (by simp [add_comm]) fun s3 q _ hq => ?_
  obtain ⟨dispatch, rest⟩ := q
  refine Does.seq convertAll fun s4 ts _ hts => ?_
  split
  next =>
    refine pure ⟨hts, ?_⟩ (by simp)
    rintro e rfl
    rcases hp with rfl | ⟨hext, _⟩
    · rcases hq with h | ⟨hdispatch, _⟩
      · cases h
      · exact .inl hdispatch
    · exact .inr hext
  next e =>
    have hrest : ∀ e' ∈ explicit, e = e' := by
      rintro e' rfl
      rcases hq with h | ⟨_, h⟩
      · rcases hp with h' | ⟨_, h'⟩ <;> cases h.trans h'
        rfl
      · cases h
    split
    next =>
      exact pure ⟨hts, fun e' he' => .inr (congrArg some (hrest e' he'))⟩
        (le_of_eq_add (b := tokens extension) (by simp))
    next =>
      exact pure ⟨hts, fun e' he' => .inl (congrArg some (hrest e' he'))⟩
        (le_of_eq_add (b := tokens dispatch) (by simp; abel))

theorem lowerElement : Does σ s 0 (Lower.lowerElement d scope element) anything tokens := by
  refine Does.seq hd.expr fun _ _ _ _ => ?_
  split
  next => exact Does.seq exprType fun _ _ _ hτ => addExpr hτ (by simp) (by simp)
  next => exact pure trivial (by simp)

omit hd in
theorem varargType : Does σ s 0 (Lower.varargType parameter) State.Fits tokens := by
  cases parameter with
  | none => exact convert
  | some _ => exact descriptor_bind fun _ _ => convert

theorem lowerVararg :
    Does σ s 0 (Lower.lowerVararg d scope elements parameter) anything tokens := by
  unfold Lower.lowerVararg
  split
  next => exact pure trivial (by simp)
  next =>
    refine Does.seq (mapM_each fun _ _ _ _ => lowerElement hd) fun _ _ _ _ => ?_
    refine Does.seq varargType fun _ _ _ hτ => ?_
    exact Does.bind (R := 0) (addExpr hτ (by simp) (by simp)) (add_zero _).symm
      fun _ _ _ _ => pure trivial (by simp)

theorem lowerArgument :
    Does σ s 0 (Lower.lowerArgument d scope argument parameter) anything tokens := by
  unfold Lower.lowerArgument
  split
  next => exact pure trivial (by simp)
  next => exact Does.seq hd.expr fun _ _ _ _ => pure trivial (by simp)
  next => exact lowerVararg hd

omit hd in
theorem keepArgument : Does σ s (tokens value) (Lower.keepArgument value) anything tokens := by
  refine expr_bind fun _ _ => ?_
  split
  next => exact pure trivial (by simp)
  next =>
    refine Does.bind (R := 0) Temporary.hold (by simp) fun _ t _ ht => ?_
    exact Does.seq (Temporary.read ht) fun _ _ _ _ =>
      pure trivial (by simp)

omit hd in
theorem fillSlot :
    Does σ s (tokens slots + tokens value) (Lower.fillSlot slots index value) anything tokens := by
  unfold Lower.fillSlot
  split
  next => exact pure trivial (tokens_set_le _ _ _)
  next => exact throw

theorem placeArgument :
    Does σ s (tokens built) (Lower.placeArgument d scope call parameters reorder built index)
      anything tokens := by
  obtain ⟨prelude, slots⟩ := built
  unfold Lower.placeArgument
  split
  next => exact pure trivial le_rfl
  next =>
    refine Does.seq (lowerArgument hd) fun _ value _ _ => ?_
    split
    next value =>
      split
      next =>
        refine Does.bind (R := tokens slots + tokens prelude) keepArgument (by simp [add_comm])
          fun _ kept _ _ => ?_
        refine Does.bind (R := tokens prelude + tokens kept.1) fillSlot (by simp; abel)
          fun _ _ _ _ => pure trivial (by simp; abel_nf; rfl)
      next =>
        exact Does.bind (R := tokens prelude) fillSlot (by simp; abel)
          fun _ _ _ _ => pure trivial (by simp [add_comm])
    next =>
      exact Does.bind (R := tokens prelude) fillSlot (by simp; abel)
        fun _ _ _ _ => pure trivial (by simp [add_comm])

theorem lowerArguments : Does σ s 0 (Lower.lowerArguments d scope call) anything tokens := by
  refine descriptor_bind fun _ _ => read_bind ?_
  exact (foldlM fun _ _ _ _ _ => placeArgument hd).weaken (by simp)

omit hd in
theorem withPrelude {prelude : List Statement} {e : ExprId} :
    Does σ s (tokens prelude + tokens e) (Lower.withPrelude prelude e)
      (fun s e' => s.store.EndsIn e' e) tokens := by
  unfold Lower.withPrelude
  split
  next => exact pure (.inl rfl) (le_of_eq_add (b := tokens prelude) (add_comm _ _))
  next =>
    refine (blockKind.imp (fun _ _ _ h => ?_) fun _ => le_rfl).weaken (by simp)
    exact .inr ⟨_, h⟩

theorem callArguments :
    Does σ s (tokens arguments) (Lower.callArguments d scope call arguments) anything tokens := by
  cases arguments with
  | none => exact lowerArguments hd
  | some _ => exact pure trivial (by simp)

theorem runsOn_buildCall {call : ResolvedCall} (hk : σ.world.Agrees call.keys) {τ : TreeType}
    (hτ : s.Fits τ) {parts : CallParts} :
    Does σ s (tokens parts) (Lower.buildCall d scope call τ parts)
      (fun s e => ∀ r ∈ parts.receiver, s.store.RunsOn e r) tokens := by
  refine Does.bind (R := tokens parts.arguments) (buildAccess hd hk) rfl fun s1 a h1 ha => ?_
  refine descriptor_bind fun _ _ => ?_
  split
  next =>
    refine ((addKind (h1.fits hτ) (by simpa using ha.1) rfl).imp (fun _ e _ he r hr => ?_)
      fun _ => le_rfl).weaken (le_of_eq_add (b := tokens parts.arguments) (by simp))
    exact ⟨e, _, a, .inl rfl, he, rfl, ha.2 r hr⟩
  next =>
    refine Does.bind (R := tokens a) (callArguments hd) (add_comm _ _) fun s2 p h2 _ => ?_
    refine Does.bind (R := tokens p.1) (addKind ((h1.trans h2).fits hτ)
      (by simpa using fun t ht => h2.fits (ha.1 t ht)) rfl) (by simp; abel) fun s3 e _ he => ?_
    refine (withPrelude.imp (fun _ e' h4 hends r hr => ?_) fun _ => le_rfl).weaken
      (by simp [add_comm])
    exact ⟨e, _, a, hends, h4.kind? he, rfl, ha.2 r hr⟩

theorem buildCall (hk : σ.world.Agrees call.keys) {τ : TreeType} (hτ : s.Fits τ)
    {parts : CallParts} :
    Does σ s (tokens parts) (Lower.buildCall d scope call τ parts) anything tokens :=
  (runsOn_buildCall hd hk hτ).imp (fun _ _ _ _ => trivial) fun _ => le_rfl

theorem callOn (hk : σ.world.Agrees call.keys) {τ : TreeType} (hτ : s.Fits τ) {receiver : ExprId}
    {arguments : List (Option ExprId)} :
    Does σ s (tokens receiver + tokens arguments)
      (Lower.callOn d scope call τ receiver arguments) anything tokens :=
  (buildCall hd hk hτ).weaken (by simp)

omit hd in
theorem agrees_call {id : NodeId} (h : (σ.world.factsOf id).call = some call) :
    σ.world.Agrees call.keys := fun hw key hkey =>
  hw.facts id key (by simp [NodeFacts.keys, h, hkey])

theorem runsOn_lowerSelector {id : NodeId} {parts : CallParts} :
    Does σ s (tokens parts) (Lower.lowerSelector d scope id parts)
      (fun s e => ∀ r ∈ parts.receiver, s.store.RunsOn e r) tokens := by
  refine Does.seq expressionType fun s1 τ h1 hτ => facts_bind (node_bind fun _ _ => ?_)
  rw [tokens_type, zero_add]
  split
  next hcall _ => exact descriptor_bind fun _ _ => runsOn_buildCall hd (agrees_call hcall) hτ
  next hcall _ => exact runsOn_buildCall hd (agrees_call hcall) hτ
  next =>
    refine required_bind fun _ _ => Does.seq symbolFor fun s2 _ h2 _ => ?_
    refine ((addKind (h2.fits hτ) (by simp) rfl).imp (fun _ e _ he r hr => ?_)
      fun _ => le_rfl).weaken (le_of_eq_add (b := tokens parts.arguments) (by simp))
    exact ⟨e, _, _, .inl rfl, he, rfl, .inl hr⟩
  next => exact required_none
  next => exact unexpected

theorem lowerSelector {id : NodeId} :
    Does σ s (tokens parts) (Lower.lowerSelector d scope id parts) anything tokens :=
  (runsOn_lowerSelector hd).imp (fun _ _ _ _ => trivial) fun _ => le_rfl

omit hd in
theorem addSafeCall {F : Multiset Token} {τ : TreeType} {receiver subject selector : ExprId}
    (hτ : s.Fits τ) (hruns : s.store.RunsOn selector subject)
    (hF : F = (ExprKind.safeCall receiver subject selector).takes) :
    Does σ s F (Lower.addExpr τ (.safeCall receiver subject selector)) anything tokens := by
  have hadmits : s.Admits τ (.safeCall receiver subject selector) := hruns
  rw [← gives_eq_tokens (k := .safeCall receiver subject selector) (by simp)]
  exact (addExprGiving hτ (by simp) hadmits hF).imp (fun _ _ _ _ => trivial) fun _ => le_rfl

/-- The receiver and the subject of a safe call, and the place of the subject in it. -/
def safeTokens (p : ExprId × ExprId) : Multiset Token :=
  tokens p.1 + (tokens p.2 + {.subject p.2 p.1})

theorem safeReceiver : Does σ s 0 (Lower.safeReceiver d scope receiver) anything safeTokens := by
  refine Does.seq hd.expr fun s1 e _ _ => sane fun hs => ?_
  simp only [Lower.exprType, bind_assoc, pure_bind]
  refine expr_bind fun x hx => ?_
  refine Does.seq (addExprGiving (hs.exprs hx).1.nonNull (by simp) ⟨x, hx, rfl⟩ (by simp))
    fun s3 e' _ _ => ?_
  have hall : (ExprKind.safeCallSubject e).gives e' + (tokens e + 0) = safeTokens (e, e') := by
    simp [safeTokens, ExprKind.gives, tokens_expr, add_comm]
  rw [hall]
  exact pure trivial le_rfl

theorem lowerQualified {id receiver selector : NodeId} {safe : Bool} :
    Does σ s 0 (Lower.lowerQualified d scope id receiver selector safe) anything tokens := by
  refine deparenthesize_bind ?_
  split
  next =>
    refine Does.seq (safeReceiver hd) fun s1 p _ _ => ?_
    obtain ⟨receiver, subject⟩ := p
    refine Does.bind (R := tokens receiver + {.subject subject receiver}) (runsOn_lowerSelector hd)
      (by simp [safeTokens]; abel) fun s2 selector _ hruns => ?_
    exact Does.seq expressionType fun s3 τ h3 hτ =>
      addSafeCall hτ (h3.runsOn (hruns subject rfl)) (by simp; abel)
  next => exact (lowerSelector hd).weaken (by simp)

omit hd in
theorem indexedGet_bind {β : Type} {Q : State → β → Prop} {G : β → Multiset Token} {id : NodeId}
    {k : ResolvedCall → Lower β} (h : ∀ call, σ.world.Agrees call.keys → Does σ s F (k call) Q G) :
    Does σ s F (Lower.indexedGet id >>= k) Q G := by
  simp only [Lower.indexedGet, bind_assoc]
  refine facts_bind (required_bind fun call hcall => h call fun hw key hkey => ?_)
  obtain ⟨calls, hcalls, hget⟩ := Option.bind_eq_some_iff.1 hcall
  exact hw.facts id key (by simp [NodeFacts.keys, hcalls, IndexedCalls.keys, hget, hkey])

omit hd in
theorem indexedSet_bind {β : Type} {Q : State → β → Prop} {G : β → Multiset Token} {id : NodeId}
    {k : ResolvedCall → Lower β} (h : ∀ call, σ.world.Agrees call.keys → Does σ s F (k call) Q G) :
    Does σ s F (Lower.indexedSet id >>= k) Q G := by
  simp only [Lower.indexedSet, bind_assoc]
  refine facts_bind (required_bind fun call hcall => h call fun hw key hkey => ?_)
  obtain ⟨calls, hcalls, hset⟩ := Option.bind_eq_some_iff.1 hcall
  exact hw.facts id key (by simp [NodeFacts.keys, hcalls, IndexedCalls.keys, hset, hkey])

theorem lowerArrayAccess {id : NodeId} :
    Does σ s 0 (Lower.lowerArrayAccess d scope id) anything tokens :=
  indexedGet_bind fun _ hk => Does.seq expressionType fun _ _ _ hτ =>
    (buildCall hd hk hτ).weaken (by simp)

theorem lowerDelegationCall {id : NodeId} :
    Does σ s 0 (Lower.lowerDelegationCall d scope id) anything tokens := by
  refine node_bind fun n hn => ?_
  split
  next hkind =>
    refine facts_bind (required_bind fun call hcall => ?_)
    refine Does.seq (symbolOf fun hw => hw.node hn _ ?_) fun _ _ _ _ => ?_
    · simp [World.keysOfNode, hkind, hcall, Key.all]
    refine Does.seq (lowerArguments hd) fun _ p _ _ => ?_
    refine Does.seq convert fun _ _ _ hτ => ?_
    refine Does.bind (R := tokens p.1) (addExpr hτ (by simp) rfl) (by simp [add_comm])
      fun _ _ _ _ => ?_
    exact (withPrelude.imp (fun _ _ _ _ => trivial) fun _ => le_rfl).weaken (by simp [add_comm])
  next => exact unexpected

end Does

end TypedTree
