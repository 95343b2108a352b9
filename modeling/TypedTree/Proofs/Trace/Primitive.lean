import TypedTree.Proofs.Trace.Does

namespace TypedTree.Does

open Lower Desk Token Carries

variable {σ : Setting} {s : State} {F : Multiset Token} {α β : Type} {Q : State → β → Prop}
  {G : β → Multiset Token}

/-- Any result will do. -/
def anything (_ : State) (_ : α) : Prop := True

theorem present_bind (h : ∀ a, x = some a → Does σ s F (k a) Q G) :
    Does σ s F (present x >>= k) Q G := by
  cases x with
  | none => exact throw
  | some a => simpa [present] using h a rfl

theorem node_bind {id : NodeId} (h : ∀ n, σ.world.tree.node? id = some n → Does σ s F (k n) Q G) :
    Does σ s F (node id >>= k) Q G := by
  simp only [node, bind_assoc]
  exact read_bind (present_bind h)

theorem descriptor_bind {id : DescId}
    (h : ∀ d, σ.world.descriptor? id = some d → Does σ s F (k d) Q G) :
    Does σ s F (descriptor id >>= k) Q G := by
  simp only [descriptor, bind_assoc]
  exact read_bind (present_bind h)

theorem sourceType_bind {id : TypeId} (h : ∀ t, σ.world.type? id = some t → Does σ s F (k t) Q G) :
    Does σ s F (sourceType id >>= k) Q G := by
  simp only [sourceType, bind_assoc]
  exact read_bind (present_bind h)

theorem facts_bind {id : NodeId} (h : Does σ s F (k (σ.world.factsOf id)) Q G) :
    Does σ s F (facts id >>= k) Q G := by
  simp only [facts, bind_assoc, pure_bind]
  exact read_bind h

theorem deparenthesize_bind {id : NodeId}
    (h : Does σ s F (k (σ.world.tree.deparenthesize id)) Q G) :
    Does σ s F (deparenthesize id >>= k) Q G := by
  simp only [deparenthesize, bind_assoc, pure_bind]
  exact read_bind h

theorem expr_bind {id : ExprId} (h : ∀ x, s.store.expr? id = some x → Does σ s F (k x) Q G) :
    Does σ s F (expr id >>= k) Q G := by
  simp only [expr, bind_assoc]
  exact get_bind (present_bind h)

theorem decl_bind {id : DeclId} (h : ∀ x, s.store.decl? id = some x → Does σ s F (k x) Q G) :
    Does σ s F (decl id >>= k) Q G := by
  simp only [decl, bind_assoc]
  exact get_bind (present_bind h)

theorem symbol_bind {id : SymbolId} (h : ∀ x, s.table.get? id = some x → Does σ s F (k x) Q G) :
    Does σ s F (symbol id >>= k) Q G := by
  simp only [symbol, bind_assoc]
  exact get_bind (present_bind h)

theorem unexpected {id : NodeId} : Does σ s F (unexpected id what) Q G :=
  node_bind fun _ _ => throw

theorem unexpectedDeclaration : Does σ s F (unexpectedDeclaration d what) Q G := throw

theorem required_none {id : NodeId} : Does σ s F (required none what id) Q G :=
  node_bind fun _ _ => throw

theorem required_bind {id : NodeId} (h : ∀ a, fact = some a → Does σ s F (k a) Q G) :
    Does σ s F (required fact what id >>= k) Q G := by
  cases fact with
  | none =>
    simp only [required, bind_assoc]
    exact node_bind fun _ _ => throw
  | some a => simpa [required] using h a rfl

theorem declared_bind {id : NodeId}
    (h : ∀ desc, (σ.world.factsOf id).declares = some desc → Does σ s F (k desc) Q G) :
    Does σ s F (declared id >>= k) Q G := by
  simp only [declared, bind_assoc]
  exact facts_bind (required_bind h)

theorem of_step (hm : m.runFrom σ s = (.ok b, s'))
    (hstep : ∀ R, Step σ true ⟨F + R, s⟩ ⟨G b + R, s'⟩) (hQ : Q s' b) : Does σ s F m Q G := by
  intro _ R
  rw [hm]
  exact ⟨.single (hstep R), hQ⟩

theorem symbolOf (hk : σ.world.KindConsistent → σ.world.Names (kind, desc)) :
    Does σ s 0 (symbolOf kind desc) (fun s id => s.HasSymbol id kind) tokens := by
  intro hs R
  simp only [Lower.symbolOf]
  rw [runFrom_bind_ok _ _ (runFrom_get _ _), runFrom_bind_ok _ _ (runFrom_read _ _)]
  cases ht : s.table.getOrCreate? σ.world kind desc with
  | none => exact ⟨_, .refl⟩
  | some p =>
    obtain ⟨id, table⟩ := p
    rcases SymbolTable.getOrCreate?_cases ht with ⟨hc, rfl⟩ | ⟨hc, rfl, d, hd, rfl⟩
    · obtain ⟨x, _, hx, hkind, _⟩ := hs.table.cached hc
      exact ⟨.refl, x, hx, hkind⟩
    · refine ⟨.single (.symbol hd hc hk), ⟨kind, σ.world.identity d, none⟩, ?_, rfl⟩
      simp [SymbolTable.get?, SymbolTable.create]

/-- The symbol is the one that is remembered. -/
theorem symbolOf_cached (hk : σ.world.KindConsistent → σ.world.Names (kind, desc)) :
    Does σ s 0 (Lower.symbolOf kind desc) (fun s id => s.table.cached? kind desc = some id)
      tokens := by
  refine (symbolOf hk).ran.imp (fun s' id _ ⟨_, hrun⟩ => ?_) fun _ => le_rfl
  simp only [Lower.symbolOf, runFrom_bind, runFrom_get, runFrom_read] at hrun
  cases ht : s.table.getOrCreate? σ.world kind desc with
  | none =>
    rw [ht] at hrun
    cases hrun
  | some p =>
    obtain ⟨id', table⟩ := p
    rw [ht] at hrun
    cases hrun
    rcases SymbolTable.getOrCreate?_cases ht with ⟨hc, rfl⟩ | ⟨hc, rfl, d, hd, rfl⟩
    · exact hc
    · rw [SymbolTable.cached?_create, if_pos ⟨rfl, rfl⟩]

/-- Sites at which a descriptor is of the kind that is asked for in any world. -/
theorem symbolOf_self (hd : σ.world.descriptor? desc = some d) (hk : d.symbolKind = kind) :
    Does σ s 0 (Lower.symbolOf kind desc) (fun s id => s.HasSymbol id kind) tokens :=
  symbolOf fun _ d' hd' => by
    cases hd.symm.trans hd'
    exact hk

theorem symbolFor : Does σ s 0 (symbolFor desc)
    (fun s id => ∃ d, σ.world.descriptor? desc = some d ∧ s.HasSymbol id d.symbolKind) tokens := by
  cases hd : σ.world.descriptor? desc with
  | none =>
    refine of_runFrom (m := MonadExcept.throw LowerError.dangling) throw ?_
    simp [Lower.symbolFor, SymbolTable.symbolFor?, hd, runFrom_bind, present]
  | some d =>
    refine of_runFrom (m := Lower.symbolOf d.symbolKind desc)
      ((symbolOf_self hd rfl).imp (fun _ _ _ h => ⟨d, rfl, h⟩) fun _ => le_rfl) ?_
    simp only [Lower.symbolFor, Lower.symbolOf, runFrom_bind, runFrom_get, runFrom_read,
      SymbolTable.symbolFor?, hd, Option.bind_some]

theorem freshLocal :
    Does σ s 0 (freshLocal kind name) (fun s id => s.HasSymbol id kind) tokens :=
  of_step rfl (fun _ => .fresh) ⟨_, by simp [SymbolTable.get?]; rfl, rfl⟩

theorem newFunctionTarget :
    Does σ s 0 (newFunctionTarget label isLambda) anything fun _ => 0 :=
  of_step rfl (fun _ => .functionTarget) trivial

theorem newLoopTarget : Does σ s 0 (newLoopTarget label) anything fun _ => 0 :=
  of_step rfl (fun _ => .loopTarget) trivial

theorem newWhenRef : Does σ s 0 newWhenRef anything fun _ => 0 :=
  of_step rfl (fun _ => .whenRef) trivial

theorem addExprGiving (hτ : s.Fits τ) (hk : ∀ t ∈ k.types, s.Fits t) (ha : s.Admits τ k)
    (hF : F = k.takes) : Does σ s F (Lower.addExpr τ k)
      (fun s' e => s.store.expr? e = none ∧ s'.store.kind? e = some k) k.gives :=
  of_step rfl (fun _ => hF ▸ .expr hτ hk ha)
    ⟨by simp [Store.expr?], by simp [Store.kind?, Store.expr?]⟩

theorem gives_eq_tokens {k : ExprKind} (h : ∀ r, k ≠ .safeCallSubject r) : k.gives = tokens := by
  funext e
  cases k with
  | safeCallSubject r => exact (h r rfl).elim
  | _ => exact add_zero _

theorem takes_of_isIndependent {k : ExprKind} [h : Holds k.isIndependent] :
    k.takes = tokens k.operands := by
  rw [← frees_eq_tokens]
  cases k with
  | safeCall => cases h.eq_true
  | _ => exact add_zero _

theorem addKind {k : ExprKind} (hτ : s.Fits τ) (hk : ∀ t ∈ k.types, s.Fits t) (hF : F = k.takes)
    [hfree : Holds k.isIndependent] :
    Does σ s F (Lower.addExpr τ k) (fun s e => s.store.kind? e = some k) tokens := by
  have hne (r : ExprId) (he : k = .safeCallSubject r) : False := by
    subst he
    cases hfree.eq_true
  rw [← gives_eq_tokens hne]
  exact (addExprGiving hτ hk State.admits_of_isIndependent hF).imp (fun _ _ _ h => h.2)
    fun _ => le_rfl

theorem addExpr (hτ : s.Fits τ) (hk : ∀ t ∈ k.types, s.Fits t) (hF : F = k.takes)
    [Holds k.isIndependent] : Does σ s F (addExpr τ k) anything tokens :=
  (addKind hτ hk hF).imp (fun _ _ _ _ => trivial) fun _ => le_rfl

theorem annotateExpr : Does σ s (tokens calls) (annotateExpr e calls) anything tokens :=
  expr_bind fun _ _ => of_step rfl (fun R => by
    rw [← frees_eq_tokens, tokens_unit, zero_add]
    exact .annotate) trivial

theorem own (h : Owns σ s holder part m) : Does σ s 0 m anything fun _ => 0 := by
  intro _ R
  rcases h with ⟨e, h⟩ | ⟨ho, h⟩
  · rw [h]
    exact ⟨_, .refl⟩
  · rw [h]
    exact ⟨.single (.own ho), trivial⟩

theorem bindFunctionTarget : Does σ s 0 (bindFunctionTarget t d) anything fun _ => 0 :=
  own (owns_bindFunctionTarget t d)

theorem bindLoopTarget : Does σ s 0 (bindLoopTarget t e) anything fun _ => 0 :=
  own (owns_bindLoopTarget t e)

theorem bindWhenRef : Does σ s 0 (bindWhenRef r e) anything fun _ => 0 := own (owns_bindWhenRef r e)

theorem addLoop (hτ : s.Fits τ) (hk : ∀ t ∈ k.types, s.Fits t) (hF : F = k.takes)
    [Holds k.isIndependent] : Does σ s F (addLoop t τ k) anything tokens :=
  (addExpr hτ hk hF).bind (add_zero F).symm fun _ _ _ _ =>
    bindLoopTarget.seq fun _ _ _ _ => pure trivial (by simp)

theorem addChoice (hτ : s.Fits τ) (hk : ∀ t ∈ k.types, s.Fits t) (hF : F = k.takes)
    [Holds k.isIndependent] : Does σ s F (addChoice r τ k) anything tokens :=
  (addExpr hτ hk hF).bind (add_zero F).symm fun _ _ _ _ =>
    bindWhenRef.seq fun _ _ _ _ => pure trivial (by simp)

/-- A symbol that has an owner already leaves the new declaration without its symbol. -/
theorem declare {id : SymbolId} (hsym : s.HasSymbol id kind)
    (hk : σ.world.KindConsistent → k.Suits kind) (ht : ∀ t ∈ k.types, s.Fits t)
    (hF : F = tokens calls + tokens k.operands) :
    Does σ s F (declare id origin calls k) anything tokens := by
  intro _ R
  obtain ⟨x, hx, rfl⟩ := hsym
  rw [runFrom_declare hx, hF, ← frees_eq_tokens, ← frees_eq_tokens]
  cases ho : x.owner with
  | some existing => exact ⟨_, .single (.orphan (d := ⟨id, origin, calls, k⟩) rfl ht)⟩
  | none => exact ⟨.single (by rw [tokens_decl, zero_add]; exact .declare hx ho hk ht), trivial⟩

theorem declareCallable {id : SymbolId} (hsym : s.HasSymbol id kind)
    (hk : σ.world.KindConsistent → k.Suits kind) (ht : ∀ t ∈ k.types, s.Fits t)
    (hF : F = tokens calls + tokens k.operands) :
    Does σ s F (declareCallable t id origin calls k) anything tokens :=
  (declare hsym hk ht hF).bind (add_zero F).symm fun _ _ _ _ =>
    bindFunctionTarget.seq fun _ _ _ _ => pure trivial (by simp)

theorem exprType : Does σ s 0 (exprType e) State.Fits tokens :=
  sane fun hs => expr_bind fun _ hx => pure (hs.exprs hx).1 (by simp)

theorem declaredType : Does σ s 0 (declaredType d) (fun s τ => ∀ t ∈ τ, s.Fits t) tokens :=
  sane fun hs => decl_bind fun x hx => pure (fun t ht => hs.decls hx t (by
    obtain ⟨_, _, _, kind⟩ := x
    cases kind <;> simp_all [DeclKind.valueType?])) (by simp)

/-- The statements of a block that is taken apart come free with it. -/
theorem splice : Does σ s (tokens e) (splice e) anything tokens := by
  refine expr_bind fun x hx => ?_
  split
  next => exact of_step rfl (fun R => by
    rw [← tokens_statements, ← frees_eq_tokens]
    exact .splice hx) trivial
  next => exact pure trivial (by simp)

section lists

variable [Carries β] {f : α → Lower β} {P : α → State → β → Prop} {E : α → Multiset Token}

/-- Each element takes its own tokens, and what is known of its result stays so. -/
theorem mapM_taking (hP : ∀ {a s s' b}, State.Le s s' → P a s b → P a s' b)
    (h : ∀ a ∈ as, ∀ s', s.Le s' → Does σ s' (E a) (f a) (P a) tokens) :
    Does σ s (as.map E).sum (as.mapM f) (fun s bs => List.Forall₂ (P · s ·) as bs) tokens := by
  induction as generalizing s with
  | nil =>
    rw [List.map_nil, List.sum_nil]
    exact pure .nil (by simp)
  | cons a as ih =>
    rw [List.mapM_cons]
    refine bind (R := (as.map E).sum) (h a (by simp) s (.refl s)) (by simp) fun s1 b h1 hb => ?_
    refine bind (R := tokens b) (ih fun a' ha' s' hs' => h a' (by simp [ha']) s' (h1.trans hs'))
      (add_comm _ _) fun s2 bs h2 hbs => ?_
    exact pure (.cons (hP h2 hb) hbs) (by simp [add_comm])

theorem mapM (hP : ∀ {a s s' b}, State.Le s s' → P a s b → P a s' b)
    (h : ∀ a ∈ as, ∀ s', s.Le s' → Does σ s' 0 (f a) (P a) tokens) :
    Does σ s 0 (as.mapM f) (fun s bs => List.Forall₂ (P · s ·) as bs) tokens := by
  have hzero : (as.map fun _ => (0 : Multiset Token)).sum = 0 := by
    clear h
    induction as with
    | nil => rfl
    | cons a as ih => rw [List.map_cons, List.sum_cons, ih, add_zero]
  rw [← hzero]
  exact mapM_taking hP h

theorem mapM_all {as : List α} {Q : State → β → Prop}
    (hQ : ∀ {s s' b}, State.Le s s' → Q s b → Q s' b)
    (h : ∀ a ∈ as, ∀ s', s.Le s' → Does σ s' 0 (f a) Q tokens) :
    Does σ s 0 (as.mapM f) (fun s bs => ∀ b ∈ bs, Q s b) tokens := by
  refine (mapM (P := fun _ => Q) hQ h).imp (fun s' bs _ hbs => ?_) fun _ => le_rfl
  clear h
  induction hbs with
  | nil => simp
  | cons hb _ ih => exact List.forall_mem_cons.2 ⟨hb, ih⟩

theorem mapM_each {as : List α} (h : ∀ a ∈ as, ∀ s', s.Le s' → Does σ s' 0 (f a) anything tokens) :
    Does σ s 0 (as.mapM f) anything tokens :=
  (mapM (P := fun _ => anything) (fun _ _ => trivial) h).imp (fun _ _ _ _ => trivial)
    fun _ => le_rfl

theorem optionMapM (h : ∀ a', a = some a' → Does σ s 0 (f a') Q tokens) :
    Does σ s 0 (a.mapM f) (fun s b => ∀ b' ∈ b, Q s b') tokens := by
  cases a with
  | none => exact pure (by simp) (by simp)
  | some a =>
    refine (h a rfl).map ?_ ?_
    · rintro s' b _ hb _ ⟨⟩
      exact hb
    · exact fun b => le_rfl

theorem foldlM {f : β → α → Lower β} {as : List α}
    (h : ∀ a ∈ as, ∀ b s', s.Le s' → Does σ s' (tokens b) (f b a) anything tokens) :
    Does σ s (tokens b) (as.foldlM f b) anything tokens := by
  induction as generalizing s b with
  | nil => exact pure trivial le_rfl
  | cons a as ih =>
    rw [List.foldlM_cons]
    refine bind (h a (by simp) b s (.refl s)) (add_zero _).symm fun s1 b' h1 _ => ?_
    rw [add_zero]
    exact ih fun a' ha' b s' hs' => h a' (by simp [ha']) b s' (h1.trans hs')

end lists

end TypedTree.Does
