import TypedTree.Proofs.Pass.Access

namespace TypedTree.Tandem

open Lower

variable {Stage : Type} [Preorder Stage] (T : Tandem Stage)

/-- Pieces of a template: the same text, or values that stand for each other. -/
inductive pieces (g : Region) (w : Stage) : Piece → Piece → Prop
  | text {text : String} : pieces g w (.text text) (.text text)
  | value {a b : ExprId} : T.exprs g w a b → pieces g w (.value a) (.value b)

abbrev exprLists (g : Region) (w : Stage) : List ExprId → List ExprId → Prop :=
  List.Forall₂ (T.exprs g w)

variable {T} {w w' : Stage} {g : Region}

theorem exprLists_later (h : w ≤ w') (hxy : T.exprLists g w xs ys) : T.exprLists g w' xs ys :=
  lists_stable exprs_stable h hxy

theorem literalText?_alike (h : ExprKind.Alike C g k1 k2) : literalText? k1 = literalText? k2 := by
  cases h <;> rfl

namespace Lawful

variable (hT : T.Lawful) {d : Descent} (hd : T.Descends d) {s1 s2 : Scope}
  (hs : T.scopes g w s1 s2)

include hT

/-- Whether a type is one without arguments and annotations is the same question in both runs. -/
theorem eq_bare_iff (ha : T.types w a1 a2) (hb : T.types w b1 b2) (h1 : b1.isBare)
    (h2 : b2.isBare) : a1 = b1 ↔ a2 = b2 := by
  cases ha with
  | @mk _ _ _ as1 as2 xs1 xs2 hc has hxs =>
    cases hb with
    | mk hc' _ _ =>
      simp only [TreeType.isBare, Bool.and_eq_true, List.isEmpty_iff] at h1 h2
      have hargs : as1 = [] ↔ as2 = [] := by cases has <;> simp
      have hnotes : xs1 = [] ↔ xs2 = [] := by cases hxs <;> simp
      simp [h1.1, h1.2, h2.1, h2.2, hT.symbol_unique hc hc', hargs, hnotes]

theorem textLiteral (hτ : T.types w τ1 τ2) {text : String} :
    T.Does w (textLiteral τ1 text) (textLiteral τ2 text) (T.exprs g) :=
  hT.addExpr hτ .literal rfl

theorem pendingLiteral (hτ : T.types w τ1 τ2) {text : String} :
    T.Does w (pendingLiteral τ1 text) (pendingLiteral τ2 text) (T.exprLists g) := by
  unfold Lower.pendingLiteral
  split
  · exact Does.pure .nil
  · exact Does.bind (hT.textLiteral hτ) fun _ _ _ _ he => Does.pure (.cons he .nil)

theorem concatenated (hτ : T.types w τ1 τ2) {c1 c2 : SymbolId} (hc : T.symbols w c1 c2)
    {e1 e2 : ExprId} (he : T.exprs g w e1 e2) :
    T.Does w (concatenated τ1 c1 e1) (concatenated τ2 c2 e2) (T.exprs g) := by
  refine hT.content_bind (.inl he) fun x1 x2 hx => ?_
  rw [literalText?_alike hx.kind]
  split
  · exact Does.pure he
  · exact hT.addExpr hτ (.call ⟨hc, .some (.inl he), .none, .nil⟩ .nil) rfl

theorem concatenate (hτ : T.types w τ1 τ2) {xs ys : List ExprId} (hxy : T.exprLists g w xs ys) :
    T.Does w (lowerTemplate.concatenate τ1 xs) (lowerTemplate.concatenate τ2 ys) (T.exprs g) := by
  refine Does.bind (hT.symbolOf (T.world.finds_builtin_desc (by decide)) ⟨by simp, by simp⟩)
    fun w1 c1 c2 h1 hc => ?_
  have hlist : T.Does w1 (xs.mapM (Lower.concatenated τ1 c1)) (ys.mapM (Lower.concatenated τ2 c2))
      (T.exprLists g) :=
    Does.mapM exprs_stable (le_refl w1) ((exprLists_later h1 hxy).imp fun _ _ he w' hle =>
      hT.concatenated (types_stable (h1.trans hle) hτ) (symbols_stable hle hc)
        (exprs_stable hle he))
  refine Does.bind hlist fun w2 _ _ h2 hall => ?_
  exact hT.addExpr (types_stable (h1.trans h2) hτ)
    (.concatenation (hall.imp fun _ _ he => .inl he)) rfl

include hd hs

theorem lowerEntry {entry : TemplateEntry} (he : T.world.Knows entry.refs) :
    T.SameIn w s1 s2 (lowerEntry d · entry) (T.pieces g) := by
  cases entry with
  | literal text | escape text => exact Does.pure .text
  | expression node =>
    refine Does.bind (hd.expr hs (he _ (by simp [TemplateEntry.refs]))) fun w1 e1 e2 _ he => ?_
    refine hT.content_bind (.inl he) fun x1 x2 hx => ?_
    rw [literalText?_alike hx.kind]
    split
    · exact Does.pure .text
    · exact Does.pure (.value he)

theorem lowerEntries (hn : ∀ e ∈ entries, T.world.Knows e.refs) {τ1 τ2 : TreeType}
    (hτ : T.types w τ1 τ2) {xs ys : List ExprId} (hxy : T.exprLists g w xs ys) {pending : String} :
    T.Does w (lowerEntries d s1 τ1 entries xs pending) (lowerEntries d s2 τ2 entries ys pending)
      fun w' a b => T.exprLists g w' a.1 b.1 ∧ a.2 = b.2 := by
  induction entries generalizing w xs ys pending with
  | nil => exact Does.pure ⟨hxy, rfl⟩
  | cons entry rest ih =>
    have hrest : ∀ e ∈ rest, T.world.Knows e.refs := fun e he => hn e (by simp [he])
    refine Does.bind (hT.lowerEntry hd hs (hn entry (by simp))) fun w1 p1 p2 h1 hp => ?_
    have hs1 := scopes_later h1 hs
    have hτ1 := types_stable h1 hτ
    cases hp with
    | text => exact ih hs1 hrest hτ1 (exprLists_later h1 hxy)
    | value hv =>
      refine Does.bind (hT.pendingLiteral (g := g) hτ1) fun w2 _ _ h2 hl => ?_
      refine ih (scopes_later h2 hs1) hrest (types_stable h2 hτ1) ?_
      exact List.rel_append (List.rel_append (exprLists_later (h1.trans h2) hxy) hl)
        (.cons (exprs_stable h2 hv) .nil)

theorem lowerTemplate {entries : List TemplateEntry} (hn : ∀ e ∈ entries, T.world.Knows e.refs) :
    T.SameIn w s1 s2 (lowerTemplate d · entries) (T.exprs g) := by
  refine Does.bind hT.stringType fun w1 σ1 σ2 h1 hσ => ?_
  obtain ⟨hσ, hb1, hb2⟩ := hσ
  refine Does.bind (hT.lowerEntries hd (scopes_later h1 hs) hn hσ .nil) fun w2 a b h2 hab => ?_
  obtain ⟨xs, pending⟩ := a
  obtain ⟨ys, _⟩ := b
  obtain ⟨hxy, rfl⟩ := hab
  have hσ2 := types_stable h2 hσ
  have hempty : xs.isEmpty = ys.isEmpty := by cases hxy <;> rfl
  simp only [hempty]
  split
  · exact hT.textLiteral hσ2
  · refine Does.bind (hT.pendingLiteral (g := g) hσ2) fun w3 ls1 ls2 h3 hl => ?_
    have hall : T.exprLists g w3 (xs ++ ls1) (ys ++ ls2) :=
      List.rel_append (exprLists_later h3 hxy) hl
    have hσ3 := types_stable h3 hσ2
    generalize xs ++ ls1 = zs1, ys ++ ls2 = zs2 at hall ⊢
    cases hall with
    | nil => exact hT.concatenate hσ3 .nil
    | cons he hrest =>
      cases hrest with
      | cons he' hrest => exact hT.concatenate hσ3 (.cons he (.cons he' hrest))
      | nil =>
        refine Does.bind (hT.exprType (.inl he)) fun w4 τ1 τ2 h4 hτ => ?_
        have hσ4 := types_stable h4 hσ3
        simp only [hT.eq_bare_iff hτ hσ4 hb1 hb2]
        split
        · exact Does.pure (exprs_stable h4 he)
        · exact hT.concatenate hσ4 (.cons (exprs_stable h4 he) .nil)

end Lawful

end TypedTree.Tandem
