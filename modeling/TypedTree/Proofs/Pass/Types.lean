import TypedTree.Proofs.Pass.Reading

namespace TypedTree.Tandem

open Lower

variable {Stage : Type} [Preorder Stage] (T : Tandem Stage)

abbrev types (w : Stage) : TreeType → TreeType → Prop := TreeType.Alike (T.ids w)

abbrev symbols (w : Stage) : SymbolId → SymbolId → Prop := (T.ids w).symbol

abbrev notes (w : Stage) : ExprId → ExprId → Prop := (T.ids w).note

abbrev exprs (g : Region) (w : Stage) : ExprId → ExprId → Prop := (T.ids w).expr g

abbrev decls (g : Region) (w : Stage) : DeclId → DeclId → Prop := (T.ids w).decl g

variable {T}

theorem types_stable : Stable T.types := fun _ _ _ _ h hab => hab.mono (T.ids_mono h)

theorem symbols_stable : Stable T.symbols := fun _ _ _ _ h hab => (T.ids_mono h).symbol hab

theorem exprs_stable : Stable (T.exprs g) := fun _ _ _ _ h hab => (T.ids_mono h).expr hab

theorem decls_stable : Stable (T.decls g) := fun _ _ _ _ h hab => (T.ids_mono h).decl hab

theorem options_stable {α β : Type} {R : Stage → α → β → Prop} (hR : Stable R) :
    Stable fun w => Option.Rel (R w) :=
  fun _ _ _ _ h hab => Option.rel_imp (fun _ _ => hR h) hab

theorem lists_stable {α β : Type} {R : Stage → α → β → Prop} (hR : Stable R) :
    Stable fun w => List.Forall₂ (R w) :=
  fun _ _ _ _ h hab => List.Forall₂.imp (fun _ _ => hR h) hab

namespace Lawful

variable (hT : T.Lawful) {w : Stage} {g : Region}

include hT

theorem convertAll {ids : List TypeId} (h : ∀ id ∈ ids, T.world.Finds (.type id)) :
    T.Same w (convertAll ids) fun w' => List.Forall₂ (T.types w') :=
  Does.mapM_same types_stable fun id hid _ _ => hT.convert (h id hid)

theorem convertOptional {id : Option TypeId} (h : ∀ t ∈ id, T.world.Finds (.type t)) :
    T.Same w (convertOptional id) fun w' => Option.Rel (T.types w') :=
  Does.optionMapM fun t ht => hT.convert (h t ht)

theorem convertBuiltin {id : TypeId} (h : id.index < Builtin.types.size) :
    T.Same w (Lower.convert id) T.types :=
  hT.convert (T.world.finds_builtin_type h)

theorem unitType : T.Same w unitType T.types := hT.convertBuiltin (by decide)

theorem booleanType : T.Same w booleanType T.types := hT.convertBuiltin (by decide)

theorem nothingType : T.Same w nothingType T.types := hT.convertBuiltin (by decide)

theorem expressionType {id : NodeId} : T.Same w (expressionType id) T.types := by
  refine facts_bind fun hf => ?_
  cases htype : (T.world.factsOf id).type with
  | none => exact hT.unitType
  | some type =>
    exact hT.convert (hf _ (by simp [NodeFacts.refs, htype, Reference.type?, Reference.types]))

theorem writtenType {id : NodeId} (hid : T.Finds id) : T.Same w (writtenType id) T.types := by
  simp only [Lower.writtenType]
  refine facts_bind fun hf => hT.required_bind hid fun type htype => hT.convert (hf _ ?_)
  simp [NodeFacts.refs, htype, Reference.type?, Reference.types]

theorem exprType (he : (T.ids w).part g e1 e2) : T.Does w (exprType e1) (exprType e2) T.types :=
  hT.content_bind he fun _ _ hx => Does.pure hx.type

theorem declaredType (hd : (T.ids w).decl g d1 d2) :
    T.Does w (declaredType d1) (declaredType d2) fun w' => Option.Rel (T.types w') := by
  refine hT.decl_bind hd fun x1 x2 _ hx => Does.pure ?_
  obtain ⟨s1, o1, as1, k1⟩ := x1
  obtain ⟨s2, o2, as2, k2⟩ := x2
  cases hx.kind with
  | property ht => exact .some ht
  | valueParameter ht => exact .some ht
  | _ => exact .none

theorem unitValue : T.Same w unitValue (T.exprs g) :=
  Does.bind hT.unitType fun _ _ _ _ ht => hT.addExpr ht .unit rfl

theorem malformed : T.Same w (malformed kind message) (T.exprs g) :=
  Does.bind hT.nothingType fun _ _ _ _ ht => hT.addExpr ht .malformed rfl

theorem annotationEntries {ids : List NodeId} (h : ∀ id ∈ ids, T.Finds id) :
    T.Same w (annotationEntries ids) fun w' => List.Forall₂ (T.notes w') := by
  have hnotes : Stable fun w => Option.Rel (T.notes w) :=
    options_stable fun _ _ _ _ hle hab => (T.ids_mono hle).note hab
  refine Does.bind (Does.mapM_same hnotes fun id hid w' _ => ?_) fun _ _ _ _ hcalls =>
    Does.pure (List.rel_filterMap (fun _ _ hab => hab) hcalls)
  refine facts_bind fun hf => hT.required_bind (h id hid) fun use huse => hT.annotationCall ?_
  intro r hr
  exact hf r (by simp [NodeFacts.refs, huse, hr])

end Lawful

end TypedTree.Tandem
