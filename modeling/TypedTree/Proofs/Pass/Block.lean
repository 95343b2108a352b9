import TypedTree.Proofs.Pass.Types

namespace TypedTree.Tandem

open Lower

variable {Stage : Type} [Preorder Stage] (T : Tandem Stage)

abbrev scopes (g : Region) (w : Stage) : Scope → Scope → Prop := Scope.Alike (T.ids w) g

abbrev statements (g : Region) (w : Stage) : List Statement → List Statement → Prop :=
  List.Forall₂ (Statement.Alike (T.ids w) g)

/-- How nodes inside of others are lowered: to what stays within the region of the scope. -/
structure Descends (d : Descent) : Prop where
  expr {w g s1 s2 id} : T.scopes g w s1 s2 → T.Finds id →
    T.SameIn w s1 s2 (d.expr · id) (T.exprs g)
  decl {w g s1 s2 id} : T.scopes g w s1 s2 → T.Finds id →
    T.SameIn w s1 s2 (d.decl · id) (T.decls g)

/-- Variables that hold values that stand for each other. -/
structure temporaries (g : Region) (w : Stage) (a b : Temporary) : Prop where
  decl : T.decls g w a.decl b.decl
  symbol : T.symbols w a.symbol b.symbol
  type : T.types w a.type b.type

variable {T} {w w' : Stage} {g : Region}

theorem scopes_later (h : w ≤ w') (hs : T.scopes g w s1 s2) : T.scopes g w' s1 s2 :=
  hs.mono (T.ids_mono h) (List.Subset.refl g)

theorem part_later (h : w ≤ w') (hab : (T.ids w).part g a b) : (T.ids w').part g a b :=
  (T.ids_mono h).part (List.Subset.refl g) hab

theorem statements_later (h : w ≤ w') (hxy : T.statements g w xs ys) : T.statements g w' xs ys :=
  hxy.imp fun _ _ => Statement.Alike.mono (T.ids_mono h) (List.Subset.refl g)

theorem statements_stable : Stable (T.statements g) := fun _ _ _ _ h hab => statements_later h hab

theorem temporaries_stable : Stable (T.temporaries g) := fun _ _ _ _ h hab =>
  ⟨decls_stable h hab.decl, symbols_stable h hab.symbol,
    types_stable h hab.type⟩

theorem temporaries.statement (h : T.temporaries g w a b) :
    Statement.Alike (T.ids w) g a.statement b.statement :=
  .declaration h.decl

theorem access_plain (h : T.symbols w a b) : Access.Alike (T.ids w) g (.plain a) (.plain b) :=
  ⟨h, .none, .none, .nil⟩

theorem getLast?_rel {α β : Type} {R : α → β → Prop} {xs : List α} {ys : List β}
    (h : List.Forall₂ R xs ys) : Option.Rel R xs.getLast? ys.getLast? := by
  rw [← List.head?_reverse, ← List.head?_reverse]
  have hr := List.forall₂_reverse_iff.2 h
  generalize xs.reverse = xs', ys.reverse = ys' at hr ⊢
  cases hr with
  | nil => exact .none
  | cons hab _ => exact .some hab

namespace Lawful

variable (hT : T.Lawful) {d : Descent} (hd : T.Descends d) {s1 s2 : Scope}
  (hs : T.scopes g w s1 s2)

include hT

theorem splice (he : (T.ids w).part g e1 e2) :
    T.Does w (splice e1) (splice e2) (T.statements g) := by
  refine hT.content_bind he fun x1 x2 hx => ?_
  obtain ⟨t1, as1, k1⟩ := x1
  obtain ⟨t2, as2, k2⟩ := x2
  have hsingle : T.statements g w [.expression e1] [.expression e2] := .cons (.expression he) .nil
  cases hx.annotations with
  | cons _ _ => exact Does.pure hsingle
  | nil =>
    cases hx.kind with
    | block hs => exact Does.pure hs
    | _ => exact Does.pure hsingle

theorem blockType (hss : T.statements g w ss1 ss2) :
    T.Does w (blockType ss1) (blockType ss2) T.types := by
  unfold Lower.blockType
  have hlast := getLast?_rel hss
  generalize ss1.getLast? = last1, ss2.getLast? = last2 at hlast ⊢
  cases hlast with
  | none => exact hT.unitType
  | some hab =>
    cases hab with
    | declaration _ => exact hT.unitType
    | expression he => exact hT.exprType he

theorem block (hss : T.statements g w ss1 ss2) : T.Does w (block ss1) (block ss2) (T.exprs g) :=
  Does.bind (hT.blockType hss) fun _ _ _ hle ht =>
    hT.addExpr ht (.block (statements_later hle hss)) rfl

theorem hold (he : (T.ids w).part g e1 e2) :
    T.Does w (Temporary.hold name e1) (Temporary.hold name e2) (T.temporaries g) := by
  refine Does.bind hT.freshLocal fun w1 _ _ h1 hsymbol => ?_
  refine Does.bind (hT.exprType (part_later h1 he)) fun w2 _ _ h2 htype => ?_
  have hsymbol' := symbols_stable h2 hsymbol
  have hvalue : Option.Rel ((T.ids w2).part g) (some e1) (some e2) :=
    .some (part_later (h1.trans h2) he)
  refine Does.bind (hT.declare hsymbol' .nil
    (.property htype .none .none .nil hvalue .none .none .none)) fun w3 _ _ h3 hdecl => ?_
  exact Does.pure
    ⟨hdecl, symbols_stable h3 hsymbol', types_stable h3 htype⟩

theorem readTemporary (h : T.temporaries g w a b) : T.Does w a.read b.read (T.exprs k) :=
  hT.addExpr h.type (.read (access_plain h.symbol)) rfl

include hd hs

theorem lowerOptional {node : Option NodeId} (hn : ∀ n ∈ node, T.Finds n) {what : String} :
    T.SameIn w s1 s2 (lowerOptional d · node what) (T.exprs g) := by
  cases node with
  | none => exact hT.malformed
  | some n => exact hd.expr hs (hn n rfl)

theorem lowerStatements {nodes : List NodeId} (hn : ∀ n ∈ nodes, T.Finds n) :
    T.SameIn w s1 s2 (lowerStatements d · nodes) (T.statements g) := by
  refine Does.bind (Does.mapM_same statements_stable fun n hmem w' hle => ?_)
    fun _ _ _ _ hlists => Does.pure (List.rel_flatten hlists)
  exact Does.bind (hd.expr (scopes_later hle hs) (hn n hmem)) fun _ _ _ _ he =>
    hT.splice (.inl he)

theorem lowerBlock {id : NodeId} {nodes : List NodeId} (hn : ∀ n ∈ nodes, T.Finds n) :
    T.SameIn w s1 s2 (lowerBlock d · id nodes) (T.exprs g) := by
  refine Does.bind (hT.lowerStatements hd hs hn) fun w1 ss1 ss2 _ hss => ?_
  refine facts_bind fun hf => ?_
  cases htype : (T.world.factsOf id).type with
  | none => exact hT.block hss
  | some type =>
    have hfound : T.world.Finds (.type type) :=
      hf _ (by simp [NodeFacts.refs, htype, Reference.type?, Reference.types])
    exact Does.bind (hT.convert hfound) fun _ _ _ hle ht =>
      hT.addExpr ht (.block (statements_later hle hss)) rfl

theorem lowerBody {body : Option NodeId} (hb : ∀ n ∈ body, T.Finds n) :
    T.SameIn w s1 s2 (lowerBody d · body) (T.exprs g) := by
  cases body with
  | none => exact hT.block .nil
  | some body =>
    refine hT.node_bind (hb body rfl) fun n _ hkn => ?_
    split
    next nodes hkind =>
      rw [hkind] at hkn
      exact hT.lowerBlock hd hs fun m hm => hkn _ (List.mem_map_of_mem hm)
    next =>
      refine Does.bind (hd.expr hs (hb body rfl)) fun w1 e1 e2 _ he => ?_
      exact Does.bind (hT.splice (.inl he)) fun _ _ _ _ hss => hT.block hss

omit hd

end Lawful

end TypedTree.Tandem
