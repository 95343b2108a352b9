import TypedTree.Proofs.Lawful
import TypedTree.Proofs.Ledger.Extend

namespace TypedTree

/-- Nodes of two trees that stand for each other because they were made by the same step. The
region of a node is that of the code in it. -/
structure Links where
  symbol : SymbolId → SymbolId → Prop
  expr : ExprId → ExprId → Region → Prop
  decl : DeclId → DeclId → Region → Prop
  holder : Holder → Holder → Prop

structure Links.Le (l l' : Links) : Prop where
  symbol : ∀ {a b}, l.symbol a b → l'.symbol a b
  expr : ∀ {a b g}, l.expr a b g → l'.expr a b g
  decl : ∀ {a b g}, l.decl a b g → l'.decl a b g
  holder : ∀ {a b}, l.holder a b → l'.holder a b

/-- What stands for what in two trees: what is linked, and what shows the same. -/
def Links.ids (l : Links) (σ : Setting) (n n' : Entries) : Correspondence where
  symbol a b := (Entries.shown σ n n').symbol a b ∨ l.symbol a b
  note := (Entries.shown σ n n').note
  expr g a b := ∃ g', l.expr a b g' ∧ g' ⊆ g
  decl g a b := ∃ g', l.decl a b g' ∧ g' ⊆ g
  holder := l.holder
  expr_weaken hg := fun ⟨g, h, h'⟩ => ⟨g, h, List.Subset.trans h' hg⟩
  decl_weaken hg := fun ⟨g, h, h'⟩ => ⟨g, h, List.Subset.trans h' hg⟩

namespace Links

variable {σ : Setting} {n n' m m' : Entries} {l l' l'' : Links}

theorem Le.refl (l : Links) : l.Le l := ⟨id, id, id, id⟩

theorem Le.trans (h : l.Le l') (h' : l'.Le l'') : l.Le l'' where
  symbol ha := h'.symbol (h.symbol ha)
  expr ha := h'.expr (h.expr ha)
  decl ha := h'.decl (h.decl ha)
  holder ha := h'.holder (h.holder ha)

theorem shown_mono (h : n.Le m) (h' : n'.Le m') :
    (Entries.shown σ n n').Le (Entries.shown σ m m') where
  symbol := fun ⟨kind, desc, ha, hb⟩ => ⟨kind, desc, h.cached ha, h'.cached hb⟩
  note := fun ⟨x, c, c', hx, hs, hx', hs'⟩ =>
    ⟨x, c, c', hx.mono h, hs.mono h, hx'.mono h', hs'.mono h'⟩
  expr := id
  decl := id
  holder := id

theorem shown_le (l : Links) (n n' : Entries) : (Entries.shown σ n n').Le (l.ids σ n n') where
  symbol := .inl
  note := id
  expr := False.elim
  decl := False.elim
  holder := False.elim

theorem ids_mono (hl : l.Le l') (h : n.Le m) (h' : n'.Le m') :
    (l.ids σ n n').Le (l'.ids σ m m') where
  symbol := Or.imp (shown_mono h h').symbol hl.symbol
  note := (shown_mono h h').note
  expr := fun ⟨g, hg, hs⟩ => ⟨g, hl.expr hg, hs⟩
  decl := fun ⟨g, hg, hs⟩ => ⟨g, hl.decl hg, hs⟩
  holder := hl.holder

end Links

/-- Holders that show the same. -/
def Store.Match (s s' : Store) : Holder → Holder → Prop
  | .function t, .function t' => ∃ x x', s.functionTarget? t = some x ∧
      s'.functionTarget? t' = some x' ∧ x.label = x'.label ∧ x.isLambda = x'.isLambda
  | .loop t, .loop t' => ∃ x x', s.loopTarget? t = some x ∧ s'.loopTarget? t' = some x' ∧
      x.label = x'.label
  | .choice r, .choice r' => (s.whenRef? r).isSome ∧ (s'.whenRef? r').isSome
  | _, _ => False

theorem Store.Match.mono {s s' u : Store} (h : s.TargetsLe u) (h' : s'.TargetsLe u') {a b : Holder}
    (hm : s.Match s' a b) : u.Match u' a b := by
  cases a with
  | function t =>
    cases b with
    | function t' =>
      obtain ⟨x, x', hx, hx', hl, hi⟩ := hm
      obtain ⟨y, hy, hxy⟩ := h.function hx
      obtain ⟨y', hy', hxy'⟩ := h'.function hx'
      exact ⟨y, y', hy, hy', by rw [hxy.label, hxy'.label, hl],
        by rw [hxy.isLambda, hxy'.isLambda, hi]⟩
    | _ => exact hm.elim
  | loop t =>
    cases b with
    | loop t' =>
      obtain ⟨x, x', hx, hx', hl⟩ := hm
      obtain ⟨y, hy, hxy⟩ := h.loop hx
      obtain ⟨y', hy', hxy'⟩ := h'.loop hx'
      exact ⟨y, y', hy, hy', by rw [hxy.label, hxy'.label, hl]⟩
    | _ => exact hm.elim
  | choice r =>
    cases b with
    | choice r' =>
      have hhas : u.Has (.choice r) := h.has hm.1
      have hhas' : u'.Has (.choice r') := h'.has hm.2
      exact ⟨hhas, hhas'⟩
    | _ => exact hm.elim

theorem Store.Match.has {s s' : Store} (hm : s.Match s' a b) : s.Has a ∧ s'.Has b := by
  cases a with
  | function t =>
    cases b with
    | function t' =>
      obtain ⟨x, x', hx, hx', _⟩ := hm
      exact ⟨Option.isSome_of_mem hx, Option.isSome_of_mem hx'⟩
    | _ => exact hm.elim
  | loop t =>
    cases b with
    | loop t' =>
      obtain ⟨x, x', hx, hx', _⟩ := hm
      exact ⟨Option.isSome_of_mem hx, Option.isSome_of_mem hx'⟩
    | _ => exact hm.elim
  | choice r =>
    cases b with
    | choice r' => exact hm
    | _ => exact hm.elim

/-- Linked nodes are there, are new since the two trees were `b` and `b'`, and are alike. -/
structure Links.Nodes (l : Links) (σ : Setting) (b b' n n' : Entries) : Prop where
  expr : ∀ {e e' g}, l.expr e e' g → ∃ x x', n.expr? e = some x ∧ n'.expr? e' = some x' ∧
    Expr.Alike (l.ids σ n n') g x x'
  tint : ∀ {e e' g}, l.expr e e' g → n.tint? e = some (.code (g.map (·.1))) ∧
    n'.tint? e' = some (.code (g.map (·.2)))
  expr_new : ∀ {e e' g}, l.expr e e' g → b.expr? e = none ∧ b'.expr? e' = none
  expr_unique : ∀ {a a' c c' g g'}, l.expr a a' g → l.expr c c' g' → (a = c ↔ a' = c')
  decl : ∀ {d d' g}, l.decl d d' g → ∃ x x' g', n.decl? d = some x ∧ n'.decl? d' = some x' ∧
    Decl.Alike (l.ids σ n n') g' x x'
  mark : ∀ {d d' g}, l.decl d d' g → (∃ t, n.mark? d = some ⟨g.map (·.1), t⟩) ∧
    ∃ t, n'.mark? d' = some ⟨g.map (·.2), t⟩
  holder : ∀ {h h'}, l.holder h h' → n.state.store.Match n'.state.store h h'
  holder_unique : ∀ {a a' c c'}, l.holder a a' → l.holder c c' → (a = c ↔ a' = c')
  symbol : ∀ {a a'}, l.symbol a a' → (n.symbol? a).isSome ∧ (n'.symbol? a').isSome
  old : ∀ {e x}, b.expr? e = some x → n.expr? e = some x
  old' : ∀ {e x}, b'.expr? e = some x → n'.expr? e = some x

/-- Later entries in which all expressions are as they were. -/
structure Entries.Keeps (n m : Entries) : Prop where
  le : n.Le m
  expr : ∀ {id x}, n.expr? id = some x → m.expr? id = some x

namespace Links

variable {σ : Setting} {b b' n n' m m' : Entries} {l : Links}

theorem Nodes.mono (h : l.Nodes σ b b' n n') (hk : n.Keeps m) (hk' : n'.Keeps m') :
    l.Nodes σ b b' m m' where
  expr hl := by
    obtain ⟨x, x', hx, hx', hxx⟩ := h.expr hl
    exact ⟨x, x', hk.expr hx, hk'.expr hx',
      hxx.mono (ids_mono (.refl l) hk.le hk'.le) (List.Subset.refl _)⟩
  tint hl := ⟨hk.le.tint (h.tint hl).1, hk'.le.tint (h.tint hl).2⟩
  expr_new := h.expr_new
  expr_unique := h.expr_unique
  decl hl := by
    obtain ⟨x, x', g', hx, hx', hxx⟩ := h.decl hl
    exact ⟨x, x', g', hk.le.decl hx, hk'.le.decl hx',
      hxx.mono (ids_mono (.refl l) hk.le hk'.le) (List.Subset.refl _)⟩
  mark hl := by
    obtain ⟨⟨t, ht⟩, t', ht'⟩ := h.mark hl
    exact ⟨⟨t, hk.le.mark ht⟩, t', hk'.le.mark ht'⟩
  holder hl := (h.holder hl).mono hk.le.targets hk'.le.targets
  holder_unique := h.holder_unique
  symbol hl := ⟨hk.le.hasSymbol (h.symbol hl).1, hk'.le.hasSymbol (h.symbol hl).2⟩
  old hx := hk.expr (h.old hx)
  old' hx := hk'.expr (h.old' hx)

def addExpr (l : Links) (e e' : ExprId) (g : Region) : Links :=
  { l with expr := fun a a' h => l.expr a a' h ∨ a = e ∧ a' = e' ∧ h = g }

def addDecl (l : Links) (d d' : DeclId) (g : Region) : Links :=
  { l with decl := fun a a' h => l.decl a a' h ∨ a = d ∧ a' = d' ∧ h = g }

def addHolder (l : Links) (h h' : Holder) : Links :=
  { l with holder := fun a a' => l.holder a a' ∨ a = h ∧ a' = h' }

def addSymbol (l : Links) (s s' : SymbolId) : Links :=
  { l with symbol := fun a a' => l.symbol a a' ∨ a = s ∧ a' = s' }

theorem le_addExpr (l : Links) (e e' : ExprId) (g : Region) : l.Le (l.addExpr e e' g) :=
  ⟨id, .inl, id, id⟩

theorem le_addDecl (l : Links) (d d' : DeclId) (g : Region) : l.Le (l.addDecl d d' g) :=
  ⟨id, id, .inl, id⟩

theorem le_addHolder (l : Links) (h h' : Holder) : l.Le (l.addHolder h h') := ⟨id, id, id, .inl⟩

theorem le_addSymbol (l : Links) (s s' : SymbolId) : l.Le (l.addSymbol s s') :=
  ⟨.inl, id, id, id⟩

theorem Nodes.addExpr (h : l.Nodes σ b b' n n') (hk : n.Keeps m) (hk' : n'.Keeps m')
    {e e' : ExprId} {g : Region} {x x' : Expr} (hnew : n.expr? e = none)
    (hnew' : n'.expr? e' = none) (hx : m.expr? e = some x) (hx' : m'.expr? e' = some x')
    (ht : m.tint? e = some (.code (g.map (·.1)))) (ht' : m'.tint? e' = some (.code (g.map (·.2))))
    (hxx : Expr.Alike (l.ids σ m m') g x x') : (l.addExpr e e' g).Nodes σ b b' m m' := by
  have hne : ∀ {a a' g'}, l.expr a a' g' → a ≠ e ∧ a' ≠ e' := by
    intro a a' g' hl
    obtain ⟨y, y', hy, hy', _⟩ := h.expr hl
    constructor
    · rintro rfl
      cases hnew.symm.trans hy
    · rintro rfl
      cases hnew'.symm.trans hy'
  have hm := h.mono hk hk'
  have hmono : (l.ids σ m m').Le ((l.addExpr e e' g).ids σ m m') :=
    ids_mono (l.le_addExpr e e' g) (.refl m) (.refl m')
  exact { hm with
    expr := fun hl => by
      rcases hl with hl | ⟨rfl, rfl, rfl⟩
      · obtain ⟨y, y', hy, hy', hyy⟩ := hm.expr hl
        exact ⟨y, y', hy, hy', hyy.mono hmono (List.Subset.refl _)⟩
      · exact ⟨x, x', hx, hx', hxx.mono hmono (List.Subset.refl _)⟩
    tint := fun hl => by
      rcases hl with hl | ⟨rfl, rfl, rfl⟩
      · exact hm.tint hl
      · exact ⟨ht, ht'⟩
    expr_new := fun hl => by
      rcases hl with hl | ⟨rfl, rfl, rfl⟩
      · exact hm.expr_new hl
      · constructor
        · exact Option.eq_none_iff_forall_ne_some.2 fun y hy => by cases hnew.symm.trans (h.old hy)
        · refine Option.eq_none_iff_forall_ne_some.2 fun y hy => ?_
          cases hnew'.symm.trans (h.old' hy)
    expr_unique := fun hl hl' => by
      rcases hl with hl | ⟨rfl, rfl, rfl⟩ <;> rcases hl' with hl' | ⟨rfl, rfl, rfl⟩
      · exact hm.expr_unique hl hl'
      · simp [hne hl]
      · simp [(hne hl').1.symm, (hne hl').2.symm]
      · simp
    decl := fun hl => by
      obtain ⟨y, y', g', hy, hy', hyy⟩ := hm.decl hl
      exact ⟨y, y', g', hy, hy', hyy.mono hmono (List.Subset.refl _)⟩ }

theorem Nodes.addDecl (h : l.Nodes σ b b' m m') {d d' : DeclId} {g g' : Region} {x x' : Decl}
    {t t' : Option FunctionTargetId} (hx : m.decl? d = some x) (hx' : m'.decl? d' = some x')
    (ht : m.mark? d = some ⟨g.map (·.1), t⟩) (ht' : m'.mark? d' = some ⟨g.map (·.2), t'⟩)
    (hxx : Decl.Alike (l.ids σ m m') g' x x') : (l.addDecl d d' g).Nodes σ b b' m m' := by
  have hmono : (l.ids σ m m').Le ((l.addDecl d d' g).ids σ m m') :=
    ids_mono (l.le_addDecl d d' g) (.refl m) (.refl m')
  exact { h with
    expr := fun hl => by
      obtain ⟨y, y', hy, hy', hyy⟩ := h.expr hl
      exact ⟨y, y', hy, hy', hyy.mono hmono (List.Subset.refl _)⟩
    decl := fun hl => by
      rcases hl with hl | ⟨rfl, rfl, rfl⟩
      · obtain ⟨y, y', g', hy, hy', hyy⟩ := h.decl hl
        exact ⟨y, y', g', hy, hy', hyy.mono hmono (List.Subset.refl _)⟩
      · exact ⟨x, x', g', hx, hx', hxx.mono hmono (List.Subset.refl _)⟩
    mark := fun hl => by
      rcases hl with hl | ⟨rfl, rfl, rfl⟩
      · exact h.mark hl
      · exact ⟨⟨t, ht⟩, t', ht'⟩ }

theorem Nodes.addHolder (h : l.Nodes σ b b' n n') (hk : n.Keeps m) (hk' : n'.Keeps m')
    {a a' : Holder} (hnew : ¬ n.Has a) (hnew' : ¬ n'.Has a')
    (hmatch : m.state.store.Match m'.state.store a a') : (l.addHolder a a').Nodes σ b b' m m' := by
  have hne : ∀ {c c'}, l.holder c c' → c ≠ a ∧ c' ≠ a' := by
    intro c c' hl
    have hc := (h.holder hl).has
    exact ⟨fun he => hnew (he ▸ hc.1), fun he => hnew' (he ▸ hc.2)⟩
  have hm := h.mono hk hk'
  have hmono : (l.ids σ m m').Le ((l.addHolder a a').ids σ m m') :=
    ids_mono (l.le_addHolder a a') (.refl m) (.refl m')
  exact { hm with
    expr := fun hl => by
      obtain ⟨y, y', hy, hy', hyy⟩ := hm.expr hl
      exact ⟨y, y', hy, hy', hyy.mono hmono (List.Subset.refl _)⟩
    decl := fun hl => by
      obtain ⟨y, y', g', hy, hy', hyy⟩ := hm.decl hl
      exact ⟨y, y', g', hy, hy', hyy.mono hmono (List.Subset.refl _)⟩
    holder := fun hl => by
      rcases hl with hl | ⟨rfl, rfl⟩
      · exact hm.holder hl
      · exact hmatch
    holder_unique := fun hl hl' => by
      rcases hl with hl | ⟨rfl, rfl⟩ <;> rcases hl' with hl' | ⟨rfl, rfl⟩
      · exact hm.holder_unique hl hl'
      · simp [hne hl]
      · simp [(hne hl').1.symm, (hne hl').2.symm]
      · simp }

theorem Nodes.addSymbol (h : l.Nodes σ b b' m m') {s s' : SymbolId} (hs : (m.symbol? s).isSome)
    (hs' : (m'.symbol? s').isSome) : (l.addSymbol s s').Nodes σ b b' m m' := by
  have hmono : (l.ids σ m m').Le ((l.addSymbol s s').ids σ m m') :=
    ids_mono (l.le_addSymbol s s') (.refl m) (.refl m')
  exact { h with
    expr := fun hl => by
      obtain ⟨y, y', hy, hy', hyy⟩ := h.expr hl
      exact ⟨y, y', hy, hy', hyy.mono hmono (List.Subset.refl _)⟩
    decl := fun hl => by
      obtain ⟨y, y', g', hy, hy', hyy⟩ := h.decl hl
      exact ⟨y, y', g', hy, hy', hyy.mono hmono (List.Subset.refl _)⟩
    symbol := fun hl => by
      rcases hl with hl | ⟨rfl, rfl⟩
      · exact h.symbol hl
      · exact ⟨hs, hs'⟩ }

theorem expr?_annotate (n : Entries) (id e : ExprId) (calls : List ExprId) :
    (n.annotate id calls).expr? e = if e = id
      then (n.expr? e).map fun x => { x with annotations := x.annotations ++ calls }
      else n.expr? e :=
  n.state.store.expr?_annotateExpr id e calls

theorem Nodes.annotate (h : l.Nodes σ b b' n n') {e e' : ExprId} {g : Region}
    (hl : l.expr e e' g) {xs xs' : List ExprId} (hxs : List.Forall₂ (l.ids σ n n').note xs xs') :
    l.Nodes σ b b' (n.annotate e xs) (n'.annotate e' xs') := by
  obtain ⟨x, x', hx, hx', _⟩ := h.expr hl
  have hle := Entries.le_annotate (h.tint hl).1 hx xs
  have hle' := Entries.le_annotate (h.tint hl).2 hx' xs'
  have hmono := ids_mono (σ := σ) (Le.refl l) hle hle'
  exact {
    expr := fun {a a' g'} ha => by
      obtain ⟨y, y', hy, hy', hyy⟩ := h.expr ha
      have hyy' := hyy.mono hmono (List.Subset.refl _)
      have hiff := h.expr_unique ha hl
      by_cases hae : a = e
      · refine ⟨{ y with annotations := y.annotations ++ xs },
          { y' with annotations := y'.annotations ++ xs' }, ?_, ?_, hyy'.type, ?_, hyy'.kind⟩
        · rw [expr?_annotate, if_pos hae, hy, Option.map_some]
        · rw [expr?_annotate, if_pos (hiff.1 hae), hy', Option.map_some]
        · exact List.rel_append hyy'.annotations (hxs.imp fun _ _ => hmono.note)
      · refine ⟨y, y', ?_, ?_, hyy'⟩
        · rwa [expr?_annotate, if_neg hae]
        · rwa [expr?_annotate, if_neg fun he => hae (hiff.2 he)]
    tint := h.tint
    expr_new := h.expr_new
    expr_unique := h.expr_unique
    decl := fun ha => by
      obtain ⟨y, y', g', hy, hy', hyy⟩ := h.decl ha
      exact ⟨y, y', g', hy, hy', hyy.mono hmono (List.Subset.refl _)⟩
    mark := h.mark
    holder := fun ha => (h.holder ha).mono hle.targets hle'.targets
    holder_unique := h.holder_unique
    symbol := h.symbol
    old := fun {a y} ha => by
      have hne : a ≠ e := fun he => by cases (h.expr_new hl).1.symm.trans (he ▸ ha)
      rw [expr?_annotate, if_neg hne]
      exact h.old ha
    old' := fun {a y} ha => by
      have hne : a ≠ e' := fun he => by cases (h.expr_new hl).2.symm.trans (he ▸ ha)
      rw [expr?_annotate, if_neg hne]
      exact h.old' ha }

theorem Nodes.fits (h : l.Nodes σ b b' n n') (hs : n.Sound σ strict) (hs' : n'.Sound σ strict)
    {g : Region} {m m' : Mention} (hm : Mention.Alike (l.ids σ n n') g m m')
    (part part' : TreePart) :
    ((∃ h, m = .holds h) ∨ n.Fits (g.map (·.1)) part m) ∧
      ((∃ h, m' = .holds h) ∨ n'.Fits (g.map (·.2)) part' m') := by
  cases hm with
  | @expr inside a a' ha hi =>
    refine ⟨.inr ?_, .inr ?_⟩
    all_goals
      simp only [Entries.Fits, ← List.map_append]
      rcases ha with ⟨g', ha, hg⟩ | ⟨_, _, _, _, ha, _, ha'⟩
    · exact .inr ⟨_, (h.tint ha).1, List.map_subset _ hg⟩
    · exact .inl ha.1
    · exact .inr ⟨_, (h.tint ha).2, List.map_subset _ hg⟩
    · exact .inl ha'.1
  | decl ha =>
    obtain ⟨g', ha, hg⟩ := ha
    obtain ⟨⟨t, ht⟩, t', ht'⟩ := h.mark ha
    exact ⟨.inr ⟨_, ht, List.map_subset _ hg⟩, .inr ⟨_, ht', List.map_subset _ hg⟩⟩
  | note ha =>
    obtain ⟨_, _, _, _, ha, _, ha'⟩ := ha
    exact ⟨.inr ha.1, .inr ha'.1⟩
  | aside ha =>
    rcases ha with ⟨g', ha, hg⟩ | ⟨_, _, _, _, ha, _, ha'⟩
    · exact ⟨.inr (Option.isSome_of_mem (h.tint ha).1), .inr (Option.isSome_of_mem (h.tint ha).2)⟩
    · exact ⟨.inr (Option.isSome_of_mem ha.1), .inr (Option.isSome_of_mem ha'.1)⟩
  | symbol ha =>
    rcases ha with ⟨kind, desc, ha, ha'⟩ | ha
    · obtain ⟨_, _, hx, _⟩ := hs.table.cached ha
      obtain ⟨_, _, hx', _⟩ := hs'.table.cached ha'
      exact ⟨.inr (Option.isSome_of_mem hx), .inr (Option.isSome_of_mem hx')⟩
    · exact ⟨.inr (h.symbol ha).1, .inr (h.symbol ha).2⟩
  | holds ha => exact ⟨.inl ⟨_, rfl⟩, .inl ⟨_, rfl⟩⟩
  | uses ha hmem =>
    have hhas := (h.holder ha).has
    exact ⟨.inr ⟨hhas.1, List.mem_map_of_mem hmem⟩, .inr ⟨hhas.2, List.mem_map_of_mem hmem⟩⟩

end Links

end TypedTree
