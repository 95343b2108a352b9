import TypedTree.Proofs.Ledger.Holders
import TypedTree.Proofs.Pairing.Stage

namespace TypedTree

section holders

/-- What an expression stands for as the owner of a holder. -/
def ExprKind.holder? : ExprKind → Option Holder
  | .whileLoop target _ _ | .doWhile target _ _ => some (.loop target)
  | .choice (some whenRef) _ _ _ => some (.choice whenRef)
  | _ => none

theorem ExprKind.isPlain_iff (k : ExprKind) : k.isPlain ↔ k.holder? = none := by
  unfold isPlain holder?
  split <;> simp

open Mention

theorem TreeType.holds_notMem (h : Holder) (type : TreeType) : .holds h ∉ type.mentions :=
  isOfType_of_mem type

theorem holds_notMem_types (h : Holder) (list : List TreeType) : .holds h ∉ types list :=
  isOfType_of_mem_types

theorem Access.holds_notMem (h : Holder) (a : Access) : .holds h ∉ a.mentions := by
  simp [Access.mentions, expr?, exprs, holds_notMem_types h]

theorem ExprKind.holds_mem (h : Holder) (k : ExprKind) :
    .holds h ∈ k.mentions ↔ k.holder? = some h := by
  cases k with
  | block statements =>
    simp only [mentions, holder?, List.mem_map, reduceCtorEq, iff_false]
    rintro ⟨s, _, hs⟩
    cases s <;> cases hs
  | choice whenRef _ _ _ =>
    cases whenRef <;>
      simp [mentions, holder?, expr?, exprs, decl?, decls, WhenBranch.mentions, eq_comm]
  | tryCatch _ _ _ => simp [mentions, holder?, expr?, exprs]
  | _ =>
    simp [mentions, holder?, exprs, expr?, type?, Access.holds_notMem h, TreeType.holds_notMem h,
      holds_notMem_types h, eq_comm]

theorem Expr.holds_mem (h : Holder) (x : Expr) :
    .holds h ∈ x.mentions ↔ x.kind.holder? = some h := by
  simp [Expr.mentions, TreeType.holds_notMem h, Mention.annotations, ExprKind.holds_mem]

theorem Decl.holds_notMem (h : Holder) (x : Decl) : .holds h ∉ x.mentions := by
  obtain ⟨symbol, origin, calls, kind⟩ := x
  cases kind <;>
    simp [Decl.mentions, DeclKind.mentions, Mention.annotations, decls, decl?, exprs, expr?,
      symbols, type?, TreeType.holds_notMem h, holds_notMem_types h]

theorem ExprKind.Alike.holder (h : ExprKind.Alike C g a b) :
    Option.Rel C.holder a.holder? b.holder? := by
  cases h with
  | choice hr _ _ _ => exact .some hr
  | whileLoop ht _ _ => exact .some ht
  | doWhile ht _ _ => exact .some ht
  | _ => exact .none

end holders

theorem DeclKind.Alike.isCallable (h : DeclKind.Alike C g k k') :
    k'.isCallable = k.isCallable := by
  cases h <;> rfl

theorem Entries.Keeps.trans {n m : Entries} (h : n.Keeps m) (h' : m.Keeps k) : n.Keeps k :=
  ⟨h.le.trans h'.le, fun hx => h'.expr (h.expr hx)⟩

namespace Pairing

variable {σ : Setting} {strict : Bool} {b b' : Ledger σ strict} (w : Pairing b b') {g : Region}

theorem fits_expr (h : Expr.Alike w.ids g x x') (part part' : TreePart) :
    (∀ m ∈ x.mentions, (∃ a, m = .holds a) ∨ w.left.Fits (g.map (·.1)) part m) ∧
      ∀ m ∈ x'.mentions, (∃ a, m = .holds a) ∨ w.right.Fits (g.map (·.2)) part' m := by
  constructor
  · intro m hm
    obtain ⟨m', _, hmm⟩ := Ledger.exists_of_mem_forall₂ h.mentions hm
    exact (w.nodes.fits w.left.sound w.right.sound hmm part part').1
  · intro m' hm'
    obtain ⟨m, _, hmm⟩ := Ledger.exists_of_mem_forall₂ h.mentions.flip hm'
    exact (w.nodes.fits w.left.sound w.right.sound hmm part part').2

theorem fits_decl (h : Decl.Alike w.ids g x x') (part part' : TreePart) :
    (∀ m ∈ x.mentions, w.left.Fits (g.map (·.1)) part m) ∧
      ∀ m ∈ x'.mentions, w.right.Fits (g.map (·.2)) part' m := by
  constructor
  · intro m hm
    obtain ⟨m', _, hmm⟩ := Ledger.exists_of_mem_forall₂ h.mentions hm
    rcases (w.nodes.fits w.left.sound w.right.sound hmm part part').1 with ⟨a, rfl⟩ | hfit
    · exact (x.holds_notMem a hm).elim
    · exact hfit
  · intro m' hm'
    obtain ⟨m, _, hmm⟩ := Ledger.exists_of_mem_forall₂ h.mentions.flip hm'
    rcases (w.nodes.fits w.left.sound w.right.sound hmm part part').2 with ⟨a, rfl⟩ | hfit
    · exact (x'.holds_notMem a hm').elim
    · exact hfit

theorem lies_of_decls (h : List.Forall₂ (w.ids.decl []) ds ds') :
    (∀ d ∈ ds, w.left.Lies [] d) ∧ ∀ d ∈ ds', w.right.Lies [] d := by
  induction h with
  | nil => simp
  | cons hd _ ih =>
    obtain ⟨g, hl, hg⟩ := hd
    obtain rfl := List.subset_nil.1 hg
    obtain ⟨⟨t, ht⟩, t', ht'⟩ := w.nodes.mark hl
    exact ⟨List.forall_mem_cons.2 ⟨⟨_, ht, List.Subset.refl _⟩, ih.1⟩,
      List.forall_mem_cons.2 ⟨⟨_, ht', List.Subset.refl _⟩, ih.2⟩⟩

theorem confines_decl (h : Decl.Alike w.ids g x x') : w.left.Confines x ∧ w.right.Confines x' := by
  obtain ⟨s, origin, calls, k⟩ := x
  obtain ⟨s', origin', calls', k'⟩ := x'
  obtain ⟨_, _, _, hk⟩ := h
  cases hk with
  | classLike hts _ hds =>
    have hts := w.lies_of_decls hts
    have hds := w.lies_of_decls hds
    constructor <;> (intro c hc; cases hc)
    · exact ⟨hds.1, fun d hd => .inl (hts.1 d hd)⟩
    · exact ⟨hds.2, fun d hd => .inl (hts.2 d hd)⟩
  | _ => constructor <;> (intro c hc; cases hc)

theorem keeps_addExpr (n : Entries) (x : Expr) (t : Tint) : n.Keeps (n.addExpr x t) :=
  ⟨n.le_addExpr x t, getElem?_push_of_some⟩

theorem expr?_nextExpr (n : Entries) : n.expr? n.nextExpr = none := by
  simp [Entries.expr?, Entries.nextExpr, Store.expr?]

def addExpr {x x' : Expr} (h : Expr.Alike w.ids g x x') (hx : x.kind.isPlain) : Pairing b b' where
  left := ⟨w.left.addExpr x (.code (g.map (·.1))), w.left.sound.addCode fun m hm => by
    rcases (w.fits_expr h _ (.expr w.right.nextExpr)).1 m hm with ⟨a, rfl⟩ | hfit
    · rw [Expr.holds_mem, (ExprKind.isPlain_iff _).1 hx] at hm
      cases hm
    · exact hfit⟩
  right := ⟨w.right.addExpr x' (.code (g.map (·.2))), w.right.sound.addCode fun m hm => by
    rcases (w.fits_expr h (.expr w.left.nextExpr) _).2 m hm with ⟨a, rfl⟩ | hfit
    · have hr := h.kind.holder
      rw [Expr.holds_mem] at hm
      rw [(ExprKind.isPlain_iff _).1 hx, hm] at hr
      cases hr
    · exact hfit⟩
  links := w.links.addExpr w.left.nextExpr w.right.nextExpr g
  opens := w.opens
  opens_left := w.opens_left
  opens_right := w.opens_right
  opens_linked := w.opens_linked
  nodes := w.nodes.addExpr (keeps_addExpr _ _ _) (keeps_addExpr _ _ _) (expr?_nextExpr _)
    (expr?_nextExpr _) (Entries.expr?_addExpr_nextExpr _ _ _)
    (Entries.expr?_addExpr_nextExpr _ _ _) (Entries.tint?_addExpr_nextExpr w.left.sound _ _)
    (Entries.tint?_addExpr_nextExpr w.right.sound _ _)
    (h.mono (Links.ids_mono (.refl _) (Entries.le_addExpr _ _ _) (Entries.le_addExpr _ _ _))
      (List.Subset.refl _))
  keys := w.keys.keep (Entries.le_addExpr _ _ _) (Entries.le_addExpr _ _ _) rfl rfl rfl rfl
    (w.links.le_addExpr _ _ _) id

theorem le_addExpr (h : Expr.Alike w.ids g x x') (hx : x.kind.isPlain) : w ≤ w.addExpr h hx :=
  ⟨Entries.le_addExpr _ _ _, Entries.le_addExpr _ _ _, w.links.le_addExpr _ _ _⟩

theorem holder_right (ho : w.opens = (a, a') :: o) {x x' : Expr} (h : Expr.Alike w.ids g x x')
    (hx : x.kind.holder? = some a) : x'.kind.holder? = some a' := by
  have hr := h.kind.holder
  have hlinked := w.opens_linked (a, a') (by simp [ho])
  rw [hx] at hr
  generalize x'.kind.holder? = r at hr ⊢
  cases hr with
  | some hr => rw [(w.nodes.holder_unique hr hlinked).1 rfl]

theorem opens_left_cons (ho : w.opens = (a, a') :: o) :
    w.left.opens = a :: (o.map (·.1) ++ b.opens) := by
  rw [w.opens_left, ho]
  rfl

theorem opens_right_cons (ho : w.opens = (a, a') :: o) :
    w.right.opens = a' :: (o.map (·.2) ++ b'.opens) := by
  rw [w.opens_right, ho]
  rfl

theorem keeps_close {n : Entries} (ha : n.owner? a = none) (part : TreePart) (rest : List Holder) :
    n.Keeps (n.close a part rest) :=
  ⟨Entries.le_close ha part rest,
    fun h => by simpa [Entries.expr?, Entries.close, Store.expr?] using h⟩

theorem keeps_addOwner {n : Entries} (ha : n.owner? a = none) (x : Expr) (t : Tint)
    (part : TreePart) (rest : List Holder) : n.Keeps ((n.addExpr x t).close a part rest) :=
  (keeps_addExpr n x t).trans (keeps_close (n := n.addExpr x t) ha part rest)

section owner

variable {o : Region} {a a' : Holder} (ho : w.opens = (a, a') :: o)

include ho

theorem owner_left : w.left.owner? a = none :=
  (w.left.sound.guarded.opens a (by simp [w.opens_left_cons ho])).2

theorem owner_right : w.right.owner? a' = none :=
  (w.right.sound.guarded.opens a' (by simp [w.opens_right_cons ho])).2

end owner

/-- Both runs add the expression that the innermost open holder stands for. -/
def addOwner {o : Region} {a a' : Holder} (ho : w.opens = (a, a') :: o) {x x' : Expr}
    (h : Expr.Alike w.ids g x x') (hx : x.kind.holder? = some a)
    (hs : a.Suits (.expr w.left.nextExpr)) (hs' : a'.Suits (.expr w.right.nextExpr)) :
    Pairing b b' where
  left := ⟨(w.left.addExpr x (.code (g.map (·.1)))).close a (.expr w.left.nextExpr)
      (o.map (·.1) ++ b.opens), by
    refine w.left.sound.addOwner (w.opens_left_cons ho) hs ((x.holds_mem a).2 hx) fun m hm => ?_
    rcases (w.fits_expr h _ (.expr w.right.nextExpr)).1 m hm with ⟨c, rfl⟩ | hfit
    · rw [Expr.holds_mem, hx] at hm
      exact .inl (by rw [Option.some.inj hm])
    · exact .inr hfit⟩
  right := ⟨(w.right.addExpr x' (.code (g.map (·.2)))).close a' (.expr w.right.nextExpr)
      (o.map (·.2) ++ b'.opens), by
    have hx' := w.holder_right ho h hx
    refine w.right.sound.addOwner (w.opens_right_cons ho) hs' ((x'.holds_mem a').2 hx')
      fun m hm => ?_
    rcases (w.fits_expr h (.expr w.left.nextExpr) _).2 m hm with ⟨c, rfl⟩ | hfit
    · rw [Expr.holds_mem, hx'] at hm
      exact .inl (by rw [Option.some.inj hm])
    · exact .inr hfit⟩
  links := w.links.addExpr w.left.nextExpr w.right.nextExpr g
  opens := o
  opens_left := rfl
  opens_right := rfl
  opens_linked p hp := w.opens_linked p (by simp [ho, hp])
  nodes := by
    have hk := keeps_addOwner (w.owner_left ho) x (.code (g.map (·.1))) (.expr w.left.nextExpr)
      (o.map (·.1) ++ b.opens)
    have hk' := keeps_addOwner (w.owner_right ho) x' (.code (g.map (·.2)))
      (.expr w.right.nextExpr) (o.map (·.2) ++ b'.opens)
    have hx1 := (keeps_close (n := w.left.addExpr x (.code (g.map (·.1)))) (w.owner_left ho)
      (.expr w.left.nextExpr) (o.map (·.1) ++ b.opens)).expr (Entries.expr?_addExpr_nextExpr _ _ _)
    have hx2 := (keeps_close (n := w.right.addExpr x' (.code (g.map (·.2)))) (w.owner_right ho)
      (.expr w.right.nextExpr) (o.map (·.2) ++ b'.opens)).expr
      (Entries.expr?_addExpr_nextExpr _ _ _)
    exact w.nodes.addExpr hk hk' (expr?_nextExpr _) (expr?_nextExpr _) hx1 hx2
      (Entries.tint?_addExpr_nextExpr w.left.sound x _)
      (Entries.tint?_addExpr_nextExpr w.right.sound x' _)
      (h.mono (Links.ids_mono (.refl _) hk.le hk'.le) (List.Subset.refl _))
  keys := w.keys.keep (keeps_addOwner (w.owner_left ho) ..).le
    (keeps_addOwner (w.owner_right ho) ..).le rfl rfl rfl rfl (w.links.le_addExpr _ _ _) id

theorem le_addOwner {a a' : Holder} (ho : w.opens = (a, a') :: o) {x x' : Expr}
    (h : Expr.Alike w.ids g x x') (hx : x.kind.holder? = some a)
    (hs : a.Suits (.expr w.left.nextExpr)) (hs' : a'.Suits (.expr w.right.nextExpr)) :
    w ≤ w.addOwner ho h hx hs hs' :=
  ⟨(keeps_addOwner (w.owner_left ho) ..).le, (keeps_addOwner (w.owner_right ho) ..).le,
    w.links.le_addExpr _ _ _⟩

def annotate {e e' : ExprId} (he : w.links.expr e e' g) {xs xs' : List ExprId}
    (hxs : List.Forall₂ w.ids.note xs xs') : Pairing b b' where
  left := ⟨w.left.annotate e xs, by
    obtain ⟨x, _, hx, _⟩ := w.nodes.expr he
    refine w.left.sound.annotate (w.nodes.tint he).1 hx fun c hc => ?_
    obtain ⟨c', _, _, _, _, _, hs, _⟩ := Ledger.exists_of_mem_forall₂ hxs hc
    exact hs.1⟩
  right := ⟨w.right.annotate e' xs', by
    obtain ⟨_, x', _, hx', _⟩ := w.nodes.expr he
    refine w.right.sound.annotate (w.nodes.tint he).2 hx' fun c hc => ?_
    obtain ⟨c', _, _, _, _, _, _, _, hs⟩ := Ledger.exists_of_mem_forall₂ hxs.flip hc
    exact hs.1⟩
  links := w.links
  opens := w.opens
  opens_left := w.opens_left
  opens_right := w.opens_right
  opens_linked := w.opens_linked
  nodes := w.nodes.annotate he hxs
  keys := by
    obtain ⟨x, x', hx, hx', _⟩ := w.nodes.expr he
    exact w.keys.keep (Entries.le_annotate (w.nodes.tint he).1 hx xs)
      (Entries.le_annotate (w.nodes.tint he).2 hx' xs') rfl rfl rfl rfl (.refl _) id

theorem le_annotate (he : w.links.expr e e' g) {xs xs' : List ExprId}
    (hxs : List.Forall₂ w.ids.note xs xs') : w ≤ w.annotate he hxs := by
  obtain ⟨x, x', hx, hx', _⟩ := w.nodes.expr he
  exact ⟨Entries.le_annotate (w.nodes.tint he).1 hx xs,
    Entries.le_annotate (w.nodes.tint he).2 hx' xs', .refl _⟩

/-- Both runs begin something that a holder will stand for. -/
def begin {L R : Ledger σ strict} {a a' : Holder} (hk : w.left.Keeps L.toEntries)
    (hk' : w.right.Keeps R.toEntries) (hL : L.opens = a :: w.left.opens)
    (hR : R.opens = a' :: w.right.opens) (hnew : ¬ w.left.Has a) (hnew' : ¬ w.right.Has a')
    (hm : L.state.store.Match R.state.store a a') (ht : L.state.table = w.left.state.table)
    (ht' : R.state.table = w.right.state.table) (hs : L.state.stats = w.left.state.stats)
    (hs' : R.state.stats = w.right.state.stats) : Pairing b b' where
  left := L
  right := R
  links := w.links.addHolder a a'
  opens := (a, a') :: w.opens
  opens_left := by simp [hL, w.opens_left]
  opens_right := by simp [hR, w.opens_right]
  opens_linked p hp := by
    rcases List.mem_cons.1 hp with rfl | hp
    · exact .inr ⟨rfl, rfl⟩
    · exact .inl (w.opens_linked p hp)
  nodes := w.nodes.addHolder hk hk' hnew hnew' hm
  keys := w.keys.keep hk.le hk'.le ht ht' hs hs' (w.links.le_addHolder a a') id

def fresh (kind : SymbolKind) (identity : SymbolIdentity) : Pairing b b' where
  left := ⟨w.left.fresh kind identity, w.left.sound.fresh kind identity⟩
  right := ⟨w.right.fresh kind identity, w.right.sound.fresh kind identity⟩
  links := w.links.addSymbol w.left.nextSymbol w.right.nextSymbol
  opens := w.opens
  opens_left := w.opens_left
  opens_right := w.opens_right
  opens_linked := w.opens_linked
  nodes := (w.nodes.mono ⟨w.left.le_fresh kind identity, id⟩
    ⟨w.right.le_fresh kind identity, id⟩).addSymbol (by simp [Entries.symbol?_fresh])
    (by simp [Entries.symbol?_fresh])
  keys := w.keys.fresh w.left.sound w.right.sound kind identity

theorem le_fresh (kind : SymbolKind) (identity : SymbolIdentity) : w ≤ w.fresh kind identity :=
  ⟨w.left.le_fresh kind identity, w.right.le_fresh kind identity, w.links.le_addSymbol _ _⟩

theorem keeps_addDecl (n : Entries) (x : Decl) (m : Mark) : n.Keeps (n.addDecl x m) :=
  ⟨n.le_addDecl x m, id⟩

def addDecl {x x' : Decl} (h : Decl.Alike w.ids g x x') : Pairing b b' where
  left := ⟨w.left.addDecl x ⟨g.map (·.1), none⟩,
    w.left.sound.addDecl (w.fits_decl h _ (.decl w.right.nextDecl)).1 (w.confines_decl h).1⟩
  right := ⟨w.right.addDecl x' ⟨g.map (·.2), none⟩,
    w.right.sound.addDecl (w.fits_decl h (.decl w.left.nextDecl) _).2 (w.confines_decl h).2⟩
  links := w.links.addDecl w.left.nextDecl w.right.nextDecl g
  opens := w.opens
  opens_left := w.opens_left
  opens_right := w.opens_right
  opens_linked := w.opens_linked
  nodes := (w.nodes.mono (keeps_addDecl _ _ _) (keeps_addDecl _ _ _)).addDecl
    (Entries.decl?_addDecl_nextDecl _ _ _) (Entries.decl?_addDecl_nextDecl _ _ _)
    (Entries.mark?_addDecl_nextDecl w.left.sound x ⟨g.map (·.1), none⟩)
    (Entries.mark?_addDecl_nextDecl w.right.sound x' ⟨g.map (·.2), none⟩)
    (h.mono (Links.ids_mono (.refl _) (Entries.le_addDecl _ _ _) (Entries.le_addDecl _ _ _))
      (List.Subset.refl _))
  keys := w.keys.keep (Entries.le_addDecl _ _ _) (Entries.le_addDecl _ _ _) rfl rfl rfl rfl
    (w.links.le_addDecl _ _ _) id

theorem le_addDecl (h : Decl.Alike w.ids g x x') : w ≤ w.addDecl h :=
  ⟨Entries.le_addDecl _ _ _, Entries.le_addDecl _ _ _, w.links.le_addDecl _ _ _⟩

theorem keeps_addCallable {n : Entries} (ha : n.owner? a = none) (x : Decl) (m : Mark)
    (part : TreePart) (rest : List Holder) : n.Keeps ((n.addDecl x m).close a part rest) :=
  (keeps_addDecl n x m).trans (keeps_close (n := n.addDecl x m) ha part rest)

/-- Both runs add the callable that the innermost open target stands for. -/
def addCallable {o : Region} {t t' : FunctionTargetId}
    (ho : w.opens = (.function t, .function t') :: o) {x x' : Decl}
    (h : Decl.Alike w.ids ((.function t, .function t') :: g) x x') (hc : x.kind.isCallable) :
    Pairing b b' where
  left := ⟨(w.left.addDecl x ⟨g.map (·.1), some t⟩).close (.function t) (.decl w.left.nextDecl)
    (o.map (·.1) ++ b.opens), w.left.sound.addCallable (w.opens_left_cons ho) hc
      (w.fits_decl h _ (.decl w.right.nextDecl)).1⟩
  right := ⟨(w.right.addDecl x' ⟨g.map (·.2), some t'⟩).close (.function t')
    (.decl w.right.nextDecl) (o.map (·.2) ++ b'.opens),
    w.right.sound.addCallable (w.opens_right_cons ho) (by rwa [h.kind.isCallable])
      (w.fits_decl h (.decl w.left.nextDecl) _).2⟩
  links := w.links.addDecl w.left.nextDecl w.right.nextDecl g
  opens := o
  opens_left := rfl
  opens_right := rfl
  opens_linked p hp := w.opens_linked p (by simp [ho, hp])
  nodes := by
    have hk := keeps_addCallable (w.owner_left ho) x ⟨g.map (·.1), some t⟩ (.decl w.left.nextDecl)
      (o.map (·.1) ++ b.opens)
    have hk' := keeps_addCallable (w.owner_right ho) x' ⟨g.map (·.2), some t'⟩
      (.decl w.right.nextDecl) (o.map (·.2) ++ b'.opens)
    have hx := (keeps_close (n := w.left.addDecl x ⟨g.map (·.1), some t⟩) (w.owner_left ho)
      (.decl w.left.nextDecl) (o.map (·.1) ++ b.opens)).le.decl
      (Entries.decl?_addDecl_nextDecl _ _ _)
    have hx' := (keeps_close (n := w.right.addDecl x' ⟨g.map (·.2), some t'⟩) (w.owner_right ho)
      (.decl w.right.nextDecl) (o.map (·.2) ++ b'.opens)).le.decl
      (Entries.decl?_addDecl_nextDecl _ _ _)
    have hm : (w.left.addDecl x _).mark? _ = _ :=
      Entries.mark?_addDecl_nextDecl w.left.sound x ⟨g.map (fun p => p.1), some t⟩
    have hm' : (w.right.addDecl x' _).mark? _ = _ :=
      Entries.mark?_addDecl_nextDecl w.right.sound x' ⟨g.map (fun p => p.2), some t'⟩
    exact (w.nodes.mono hk hk').addDecl hx hx' hm hm'
      (h.mono (Links.ids_mono (.refl _) hk.le hk'.le) (List.Subset.refl _))
  keys := w.keys.keep (keeps_addCallable (w.owner_left ho) ..).le
    (keeps_addCallable (w.owner_right ho) ..).le rfl rfl rfl rfl (w.links.le_addDecl _ _ _) id

theorem le_addCallable (ho : w.opens = (.function t, .function t') :: o) {x x' : Decl}
    (h : Decl.Alike w.ids ((.function t, .function t') :: g) x x') (hc : x.kind.isCallable) :
    w ≤ w.addCallable ho h hc :=
  ⟨(keeps_addCallable (w.owner_left ho) ..).le, (keeps_addCallable (w.owner_right ho) ..).le,
    w.links.le_addDecl _ _ _⟩

section own

variable {s s' : SymbolId} {x x' : Symbol} {d d' : DeclId}

theorem keeps_own {n : Entries} (hx : n.symbol? s = some x) (ho : x.owner = none) (d : DeclId)
    (origin : Origin) : n.Keeps (n.own s x d origin) :=
  ⟨Entries.le_own hx ho d origin, id⟩

/-- Both runs make a declaration the owner of a symbol. -/
def own (hs : w.ids.symbol s s') (hx : w.left.symbol? s = some x)
    (hx' : w.right.symbol? s' = some x') (ho : x.owner = none) (ho' : x'.owner = none)
    (hd : w.links.decl d d' g) (origin : Origin) : Pairing b b' where
  left := ⟨w.left.own s x d origin, by
    obtain ⟨t, ht⟩ := (w.nodes.mark hd).1
    exact w.left.sound.own hx ho (Option.isSome_of_mem ht) origin⟩
  right := ⟨w.right.own s' x' d' origin, by
    obtain ⟨t, ht⟩ := (w.nodes.mark hd).2
    exact w.right.sound.own hx' ho' (Option.isSome_of_mem ht) origin⟩
  links := w.links
  opens := w.opens
  opens_left := w.opens_left
  opens_right := w.opens_right
  opens_linked := w.opens_linked
  nodes := w.nodes.mono (keeps_own hx ho d origin) (keeps_own hx' ho' d' origin)
  keys := w.keys.own w.left.sound w.right.sound hs hx hx' ho ho' hd origin

/-- The first run makes a declaration the owner of a symbol that has one in the second run. -/
def ownAlone {kind : SymbolKind} {desc : DescId} (hc : w.left.cached? kind desc = some s)
    (hx : w.left.symbol? s = some x) (ho : x.owner = none)
    (hb' : (b'.declared? kind desc).isSome) (hd : w.links.decl d d' g) (origin : Origin) :
    Pairing b b' where
  left := ⟨w.left.own s x d origin, by
    obtain ⟨t, ht⟩ := (w.nodes.mark hd).1
    exact w.left.sound.own hx ho (Option.isSome_of_mem ht) origin⟩
  right := w.right
  links := w.links
  opens := w.opens
  opens_left := w.opens_left
  opens_right := w.opens_right
  opens_linked := w.opens_linked
  nodes := w.nodes.mono (keeps_own hx ho d origin) ⟨.refl _, id⟩
  keys := (w.keys.part w.left.sound hc hx ho hb' d origin).1

end own

end Pairing

end TypedTree
