import TypedTree.Proofs.AlikeDecl

namespace TypedTree

/-- Mentions of one form whose ids stand for each other. -/
inductive Mention.Alike (C : Correspondence) (g : Region) : Mention → Mention → Prop
  | expr {inside : Region} {a b : ExprId} : C.part (inside ++ g) a b →
      (∀ p ∈ inside, C.holder p.1 p.2) →
      Alike C g (.expr (inside.map (·.1)) a) (.expr (inside.map (·.2)) b)
  | decl {a b : DeclId} : C.decl g a b → Alike C g (.decl a) (.decl b)
  | note {a b : ExprId} : C.note a b → Alike C g (.note a) (.note b)
  | aside {a b : ExprId} : C.part g a b → Alike C g (.aside a) (.aside b)
  | symbol {a b : SymbolId} : C.symbol a b → Alike C g (.symbol a) (.symbol b)
  | holds {a b : Holder} : C.holder a b → Alike C g (.holds a) (.holds b)
  | uses {a b : Holder} : C.holder a b → (a, b) ∈ g → Alike C g (.uses a) (.uses b)

section mentions

open Mention

variable {C : Correspondence} {g : Region}

theorem Option.forall₂_toList {α β : Type} {R : α → β → Prop} {x : Option α} {y : Option β} :
    Option.Rel R x y → List.Forall₂ R x.toList y.toList
  | .none => .nil
  | .some h => .cons h .nil

theorem Mention.Alike.ofPart (h : C.part g a b) :
    Mention.Alike C g (.expr [] a) (.expr [] b) :=
  @Mention.Alike.expr C g [] a b h (by simp)

theorem alike_exprs (h : List.Forall₂ (C.part g) xs ys) :
    List.Forall₂ (Mention.Alike C g) (exprs xs) (exprs ys) :=
  List.rel_map (fun _ _ => .ofPart) h

theorem alike_expr? (h : Option.Rel (C.part g) x y) :
    List.Forall₂ (Mention.Alike C g) (expr? x) (expr? y) :=
  alike_exprs (Option.forall₂_toList h)

theorem alike_decls (h : List.Forall₂ (C.decl g) xs ys) :
    List.Forall₂ (Mention.Alike C g) (decls xs) (decls ys) :=
  List.rel_map (fun _ _ => .decl) h

theorem alike_decl? (h : Option.Rel (C.decl g) x y) :
    List.Forall₂ (Mention.Alike C g) (decl? x) (decl? y) :=
  alike_decls (Option.forall₂_toList h)

theorem alike_annotations (h : List.Forall₂ C.note xs ys) :
    List.Forall₂ (Mention.Alike C g) (annotations xs) (annotations ys) :=
  List.rel_map (fun _ _ => .note) h

theorem alike_symbols (h : List.Forall₂ C.symbol xs ys) :
    List.Forall₂ (Mention.Alike C g) (symbols xs) (symbols ys) :=
  List.rel_map (fun _ _ => .symbol) h

theorem alike_arguments (h : List.Forall₂ (Option.Rel (C.part g)) xs ys) :
    List.Forall₂ (Mention.Alike C g) (exprs (xs.filterMap id)) (exprs (ys.filterMap id)) :=
  alike_exprs (List.rel_filterMap (fun _ _ hab => hab) h)

mutual

theorem TreeType.Alike.mentions :
    TreeType.Alike C a b → List.Forall₂ (Mention.Alike C g) a.mentions b.mentions
  | .mk hc hs hx => by
    simp only [TreeType.mentions]
    exact .cons (.symbol hc)
      (List.rel_append (TypeProjection.AllAlike.mentions hs) (alike_annotations hx))

theorem TypeProjection.AllAlike.mentions :
    TypeProjection.AllAlike C as bs → List.Forall₂ (Mention.Alike C g)
      (TypeProjection.mentionsOfAll as) (TypeProjection.mentionsOfAll bs)
  | .nil => .nil
  | .star hs => by
    simp only [TypeProjection.mentionsOfAll]
    exact TypeProjection.AllAlike.mentions hs
  | .projection ht hs => by
    simp only [TypeProjection.mentionsOfAll]
    exact List.rel_append (TreeType.Alike.mentions ht) (TypeProjection.AllAlike.mentions hs)

end

theorem alike_types (h : List.Forall₂ (TreeType.Alike C) xs ys) :
    List.Forall₂ (Mention.Alike C g) (types xs) (types ys) :=
  List.rel_flatMap h fun _ _ => TreeType.Alike.mentions

theorem alike_type? (h : Option.Rel (TreeType.Alike C) x y) :
    List.Forall₂ (Mention.Alike C g) (type? x) (type? y) :=
  alike_types (Option.forall₂_toList h)

theorem Access.Alike.mentions (h : Access.Alike C g a b) :
    List.Forall₂ (Mention.Alike C g) a.mentions b.mentions :=
  .cons (.symbol h.callee) (List.rel_append
    (List.rel_append (alike_expr? h.dispatch) (alike_expr? h.extension))
    (alike_types h.typeArguments))

theorem Statement.Alike.mention :
    Statement.Alike C g a b → Mention.Alike C g a.mention b.mention
  | .declaration hd => .decl hd
  | .expression he => .ofPart he

theorem WhenBranch.Alike.mentions (hi : ∀ p ∈ inside, C.holder p.1 p.2) {a b : WhenBranch}
    (h : WhenBranch.Alike C inside g a b) :
    List.Forall₂ (Mention.Alike C g) (a.mentions (inside.map (·.1)))
      (b.mentions (inside.map (·.2))) :=
  List.rel_append (List.rel_map (fun _ _ hc => .expr hc hi) (Option.forall₂_toList h.condition))
    (.cons (.ofPart h.result) .nil)

theorem Catch.Alike.mentions (h : Catch.Alike C g a b) :
    List.Forall₂ (Mention.Alike C g) [.decl a.parameter, .expr [] a.body]
      [.decl b.parameter, .expr [] b.body] :=
  .cons (.decl h.parameter) (.cons (.ofPart h.body) .nil)

theorem Mention.Alike.inside (hh : C.holder h1 h2) (h : C.part ((h1, h2) :: g) a b) :
    Mention.Alike C g (.expr [h1] a) (.expr [h2] b) :=
  @Mention.Alike.expr C g [(h1, h2)] a b h (by simpa using hh)

/-- Expressions that are alike mention ids that stand for each other, one by one. -/
theorem ExprKind.Alike.mentions (h : ExprKind.Alike C g a b) :
    List.Forall₂ (Mention.Alike C g) a.mentions b.mentions := by
  cases h with
  | literal | thisRef | unit | malformed => exact .nil
  | block hs => exact List.rel_map (fun a b (h : Statement.Alike C g a b) => h.mention) hs
  | read ha => exact ha.mentions
  | call ha hx => exact List.rel_append ha.mentions (alike_arguments hx)
  | delegatedCall hc hx => exact .cons (.symbol hc) (alike_arguments hx)
  | assignment ha hv => exact List.rel_append ha.mentions (.cons (.ofPart hv) .nil)
  | intrinsic hx | concatenation hx | vararg hx => exact alike_exprs hx
  | elvis hl hr => exact alike_exprs (.cons hl (.cons hr .nil))
  | typeOperation hx ht => exact .cons (.ofPart hx) ht.mentions
  | plainChoice hs hv hb =>
    exact List.rel_append (List.rel_append (alike_expr? hs) (alike_decl? hv))
      (List.rel_flatMap hb fun _ _ hab => hab.mentions (by simp))
  | choice hr hs hv hb =>
    exact .cons (.holds hr) (List.rel_append (List.rel_append (alike_expr? hs) (alike_decl? hv))
      (List.rel_flatMap hb fun _ _ hab => hab.mentions (by simpa using hr)))
  | whenSubject hr hm => exact .cons (.uses hr hm) .nil
  | whileLoop ht hc hb =>
    exact .cons (.holds ht) (.cons (.ofPart hc) (.cons (.inside ht hb) .nil))
  | doWhile ht hc hb =>
    exact .cons (.holds ht) (.cons (.inside ht hc) (.cons (.inside ht hb) .nil))
  | breakJump ht hm | continueJump ht hm => exact .cons (.uses ht hm) .nil
  | returnJump ht hm hv => exact .cons (.uses ht hm) (.cons (.ofPart hv) .nil)
  | throwing hx | spread hx => exact alike_exprs (.cons hx .nil)
  | tryCatch hb hc hf =>
    exact .cons (.ofPart hb) (List.rel_append
      (List.rel_flatMap hc fun _ _ => Catch.Alike.mentions) (alike_expr? hf))
  | superRef ht => exact alike_type? ht
  | classReference hc => exact .cons (.symbol hc) .nil
  | callableReference ha => exact ha.mentions
  | lambda hd | anonymousObject hd => exact .cons (.decl hd) .nil
  | safeCall hr hs hx => exact alike_exprs (.cons hr (.cons hs (.cons hx .nil)))
  | safeCallSubject hr => exact .cons (.aside hr) .nil
  | delegateField hs hr => exact .cons (.symbol hs) (alike_expr? hr)

theorem Expr.Alike.mentions (h : Expr.Alike C g a b) :
    List.Forall₂ (Mention.Alike C g) a.mentions b.mentions :=
  List.rel_append (List.rel_append h.type.mentions (alike_annotations h.annotations))
    h.kind.mentions

theorem DeclKind.Alike.mentions (h : DeclKind.Alike C g a b) :
    List.Forall₂ (Mention.Alike C g) a.mentions b.mentions := by
  cases h with
  | classLike hts hss hds =>
    have hweak : ∀ a b, C.decl [] a b → C.decl g a b := fun _ _ => C.decl_weaken (List.nil_subset g)
    exact List.rel_append (List.rel_append (alike_decls (hts.imp hweak)) (alike_types hss))
      (alike_decls (hds.imp hweak))
  | function hts hdr her hps hr hb hos =>
    exact List.rel_append (List.rel_append (List.rel_append (List.rel_append (List.rel_append
      (List.rel_append (alike_decls hts) (alike_type? hdr)) (alike_type? her)) (alike_decls hps))
      hr.mentions) (alike_symbols hos)) (alike_expr? hb)
  | constructor hps hr hc hb =>
    exact List.rel_append (List.rel_append (List.rel_append (alike_decls hps) hr.mentions)
      (alike_expr? hc)) (alike_expr? hb)
  | property hr hdr her hts hi hf hx hy =>
    exact List.rel_append (List.rel_append (List.rel_append (List.rel_append (List.rel_append
      (List.rel_append (List.rel_append (alike_decls hts) hr.mentions) (alike_type? hdr))
      (alike_type? her)) (alike_expr? hi)) (alike_expr? hf)) (alike_decl? hx)) (alike_decl? hy)
  | accessor hs hr hps hb =>
    exact .cons (.symbol hs) (List.rel_append (List.rel_append (alike_decls hps) hr.mentions)
      (alike_expr? hb))
  | initializer hb => exact alike_exprs (.cons hb .nil)
  | typeParameter hbs => exact alike_types hbs
  | valueParameter ht hv hs =>
    exact List.rel_append (List.rel_append ht.mentions (alike_expr? hv))
      (alike_symbols (Option.forall₂_toList hs))
  | typeAlias hts he => exact List.rel_append (alike_decls hts) he.mentions

theorem Decl.Alike.mentions (h : Decl.Alike C g a b) :
    List.Forall₂ (Mention.Alike C g) a.mentions b.mentions :=
  .cons (.symbol h.symbol) (List.rel_append (alike_annotations h.annotations) h.kind.mentions)

end mentions

end TypedTree
