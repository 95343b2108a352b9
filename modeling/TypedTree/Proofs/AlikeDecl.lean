import TypedTree.Proofs.Alike

namespace TypedTree

/-- Declarations of one form whose parts stand for each other; the region is that of the code
inside. What stands in a class uses nothing from outside. -/
inductive DeclKind.Alike (C : Correspondence) (g : Region) : DeclKind → DeclKind → Prop
  | classLike {kind v m isData isInner isCompanion ts1 ts2 ss1 ss2 ds1 ds2} :
      List.Forall₂ (C.decl []) ts1 ts2 → List.Forall₂ (TreeType.Alike C) ss1 ss2 →
      List.Forall₂ (C.decl []) ds1 ds2 →
      Alike C g (.classLike ⟨kind, v, m, isData, isInner, isCompanion, ts1, ss1, ds1⟩)
        (.classLike ⟨kind, v, m, isData, isInner, isCompanion, ts2, ss2, ds2⟩)
  | function {v m flags ts1 ts2 d1 d2 e1 e2 ps1 ps2 r1 r2 b1 b2 os1 os2 label} :
      List.Forall₂ (C.decl g) ts1 ts2 → Option.Rel (TreeType.Alike C) d1 d2 →
      Option.Rel (TreeType.Alike C) e1 e2 → List.Forall₂ (C.decl g) ps1 ps2 →
      TreeType.Alike C r1 r2 → Option.Rel (C.part g) b1 b2 → List.Forall₂ C.symbol os1 os2 →
      Alike C g (.function ⟨v, m, flags, ts1, d1, e1, ps1, r1, b1, os1, label⟩)
        (.function ⟨v, m, flags, ts2, d2, e2, ps2, r2, b2, os2, label⟩)
  | constructor {isPrimary v ps1 ps2 r1 r2 c1 c2 b1 b2} :
      List.Forall₂ (C.decl g) ps1 ps2 → TreeType.Alike C r1 r2 →
      Option.Rel (C.part g) c1 c2 → Option.Rel (C.part g) b1 b2 →
      Alike C g (.constructor ⟨isPrimary, v, ps1, r1, c1, b1⟩)
        (.constructor ⟨isPrimary, v, ps2, r2, c2, b2⟩)
  | property {v m isVar isLocal isConst isLateinit r1 r2 d1 d2 e1 e2 ts1 ts2 i1 i2 f1 f2 x1 x2
        y1 y2} :
      TreeType.Alike C r1 r2 → Option.Rel (TreeType.Alike C) d1 d2 →
      Option.Rel (TreeType.Alike C) e1 e2 → List.Forall₂ (C.decl g) ts1 ts2 →
      Option.Rel (C.part g) i1 i2 → Option.Rel (C.part g) f1 f2 →
      Option.Rel (C.decl g) x1 x2 → Option.Rel (C.decl g) y1 y2 →
      Alike C g
        (.property ⟨v, m, isVar, isLocal, isConst, isLateinit, r1, d1, e1, ts1, i1, f1, x1, y1⟩)
        (.property ⟨v, m, isVar, isLocal, isConst, isLateinit, r2, d2, e2, ts2, i2, f2, x2, y2⟩)
  | accessor {p1 p2 isSetter v r1 r2 ps1 ps2 b1 b2} :
      C.symbol p1 p2 → TreeType.Alike C r1 r2 → List.Forall₂ (C.decl g) ps1 ps2 →
      Option.Rel (C.part g) b1 b2 →
      Alike C g (.accessor ⟨p1, isSetter, v, r1, ps1, b1⟩)
        (.accessor ⟨p2, isSetter, v, r2, ps2, b2⟩)
  | initializer {b1 b2} : C.part g b1 b2 → Alike C g (.initializer b1) (.initializer b2)
  | typeParameter {index variance isReified bs1 bs2} :
      List.Forall₂ (TreeType.Alike C) bs1 bs2 →
      Alike C g (.typeParameter ⟨index, variance, isReified, bs1⟩)
        (.typeParameter ⟨index, variance, isReified, bs2⟩)
  | valueParameter {t1 t2 d1 d2 isVararg isCrossinline isNoinline p1 p2} :
      TreeType.Alike C t1 t2 → Option.Rel (C.part g) d1 d2 → Option.Rel C.symbol p1 p2 →
      Alike C g (.valueParameter ⟨t1, d1, isVararg, isCrossinline, isNoinline, p1⟩)
        (.valueParameter ⟨t2, d2, isVararg, isCrossinline, isNoinline, p2⟩)
  | typeAlias {v ts1 ts2 e1 e2} : List.Forall₂ (C.decl g) ts1 ts2 → TreeType.Alike C e1 e2 →
      Alike C g (.typeAlias ⟨v, ts1, e1⟩) (.typeAlias ⟨v, ts2, e2⟩)

structure Decl.Alike (C : Correspondence) (g : Region) (a b : Decl) : Prop where
  symbol : C.symbol a.symbol b.symbol
  origin : a.origin = b.origin
  annotations : List.Forall₂ C.note a.annotations b.annotations
  kind : DeclKind.Alike C g a.kind b.kind

section mono

variable {C D : Correspondence} {g g' : Region}

theorem DeclKind.Alike.mono (h : C.Le D) (hg : g ⊆ g') {a b : DeclKind}
    (hab : DeclKind.Alike C g a b) : DeclKind.Alike D g' a b := by
  have hd : ∀ x y, C.decl g x y → D.decl g' x y := fun _ _ => h.declWithin hg
  have ht : ∀ x y, TreeType.Alike C x y → TreeType.Alike D x y := fun _ _ => TreeType.Alike.mono h
  have hp : ∀ {x y}, Option.Rel (C.part g) x y → Option.Rel (D.part g') x y :=
    Option.rel_imp fun _ _ => h.part hg
  cases hab with
  | classLike hts hss hds =>
    exact .classLike (hts.imp fun _ _ => h.decl) (hss.imp ht) (hds.imp fun _ _ => h.decl)
  | function hts hdr her hps hr hb hos =>
    exact .function (hts.imp hd) (Option.rel_imp ht hdr) (Option.rel_imp ht her) (hps.imp hd)
      (ht _ _ hr) (hp hb) (hos.imp fun _ _ => h.symbol)
  | constructor hps hr hc hb => exact .constructor (hps.imp hd) (ht _ _ hr) (hp hc) (hp hb)
  | property hr hdr her hts hi hf hx hy =>
    exact .property (ht _ _ hr) (Option.rel_imp ht hdr) (Option.rel_imp ht her) (hts.imp hd)
      (hp hi) (hp hf) (Option.rel_imp hd hx) (Option.rel_imp hd hy)
  | accessor hs hr hps hb => exact .accessor (h.symbol hs) (ht _ _ hr) (hps.imp hd) (hp hb)
  | initializer hb => exact .initializer (h.part hg hb)
  | typeParameter hbs => exact .typeParameter (hbs.imp ht)
  | valueParameter htype hv hs =>
    exact .valueParameter (ht _ _ htype) (hp hv) (Option.rel_imp (fun _ _ => h.symbol) hs)
  | typeAlias hts he => exact .typeAlias (hts.imp hd) (ht _ _ he)

theorem Decl.Alike.mono (h : C.Le D) (hg : g ⊆ g') {a b : Decl} (hab : Decl.Alike C g a b) :
    Decl.Alike D g' a b :=
  ⟨h.symbol hab.symbol, hab.origin, hab.annotations.imp fun _ _ => h.note, hab.kind.mono h hg⟩

end mono

end TypedTree
