import Mathlib.Data.List.Forall2
import TypedTree.Proofs.Mention

namespace TypedTree

/-- The holders that a piece of code may use, in one run and in another. -/
abbrev Region := List (Holder × Holder)

/-- Which ids of one run stand for which ids of another. -/
structure Correspondence where
  symbol : SymbolId → SymbolId → Prop
  /-- Calls of annotations and what they are made of. -/
  note : ExprId → ExprId → Prop
  /-- Expressions whose jumps and subjects stay within a region. -/
  expr : Region → ExprId → ExprId → Prop
  decl : Region → DeclId → DeclId → Prop
  holder : Holder → Holder → Prop
  expr_weaken : ∀ {g g' a b}, g ⊆ g' → expr g a b → expr g' a b
  decl_weaken : ∀ {g g' a b}, g ⊆ g' → decl g a b → decl g' a b

namespace Correspondence

/-- Expressions that may stand inside of others. -/
def part (C : Correspondence) (g : Region) (a b : ExprId) : Prop := C.expr g a b ∨ C.note a b

/-- What one correspondence relates the other one relates, too. -/
structure Le (C D : Correspondence) : Prop where
  symbol : ∀ {a b}, C.symbol a b → D.symbol a b
  note : ∀ {a b}, C.note a b → D.note a b
  expr : ∀ {g a b}, C.expr g a b → D.expr g a b
  decl : ∀ {g a b}, C.decl g a b → D.decl g a b
  holder : ∀ {a b}, C.holder a b → D.holder a b

variable {C D : Correspondence} {g g' : Region}

theorem Le.part (h : C.Le D) (hg : g ⊆ g') {a b : ExprId} (hab : C.part g a b) :
    D.part g' a b :=
  hab.imp (fun he => D.expr_weaken hg (h.expr he)) h.note

theorem Le.declWithin (h : C.Le D) (hg : g ⊆ g') {a b : DeclId} (hab : C.decl g a b) :
    D.decl g' a b :=
  D.decl_weaken hg (h.decl hab)

end Correspondence

theorem Option.rel_imp {α β : Type} {R S : α → β → Prop} (h : ∀ a b, R a b → S a b)
    {x : Option α} {y : Option β} : Option.Rel R x y → Option.Rel S x y
  | .none => .none
  | .some hab => .some (h _ _ hab)

mutual

inductive TreeType.Alike (C : Correspondence) : TreeType → TreeType → Prop
  | mk {c1 c2 : SymbolId} {nullable : Bool} {as1 as2 : List TypeProjection}
      {xs1 xs2 : List ExprId} : C.symbol c1 c2 → TypeProjection.AllAlike C as1 as2 →
      List.Forall₂ C.note xs1 xs2 →
      TreeType.Alike C ⟨c1, nullable, as1, xs1⟩ ⟨c2, nullable, as2, xs2⟩

inductive TypeProjection.AllAlike (C : Correspondence) :
    List TypeProjection → List TypeProjection → Prop
  | nil : TypeProjection.AllAlike C [] []
  | star {as1 as2 : List TypeProjection} : TypeProjection.AllAlike C as1 as2 →
      TypeProjection.AllAlike C (.star :: as1) (.star :: as2)
  | projection {v : Variance} {t1 t2 : TreeType} {as1 as2 : List TypeProjection} :
      TreeType.Alike C t1 t2 → TypeProjection.AllAlike C as1 as2 →
      TypeProjection.AllAlike C (.projection v t1 :: as1) (.projection v t2 :: as2)

end

structure Access.Alike (C : Correspondence) (g : Region) (a b : Access) : Prop where
  callee : C.symbol a.callee b.callee
  dispatch : Option.Rel (C.part g) a.dispatchReceiver b.dispatchReceiver
  extension : Option.Rel (C.part g) a.extensionReceiver b.extensionReceiver
  typeArguments : List.Forall₂ (TreeType.Alike C) a.typeArguments b.typeArguments

inductive Statement.Alike (C : Correspondence) (g : Region) : Statement → Statement → Prop
  | declaration {a b : DeclId} : C.decl g a b →
      Statement.Alike C g (.declaration a) (.declaration b)
  | expression {a b : ExprId} : C.part g a b → Statement.Alike C g (.expression a) (.expression b)

/-- Conditions may use holders that results may not. -/
structure WhenBranch.Alike (C : Correspondence) (inside g : Region) (a b : WhenBranch) :
    Prop where
  condition : Option.Rel (C.part (inside ++ g)) a.condition b.condition
  result : C.part g a.result b.result

structure Catch.Alike (C : Correspondence) (g : Region) (a b : Catch) : Prop where
  parameter : C.decl g a.parameter b.parameter
  body : C.part g a.body b.body

/-- Expressions of one form whose parts stand for each other. -/
inductive ExprKind.Alike (C : Correspondence) (g : Region) : ExprKind → ExprKind → Prop
  | literal {kind value} : Alike C g (.literal kind value) (.literal kind value)
  | block {ss1 ss2} : List.Forall₂ (Statement.Alike C g) ss1 ss2 →
      Alike C g (.block ss1) (.block ss2)
  | read {a1 a2} : Access.Alike C g a1 a2 → Alike C g (.read a1) (.read a2)
  | call {a1 a2 xs1 xs2} : Access.Alike C g a1 a2 →
      List.Forall₂ (Option.Rel (C.part g)) xs1 xs2 → Alike C g (.call a1 xs1) (.call a2 xs2)
  | delegatedCall {c1 c2 kind xs1 xs2} : C.symbol c1 c2 →
      List.Forall₂ (Option.Rel (C.part g)) xs1 xs2 →
      Alike C g (.delegatedCall c1 kind xs1) (.delegatedCall c2 kind xs2)
  | assignment {a1 a2 v1 v2} : Access.Alike C g a1 a2 → C.part g v1 v2 →
      Alike C g (.assignment a1 v1) (.assignment a2 v2)
  | intrinsic {op xs1 xs2} : List.Forall₂ (C.part g) xs1 xs2 →
      Alike C g (.intrinsic op xs1) (.intrinsic op xs2)
  | concatenation {xs1 xs2} : List.Forall₂ (C.part g) xs1 xs2 →
      Alike C g (.concatenation xs1) (.concatenation xs2)
  | elvis {l1 l2 r1 r2} : C.part g l1 l2 → C.part g r1 r2 →
      Alike C g (.elvis l1 r1) (.elvis l2 r2)
  | typeOperation {op x1 x2 t1 t2} : C.part g x1 x2 → TreeType.Alike C t1 t2 →
      Alike C g (.typeOperation op x1 t1) (.typeOperation op x2 t2)
  | plainChoice {s1 s2 v1 v2 bs1 bs2} : Option.Rel (C.part g) s1 s2 →
      Option.Rel (C.decl g) v1 v2 → List.Forall₂ (WhenBranch.Alike C [] g) bs1 bs2 →
      Alike C g (.choice none s1 v1 bs1) (.choice none s2 v2 bs2)
  | choice {r1 r2 s1 s2 v1 v2 bs1 bs2} : C.holder (.choice r1) (.choice r2) →
      Option.Rel (C.part g) s1 s2 → Option.Rel (C.decl g) v1 v2 →
      List.Forall₂ (WhenBranch.Alike C [(.choice r1, .choice r2)] g) bs1 bs2 →
      Alike C g (.choice (some r1) s1 v1 bs1) (.choice (some r2) s2 v2 bs2)
  | whenSubject {r1 r2} : C.holder (.choice r1) (.choice r2) → (.choice r1, .choice r2) ∈ g →
      Alike C g (.whenSubject r1) (.whenSubject r2)
  | whileLoop {t1 t2 c1 c2 b1 b2} : C.holder (.loop t1) (.loop t2) → C.part g c1 c2 →
      C.part ((.loop t1, .loop t2) :: g) b1 b2 →
      Alike C g (.whileLoop t1 c1 b1) (.whileLoop t2 c2 b2)
  | doWhile {t1 t2 c1 c2 b1 b2} : C.holder (.loop t1) (.loop t2) →
      C.part ((.loop t1, .loop t2) :: g) c1 c2 → C.part ((.loop t1, .loop t2) :: g) b1 b2 →
      Alike C g (.doWhile t1 c1 b1) (.doWhile t2 c2 b2)
  | breakJump {t1 t2} : C.holder (.loop t1) (.loop t2) → (.loop t1, .loop t2) ∈ g →
      Alike C g (.breakJump t1) (.breakJump t2)
  | continueJump {t1 t2} : C.holder (.loop t1) (.loop t2) → (.loop t1, .loop t2) ∈ g →
      Alike C g (.continueJump t1) (.continueJump t2)
  | returnJump {t1 t2 v1 v2} : C.holder (.function t1) (.function t2) →
      (.function t1, .function t2) ∈ g → C.part g v1 v2 →
      Alike C g (.returnJump t1 v1) (.returnJump t2 v2)
  | throwing {x1 x2} : C.part g x1 x2 → Alike C g (.throwing x1) (.throwing x2)
  | tryCatch {b1 b2 cs1 cs2 f1 f2} : C.part g b1 b2 → List.Forall₂ (Catch.Alike C g) cs1 cs2 →
      Option.Rel (C.part g) f1 f2 → Alike C g (.tryCatch b1 cs1 f1) (.tryCatch b2 cs2 f2)
  | thisRef {label} : Alike C g (.thisRef label) (.thisRef label)
  | superRef {t1 t2} : Option.Rel (TreeType.Alike C) t1 t2 →
      Alike C g (.superRef t1) (.superRef t2)
  | classReference {c1 c2} : C.symbol c1 c2 →
      Alike C g (.classReference c1) (.classReference c2)
  | callableReference {a1 a2} : Access.Alike C g a1 a2 →
      Alike C g (.callableReference a1) (.callableReference a2)
  | lambda {d1 d2} : C.decl g d1 d2 → Alike C g (.lambda d1) (.lambda d2)
  | anonymousObject {d1 d2} : C.decl g d1 d2 →
      Alike C g (.anonymousObject d1) (.anonymousObject d2)
  | safeCall {r1 r2 s1 s2 x1 x2} : C.part g r1 r2 → C.part g s1 s2 → C.part g x1 x2 →
      Alike C g (.safeCall r1 s1 x1) (.safeCall r2 s2 x2)
  | safeCallSubject {r1 r2} : C.part g r1 r2 →
      Alike C g (.safeCallSubject r1) (.safeCallSubject r2)
  | vararg {xs1 xs2} : List.Forall₂ (C.part g) xs1 xs2 →
      Alike C g (.vararg xs1) (.vararg xs2)
  | spread {x1 x2} : C.part g x1 x2 → Alike C g (.spread x1) (.spread x2)
  | delegateField {p1 p2 r1 r2} : C.symbol p1 p2 → Option.Rel (C.part g) r1 r2 →
      Alike C g (.delegateField p1 r1) (.delegateField p2 r2)
  | unit : Alike C g .unit .unit
  | malformed {kind message} : Alike C g (.malformed kind message) (.malformed kind message)

structure Expr.Alike (C : Correspondence) (g : Region) (a b : Expr) : Prop where
  type : TreeType.Alike C a.type b.type
  annotations : List.Forall₂ C.note a.annotations b.annotations
  kind : ExprKind.Alike C g a.kind b.kind

section mono

variable {C D : Correspondence} {g g' : Region}

mutual

theorem TreeType.Alike.mono (h : C.Le D) {a b : TreeType} :
    TreeType.Alike C a b → TreeType.Alike D a b
  | .mk hc hs hx => .mk (h.symbol hc) (TypeProjection.AllAlike.mono h hs) (hx.imp fun _ _ => h.note)

theorem TypeProjection.AllAlike.mono (h : C.Le D) {as bs : List TypeProjection} :
    TypeProjection.AllAlike C as bs → TypeProjection.AllAlike D as bs
  | .nil => .nil
  | .star hs => .star (TypeProjection.AllAlike.mono h hs)
  | .projection ht hs =>
    .projection (TreeType.Alike.mono h ht) (TypeProjection.AllAlike.mono h hs)

end

theorem Access.Alike.mono (h : C.Le D) (hg : g ⊆ g') {a b : Access} (hab : Access.Alike C g a b) :
    Access.Alike D g' a b where
  callee := h.symbol hab.callee
  dispatch := Option.rel_imp (fun _ _ => h.part hg) hab.dispatch
  extension := Option.rel_imp (fun _ _ => h.part hg) hab.extension
  typeArguments := hab.typeArguments.imp fun _ _ => TreeType.Alike.mono h

theorem Statement.Alike.mono (h : C.Le D) (hg : g ⊆ g') {a b : Statement} :
    Statement.Alike C g a b → Statement.Alike D g' a b
  | .declaration hd => .declaration (h.declWithin hg hd)
  | .expression he => .expression (h.part hg he)

theorem WhenBranch.Alike.mono (h : C.Le D) (hg : g ⊆ g') {inside : Region} {a b : WhenBranch}
    (hab : WhenBranch.Alike C inside g a b) : WhenBranch.Alike D inside g' a b where
  condition := Option.rel_imp (fun _ _ => h.part (by grind)) hab.condition
  result := h.part hg hab.result

theorem Catch.Alike.mono (h : C.Le D) (hg : g ⊆ g') {a b : Catch} (hab : Catch.Alike C g a b) :
    Catch.Alike D g' a b :=
  ⟨h.declWithin hg hab.parameter, h.part hg hab.body⟩

theorem ExprKind.Alike.mono (h : C.Le D) (hg : g ⊆ g') {a b : ExprKind}
    (hab : ExprKind.Alike C g a b) : ExprKind.Alike D g' a b := by
  have hp : ∀ x y, C.part g x y → D.part g' x y := fun _ _ => h.part hg
  have hin : ∀ p, ∀ x y, C.part (p :: g) x y → D.part (p :: g') x y :=
    fun p _ _ => h.part (List.cons_subset_cons p hg)
  have hslots : ∀ x y, Option.Rel (C.part g) x y → Option.Rel (D.part g') x y :=
    fun _ _ => Option.rel_imp hp
  cases hab with
  | literal => exact .literal
  | block hs => exact .block (hs.imp fun _ _ => Statement.Alike.mono h hg)
  | read ha => exact .read (ha.mono h hg)
  | call ha hx => exact .call (ha.mono h hg) (hx.imp hslots)
  | delegatedCall hc hx => exact .delegatedCall (h.symbol hc) (hx.imp hslots)
  | assignment ha hv => exact .assignment (ha.mono h hg) (hp _ _ hv)
  | intrinsic hx => exact .intrinsic (hx.imp hp)
  | concatenation hx => exact .concatenation (hx.imp hp)
  | elvis hl hr => exact .elvis (hp _ _ hl) (hp _ _ hr)
  | typeOperation hx ht => exact .typeOperation (hp _ _ hx) (ht.mono h)
  | plainChoice hs hv hb =>
    exact .plainChoice (hslots _ _ hs) (Option.rel_imp (fun _ _ => h.declWithin hg) hv)
      (hb.imp fun _ _ => WhenBranch.Alike.mono h hg)
  | choice hr hs hv hb =>
    exact .choice (h.holder hr) (hslots _ _ hs) (Option.rel_imp (fun _ _ => h.declWithin hg) hv)
      (hb.imp fun _ _ => WhenBranch.Alike.mono h hg)
  | whenSubject hr hm => exact .whenSubject (h.holder hr) (hg hm)
  | whileLoop ht hc hb => exact .whileLoop (h.holder ht) (hp _ _ hc) (hin _ _ _ hb)
  | doWhile ht hc hb => exact .doWhile (h.holder ht) (hin _ _ _ hc) (hin _ _ _ hb)
  | breakJump ht hm => exact .breakJump (h.holder ht) (hg hm)
  | continueJump ht hm => exact .continueJump (h.holder ht) (hg hm)
  | returnJump ht hm hv => exact .returnJump (h.holder ht) (hg hm) (hp _ _ hv)
  | throwing hx => exact .throwing (hp _ _ hx)
  | tryCatch hb hc hf =>
    exact .tryCatch (hp _ _ hb) (hc.imp fun _ _ => Catch.Alike.mono h hg) (hslots _ _ hf)
  | thisRef => exact .thisRef
  | superRef ht => exact .superRef (Option.rel_imp (fun _ _ => TreeType.Alike.mono h) ht)
  | classReference hc => exact .classReference (h.symbol hc)
  | callableReference ha => exact .callableReference (ha.mono h hg)
  | lambda hd => exact .lambda (h.declWithin hg hd)
  | anonymousObject hd => exact .anonymousObject (h.declWithin hg hd)
  | safeCall hr hs hx => exact .safeCall (hp _ _ hr) (hp _ _ hs) (hp _ _ hx)
  | safeCallSubject hr => exact .safeCallSubject (hp _ _ hr)
  | vararg hx => exact .vararg (hx.imp hp)
  | spread hx => exact .spread (hp _ _ hx)
  | delegateField hs hr => exact .delegateField (h.symbol hs) (hslots _ _ hr)
  | unit => exact .unit
  | malformed => exact .malformed

theorem Expr.Alike.mono (h : C.Le D) (hg : g ⊆ g') {a b : Expr} (hab : Expr.Alike C g a b) :
    Expr.Alike D g' a b :=
  ⟨hab.type.mono h, hab.annotations.imp fun _ _ => h.note, hab.kind.mono h hg⟩

end mono

end TypedTree
