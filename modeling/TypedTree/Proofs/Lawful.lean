import TypedTree.Proofs.InRange
import TypedTree.Proofs.Tandem

namespace TypedTree

/-- Frames that show the same labels, and whose holders lie in a region. -/
inductive Frame.Alike (C : Correspondence) (g : Region) : Frame → Frame → Prop
  | root : Alike C g .root .root
  | function {t1 t2} : C.holder (.function t1) (.function t2) → (.function t1, .function t2) ∈ g →
      Alike C g (.function t1) (.function t2)
  | loop {t1 t2} : C.holder (.loop t1) (.loop t2) → (.loop t1, .loop t2) ∈ g →
      Alike C g (.loop t1) (.loop t2)
  | callee {name} : Alike C g (.callee name) (.callee name)

theorem Frame.Alike.mono (h : C.Le D) (hg : g ⊆ g') {a b : Frame} :
    Frame.Alike C g a b → Frame.Alike D g' a b
  | .root => .root
  | .function ht hm => .function (h.holder ht) (hg hm)
  | .loop ht hm => .loop (h.holder ht) (hg hm)
  | .callee => .callee

def Scope.Alike (C : Correspondence) (g : Region) (a b : Scope) : Prop :=
  List.Forall₂ (Frame.Alike C g) a b

theorem Scope.Alike.mono (hab : Scope.Alike C g a b) (h : C.Le D) (hg : g ⊆ g') :
    Scope.Alike D g' a b :=
  List.Forall₂.imp (fun _ _ => Frame.Alike.mono h hg) hab

theorem Scope.Alike.implicitLabel (h : Scope.Alike C g a b) :
    a.implicitLabel = b.implicitLabel := by
  induction h with
  | nil => rfl
  | cons hf _ ih => cases hf <;> simp_all [Scope.implicitLabel]

/-- Whether an expression is no owner of a holder. -/
def ExprKind.isPlain : ExprKind → Bool
  | .whileLoop _ _ _ | .doWhile _ _ _ | .choice (some _) _ _ _ => false
  | _ => true

/-- A type without arguments and annotations. -/
def TreeType.isBare (type : TreeType) : Bool := type.arguments.isEmpty && type.annotations.isEmpty

open Lower

abbrev Tandem.Finds {Stage : Type} [Preorder Stage] (T : Tandem Stage) (id : NodeId) : Prop :=
  T.world.Finds (.node id)

/-- What the steps that touch the state do to a stage. All else follows from it. -/
structure Tandem.Lawful {Stage : Type} [Preorder Stage] (T : Tandem Stage) : Prop where
  throws {w e} : (T.world.InRange → e ≠ .dangling) → (∀ cause, e ≠ .alreadyBound cause) →
    T.fails w e (T.first w)
  convert {w id} : T.world.Finds (.type id) →
    T.Same w (convert id) fun w' => TreeType.Alike (T.ids w')
  stringType {w} : T.Same w stringType fun w' a b =>
    TreeType.Alike (T.ids w') a b ∧ a.isBare ∧ b.isBare
  annotationCall {w use} : T.world.Knows use.refs →
    T.Same w (annotationCall use) fun w' => Option.Rel (T.ids w').note
  constant {w value expected} : T.world.Knows value.refs →
    (∀ id ∈ expected, T.world.Finds (.type id)) →
    T.Same w (constant value expected) fun w' =>
      Option.Rel ((T.ids w').expr [])
  symbolOf {w kind desc} : T.world.Finds (.desc desc) → T.world.Fits kind desc →
    T.Same w (symbolOf kind desc) fun w' => (T.ids w').symbol
  symbolFor {w desc} : T.world.Finds (.desc desc) →
    T.Same w (symbolFor desc) fun w' => (T.ids w').symbol
  freshLocal {w kind name} :
    T.Same w (freshLocal kind name) fun w' => (T.ids w').symbol
  symbol_unique {w a1 a2 b1 b2} : (T.ids w).symbol a1 a2 → (T.ids w).symbol b1 b2 →
    (a1 = b1 ↔ a2 = b2)
  part {w g e1 e2} : (T.ids w).part g e1 e2 → ∃ x1 x2, (T.first w).store.expr? e1 = some x1 ∧
    (T.second w).store.expr? e2 = some x2 ∧ Expr.Alike (T.ids w) g x1 x2
  decl {w g d1 d2} : (T.ids w).decl g d1 d2 → ∃ x1 x2 g', (T.first w).store.decl? d1 = some x1 ∧
    (T.second w).store.decl? d2 = some x2 ∧ Decl.Alike (T.ids w) g' x1 x2
  functionTarget {w t1 t2} : (T.ids w).holder (.function t1) (.function t2) →
    ∃ x1 x2, (T.first w).store.functionTarget? t1 = some x1 ∧
      (T.second w).store.functionTarget? t2 = some x2 ∧ x1.label = x2.label ∧
      x1.isLambda = x2.isLambda
  loopTarget {w t1 t2} : (T.ids w).holder (.loop t1) (.loop t2) →
    ∃ x1 x2, (T.first w).store.loopTarget? t1 = some x1 ∧
      (T.second w).store.loopTarget? t2 = some x2 ∧ x1.label = x2.label
  newFunctionTarget {w label isLambda} :
    T.Runs w (newFunctionTarget label isLambda) (newFunctionTarget label isLambda) fun w' t1 t2 =>
      T.opens w' = (.function t1, .function t2) :: T.opens w ∧
        (T.ids w').holder (.function t1) (.function t2)
  newLoopTarget {w label} : T.Runs w (newLoopTarget label) (newLoopTarget label) fun w' t1 t2 =>
    T.opens w' = (.loop t1, .loop t2) :: T.opens w ∧ (T.ids w').holder (.loop t1) (.loop t2)
  newWhenRef {w} : T.Runs w newWhenRef newWhenRef fun w' r1 r2 =>
    T.opens w' = (.choice r1, .choice r2) :: T.opens w ∧ (T.ids w').holder (.choice r1) (.choice r2)
  addExpr {w g τ1 τ2 k1 k2} : TreeType.Alike (T.ids w) τ1 τ2 → ExprKind.Alike (T.ids w) g k1 k2 →
    k1.isPlain → T.Does w (addExpr τ1 k1) (addExpr τ2 k2) fun w' => (T.ids w').expr g
  addLoop {w g o t1 t2 τ1 τ2 k1 k2} : T.opens w = (.loop t1, .loop t2) :: o →
    TreeType.Alike (T.ids w) τ1 τ2 → ExprKind.Alike (T.ids w) g k1 k2 →
    .holds (.loop t1) ∈ k1.mentions →
    T.Runs w (addLoop t1 τ1 k1) (addLoop t2 τ2 k2) fun w' e1 e2 =>
      T.opens w' = o ∧ (T.ids w').expr g e1 e2
  addChoice {w g o r1 r2 τ1 τ2 k1 k2} : T.opens w = (.choice r1, .choice r2) :: o →
    TreeType.Alike (T.ids w) τ1 τ2 → ExprKind.Alike (T.ids w) g k1 k2 →
    .holds (.choice r1) ∈ k1.mentions →
    T.Runs w (addChoice r1 τ1 k1) (addChoice r2 τ2 k2) fun w' e1 e2 =>
      T.opens w' = o ∧ (T.ids w').expr g e1 e2
  annotateExpr {w g e1 e2 xs1 xs2} : (T.ids w).expr g e1 e2 →
    List.Forall₂ (T.ids w).note xs1 xs2 →
    T.Does w (annotateExpr e1 xs1) (annotateExpr e2 xs2) fun _ _ _ => True
  declare {w g s1 s2 origin xs1 xs2 k1 k2} : (T.ids w).symbol s1 s2 →
    List.Forall₂ (T.ids w).note xs1 xs2 → DeclKind.Alike (T.ids w) g k1 k2 →
    T.Does w (declare s1 origin xs1 k1) (declare s2 origin xs2 k2) fun w' => (T.ids w').decl g
  declareCallable {w g o t1 t2 s1 s2 origin xs1 xs2 k1 k2} :
    T.opens w = (.function t1, .function t2) :: o → (T.ids w).symbol s1 s2 →
    List.Forall₂ (T.ids w).note xs1 xs2 →
    DeclKind.Alike (T.ids w) ((.function t1, .function t2) :: g) k1 k2 → k1.isCallable →
    T.Runs w (declareCallable t1 s1 origin xs1 k1) (declareCallable t2 s2 origin xs2 k2)
      fun w' d1 d2 => T.opens w' = o ∧ (T.ids w').decl g d1 d2

end TypedTree
