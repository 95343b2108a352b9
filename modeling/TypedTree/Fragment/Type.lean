import TypedTree.Source.Modifier
import TypedTree.Source.Span

namespace TypedTree

/-- Position of a symbol in its table. -/
structure SymbolId where
  index : Nat
deriving DecidableEq, Repr

/-- Position of a declaration in its store. -/
structure DeclId where
  index : Nat
deriving DecidableEq, Repr

/-- Position of an expression in its store. -/
structure ExprId where
  index : Nat
deriving DecidableEq, Repr

structure FunctionTargetId where
  index : Nat
deriving DecidableEq, Repr

structure LoopTargetId where
  index : Nat
deriving DecidableEq, Repr

structure WhenRefId where
  index : Nat
deriving DecidableEq, Repr

mutual

structure TreeType where
  classifier : SymbolId
  nullable : Bool
  arguments : List TypeProjection
  /-- Calls of annotation constructors. -/
  annotations : List ExprId

inductive TypeProjection where
  | star
  | projection (variance : Variance) (type : TreeType)

end

mutual

def TreeType.decEq : (a b : TreeType) → Decidable (a = b)
  | ⟨c, n, as, xs⟩, ⟨c', n', as', xs'⟩ =>
    if h : c = c' ∧ n = n' ∧ xs = xs' then
      match TypeProjection.decEqList as as' with
      | .isTrue ha => .isTrue (by obtain ⟨rfl, rfl, rfl⟩ := h; rw [ha])
      | .isFalse ha => .isFalse (by intro e; injection e; contradiction)
    else .isFalse (by intro e; injection e; exact h ⟨‹_›, ‹_›, ‹_›⟩)

def TypeProjection.decEq : (a b : TypeProjection) → Decidable (a = b)
  | .star, .star => .isTrue rfl
  | .star, .projection _ _ => .isFalse (by intro e; cases e)
  | .projection _ _, .star => .isFalse (by intro e; cases e)
  | .projection v t, .projection v' t' =>
    if h : v = v' then
      match TreeType.decEq t t' with
      | .isTrue ht => .isTrue (by rw [h, ht])
      | .isFalse ht => .isFalse (by intro e; injection e; contradiction)
    else .isFalse (by intro e; injection e; contradiction)

def TypeProjection.decEqList : (as bs : List TypeProjection) → Decidable (as = bs)
  | [], [] => .isTrue rfl
  | [], _ :: _ => .isFalse (by intro e; cases e)
  | _ :: _, [] => .isFalse (by intro e; cases e)
  | a :: as, b :: bs =>
    match TypeProjection.decEq a b, TypeProjection.decEqList as bs with
    | .isTrue h, .isTrue hs => .isTrue (by rw [h, hs])
    | .isFalse h, _ => .isFalse (by intro e; injection e; contradiction)
    | _, .isFalse hs => .isFalse (by intro e; injection e; contradiction)

end

instance : DecidableEq TreeType := TreeType.decEq

instance : DecidableEq TypeProjection := TypeProjection.decEq

def TreeType.nonNull (t : TreeType) : TreeType := { t with nullable := false }

end TypedTree
