import TypedTree.Proofs.Trace.Declaration

namespace TypedTree

open Desk Token Carries

instance : Carries TreeFile := ⟨fun f => tokens f.annotations, inferInstance⟩

@[simp] theorem tokens_file (f : TreeFile) : tokens f = tokens f.annotations := rfl

namespace Does

variable {σ : Setting} {s : State} {d : Descent} {scope : Scope}

section

variable (hd : Descends σ d)

include hd

theorem declarationStep {id : NodeId} :
    Does σ s 0 (Lower.declarationStep d scope id) anything tokens := by
  refine node_bind fun _ _ => ?_
  split
  next => exact lowerClass hd
  next => exact lowerEnumEntry hd
  next => exact lowerFunction hd
  next => exact lowerProperty hd
  next => exact lowerTypeAlias
  next => exact (lowerConstructor hd).any
  next => exact lowerInitializer hd
  next => exact unexpected

theorem lowerCatch : Does σ s 0 (Lower.lowerCatch d scope clause) anything tokens :=
  Does.seq (lowerValueParameter hd) fun _ _ _ _ => Does.seq (lowerBody hd) fun _ _ _ _ =>
    pure trivial (by simp)

theorem lowerTry {id : NodeId} :
    Does σ s 0 (Lower.lowerTry d scope id body catches finalizer) anything tokens := by
  refine Does.seq (lowerBody hd) fun _ _ _ _ => ?_
  refine Does.seq (mapM_each fun _ _ _ _ => lowerCatch hd) fun _ _ _ _ => ?_
  refine Does.seq (optionMapM fun _ _ => lowerBody hd) fun _ _ _ _ => ?_
  exact Does.seq expressionType fun _ _ _ hτ => addExpr hτ (by simp) (by simp; abel)

omit hd in
/-- The parameter of a loop is a property, and a lambda is an anonymous function. -/
theorem agrees_node {id : NodeId} (hn : σ.world.tree.node? id = some n) :
    σ.world.Agrees (σ.world.keysOfNode id n.kind) := fun hw => hw.node hn

theorem lowerLabeled : Does σ s 0 (Lower.lowerLabeled d scope label body) anything tokens := by
  refine deparenthesize_bind (node_bind fun n hn => ?_)
  have hk := agrees_node hn
  split
  next heq => exact lowerLambda hd (by simpa [World.keysOfNode, heq] using hk)
  next => exact lowerAnonymousFunction hd
  next => exact lowerWhile hd
  next => exact lowerDoWhile hd
  next heq => exact lowerFor hd (by simpa [World.keysOfNode, heq] using hk)
  next => exact hd.expr

theorem expressionStep {id : NodeId} :
    Does σ s 0 (Lower.expressionStep d scope id) anything tokens := by
  have hdeclaration : Does σ s 0 (do
      Lower.block [.declaration (← Lower.declarationStep d scope id)]) anything tokens :=
    Does.seq (declarationStep hd) fun _ _ _ _ => block.weaken (by simp)
  refine node_bind fun n hn => ?_
  have hk := agrees_node hn
  split
  next => exact hdeclaration
  next => exact hdeclaration
  next => exact hdeclaration
  next => exact hdeclaration
  next => exact lowerAnonymousFunction hd
  next => exact lowerDestructuring hd
  next => exact lowerConstant
  next => exact lowerTemplate hd
  next => exact (lowerSelector hd).weaken (by simp)
  next => exact (lowerSelector hd).weaken (by simp)
  next => exact lowerQualified hd
  next => exact lowerArrayAccess hd
  next => exact lowerUnary hd
  next => exact lowerBinary hd
  next => exact lowerTypeCheck hd
  next => exact lowerCast hd
  next => exact lowerIf hd
  next => exact lowerWhen hd
  next => exact lowerWhile hd
  next => exact lowerDoWhile hd
  next heq => exact lowerFor hd (by simpa [World.keysOfNode, heq] using hk)
  next => exact lowerBreak
  next => exact lowerContinue
  next => exact lowerReturn hd
  next => exact lowerLabeled hd
  next => exact lowerThrow hd
  next => exact lowerTry hd
  next heq => exact lowerLambda hd (by simpa [World.keysOfNode, heq] using hk)
  next => exact lowerObjectLiteral hd
  next => exact lowerBlock hd
  next => exact hd.expr
  next => exact Does.seq expressionType fun _ _ _ hτ => addExpr hτ (by simp) (by simp)
  next => exact malformed
  next => exact lowerClassLiteral
  next => exact lowerCallableReference hd
  next => exact lowerAnnotated hd
  next => exact malformed
  all_goals exact unexpected

end

theorem descends : (fuel : Nat) → Descends σ (Lower.descent fuel)
  | 0 => ⟨throw, throw⟩
  | fuel + 1 => ⟨expressionStep (descends fuel), declarationStep (descends fuel)⟩

theorem lowerFile : Does σ s 0 (Lower.lowerFile file) anything tokens := by
  refine Does.seq annotationEntries fun _ _ _ _ => ?_
  refine Does.seq (mapM_each fun _ _ _ _ => read_bind (descends _).decl) fun _ _ _ _ => ?_
  exact pure trivial (by simp)

end Does

end TypedTree
