import TypedTree.Proofs.Ledger.Holders
import TypedTree.Proofs.Ledger.Table
import TypedTree.Proofs.Run

namespace TypedTree

open Lower

variable {σ : Setting} {s : State}

theorem modify_eq_setIfInBounds {α : Type} {xs : Array α} {x : α} (f : α → α)
    (h : xs[i]? = some x) :
    xs.modify i f = xs.setIfInBounds i (f x) := by
  obtain ⟨hi, rfl⟩ := Array.getElem?_eq_some_iff.1 h
  refine Array.ext_getElem? fun j => ?_
  rw [Array.getElem?_modify, Array.getElem?_setIfInBounds]
  by_cases hj : i = j
  · subst hj
    simp [hi]
  · simp [hj]

theorem runFrom_annotateExpr {id : ExprId} (h : s.store.expr? id = some x) (calls : List ExprId) :
    (annotateExpr id calls).runFrom σ s =
      (.ok (), { s with store := s.store.annotateExpr id calls }) := by
  simp [annotateExpr, expr, present, runFrom_bind, h]

theorem runFrom_bindLoopTarget (hh : s.store.Has (.loop t)) (ho : s.store.owner? (.loop t) = none)
    (e : ExprId) :
    (bindLoopTarget t e).runFrom σ s =
      (.ok (), { s with store := s.store.own (.loop t) (.expr e) }) := by
  obtain ⟨x, hx⟩ := Option.isSome_iff_exists.1 hh
  have hnone : x.owner = none := by simpa [Store.owner?, hx] using ho
  simp only [Store.loopTarget?] at hx
  simp [bindLoopTarget, bound, present, runFrom_bind, Store.bindLoopTarget, Store.changeAt, hx,
    LoopTarget.bind, hnone, Except.map, Store.own, modify_eq_setIfInBounds _ hx]

theorem runFrom_bindWhenRef (hh : s.store.Has (.choice r)) (ho : s.store.owner? (.choice r) = none)
    (e : ExprId) :
    (bindWhenRef r e).runFrom σ s =
      (.ok (), { s with store := s.store.own (.choice r) (.expr e) }) := by
  obtain ⟨x, hx⟩ := Option.isSome_iff_exists.1 hh
  have hnone : x.owner = none := by simpa [Store.owner?, hx] using ho
  simp only [Store.whenRef?] at hx
  simp [bindWhenRef, bound, present, runFrom_bind, Store.bindWhenRef, Store.changeAt, hx,
    WhenRef.bind, hnone, Except.map, Store.own, modify_eq_setIfInBounds _ hx]

/-- Binding an open holder makes its owner known, and succeeds. -/
theorem runFrom_addLoop (hh : s.store.Has (.loop t)) (ho : s.store.owner? (.loop t) = none)
    (type : TreeType) (kind : ExprKind) :
    (addLoop t type kind).runFrom σ s = (.ok ⟨s.store.exprs.size⟩,
      { s with
        store := (s.store.addExpr ⟨type, [], kind⟩).2.own (.loop t)
          (.expr ⟨s.store.exprs.size⟩) }) := by
  have hbind := runFrom_bindLoopTarget (σ := σ)
    (s := { s with store := (s.store.addExpr ⟨type, [], kind⟩).2 }) hh ho ⟨s.store.exprs.size⟩
  simp only [Store.addExpr] at hbind
  simp [addLoop, addExpr, runFrom_bind, runFrom_map, Store.addExpr, hbind, Except.map]

theorem runFrom_addChoice (hh : s.store.Has (.choice r)) (ho : s.store.owner? (.choice r) = none)
    (type : TreeType) (kind : ExprKind) :
    (addChoice r type kind).runFrom σ s = (.ok ⟨s.store.exprs.size⟩,
      { s with
        store := (s.store.addExpr ⟨type, [], kind⟩).2.own (.choice r)
          (.expr ⟨s.store.exprs.size⟩) }) := by
  have hbind := runFrom_bindWhenRef (σ := σ)
    (s := { s with store := (s.store.addExpr ⟨type, [], kind⟩).2 }) hh ho ⟨s.store.exprs.size⟩
  simp only [Store.addExpr] at hbind
  simp [addChoice, addExpr, runFrom_bind, runFrom_map, Store.addExpr, hbind, Except.map]

theorem runFrom_count (origin : Origin) : (count origin).runFrom σ s =
    (.ok (), { s with stats := s.stats.count origin }) := by
  cases origin <;> rfl

theorem runFrom_declare {id : SymbolId} (hx : s.table.get? id = some x) (origin : Origin)
    (calls : List ExprId) (kind : DeclKind) :
    (declare id origin calls kind).runFrom σ s = match x.owner with
      | some existing =>
        (.error (.alreadyBound (.symbolBound x.name existing ⟨s.store.decls.size⟩)),
          { s with store := (s.store.addDecl ⟨id, origin, calls, kind⟩).2 })
      | none => (.ok ⟨s.store.decls.size⟩,
          { s with
            store := (s.store.addDecl ⟨id, origin, calls, kind⟩).2
            table := s.table.own id x ⟨s.store.decls.size⟩
            stats := s.stats.count origin }) := by
  cases ho : x.owner with
  | some existing =>
    simp [declare, addDecl, bindSymbol, bound, present, runFrom_bind, SymbolTable.bind?_eq hx, ho,
      Store.addDecl]
  | none =>
    simp [declare, addDecl, bindSymbol, bound, present, runFrom_bind, SymbolTable.bind?_eq hx, ho,
      Store.addDecl, runFrom_map, runFrom_count, Except.map]

theorem runFrom_bindFunctionTarget (hh : s.store.Has (.function t))
    (ho : s.store.owner? (.function t) = none) (d : DeclId) :
    (bindFunctionTarget t d).runFrom σ s =
      (.ok (), { s with store := s.store.own (.function t) (.decl d) }) := by
  obtain ⟨x, hx⟩ := Option.isSome_iff_exists.1 hh
  have hnone : x.owner = none := by simpa [Store.owner?, hx] using ho
  simp only [Store.functionTarget?] at hx
  simp [bindFunctionTarget, bound, present, runFrom_bind, Store.bindFunctionTarget,
    Store.changeAt, hx, FunctionTarget.bind, hnone, Except.map, Store.own,
    modify_eq_setIfInBounds _ hx]

/-- Giving a holder its owner may fail, and then it changes nothing. -/
def Owns (σ : Setting) (s : State) (holder : Holder) (part : TreePart) (m : Lower Unit) : Prop :=
  (∃ e, m.runFrom σ s = (.error e, s)) ∨ s.store.owner? holder = none ∧
    m.runFrom σ s = (.ok (), { s with store := s.store.own holder part })

theorem owns_bindFunctionTarget (t : FunctionTargetId) (d : DeclId) :
    Owns σ s (.function t) (.decl d) (bindFunctionTarget t d) := by
  cases hx : s.store.functionTarget? t with
  | none =>
    refine .inl ⟨.dangling, ?_⟩
    simp only [Store.functionTarget?] at hx
    simp [bindFunctionTarget, bound, present, runFrom_bind, Store.bindFunctionTarget,
      Store.changeAt, hx]
  | some x =>
    cases ho : x.owner with
    | some existing =>
      refine .inl ⟨.alreadyBound (.functionTargetBound existing), ?_⟩
      simp only [Store.functionTarget?] at hx
      simp [bindFunctionTarget, bound, present, runFrom_bind, Store.bindFunctionTarget,
        Store.changeAt, hx, FunctionTarget.bind, ho, Except.map]
    | none =>
      have hnone : s.store.owner? (.function t) = none := by simp [Store.owner?, hx, ho]
      have hh : s.store.Has (.function t) := by simp [Store.Has, hx]
      exact .inr ⟨hnone, runFrom_bindFunctionTarget hh hnone d⟩

theorem owns_bindLoopTarget (t : LoopTargetId) (e : ExprId) :
    Owns σ s (.loop t) (.expr e) (bindLoopTarget t e) := by
  cases hx : s.store.loopTarget? t with
  | none =>
    refine .inl ⟨.dangling, ?_⟩
    simp only [Store.loopTarget?] at hx
    simp [bindLoopTarget, bound, present, runFrom_bind, Store.bindLoopTarget, Store.changeAt, hx]
  | some x =>
    cases ho : x.owner with
    | some existing =>
      refine .inl ⟨.alreadyBound (.exprTargetBound existing), ?_⟩
      simp only [Store.loopTarget?] at hx
      simp [bindLoopTarget, bound, present, runFrom_bind, Store.bindLoopTarget, Store.changeAt, hx,
        LoopTarget.bind, ho, Except.map]
    | none =>
      have hnone : s.store.owner? (.loop t) = none := by simp [Store.owner?, hx, ho]
      have hh : s.store.Has (.loop t) := by simp [Store.Has, hx]
      exact .inr ⟨hnone, runFrom_bindLoopTarget hh hnone e⟩

theorem owns_bindWhenRef (r : WhenRefId) (e : ExprId) :
    Owns σ s (.choice r) (.expr e) (bindWhenRef r e) := by
  cases hx : s.store.whenRef? r with
  | none =>
    refine .inl ⟨.dangling, ?_⟩
    simp only [Store.whenRef?] at hx
    simp [bindWhenRef, bound, present, runFrom_bind, Store.bindWhenRef, Store.changeAt, hx]
  | some x =>
    cases ho : x.owner with
    | some existing =>
      refine .inl ⟨.alreadyBound (.exprTargetBound existing), ?_⟩
      simp only [Store.whenRef?] at hx
      simp [bindWhenRef, bound, present, runFrom_bind, Store.bindWhenRef, Store.changeAt, hx,
        WhenRef.bind, ho, Except.map]
    | none =>
      have hnone : s.store.owner? (.choice r) = none := by simp [Store.owner?, hx, ho]
      have hh : s.store.Has (.choice r) := by simp [Store.Has, hx]
      exact .inr ⟨hnone, runFrom_bindWhenRef hh hnone e⟩

end TypedTree
