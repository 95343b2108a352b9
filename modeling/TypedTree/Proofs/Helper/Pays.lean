import TypedTree.Proofs.Lookup.Passes

namespace TypedTree

/-- What lowering is made of. The list has helpers without a declaration, which get theirs on the
way if the work succeeds; stubs are among the declarations only where that is admitted. -/
inductive Builds (σ : Setting) (stubs : Bool) : {α : Type} → List SymbolId → Lower α → Prop
  | pure {α : Type} (a : α) : Builds σ stubs [] (Pure.pure a : Lower α)
  | throw {α : Type} (ids : List SymbolId) (e : LowerError) :
      Builds σ stubs ids (MonadExcept.throw e : Lower α)
  | seq {α β : Type} {ids} {m : Lower α} {k : α → Lower β} : Builds σ stubs [] m →
      (∀ a, Builds σ stubs ids (k a)) → Builds σ stubs ids (m >>= k)
  | pay {α β : Type} {id ids} {m : Lower α} {k : α → Lower β} : Builds σ stubs [id] m →
      (∀ a, Builds σ stubs ids (k a)) → Builds σ stubs (id :: ids) (m >>= k)
  | forget {α : Type} {ids} {m : Lower α} : Builds σ stubs ids m → Builds σ stubs [] m
  | read {β : Type} {k : Setting → Lower β} : (∀ v, k (σ.withVerify v) = k σ) →
      Builds σ stubs [] (k σ) → Builds σ stubs [] (read >>= k)
  | get : Builds σ stubs [] (MonadState.get : Lower State)
  | fresh {β : Type} {kind name ids} {k : SymbolId → Lower β} :
      (∀ id, Builds σ stubs (id :: ids) (k id)) →
      Builds σ stubs ids (Lower.freshLocal kind name >>= k)
  | symbolOf {kind desc} : kind ≠ .initializer → Builds σ stubs [] (Lower.symbolOf kind desc)
  | symbolFor {desc} : Builds σ stubs [] (Lower.symbolFor desc)
  | newFunctionTarget {label isLambda} : Builds σ stubs [] (Lower.newFunctionTarget label isLambda)
  | newLoopTarget {label} : Builds σ stubs [] (Lower.newLoopTarget label)
  | newWhenRef : Builds σ stubs [] Lower.newWhenRef
  | addExpr {type kind} : Builds σ stubs [] (Lower.addExpr type kind)
  | annotateExpr {id calls} : Builds σ stubs [] (Lower.annotateExpr id calls)
  | bindFunctionTarget {id decl} : Builds σ stubs [] (Lower.bindFunctionTarget id decl)
  | bindLoopTarget {id expr} : Builds σ stubs [] (Lower.bindLoopTarget id expr)
  | bindWhenRef {id expr} : Builds σ stubs [] (Lower.bindWhenRef id expr)
  | declare {id origin calls kind} : (origin = .stub → stubs = true) →
      Builds σ stubs [id] (Lower.declare id origin calls kind)
  | convert {id} : Builds σ stubs [] (Lower.convert id)
  | constant {value expected} : Builds σ stubs [] (Lower.constant value expected)
  | annotationCall {use} : Builds σ stubs [] (Lower.annotationCall use)
  | countPass : Builds σ stubs []
      (modify fun s => { s with stats.passes := s.stats.passes + 1 } : Lower Unit)

/-- Work that makes no stubs. If it succeeds, the given helpers have their declarations, and so have
all that it made itself. -/
abbrev Pays {α : Type} (σ : Setting) (ids : List SymbolId) (m : Lower α) : Prop :=
  Builds σ false ids m

/-- If the step succeeds, no helper that it made lacks its declaration. -/
abbrev Tidy {α : Type} (σ : Setting) (m : Lower α) : Prop := Pays σ [] m

/-- If the step succeeds, the given helpers have their declarations, and so have all that it made
itself. -/
def Clears {α : Type} (σ : Setting) (ids : List SymbolId) (m : Lower α) : Prop :=
  ∀ s, s.Coherent σ → m.Ends σ s
    (fun _ s' => s'.Coherent σ ∧ ∀ id, s'.Owes id → s.Owes id ∧ id ∉ ids)
    fun _ s' => s'.Coherent σ

variable {σ : Setting} {ids : List SymbolId} {α β : Type} {m : Lower α} {k : α → Lower β}

namespace Clears

theorem forget (h : Clears σ ids m) : Clears σ [] m := fun s hs =>
  (h s hs).imp (fun _ _ ⟨hs', howes⟩ => ⟨hs', fun id hid => ⟨(howes id hid).1, by simp⟩⟩)
    fun _ _ hs' => hs'

theorem pure : Clears σ [] (Pure.pure a : Lower α) := fun _ hs =>
  .pure ⟨hs, fun _ hid => ⟨hid, by simp⟩⟩

theorem throw : Clears σ ids (MonadExcept.throw e : Lower α) := fun _ hs =>
  .throw hs

theorem seq (h : Clears σ [] m) (hk : ∀ a, Clears σ ids (k a)) : Clears σ ids (m >>= k) :=
  fun s hs => (h s hs).bind fun a s1 ⟨hs1, howes1⟩ => (hk a s1 hs1).imp
    (fun _ _ ⟨hs2, howes2⟩ => ⟨hs2, fun id hid =>
      ⟨(howes1 id (howes2 id hid).1).1, (howes2 id hid).2⟩⟩) fun _ _ hs2 => hs2

theorem pay {id : SymbolId} (h : Clears σ [id] m) (hk : ∀ a, Clears σ ids (k a)) :
    Clears σ (id :: ids) (m >>= k) := fun s hs =>
  (h s hs).bind fun a s1 ⟨hs1, howes1⟩ => (hk a s1 hs1).imp (fun _ _ ⟨hs2, howes2⟩ =>
    ⟨hs2, fun id' hid' => by
      obtain ⟨howed, hids⟩ := howes2 id' hid'
      obtain ⟨howed, hid⟩ := howes1 id' howed
      exact ⟨howed, List.not_mem_cons_of_ne_of_not_mem (List.ne_of_not_mem_cons hid) hids⟩⟩)
    fun _ _ hs2 => hs2

theorem fresh {k : SymbolId → Lower β} (hk : ∀ id, Clears σ (id :: ids) (k id)) :
    Clears σ ids (Lower.freshLocal kind name >>= k) := by
  intro s hs
  refine .bind (Q := fun id s' => id = ⟨s.table.symbols.size⟩ ∧
    s' = { s with table := (s.table.fresh kind (.unqualified name)).2 }) (.modifyGet ⟨rfl, rfl⟩) ?_
  rintro _ _ ⟨rfl, rfl⟩
  refine (hk _ _ (hs.fresh kind (.unqualified name))).imp (fun _ _ ⟨hs', howes⟩ => ⟨hs', ?_⟩)
    fun _ _ hs' => hs'
  intro id hid
  obtain ⟨⟨hloose, x, hx, ho⟩, hnot⟩ := howes id hid
  obtain ⟨hne, hids⟩ := List.ne_and_not_mem_of_not_mem_cons hnot
  refine ⟨⟨hloose, x, ?_, ho⟩, hids⟩
  obtain ⟨i⟩ := id
  simp only [SymbolTable.get?, SymbolTable.fresh, Array.getElem?_push] at hx
  rw [if_neg (fun hi => hne (congrArg _ hi))] at hx
  exact hx

theorem get : Clears σ [] (MonadState.get : Lower State) := fun s hs =>
  .of_runFrom (fun _ => Lower.runFrom_get _ s) ⟨hs, fun _ hid => ⟨hid, by simp⟩⟩

theorem modifyGet {f : State → α × State}
    (hf : ∀ s, (f s).2.table = s.table ∧ (f s).2.types = s.types) :
    Clears σ [] (MonadStateOf.modifyGet f : Lower α) := fun s hs =>
  .modifyGet ⟨hs.of_eq (hf s).1 (hf s).2, fun _ hid => ⟨by
    rwa [State.Owes, (hf s).1] at hid, by simp⟩⟩

theorem modifyStore (store : Store) :
    Clears σ [] (modify fun s => { s with store := store } : Lower Unit) :=
  modifyGet fun _ => ⟨rfl, rfl⟩

theorem of_seeks (h : Seeks σ C ls m) : Clears σ [] m :=
  fun s hs => (h s hs).imp (fun _ _ ⟨hs', hadds, _⟩ =>
    ⟨hs', fun _ hid => ⟨hadds.owes hid, by simp⟩⟩) fun _ _ ⟨hs', _⟩ => hs'

theorem symbolFor : Clears σ [] (Lower.symbolFor desc) := by
  intro s hs
  cases hd : σ.world.descriptor? desc with
  | none =>
    refine .get_bind (.read_bind (fun _ => rfl) ?_)
    rw [SymbolTable.symbolFor?, hd]
    exact .throw hs
  | some d =>
    refine (Seeks.ends_symbolFor hs hd).imp (fun _ _ h => ⟨h.1, fun _ hid => ?_⟩) fun _ _ h => h.1
    exact ⟨h.2.1.owes hid, List.not_mem_nil⟩

theorem present : Clears σ [] (Lower.present x) := by
  cases x with
  | none => exact throw
  | some a => exact pure

theorem bound : Clears σ [] (Lower.bound result) :=
  present.seq fun r => by
    cases r with
    | ok a => exact pure
    | error cause => exact throw

theorem bindSymbol {id : SymbolId} : Clears σ [id] (Lower.bindSymbol id decl) := by
  intro s hs
  refine .get_bind ?_
  cases hx : s.table.get? id with
  | none =>
    have hbind : s.table.bind? id decl = none := by
      simp only [SymbolTable.get?] at hx
      simp [SymbolTable.bind?, Store.changeAt, hx]
    rw [hbind]
    exact .throw hs
  | some x =>
    rw [SymbolTable.bind?_eq hx]
    cases ho : x.owner with
    | some existing => exact .throw hs
    | none =>
      refine .modify (f := fun s => { s with table := _ }) ⟨hs.own hx decl, fun id' hid' => ?_⟩
      obtain ⟨hloose, y, hy, hnone⟩ := hid'
      rw [SymbolTable.get?_own hx] at hy
      split at hy
      next =>
        cases hy
        cases hnone
      next hne => exact ⟨⟨hloose, y, hy, hnone⟩, by simpa using hne⟩

theorem count : Clears σ [] (Lower.count origin) :=
  modifyGet fun _ => by cases origin <;> exact ⟨rfl, rfl⟩

theorem declare {id : SymbolId} : Clears σ [id] (Lower.declare id origin calls kind) :=
  seq (modifyGet fun _ => ⟨rfl, rfl⟩) fun _ => bindSymbol.pay fun _ => count.seq fun _ => pure

end Clears

theorem Builds.clears (h : Builds σ stubs ids m) : Clears σ ids m := by
  have hbind {bind : State → Option (Except BindError Store)} :
      Clears σ [] (do
        let store ← Lower.bound (bind (← MonadState.get))
        modify fun s => { s with store := store } : Lower Unit) :=
    Clears.get.seq fun _ => Clears.bound.seq Clears.modifyStore
  induction h with
  | pure => exact .pure
  | throw => exact .throw
  | seq _ _ ih ihk => exact ih.seq ihk
  | pay _ _ ih ihk => exact ih.pay ihk
  | forget _ ih => exact ih.forget
  | read hv _ ih => exact fun s hs => (ih s hs).read_bind hv
  | get => exact .get
  | fresh _ ih => exact .fresh ih
  | symbolOf hkind => exact .of_seeks (C := fun _ => True) (Seeks.symbolOf hkind)
  | symbolFor => exact .symbolFor
  | newFunctionTarget | newLoopTarget | newWhenRef | addExpr | countPass =>
    exact .modifyGet fun _ => ⟨rfl, rfl⟩
  | annotateExpr =>
    exact (Clears.get.seq fun _ => .present).seq fun _ => .modifyGet fun _ => ⟨rfl, rfl⟩
  | bindFunctionTarget | bindLoopTarget | bindWhenRef => exact hbind
  | declare => exact .declare
  | convert => exact .of_seeks (Seeks.convert _)
  | constant =>
    exact (Clears.of_seeks (Seeks.constantWith Seeks.convert _ _)).seq fun _ =>
      .of_seeks (C := fun _ => True) Seeks.addContent
  | annotationCall =>
    exact (Clears.of_seeks (Seeks.annotationWith Seeks.convert _)).seq fun _ =>
      .of_seeks (C := fun _ => True) Seeks.addContent

theorem Builds.mapM {γ : Type} {xs : List γ} {f : γ → Lower α} (h : ∀ x, Builds σ stubs [] (f x)) :
    Builds σ stubs [] (xs.mapM f) := by
  induction xs with
  | nil => exact .pure []
  | cons x xs ih =>
    rw [List.mapM_cons]
    exact (h x).seq fun _ => ih.seq fun _ => .pure _

namespace Pays

theorem tidy (h : Pays σ ids m) : Tidy σ m := h.forget

theorem throw : Pays σ ids (MonadExcept.throw e : Lower α) := Builds.throw ids e

theorem bind {id : SymbolId} (h : Pays σ [id] m) (hk : ∀ a, Pays σ ids (k a)) :
    Pays σ (id :: ids) (m >>= k) := h.pay hk

theorem fresh {k : SymbolId → Lower β} (hk : ∀ id, Pays σ (id :: ids) (k id)) :
    Pays σ ids (Lower.freshLocal kind name >>= k) :=
  Builds.fresh hk

theorem declare {id : SymbolId} (ho : origin ≠ .stub) :
    Pays σ [id] (Lower.declare id origin calls kind) :=
  Builds.declare fun h => (ho h).elim

end Pays

namespace Tidy

open Lower

theorem bind (h : Tidy σ m) (hk : ∀ a, Pays σ ids (k a)) : Pays σ ids (m >>= k) := h.seq hk

theorem pure : Tidy σ (Pure.pure a : Lower α) := Builds.pure a

theorem throw : Tidy σ (MonadExcept.throw e : Lower α) := Pays.throw

theorem map (h : Tidy σ m) : Tidy σ (f <$> m) := by
  rw [map_eq_pure_bind]
  exact h.bind fun _ => pure

theorem read_bind {k : Setting → Lower β} (hv : ∀ v, k (σ.withVerify v) = k σ)
    (h : Tidy σ (k σ)) : Tidy σ (read >>= k) := Builds.read hv h

theorem get : Tidy σ (MonadState.get : Lower State) := Builds.get

theorem mapM {γ : Type} {xs : List γ} {f : γ → Lower α} (h : ∀ x, Tidy σ (f x)) :
    Tidy σ (xs.mapM f) := Builds.mapM h

theorem optionMapM {γ : Type} {x : Option γ} {f : γ → Lower α} (h : ∀ x, Tidy σ (f x)) :
    Tidy σ (x.mapM f) := by
  cases x with
  | none => exact pure
  | some x => exact (h x).map

theorem foldlM {γ : Type} {xs : List γ} {f : α → γ → Lower α} (h : ∀ a x, Tidy σ (f a x)) {a : α} :
    Tidy σ (xs.foldlM f a) := by
  induction xs generalizing a with
  | nil => exact pure
  | cons x xs ih =>
    rw [List.foldlM_cons]
    exact (h a x).bind fun _ => ih

section reading

theorem present : Tidy σ (Lower.present x) := by
  cases x with
  | none => exact throw
  | some a => exact pure

theorem descriptor {id : DescId} : Tidy σ (Lower.descriptor id) :=
  read_bind (fun _ => rfl) present

theorem node {id : NodeId} : Tidy σ (Lower.node id) := read_bind (fun _ => rfl) present

theorem facts {id : NodeId} : Tidy σ (Lower.facts id) := read_bind (fun _ => rfl) pure

theorem deparenthesize {id : NodeId} : Tidy σ (Lower.deparenthesize id) :=
  read_bind (fun _ => rfl) pure

theorem expr {id : ExprId} : Tidy σ (Lower.expr id) := get.bind fun _ => present

theorem decl {id : DeclId} : Tidy σ (Lower.decl id) := get.bind fun _ => present

theorem unexpected {id : NodeId} : Tidy σ (Lower.unexpected id what : Lower α) :=
  node.bind fun _ => throw

theorem unexpectedDeclaration : Tidy σ (Lower.unexpectedDeclaration d what : Lower α) := throw

theorem required {id : NodeId} : Tidy σ (Lower.required fact what id) := by
  cases fact with
  | none => exact node.bind fun _ => throw
  | some a => exact pure

theorem declared {id : NodeId} : Tidy σ (Lower.declared id) := facts.bind fun _ => required

theorem exprType {id : ExprId} : Tidy σ (Lower.exprType id) := expr.bind fun _ => pure

theorem declaredType {id : DeclId} : Tidy σ (Lower.declaredType id) := decl.bind fun _ => pure

end reading

section making

theorem symbolOf (hkind : kind ≠ .initializer) : Tidy σ (Lower.symbolOf kind desc) :=
  Builds.symbolOf hkind

theorem symbolFor : Tidy σ (Lower.symbolFor desc) := Builds.symbolFor

theorem newFunctionTarget : Tidy σ (Lower.newFunctionTarget label isLambda) :=
  Builds.newFunctionTarget

theorem newLoopTarget : Tidy σ (Lower.newLoopTarget label) :=
  Builds.newLoopTarget

theorem newWhenRef : Tidy σ Lower.newWhenRef := Builds.newWhenRef

theorem addExpr : Tidy σ (Lower.addExpr type kind) :=
  Builds.addExpr

theorem addLoop : Tidy σ (Lower.addLoop target type kind) :=
  addExpr.bind fun _ => Tidy.bind Builds.bindLoopTarget fun _ => pure

end making

end Tidy

theorem Pays.declareCallable {id : SymbolId} (ho : origin ≠ .stub) :
    Pays σ [id] (Lower.declareCallable target id origin calls kind) :=
  (Pays.declare ho).bind fun _ => Tidy.bind Builds.bindFunctionTarget fun _ => Tidy.pure

namespace Tidy

section types

theorem convert {id : TypeId} : Tidy σ (Lower.convert id) := Builds.convert

theorem convertAll {ids : List TypeId} : Tidy σ (Lower.convertAll ids) := mapM fun _ => convert

theorem convertOptional {id : Option TypeId} : Tidy σ (Lower.convertOptional id) :=
  optionMapM fun _ => convert

theorem constant : Tidy σ (Lower.constant value expected) := Builds.constant

theorem annotationCall : Tidy σ (Lower.annotationCall use) :=
  Builds.annotationCall

theorem expressionType {id : NodeId} : Tidy σ (Lower.expressionType id) :=
  facts.bind fun _ => by split <;> exact convert

theorem writtenType {id : NodeId} : Tidy σ (Lower.writtenType id) :=
  facts.bind fun _ => required.bind fun _ => convert

theorem unitValue : Tidy σ Lower.unitValue := convert.bind fun _ => addExpr

theorem malformed : Tidy σ (Lower.malformed kind message) :=
  convert.bind fun _ => addExpr

theorem declare {id : SymbolId} (ho : origin ≠ .stub) :
    Tidy σ (Lower.declare id origin calls kind) := (Pays.declare ho).tidy

theorem declareCallable {id : SymbolId} (ho : origin ≠ .stub) :
    Tidy σ (Lower.declareCallable target id origin calls kind) := (Pays.declareCallable ho).tidy

end types

end Tidy

end TypedTree
