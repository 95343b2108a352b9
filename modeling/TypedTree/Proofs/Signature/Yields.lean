import TypedTree.Proofs.Reachable
import TypedTree.Proofs.Signature.View

namespace TypedTree

open Lower

/-- What is asked of the states of a run. Work that declares nothing keeps it. -/
structure Lasting (σ : Setting) (I : State → Prop) : Prop where
  coherent : ∀ {s}, I s → s.Coherent σ
  faithful : ∀ {s}, I s → s.Faithful σ
  quiet : ∀ {s s'}, I s → s.Le s' → s'.Coherent σ → s'.Faithful σ →
    s'.store.decls = s.store.decls → I s'

/-- What lowering keeps from one step to the next. -/
def State.Apt (σ : Setting) (s : State) : Prop := s.Coherent σ ∧ s.Faithful σ

theorem State.Apt.lasting : Lasting σ (State.Apt σ) where
  coherent h := h.1
  faithful h := h.2
  quiet _ _ hc hf _ := ⟨hc, hf⟩

/-- The step leads to a later state of the same kind, and to a result of which the assertion holds
if it succeeds. -/
def Yields {α : Type} (σ : Setting) (I : State → Prop) (s : State) (m : Lower α)
    (Q : State → α → Prop) : Prop :=
  I s → s.Le (m.runFrom σ s).2 ∧ I (m.runFrom σ s).2 ∧
    ∀ a, (m.runFrom σ s).1 = .ok a → Q (m.runFrom σ s).2 a

/-- What a step yields in the course of lowering. -/
abbrev Brings {α : Type} (σ : Setting) : State → Lower α → (State → α → Prop) → Prop :=
  Yields σ (State.Apt σ)

namespace Yields

variable {σ : Setting} {I : State → Prop} {s : State} {α β : Type} {m : Lower α} {k : α → Lower β}
  {P : State → α → Prop} {Q : State → β → Prop}

theorem pure (h : P s a) : Yields σ I s (Pure.pure a) P := fun hs =>
  ⟨.refl s, hs, fun _ hok => by cases hok; exact h⟩

theorem throw : Yields σ I s (MonadExcept.throw e : Lower α) P := fun hs =>
  ⟨.refl s, hs, fun _ hok => by cases hok⟩

theorem bind (h : Yields σ I s m P)
    (hk : ∀ a s', s.Le s' → I s' → P s' a → Yields σ I s' (k a) Q) :
    Yields σ I s (m >>= k) Q := by
  intro hs
  have hm := h hs
  rw [runFrom_bind]
  rcases hr : m.runFrom σ s with ⟨e | a, s'⟩
  · rw [hr] at hm
    exact ⟨hm.1, hm.2.1, fun _ hok => by cases hok⟩
  · rw [hr] at hm
    obtain ⟨hle, hs', hP⟩ := hm
    obtain ⟨hle', hs'', hQ⟩ := hk a s' hle hs' (hP a rfl) hs'
    exact ⟨hle.trans hle', hs'', hQ⟩

theorem imp (h : Yields σ I s m P) (hP : ∀ s' a, I s' → P s' a → P' s' a) :
    Yields σ I s m P' := fun hs =>
  have ⟨hle, hs', ha⟩ := h hs
  ⟨hle, hs', fun a hok => hP _ a hs' (ha a hok)⟩

theorem given (h : I s → Yields σ I s m P) : Yields σ I s m P := fun hs => h hs hs

theorem of_runFrom (h : Yields σ I s m P) (he : m'.runFrom σ s = m.runFrom σ s) :
    Yields σ I s m' P := by
  unfold Yields
  rwa [he]

theorem read_bind {k : Setting → Lower β} (h : Yields σ I s (k σ) Q) :
    Yields σ I s (read >>= k) Q :=
  h.of_runFrom (runFrom_bind_ok _ _ (runFrom_read _ _) _)

theorem get_bind {k : State → Lower β} (h : Yields σ I s (k s) Q) : Yields σ I s (get >>= k) Q :=
  h.of_runFrom (runFrom_bind_ok _ _ (runFrom_get _ _) _)

theorem present_bind (h : ∀ a, x = some a → Yields σ I s (k a) Q) :
    Yields σ I s (present x >>= k) Q := by
  cases x with
  | none => exact throw
  | some a => simpa only [present, pure_bind] using h a rfl

theorem node_bind {id : NodeId} {k : Node → Lower β}
    (h : ∀ n, σ.world.tree.node? id = some n → Yields σ I s (k n) Q) :
    Yields σ I s (node id >>= k) Q := by
  simp only [node, bind_assoc]
  exact read_bind (present_bind h)

theorem descriptor_bind {id : DescId} {k : Descriptor → Lower β}
    (h : ∀ d, σ.world.descriptor? id = some d → Yields σ I s (k d) Q) :
    Yields σ I s (descriptor id >>= k) Q := by
  simp only [descriptor, bind_assoc]
  exact read_bind (present_bind h)

theorem symbol_bind {id : SymbolId} {k : Symbol → Lower β}
    (h : ∀ x, s.table.get? id = some x → Yields σ I s (k x) Q) :
    Yields σ I s (symbol id >>= k) Q := by
  simp only [symbol, bind_assoc]
  exact get_bind (present_bind h)

theorem facts_bind {id : NodeId} {k : NodeFacts → Lower β}
    (h : Yields σ I s (k (σ.world.factsOf id)) Q) : Yields σ I s (facts id >>= k) Q := by
  simp only [facts, bind_assoc, pure_bind]
  exact read_bind h

theorem declared_bind {id : NodeId} {k : DescId → Lower β}
    (h : ∀ desc, (σ.world.factsOf id).declares = some desc → Yields σ I s (k desc) Q) :
    Yields σ I s (declared id >>= k) Q := by
  simp only [declared, bind_assoc]
  refine facts_bind ?_
  cases hd : (σ.world.factsOf id).declares with
  | none =>
    simp only [required, bind_assoc]
    exact node_bind fun _ _ => throw
  | some desc => simpa only [required, pure_bind] using h desc hd

theorem unexpected {id : NodeId} : Yields σ I s (Lower.unexpected id what : Lower α) P :=
  node_bind fun _ _ => throw

theorem mapM {γ : Type} {xs : List γ} {f : γ → Lower α} {S : State → γ → α → Prop}
    (hS : ∀ {s s' x a}, State.Le s s' → S s x a → S s' x a)
    (h : ∀ x ∈ xs, ∀ s', s.Le s' → Yields σ I s' (f x) fun s a => S s x a) :
    Yields σ I s (xs.mapM f) fun s as => List.Forall₂ (S s) xs as := by
  induction xs generalizing s with
  | nil => exact pure .nil
  | cons x xs ih =>
    obtain ⟨hx, hxs⟩ := List.forall_mem_cons.1 h
    rw [List.mapM_cons]
    refine bind (hx s (.refl s)) fun a s1 h1 _ ha => ?_
    refine bind (ih fun y hy s' hs' => hxs y hy s' (h1.trans hs')) fun as s2 h2 _ has => ?_
    exact pure (.cons (hS h2 ha) has)

theorem optionMapM {γ : Type} {x : Option γ} {f : γ → Lower α} {S : State → γ → α → Prop}
    (h : ∀ y, x = some y → Yields σ I s (f y) fun s a => S s y a) :
    Yields σ I s (x.mapM f) fun s a => Option.Rel (S s) x a := by
  cases x with
  | none => exact pure .none
  | some y =>
    change Yields σ I s (some <$> f y) _
    rw [map_eq_pure_bind]
    exact bind (h y rfl) fun a s' _ _ ha => pure (.some ha)

theorem work (h : Tidy σ m) : Brings σ s m fun _ _ => True := fun hs =>
  ⟨(h.upholds hs.1 hs.2).le, ⟨h.coherent hs.1, (h.upholds hs.1 hs.2).faithful⟩, fun _ _ => trivial⟩

section quiet

variable (hI : Lasting σ I)

include hI

/-- Work that declares nothing. -/
theorem of_quiet (hwork : Builds σ false [] m)
    (hdecls : s.Coherent σ → (m.runFrom σ s).2.store.decls = s.store.decls)
    (hP : s.Faithful σ → ∀ a, (m.runFrom σ s).1 = .ok a → P (m.runFrom σ s).2 a) :
    Yields σ I s m P := by
  intro hs
  have hc := hI.coherent hs
  have hup := hwork.upholds hc (hI.faithful hs)
  exact ⟨hup.le, hI.quiet hs hup.le (hwork.coherent hc) hup.faithful (hdecls hc),
    hP (hI.faithful hs)⟩

theorem of_seeks (hwork : Builds σ false [] m) (hseeks : Seeks σ C ls m)
    (hP : s.Faithful σ → ∀ a, (m.runFrom σ s).1 = .ok a → P (m.runFrom σ s).2 a) :
    Yields σ I s m P := by
  refine of_quiet hI hwork (fun hc => ?_) hP
  rcases hr : m.runFrom σ s with ⟨e | a, s'⟩
  · exact ((hseeks s hc).error hr).2.1.decls
  · exact ((hseeks s hc).ok hr).2.1.decls

theorem convert (id : TypeId) :
    Yields σ I s (Lower.convert id) fun s τ => Agree (σ.plain id) (s.plain? τ) := by
  refine of_seeks hI .convert (Seeks.convert id) fun hf τ hok => ?_
  obtain ⟨_, T, hT, hτ, _⟩ := (Mirrors.convert id s hf).ok (Prod.ext hok rfl)
  exact ⟨T, hT, hτ⟩

theorem convertAll (ids : List TypeId) : Yields σ I s (Lower.convertAll ids) fun s τs =>
    Agree (ids.mapM σ.plain) (τs.mapM s.plain?) :=
  (mapM (S := fun s id τ => Agree (σ.plain id) (s.plain? τ))
    (fun hle h => h.mono fun _ => hle.plain?) fun id _ _ _ => convert hI id).imp
      fun _ _ _ => Agree.mapM

theorem convertOptional (id : Option TypeId) : Yields σ I s (Lower.convertOptional id) fun s τ =>
    Agree (id.mapM σ.plain) (τ.mapM s.plain?) :=
  (optionMapM (S := fun s id τ => Agree (σ.plain id) (s.plain? τ))
    fun id _ => convert hI id).imp fun _ _ _ => Agree.optionMapM

theorem symbolOf (hkind : kind ≠ .initializer) (desc : DescId) :
    Yields σ I s (Lower.symbolOf kind desc) fun s id => s.keyOf? id = some (kind, desc) := by
  refine of_seeks (C := fun _ => True) hI (.symbolOf hkind) (Seeks.symbolOf hkind)
    fun hf id hok => ?_
  have hmirrors : Mirrors σ 0 s (Lower.symbolOf kind desc) _ _ := .symbolOf hf kind desc
  obtain ⟨_, _, _, hid, _⟩ := hmirrors.ok (Prod.ext hok rfl)
  exact hid

theorem symbols (hkind : kind ≠ .initializer) (descs : List DescId) :
    Yields σ I s (descs.mapM (Lower.symbolOf kind)) fun s ids =>
      ids.mapM s.keyOf? = some (descs.map (kind, ·)) := by
  refine (mapM (S := fun s desc id => s.keyOf? id = some (kind, desc)) (fun hle h => hle.keyOf? h)
    fun desc _ _ _ => symbolOf hI hkind desc).imp fun _ _ _ h => ?_
  rw [mapM_eq_some_iff, List.forall₂_map_right_iff]
  exact h.flip

theorem annotationCalls (uses : List AnnotationUse) :
    Yields σ I s (Lower.annotationCalls uses) fun _ _ => True :=
  of_seeks hI .annotationCalls (Seeks.annotationCalls uses) fun _ _ _ => trivial

theorem addExpr : Yields σ I s (Lower.addExpr type kind) fun _ _ => True :=
  of_quiet hI .addExpr (fun _ => rfl) fun _ _ _ => trivial

end quiet

end Yields

end TypedTree
