import TypedTree.Proofs.Lookup.Types

namespace TypedTree

/-- A declaration that has no body, no members, no initializer and no accessors. -/
def DeclKind.isBare : DeclKind → Bool
  | .classLike decl => decl.declarations.isEmpty
  | .function decl => decl.body.isNone
  | .constructor decl => decl.delegatedCall.isNone && decl.body.isNone
  | .property decl =>
    decl.initializer.isNone && decl.delegate.isNone && decl.getter.isNone && decl.setter.isNone
  | .accessor decl => decl.body.isNone
  | .initializer _ => false
  | .typeParameter _ | .valueParameter _ | .typeAlias _ => true

namespace State

/-- The least set of keys that contains those with a symbol and, with each key that has no
declaration, all that its signature looks up. -/
inductive Reached (σ : Setting) (s : State) : Key → Prop
  | old {key} : s.Has key → Reached σ s key
  | step {key key' d} : Reached σ s key → s.declared? key = none →
      σ.world.descriptor? key.2 = some d → σ.Finds (d.lookups σ) key' → Reached σ s key'

/-- A key has got a stub since the first state. -/
structure NewStub (b s : State) (key : Key) (decl : DeclId) : Prop where
  new : b.store.decl? decl = none
  declared : s.declared? key = some decl
  bare : ∃ x, s.store.decl? decl = some x ∧ s.table.cached? key.1 key.2 = some x.symbol ∧
    x.origin = .stub ∧ x.kind.isBare

/-- What holds in the midst of making stubs, whether that succeeds or not. -/
structure Stubbed (σ : Setting) (b s : State) : Prop where
  coherent : s.Coherent σ
  table : b.table.Le s.table
  loose : ∀ {id x}, s.table.get? id = some x → s.table.descriptorOf? id = none →
    b.table.get? id = some x
  reached : ∀ {key}, s.Has key → b.Reached σ key
  decl : ∀ {decl x}, b.store.decl? decl = some x → s.store.decl? decl = some x
  stub : ∀ {key decl}, s.declared? key = some decl → b.declared? key = none →
    NewStub b s key decl ∧ ∀ d, σ.world.descriptor? key.2 = some d →
      ∀ key', σ.Finds (d.lookups σ) key' → s.Has key'
  new : ∀ {decl x}, s.store.decl? decl = some x → b.store.decl? decl = none →
    ∃ key, b.declared? key = none ∧ s.declared? key = some decl

/-- A later state of the same pass. -/
structure Keeps (s s' : State) : Prop where
  table : s.table.Le s'.table
  passes : s'.stats.passes = s.stats.passes

theorem Keeps.refl (s : State) : s.Keeps s := ⟨.refl _, rfl⟩

theorem Keeps.trans {s s' : State} (h : s.Keeps s') (h' : s'.Keeps s'') : s.Keeps s'' :=
  ⟨h.table.trans h'.table, h'.passes.trans h.passes⟩

theorem Adds.keeps {K : Key → Prop} {s : State} (h : s.Adds K s') : s.Keeps s' :=
  ⟨h.table, by rw [h.stats]⟩

def withStub (s : State) (id : SymbolId) (x : Symbol) (calls : List ExprId) (kind : DeclKind) :
    State :=
  { s with
    store := (s.store.addDecl ⟨id, .stub, calls, kind⟩).2
    table := s.table.own id x ⟨s.store.decls.size⟩
    stats := s.stats.count .stub }

namespace Stubbed

variable {σ : Setting} {b s s' : State}

theorem refl (hb : b.Coherent σ) : b.Stubbed σ b where
  coherent := hb
  table := .refl _
  loose h _ := h
  reached := .old
  decl h := h
  stub h h' := by cases h'.symm.trans h
  new h h' := by cases h'.symm.trans h

theorem undeclared (h : b.Stubbed σ s) {key : Key} (hd : s.declared? key = none) :
    b.declared? key = none :=
  State.undeclared_mono h.table hd

theorem owes (h : b.Stubbed σ s) {id : SymbolId} (ho : s.Owes id) : b.Owes id := by
  obtain ⟨hloose, x, hx, hnone⟩ := ho
  have hx' := h.loose hx hloose
  exact ⟨(h.table.origin (Option.isSome_of_mem hx')).symm.trans hloose, x, hx', hnone⟩

theorem withStats (h : b.Stubbed σ s) (stats : Stats) :
    b.Stubbed σ { s with stats := stats } where
  coherent := h.coherent.of_eq rfl rfl
  table := h.table
  loose := h.loose
  reached := h.reached
  decl := h.decl
  stub hd hnone :=
    have ⟨⟨hnew, hdecl, hbare⟩, hfinds⟩ := h.stub hd hnone
    ⟨⟨hnew, hdecl, hbare⟩, hfinds⟩
  new := h.new

theorem adds (h : b.Stubbed σ s) {K : Key → Prop} (ha : s.Adds K s') (hs' : s'.Coherent σ)
    (hK : ∀ key, K key → b.Reached σ key) : b.Stubbed σ s' where
  coherent := hs'
  table := h.table.trans ha.table
  loose {id x} hx hnone := by
    rcases ha.symbol hx with hx' | ⟨_, _, hsome⟩
    · exact h.loose hx' ((ha.table.origin (Option.isSome_of_mem hx')).symm.trans hnone)
    · rw [hnone] at hsome
      cases hsome
  reached hk := (ha.key hk).elim h.reached (hK _)
  decl hx := by
    simp only [Store.decl?, ha.decls]
    exact h.decl hx
  stub {key decl} hd hnone := by
    rw [ha.declared?_eq h.coherent hs'] at hd
    obtain ⟨⟨hnew, hdecl, x, hx, hc, hx'⟩, hfinds⟩ := h.stub hd hnone
    refine ⟨⟨hnew, State.declared?_mono ha.table hdecl, x, ?_, ha.table.cached hc, hx'⟩,
      fun d hd' key' hkey' => (hfinds d hd' key' hkey').mono ha.table⟩
    simpa only [Store.decl?, ha.decls] using hx
  new {decl x} hx hnone := by
    simp only [Store.decl?, ha.decls] at hx
    obtain ⟨key, hk, hd⟩ := h.new hx hnone
    exact ⟨key, hk, State.declared?_mono ha.table hd⟩

theorem withStub (h : b.Stubbed σ s) {key : Key} {id : SymbolId} {x : Symbol}
    (hc : s.table.cached? key.1 key.2 = some id) (hx : s.table.get? id = some x)
    (ho : x.owner = none) {d : Descriptor} (hd : σ.world.descriptor? key.2 = some d)
    (hfinds : ∀ key', σ.Finds (d.lookups σ) key' → s.Has key') {kind : DeclKind}
    (hkind : kind.isBare) (calls : List ExprId) :
    b.Stubbed σ (s.withStub id x calls kind) := by
  have hle : s.table.Le (s.withStub id x calls kind).table := SymbolTable.le_own hx ho _
  have hold : ∀ {decl y}, s.store.decl? decl = some y →
      (s.withStub id x calls kind).store.decl? decl = some y := getElem?_push_of_some
  have hund : s.declared? key = none := by
    simp [State.declared?, hc, hx, ho]
  have hdeclared : (s.withStub id x calls kind).declared? key = some ⟨s.store.decls.size⟩ :=
    State.declared?_eq_some.2 ⟨id, { x with owner := some ⟨s.store.decls.size⟩ }, hc,
      by rw [State.withStub, SymbolTable.get?_own hx, if_pos rfl], rfl⟩
  have hnone : b.store.decl? ⟨s.store.decls.size⟩ = none :=
    Option.eq_none_iff_forall_ne_some.2 fun y hy => by
      have hy' := h.decl hy
      simp [Store.decl?] at hy'
  refine ⟨?_, h.table.trans hle, fun {id' y} hy hloose => ?_, fun hk => h.reached hk,
    fun hy => hold (h.decl hy), fun {key' e} he hbefore => ?_, fun {e y} hy hbefore => ?_⟩
  · exact (h.coherent.own hx ⟨s.store.decls.size⟩).of_eq rfl rfl
  · -- A symbol without a descriptor is not the one that gets the stub.
    rw [State.withStub, SymbolTable.get?_own hx] at hy
    obtain ⟨_, _, _, _, _, _, hdesc⟩ := h.coherent.table.cached hc
    split at hy
    next he =>
      subst he
      cases hloose.symm.trans hdesc
    next => exact h.loose hy hloose
  · obtain ⟨id', y, hc', hy, hown⟩ := State.declared?_eq_some.1 he
    rw [State.withStub, SymbolTable.get?_own hx] at hy
    split at hy
    next hid =>
      subst hid
      cases hy
      cases hown
      obtain rfl := h.coherent.key_unique hc hc'
      refine ⟨⟨hnone, hdeclared, ⟨id', .stub, calls, kind⟩, ?_, hc, rfl, hkind⟩,
        fun d' hd' key' hkey' => ?_⟩
      · simp [State.withStub, Store.addDecl, Store.decl?]
      cases hd.symm.trans hd'
      exact (hfinds key' hkey').mono hle
    next =>
      have he' : s.declared? key' = some e := State.declared?_eq_some.2 ⟨id', y, hc', hy, hown⟩
      obtain ⟨⟨hnew, hdecl, z, hz, hcz, hz'⟩, hfinds'⟩ := h.stub he' hbefore
      exact ⟨⟨hnew, State.declared?_mono hle hdecl, z, hold hz, hcz, hz'⟩,
        fun d' hd' key'' hk => (hfinds' d' hd' key'' hk).mono hle⟩
  · by_cases he : e = ⟨s.store.decls.size⟩
    · exact ⟨key, h.undeclared hund, he ▸ hdeclared⟩
    · obtain ⟨i⟩ := e
      simp only [State.withStub, Store.addDecl, Store.decl?, Array.getElem?_push] at hy
      rw [if_neg (fun hi => he (congrArg _ hi))] at hy
      obtain ⟨key', hk, hd'⟩ := h.new (show s.store.decl? ⟨i⟩ = some y from hy) hbefore
      exact ⟨key', hk, State.declared?_mono hle hd'⟩

end Stubbed

end State

end TypedTree
