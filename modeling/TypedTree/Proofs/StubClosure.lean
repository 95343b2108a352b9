import TypedTree.Proofs.Helper.Session
import TypedTree.Proofs.Sample

namespace TypedTree

/-- What a signature looks up together with the signatures of its parameters. -/
inductive Setting.Spans (σ : Setting) : Descriptor → Key → Prop
  | own {d key} : σ.Finds (d.lookups σ) key → Spans σ d key
  | parameter {d p d' key} : p ∈ d.kind.parameters → σ.world.descriptor? p.2 = some d' →
      Spans σ d' key → Spans σ d key

namespace State

/-- The keys within reach if the signatures of all parameters are gone through, also of those that
have a declaration. -/
inductive Spanned (σ : Setting) (s : State) : Key → Prop
  | old {key} : s.Has key → Spanned σ s key
  | step {key key' d} : Spanned σ s key → s.declared? key = none →
      σ.world.descriptor? key.2 = some d → σ.Spans d key' → Spanned σ s key'

/-- A parameter of what has no declaration has none either, unless all that its signature looks up
is there. -/
def NoneSkipped (σ : Setting) (s : State) : Prop :=
  ∀ key d p d', s.Reached σ key → s.declared? key = none → σ.world.descriptor? key.2 = some d →
    p ∈ d.kind.parameters → σ.world.descriptor? p.2 = some d' →
    s.declared? p = none ∨ ∀ key', σ.Spans d' key' → s.Has key'

variable {σ : Setting} {b s : State} {key key' : Key} {decl : DeclId}

theorem Reached.spanned (h : s.Reached σ key) : s.Spanned σ key := by
  induction h with
  | old hk => exact .old hk
  | step _ hnone hd hfinds ih => exact .step ih hnone hd (.own hfinds)

theorem Reached.of_spans (hs : s.NoneSkipped σ) {d : Descriptor} (hspans : σ.Spans d key')
    (hk : s.Reached σ key) (hnone : s.declared? key = none)
    (hd : σ.world.descriptor? key.2 = some d) : s.Reached σ key' := by
  induction hspans generalizing key with
  | own hfinds => exact .step hk hnone hd hfinds
  | @parameter d p d' key' hp hd' hspans ih =>
    have hfinds : σ.Finds (d.lookups σ) p :=
      ⟨.key p, by simp [Descriptor.lookups, hp], .key⟩
    -- A parameter without a declaration is gone through as a key of its own.
    rcases hs key d p d' hk hnone hd hp hd' with hnone' | hhas
    · exact ih (.step hk hnone hd hfinds) hnone' hd'
    · exact .old (hhas key' hspans)

theorem spanned_iff_reached (hs : s.NoneSkipped σ) : s.Spanned σ key ↔ s.Reached σ key := by
  refine ⟨fun h => ?_, Reached.spanned⟩
  induction h with
  | old hk => exact .old hk
  | step _ hnone hd hspans ih => exact ih.of_spans hs hspans hnone hd

theorem NewStub.key_unique (hs : s.Coherent σ) (h : b.NewStub s key decl)
    (h' : b.NewStub s key' decl) : key = key' := by
  obtain ⟨x, hx, hc, _⟩ := h.bare
  obtain ⟨y, hy, hc', _⟩ := h'.bare
  cases hx.symm.trans hy
  exact hs.key_unique hc hc'

namespace Stubbed

theorem exists_newStub (h : b.Stubbed σ s) {x : Decl} (hx : s.store.decl? decl = some x)
    (hnew : b.store.decl? decl = none) :
    ∃ key, b.declared? key = none ∧ b.NewStub s key decl := by
  obtain ⟨key, hnone, hdecl⟩ := h.new hx hnew
  exact ⟨key, hnone, (h.stub hdecl hnone).1⟩

theorem undeclared_of_newStub (h : b.Stubbed σ s) (hk : b.NewStub s key decl) :
    b.declared? key = none := by
  obtain ⟨x, hx, _⟩ := hk.bare
  obtain ⟨key', hnone, hk'⟩ := h.exists_newStub hx hk.new
  rwa [hk.key_unique h.coherent hk']

/-- Once everything has its declaration, all that is within reach has been looked up. -/
theorem has_of_reached (h : b.Stubbed σ s) (hbound : s.table.allUnbound = [])
    (hk : b.Reached σ key) : s.Has key := by
  induction hk with
  | old hk => exact hk.mono h.table
  | step _ hnone hd hfinds ih =>
    -- The key has its declaration by now, and a stub is made only after all its look-ups.
    obtain ⟨decl, hdecl⟩ := h.coherent.exists_declared hbound ih
    exact (h.stub hdecl hnone).2 _ hd _ hfinds

end Stubbed

/-- Stubs are made for what is needed and for nothing else: the keys that have a symbol afterwards
are the least set that contains those of before and, with each key that had no declaration, all that
its signature looks up. A parameter that had a declaration is not gone through again, which makes a
difference only if something that its signature looks up was not there. The keys that had no
declaration get one new declaration each, a bare stub, and there are no other new declarations; what
was declared stays as it was. Every state that a session comes to is coherent. -/
theorem generateStubs_closure {s' : State} {roots : List DeclId} (hs : s.Coherent σ)
    (hrun : Lower.generateStubs.runFrom σ s = (.ok roots, s')) :
    (∀ key, s'.Has key ↔ s.Reached σ key) ∧
      (s.NoneSkipped σ → ∀ key, s'.Has key ↔ s.Spanned σ key) ∧
      (∀ key, s.Reached σ key ∧ s.declared? key = none ↔ ∃ decl, s.NewStub s' key decl) ∧
      (∀ decl x, s'.store.decl? decl = some x → s.store.decl? decl = none →
        ∃! key, s.NewStub s' key decl) ∧
      (∀ key decl, s.declared? key = some decl → s'.declared? key = some decl) ∧
      ∀ decl x, s.store.decl? decl = some x → s'.store.decl? decl = some x := by
  obtain ⟨hs', hbound⟩ := (Lower.ends_generateStubs hs).ok hrun
  have hiff : ∀ key, s'.Has key ↔ s.Reached σ key := fun key =>
    ⟨hs'.reached, hs'.has_of_reached hbound⟩
  refine ⟨hiff, fun hskip key => (hiff key).trans (spanned_iff_reached hskip).symm,
    fun key => ⟨fun ⟨hkey, hnone⟩ => ?_, fun ⟨decl, hk⟩ => ?_⟩, fun decl x hx hnew => ?_,
    fun key decl => State.declared?_mono hs'.table, fun decl x => hs'.decl⟩
  · obtain ⟨decl, hdecl⟩ := hs'.coherent.exists_declared hbound ((hiff key).2 hkey)
    exact ⟨decl, (hs'.stub hdecl hnone).1⟩
  · exact ⟨(hiff key).1 (State.has_of_declared? hk.declared), hs'.undeclared_of_newStub hk⟩
  · obtain ⟨key, _, hk⟩ := hs'.exists_newStub hx hnew
    exact ⟨key, hk, fun key' hk' => hk'.key_unique hs'.coherent hk⟩

theorem generateStubs_closure_sampleWorld :
    let s := ((Session.start sampleWorld {}).perform [.lowerFiles]).2.state
    ∃ roots s', Lower.generateStubs.runFrom ⟨sampleWorld, {}⟩ s = (.ok roots, s') ∧
      (∀ key, s'.Has key ↔ s.Reached ⟨sampleWorld, {}⟩ key) ∧
      ∃ decl, s.NewStub s' (.function, Builtin.anyToString) decl := by
  intro s
  have hok : (Lower.generateStubs.runFrom ⟨sampleWorld, {}⟩ s).1.toOption.isSome := by
    decide +kernel
  rcases hr : Lower.generateStubs.runFrom ⟨sampleWorld, {}⟩ s with ⟨e | roots, s'⟩
  · simp [hr, Except.toOption] at hok
  have hclosure := generateStubs_closure (Session.coherent_perform sampleWorld {} [.lowerFiles]) hr
  exact ⟨roots, s', rfl, hclosure.1, (hclosure.2.2.1 _).1
    ⟨.old (by decide +kernel), by decide +kernel⟩⟩

end State

/-- A function that shares its parameter with the function it overrides. The parameter has an
annotation, which the source does not write down. -/
def sharedParameterWorld : World where
  tree :=
    { nodes := #[
        ⟨.parameter ⟨some "x", none, none, []⟩, .detached⟩,
        ⟨.function ⟨some "over", [], [⟨0⟩], none, []⟩, .detached⟩]
      files := [⟨"main.kt", ["demo"], [], [⟨1⟩]⟩] }
  facts := #[{ declares := some ⟨16⟩ }, { declares := some ⟨15⟩ }]
  declared := #[
    { name := "Mark", package := ["demo"], kind := .classLike
        { kind := .annotationClass, constructors := [⟨14⟩], primaryConstructor := some ⟨14⟩ } },
    { name := "<init>", package := ["demo"], container := some ⟨13⟩,
      kind := .constructor ⟨true, [], ⟨14⟩⟩ },
    { name := "over", package := ["demo"], kind := .function
        { valueParameters := [⟨16⟩], returnType := Builtin.unitType, overridden := [⟨17⟩] } },
    { name := "x", package := ["demo"], container := some ⟨15⟩, annotations := [⟨⟨14⟩, []⟩],
      kind := .valueParameter ⟨0, Builtin.booleanType, false, false, false, false⟩ },
    { name := "base", package := ["demo"], kind := .function
        { valueParameters := [⟨16⟩], returnType := Builtin.unitType } }]
  types := #[.simple { classifier := ⟨13⟩ }]

/-- The annotation of a parameter that has a declaration is not looked up with a signature that the
parameter is part of. -/
theorem State.generateStubs_not_spanned :
    let s := ((Session.start sharedParameterWorld {}).perform [.lowerFiles]).2.state
    ∃ roots s', Lower.generateStubs.runFrom ⟨sharedParameterWorld, {}⟩ s = (.ok roots, s') ∧
      s.Spanned ⟨sharedParameterWorld, {}⟩ (.constructor, ⟨14⟩) ∧
      ¬ s'.Has (.constructor, ⟨14⟩) := by
  intro s
  have hok : (Lower.generateStubs.runFrom ⟨sharedParameterWorld, {}⟩ s).1.toOption.isSome := by
    decide +kernel
  have hnot : ((Lower.generateStubs.runFrom ⟨sharedParameterWorld, {}⟩ s).2.table.cached?
    .constructor ⟨14⟩).isSome = false := by decide +kernel
  rcases hr : Lower.generateStubs.runFrom ⟨sharedParameterWorld, {}⟩ s with ⟨e | roots, s'⟩
  · simp [hr, Except.toOption] at hok
  rw [hr] at hnot
  refine ⟨roots, s', rfl, ?_, by simpa [State.Has] using hnot⟩
  have hbase : s.Spanned ⟨sharedParameterWorld, {}⟩ (.function, ⟨17⟩) := .old (by decide +kernel)
  refine .step hbase (by decide +kernel) rfl (.parameter (p := (.valueParameter, ⟨16⟩)) ?_ rfl
    (.own ⟨.key (.constructor, ⟨14⟩), ?_, .key⟩))
  · decide
  · decide

end TypedTree
