import TypedTree.Proofs.Sample
import TypedTree.Proofs.Signature.Source
import TypedTree.Proofs.Signature.Stub

namespace TypedTree

/-- The ways in which what a node declares is lowered: as a declaration of its own, at the top or in
the midst of others, or as a parameter. -/
inductive Lowers (id : NodeId) : Lower DeclId → Prop
  | declaration (scope : Scope) : Lowers id (Lower.lowerDeclaration scope id)
  | nested (fuel : Nat) (scope : Scope) : Lowers id ((Lower.descent fuel).decl scope id)
  | typeParameter : Lowers id (Lower.lowerTypeParameter id)
  | valueParameter (fuel : Nat) (scope : Scope) :
      Lowers id (Lower.lowerValueParameter (Lower.descent fuel) scope id)

namespace Yields

variable {σ : Setting} {s : State} {id : NodeId} {n : Node} {desc : DescId} {d : Descriptor}
  (hn : σ.world.tree.node? id = some n) (hdesc : (σ.world.factsOf id).declares = some desc)
  (hd : σ.world.descriptor? desc = some d) (hl : σ.world.ListsParameters n.kind d.kind)

include hn hdesc hd hl

theorem descent : (fuel : Nat) →
    Brings σ s ((Lower.descent fuel).decl scope id) fun s c => s.Shows σ desc c
  | 0 => throw
  | fuel + 1 => declarationStep (Tidy.descent fuel) hn hdesc hd hl

theorem of_lowers (h : Lowers id m) : Brings σ s m fun s c => s.Shows σ desc c := by
  cases h with
  | declaration scope => exact read_bind (descent hn hdesc hd hl _)
  | nested fuel scope => exact descent hn hdesc hd hl fuel
  | typeParameter =>
    refine lowerTypeParameter.imp fun s c _ hc => ?_
    obtain ⟨_, hc⟩ := hc
    exact hc.shows hn hdesc hd hl
  | valueParameter fuel scope =>
    refine (lowerValueParameter (Tidy.descent fuel)).imp fun s c _ hc => ?_
    obtain ⟨_, hc⟩ := hc
    exact hc.shows hn hdesc hd hl

end Yields

namespace State

variable {σ : Setting} {s t : State}

/-- A declaration has the same signature whether it is lowered from a node that lists the parameters
of its descriptor, or made from the descriptor alone: the one that the descriptor gives. The two may
be made in different states. -/
theorem source_agrees_with_stub (hs : s.Reachable σ) (ht : t.Reachable σ) {node : NodeId} {n : Node}
    {desc : DescId} {d : Descriptor} (hn : σ.world.tree.node? node = some n)
    (hdesc : (σ.world.factsOf node).declares = some desc) (hd : σ.world.descriptor? desc = some d)
    (hl : σ.world.ListsParameters n.kind d.kind) {m : Lower DeclId} (hm : Lowers node m)
    {source : DeclId} {s' : State} (hsource : m.runFrom σ s = (.ok source, s')) {kind : SymbolKind}
    {id : SymbolId} (hid : t.keyOf? id = some (kind, desc))
    (hfree : t.declared? (kind, desc) = none) {stub : DeclId} {t' : State}
    (hstub : (Lower.declaration id desc).runFrom σ t = (.ok stub, t')) :
    t.store.decl? stub = none ∧
    ∃ x y signature, s'.store.decl? source = some x ∧ t'.store.decl? stub = some y ∧
      (∃ kind, s'.keyOf? x.symbol = some (kind, desc)) ∧
      (∃ kind, t'.keyOf? y.symbol = some (kind, desc)) ∧
      s'.signature? x.kind = some signature ∧ t'.signature? y.kind = some signature ∧
      d.signature σ = .ok signature := by
  have hlowered := Yields.of_lowers hn hdesc hd hl hm ⟨hs.coherent, hs.faithful⟩
  rw [hsource] at hlowered
  obtain ⟨d₁, x, hd₁, hx, hxkey, signature, hsig, hxsig⟩ := hlowered.2.2 source rfl
  have hdeclared := Apt.declaration ⟨ht.coherent, ht.faithful⟩ hid hfree hstub
  obtain ⟨d₂, y, hd₂, hy, hykey, signature', hsig', hysig⟩ := hdeclared.shows
  cases hd.symm.trans hd₁
  cases hd.symm.trans hd₂
  cases hsig.symm.trans hsig'
  exact ⟨hdeclared.new, x, y, signature, hx, hy, hxkey, hykey, hxsig, hysig, hsig⟩

/-- A generic function, lowered in an empty state, and as a stub in one where another thing has
been asked for before. -/
theorem source_agrees_with_stub_identityWorld :
    let σ : Setting := ⟨identityWorld, {}⟩
    let t := ((Lower.symbolFor ⟨13⟩).runFrom σ ((Lower.convert ⟨14⟩).runFrom σ {}).2).2
    let source := (Lower.lowerDeclaration .root ⟨0⟩).runFrom σ {}
    let stub := (Lower.declaration ⟨1⟩ ⟨13⟩).runFrom σ t
    source.1 = .ok ⟨2⟩ ∧ stub.1 = .ok ⟨2⟩ ∧ t.keyOf? ⟨1⟩ = some (.function, ⟨13⟩) ∧
      t.declared? (.function, ⟨13⟩) = none ∧
      ∃ x y signature, source.2.store.decl? ⟨2⟩ = some x ∧ stub.2.store.decl? ⟨2⟩ = some y ∧
        source.2.signature? x.kind = some signature ∧
        stub.2.signature? y.kind = some signature := by
  intro σ t source stub
  have hsource : source.1 = .ok ⟨2⟩ := by decide +kernel
  have hstub : stub.1 = .ok ⟨2⟩ := by decide +kernel
  have hsource' : source = (.ok ⟨2⟩, source.2) := by rw [← hsource]
  have hstub' : stub = (.ok ⟨2⟩, stub.2) := by rw [← hstub]
  have hid : t.keyOf? ⟨1⟩ = some (.function, ⟨13⟩) := by decide +kernel
  have hfree : t.declared? (.function, ⟨13⟩) = none := by decide +kernel
  have hdesc : (σ.world.factsOf ⟨0⟩).declares = some ⟨13⟩ := rfl
  have hd : σ.world.descriptor? ⟨13⟩ = some identityWorld.declared[0] := rfl
  have hn : σ.world.tree.node? ⟨0⟩ = some identityWorld.tree.nodes[0] := rfl
  have ht : t.Reachable σ := ((Reachable.start σ).after .convert).after .symbolFor
  obtain ⟨_, x, y, signature, hx, hy, _, _, hxsig, hysig, _⟩ :=
    source_agrees_with_stub (Reachable.start σ) ht hn hdesc hd ⟨by decide, by decide⟩
      (.declaration .root) hsource' hid hfree hstub'
  exact ⟨hsource, hstub, hid, hfree, x, y, signature, hx, hy, hxsig, hysig⟩

end State

end TypedTree
