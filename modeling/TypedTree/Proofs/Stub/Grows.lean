import TypedTree.Proofs.Pairing.Laws
import TypedTree.Proofs.Stub.Signature

namespace TypedTree

/-- What a run of stubs may lead to: the keys that are declared beforehand, those that may get a
symbol, and those that may get a declaration. -/
structure Bounds where
  known : SymbolKind → DescId → Prop
  cached : SymbolKind → DescId → Prop
  declared : SymbolKind → DescId → Prop

/-- A declaration leads to nothing outside of the bounds. -/
structure Bounds.Closed (B : Bounds) (σ : Setting) : Prop where
  types : ∀ {kind desc d}, B.declared kind desc → ¬ B.known kind desc →
    σ.world.descriptor? desc = some d → ∀ id ∈ d.kind.types, ∀ k e,
    Wanted.Needs σ (.type id) k e → B.cached k e
  annotations : ∀ {kind desc d}, B.declared kind desc → ¬ B.known kind desc →
    σ.world.descriptor? desc = some d → ∀ k e,
    Wanted.Needs σ (.annotationUses d.annotations) k e → B.cached k e
  symbols : ∀ {kind desc d}, B.declared kind desc → ¬ B.known kind desc →
    σ.world.descriptor? desc = some d → ∀ key ∈ d.kind.symbols, B.cached key.1 key.2
  parameters : ∀ {kind desc d}, B.declared kind desc → ¬ B.known kind desc →
    σ.world.descriptor? desc = some d → ∀ key ∈ d.kind.parameters,
    B.cached key.1 key.2 ∧ B.declared key.1 key.2

/-- All that the declarations within the bounds ask for is there. -/
structure Bounds.Sure (B : Bounds) (σ : Setting) : Prop where
  types : ∀ {kind desc d}, B.declared kind desc → ¬ B.known kind desc →
    σ.world.descriptor? desc = some d → ∀ id ∈ d.kind.types, Wanted.Realizable σ (.type id)
  annotations : ∀ {kind desc d}, B.declared kind desc → ¬ B.known kind desc →
    σ.world.descriptor? desc = some d → Wanted.Realizable σ (.annotationUses d.annotations)
  symbols : ∀ {kind desc d}, B.declared kind desc → ¬ B.known kind desc →
    σ.world.descriptor? desc = some d → ∀ key ∈ d.kind.symbols,
    (σ.world.descriptor? key.2).isSome
  parameters : ∀ {kind desc d}, B.declared kind desc → ¬ B.known kind desc →
    σ.world.descriptor? desc = some d → ∀ key ∈ d.kind.parameters,
    (σ.world.descriptor? key.2).isSome

/-- Entries that gained stubs. Symbols of parameters may be new for what is no parameter, but then
they are declared, too. -/
structure Entries.Grows (σ : Setting) (B : Bounds) (P : SymbolKind → DescId → Prop)
    (n m : Entries) : Prop where
  le : n.Le m
  expr : ∀ {id x}, n.expr? id = some x → m.expr? id = some x
  opens : m.opens = n.opens
  loose : ∀ {id x}, m.symbol? id = some x → m.descriptorOf? id = none → n.symbol? id = some x
  cached : ∀ {kind desc}, (m.cached? kind desc).isSome →
    (n.cached? kind desc).isSome ∨ B.cached kind desc
  tame : ∀ {kind desc}, (m.cached? kind desc).isSome → (n.cached? kind desc).isSome ∨
    σ.world.Fits kind desc ∨ (m.declared? kind desc).isSome
  declared : ∀ {kind desc d}, m.declared? kind desc = some d → n.declared? kind desc = some d ∨
    P kind desc ∧ B.declared kind desc ∧ m.IsStub σ kind desc d
  declarations : m.state.stats.declarations = n.state.stats.declarations
  passes : m.state.stats.passes = n.state.stats.passes
  looseCount : m.state.table.loose = n.state.table.loose

namespace Entries.Grows

variable {σ : Setting} {B : Bounds} {P P' : SymbolKind → DescId → Prop} {n m k : Entries}

theorem keeps (h : n.Grows σ B P m) : n.Keeps m := ⟨h.le, h.expr⟩

theorem refl (n : Entries) : n.Grows σ B P n where
  le := .refl n
  expr h := h
  opens := rfl
  loose h _ := h
  cached := .inl
  tame := .inl
  declared := .inl
  declarations := rfl
  passes := rfl
  looseCount := rfl

theorem trans (h : n.Grows σ B P m) (h' : m.Grows σ B P k) : n.Grows σ B P k where
  le := h.le.trans h'.le
  expr hx := h'.expr (h.expr hx)
  opens := h'.opens.trans h.opens
  loose hx ho := by
    have hx' := h'.loose hx ho
    exact h.loose hx' ((h'.le.descriptorOf hx').symm.trans ho)
  cached hc := by
    rcases h'.cached hc with hc | hc
    · exact h.cached hc
    · exact .inr hc
  tame hc := by
    rcases h'.tame hc with hc | hc
    · refine (h.tame hc).imp_right (Or.imp_right fun hd => ?_)
      obtain ⟨d, hd⟩ := Option.isSome_iff_exists.1 hd
      exact Option.isSome_of_mem (h'.le.declared hd)
    · exact .inr hc
  declared hd := by
    rcases h'.declared hd with hd | hd
    · exact (h.declared hd).imp_right fun hs => ⟨hs.1, hs.2.1, hs.2.2.mono h'.keeps⟩
    · exact .inr hd
  declarations := h'.declarations.trans h.declarations
  passes := h'.passes.trans h.passes
  looseCount := h'.looseCount.trans h.looseCount

theorem imp (h : n.Grows σ B P m) (hP : ∀ kind desc, P kind desc → P' kind desc) :
    n.Grows σ B P' m :=
  { h with declared := fun hd => (h.declared hd).imp_right (And.imp_left (hP _ _)) }

/-- Types and annotations may come first. A symbol that does not fit must be declared afterwards. -/
theorem afterGains (h : n.Gains N m) (hn : n.Sound σ strict) (hm : m.Sound σ strict)
    (h' : m.Grows σ B P k)
    (hN : ∀ kind desc, N kind desc → B.cached kind desc ∧
      (σ.world.Fits kind desc ∨ (k.declared? kind desc).isSome)) :
    n.Grows σ B P k where
  le := h.le.trans h'.le
  expr hx := h'.expr (h.expr hx)
  opens := h'.opens.trans h.opens
  loose {id x} hx ho := by
    have hx' := h'.loose hx ho
    rcases h.symbol hx' with hx | ⟨_, _, hd⟩
    · exact hx
    · rw [show m.state.table.descriptorOf? id = none from
        (h'.le.descriptorOf hx').symm.trans ho] at hd
      cases hd
  cached {kind desc} hc := by
    rcases h'.cached hc with hc | hc
    · obtain ⟨id, hc⟩ := Option.isSome_iff_exists.1 hc
      exact (h.key hc).imp Option.isSome_of_mem fun hk => (hN kind desc hk).1
    · exact .inr hc
  tame {kind desc} hc := by
    rcases h'.tame hc with hc | hc
    · obtain ⟨id, hc⟩ := Option.isSome_iff_exists.1 hc
      exact (h.key hc).imp Option.isSome_of_mem fun hk => (hN kind desc hk).2
    · exact .inr hc
  declared hd := by
    rw [← h.declared? hn hm]
    exact h'.declared hd
  declarations := by rw [h'.declarations, h.stats]
  passes := by rw [h'.passes, h.stats]
  looseCount := by rw [h'.looseCount, h.loose]

end Entries.Grows

namespace Ledger

variable {σ : Setting} {files : List SourceFile} {α β : Type} {B : Bounds}
  {P P' : SymbolKind → DescId → Prop}

/-- A step that only adds stubs, also if it fails. -/
def Stubs (L : Ledger σ false) (files : List SourceFile) (B : Bounds)
    (P : SymbolKind → DescId → Prop) (m : Lower α) (Q : Ledger σ false → α → Prop) : Prop :=
  match m.runFrom (σ.withFiles files) L.state with
  | (.ok a, s) => ∃ L' : Ledger σ false, L.Grows σ B P L'.toEntries ∧ L'.state = s ∧ Q L' a
  | (.error e, s) => ∃ L' : Ledger σ false, L ≤ L' ∧ L'.state = s ∧ e.Mild σ.world ∧
      (B.Sure σ → e = .endless)

variable {L : Ledger σ false} {Q : Ledger σ false → α → Prop} {R : Ledger σ false → β → Prop}

namespace Stubs

theorem pure (h : Q L a) : L.Stubs files B P (pure a) Q := ⟨L, .refl _, rfl, h⟩

theorem throw (he : e.Mild σ.world) (hs : B.Sure σ → e = .endless) :
    L.Stubs files B P (throw e) Q :=
  ⟨L, le_refl L, rfl, he, hs⟩

theorem bind (h : L.Stubs files B P m Q)
    (hk : ∀ L' a, L.Grows σ B P L'.toEntries → Q L' a → L'.Stubs files B P (k a) R) :
    L.Stubs files B P (m >>= k) R := by
  unfold Stubs at h ⊢
  rw [Lower.runFrom_bind]
  rcases hm : m.runFrom (σ.withFiles files) L.state with ⟨e | a, s⟩
  · rw [hm] at h
    exact h
  · rw [hm] at h
    obtain ⟨L1, hg, rfl, ha⟩ := h
    have hk := hk L1 a hg ha
    unfold Stubs at hk
    dsimp only
    rcases hn : (k a).runFrom (σ.withFiles files) L1.state with ⟨e | b, t⟩
    · rw [hn] at hk
      obtain ⟨L2, hle, hs, he⟩ := hk
      exact ⟨L2, le_trans (a := L) hg.le hle, hs, he⟩
    · rw [hn] at hk
      obtain ⟨L2, hg', hs, hb⟩ := hk
      exact ⟨L2, hg.trans hg', hs, hb⟩

theorem imp (h : L.Stubs files B P m Q) (hP : ∀ kind desc, P kind desc → P' kind desc)
    (hQ : ∀ L' a, L.Grows σ B P L'.toEntries → Q L' a → Q' L' a) : L.Stubs files B P' m Q' := by
  unfold Stubs at h ⊢
  split
  next a s hm =>
    rw [hm] at h
    obtain ⟨L', hg, hs, ha⟩ := h
    exact ⟨L', hg.imp hP, hs, hQ L' a hg ha⟩
  next e s hm =>
    rw [hm] at h
    exact h

theorem get_bind (h : L.Stubs files B P (k L.state) R) : L.Stubs files B P (get >>= k) R := by
  unfold Stubs at h ⊢
  rwa [Lower.runFrom_bind_ok _ _ (Lower.runFrom_get _ _)]

theorem read_bind (h : L.Stubs files B P (k (σ.withFiles files)) R) :
    L.Stubs files B P (read >>= k) R := by
  unfold Stubs at h ⊢
  rwa [Lower.runFrom_bind_ok _ _ (Lower.runFrom_read _ _)]

/-- A step on the way to a fact of a declaration within the bounds. -/
theorem ofMakes (h : L.Makes files x m Q)
    (hneeds : ∀ kind desc, x.Needs σ kind desc → B.cached kind desc)
    (hreal : B.Sure σ → x.Realizable σ) : L.Stubs files B P m Q := by
  unfold Makes at h
  unfold Stubs
  split
  next a s hm =>
    rw [hm] at h
    obtain ⟨L', hg, hs, ha⟩ := h
    exact ⟨L', .afterGains hg L.sound L'.sound (.refl _) fun kind desc hk =>
      ⟨hneeds kind desc hk.1, .inl hk.2⟩, hs, ha⟩
  next e s hm =>
    rw [hm] at h
    obtain ⟨L', hle, hs, he⟩ := h
    exact ⟨L', hle, hs, he.mild, fun hsure => he.endless (hreal hsure)⟩

theorem mapM {γ : Type} {xs : List γ} {f : γ → Lower α} {S : Ledger σ false → γ → α → Prop}
    {L0 : Ledger σ false} (hL : L0.Grows σ B P L.toEntries)
    (hS : ∀ {L1 L2 : Ledger σ false} {x a}, L1.Grows σ B P L2.toEntries → S L1 x a → S L2 x a)
    (h : ∀ x ∈ xs, ∀ L' : Ledger σ false, L0.Grows σ B P L'.toEntries →
      L'.Stubs files B P (f x) fun L'' a => S L'' x a) :
    L.Stubs files B P (xs.mapM f) fun L' as => List.Forall₂ (S L') xs as := by
  induction xs generalizing L with
  | nil => exact pure .nil
  | cons x xs ih =>
    rw [List.mapM_cons]
    refine bind (h x (by simp) L hL) fun L1 a hg ha => ?_
    refine bind (ih (hL.trans hg) fun y hy => h y (by simp [hy])) fun L2 as hg' has => ?_
    exact pure (.cons (hS hg' ha) has)

theorem optionMapM {γ : Type} {x : Option γ} {f : γ → Lower α} {S : Ledger σ false → γ → α → Prop}
    (h : ∀ y ∈ x, L.Stubs files B P (f y) fun L' a => S L' y a) :
    L.Stubs files B P (x.mapM f) fun L' a => Option.Rel (S L') x a := by
  cases x with
  | none => exact pure .none
  | some y =>
    change L.Stubs files B P (some <$> f y) _
    rw [map_eq_pure_bind]
    exact bind (h y rfl) fun L' a _ ha => pure (.some ha)

end Stubs

end Ledger

end TypedTree
