import TypedTree.Proofs.Follow

namespace TypedTree

theorem SymbolTable.pairwise_allUnbound (t : SymbolTable) :
    t.allUnbound.Pairwise (·.index < ·.index) := by
  have hindex : t.symbols.toList.zipIdx.Pairwise (·.2 < ·.2) := by
    rw [← List.pairwise_map, List.zipIdx_map_snd]
    exact List.pairwise_lt_range'
  refine hindex.filterMap _ fun a a' hlt b hb b' hb' => ?_
  simp only [Option.ite_none_left_eq_some, Option.some.injEq] at hb hb'
  rw [← hb.2, ← hb'.2]
  exact hlt

theorem SymbolTable.nodup_allUnbound (t : SymbolTable) : t.allUnbound.Nodup :=
  t.pairwise_allUnbound.imp fun hlt he => (he ▸ hlt).ne rfl

theorem SymbolTable.nodup_unboundSymbols (t : SymbolTable) :
    (t.unboundSymbols.map (·.2)).Nodup := by
  have hsub : (t.unboundSymbols.map (·.2)).Sublist t.allUnbound := by
    rw [unboundSymbols]
    induction t.allUnbound with
    | nil => exact .slnil
    | cons id rest ih =>
      cases hd : t.descriptorOf? id with
      | none => simpa [hd] using ih.cons id
      | some desc => simpa [hd] using ih
  exact hsub.nodup t.nodup_allUnbound

namespace Ledger

variable {σ : Setting} {strict : Bool}

def Pends (L : Ledger σ strict) (key : SymbolKind × DescId) (p : DescId × SymbolId) : Prop :=
  L.cached? key.1 key.2 = some p.2 ∧ key.2 = p.1

theorem pends_of_mem {L : Ledger σ strict} (hp : p ∈ L.state.table.unboundSymbols) :
    ∃ key, L.Pends key p ∧ L.declared? key.1 key.2 = none := by
  obtain ⟨kind, hc⟩ := L.sound.table.cached_of_mem hp
  obtain ⟨id, hid, hdesc⟩ := List.mem_filterMap.1 hp
  obtain ⟨desc, _, rfl⟩ := Option.map_eq_some_iff.1 hdesc
  obtain ⟨x, hx, ho⟩ := SymbolTable.mem_allUnbound.1 hid
  refine ⟨(kind, desc), ⟨hc, rfl⟩, ?_⟩
  simp [Entries.declared?, show L.cached? kind desc = some id from hc,
    show L.symbol? id = some x from hx, ho]

theorem mem_pending {L : Ledger σ strict} {id : SymbolId} (hc : L.cached? kind desc = some id)
    (hd : L.declared? kind desc = none) : (desc, id) ∈ L.state.table.unboundSymbols := by
  obtain ⟨x, _, hx, _, _, _, ho⟩ := L.sound.table.cached hc
  have howner : x.owner = none := by
    simpa [Entries.declared?, hc, show L.symbol? id = some x from hx] using hd
  exact List.mem_filterMap.2 ⟨id, SymbolTable.mem_allUnbound.2 ⟨x, hx, howner⟩, by
    rw [ho]; rfl⟩

theorem exists_pending (L : Ledger σ strict) : ∃ keys, keys.Nodup ∧
    List.Forall₂ L.Pends keys L.state.table.unboundSymbols ∧
    ∀ key, key ∈ keys ↔ (L.cached? key.1 key.2).isSome ∧ L.declared? key.1 key.2 = none := by
  have hall : ∀ ps : List (DescId × SymbolId), (∀ p ∈ ps, ∃ key, L.Pends key p ∧
      L.declared? key.1 key.2 = none) → (ps.map (·.2)).Nodup → ∃ keys, keys.Nodup ∧
      List.Forall₂ L.Pends keys ps ∧ ∀ key ∈ keys, L.declared? key.1 key.2 = none := by
    intro ps
    induction ps with
    | nil => exact fun _ _ => ⟨[], .nil, .nil, by simp⟩
    | cons p ps ih =>
      intro hps hnodup
      obtain ⟨⟨key, hkey, hnone⟩, hps⟩ := List.forall_mem_cons.1 hps
      obtain ⟨hp, hnodup⟩ := List.nodup_cons.1 hnodup
      obtain ⟨keys, hkeys, hpends, hall⟩ := ih hps hnodup
      refine ⟨key :: keys, List.nodup_cons.2 ⟨fun hmem => hp ?_, hkeys⟩, .cons hkey hpends,
        List.forall_mem_cons.2 ⟨hnone, hall⟩⟩
      obtain ⟨q, hq, hkey'⟩ := exists_of_mem_forall₂ hpends hmem
      exact List.mem_map.2 ⟨q, hq, (Option.some.inj (hkey.1.symm.trans hkey'.1)).symm⟩
  obtain ⟨keys, hkeys, hpends, hnone⟩ := hall _ (fun _ => pends_of_mem)
    L.state.table.nodup_unboundSymbols
  refine ⟨keys, hkeys, hpends, fun key => ⟨fun hmem => ?_, fun h => ?_⟩⟩
  · obtain ⟨p, _, hp⟩ := exists_of_mem_forall₂ hpends hmem
    exact ⟨Option.isSome_of_mem hp.1, hnone key hmem⟩
  · obtain ⟨id, hc⟩ := Option.isSome_iff_exists.1 h.1
    obtain ⟨key', hkey', hc'⟩ := exists_of_mem_forall₂ hpends.flip (mem_pending hc h.2)
    obtain ⟨hk, he⟩ := L.sound.key_unique hc hc'.1
    rwa [show key = key' from Prod.ext hk he]

variable {files : List SourceFile} {B : Bounds} {L : Ledger σ false}

def isRootAt (σ : Setting) (desc : DescId) : Bool := (σ.world.descriptor? desc).any Lower.isRoot

/-- What a pass gives for a key: its declaration, if that is a root. -/
def Gives (L : Ledger σ false) (key : SymbolKind × DescId) (d : Option DeclId) : Prop :=
  (L.declared? key.1 key.2).isSome ∧
    d = if isRootAt σ key.2 then L.declared? key.1 key.2 else none

theorem Gives.mono {L' : Ledger σ false} (hle : L.Le L'.toEntries) {key : SymbolKind × DescId}
    {d : Option DeclId} (h : L.Gives key d) : L'.Gives key d := by
  obtain ⟨hd, rfl⟩ := h
  obtain ⟨e, he⟩ := Option.isSome_iff_exists.1 hd
  rw [Gives, hle.declared he, he]
  exact ⟨rfl, rfl⟩

/-- A symbol of a parameter stands for a parameter, which is no root. -/
theorem isRootAt_of_isParameter (hk : kind.isParameter) (hfits : σ.world.Fits kind desc) :
    isRootAt σ desc = false := by
  have hkind : (∃ d, σ.world.descriptor? desc = some d ∧ d.typeParameter?.isSome) ∨
      ∃ d, σ.world.descriptor? desc = some d ∧ d.valueParameter?.isSome := by
    cases kind with
    | typeParameter => exact .inl (hfits.typeParameter rfl)
    | valueParameter => exact .inr (hfits.valueParameter rfl)
    | _ => cases hk
  rcases hkind with ⟨d, hd, hpar⟩ | ⟨d, hd, hpar⟩
  all_goals
    simp only [isRootAt, hd, Option.any_some, Lower.isRoot]
    cases hdk : d.kind <;>
      simp_all [Descriptor.typeParameter?, Descriptor.valueParameter?]

/-- What a pass takes up. A key that is no parameter's is not declared so far. -/
structure Takes (L : Ledger σ false) (B : Bounds) (key : SymbolKind × DescId) : Prop where
  declared : B.declared key.1 key.2
  fits : σ.world.Fits key.1 key.2
  undeclared : ¬ key.1.isParameter → L.declared? key.1 key.2 = none

theorem stubs_stubPending (hB : B.Closed σ) (hL : L.Knows B) {key : SymbolKind × DescId}
    {p : DescId × SymbolId} (hp : L.Pends key p) (hkey : L.Takes B key) :
    L.Stubs files B (Under key.1 key.2) (Lower.stubPending p) fun L' d => L'.Gives key d := by
  obtain ⟨hc, hdesc⟩ := hp
  obtain ⟨x, d, hx, _, hd, _⟩ := L.sound.table.cached hc
  have hroot : isRootAt σ key.2 = Lower.isRoot d := by simp [isRootAt, hd]
  refine .symbol_bind hx ?_
  split
  next hbound =>
    obtain ⟨e, he⟩ := Option.isSome_iff_exists.1 (show x.owner.isSome from hbound)
    have hdeclared := Entries.declared?_eq_some.2 ⟨p.2, x, hc, hx, he⟩
    have hparameter : key.1.isParameter := by
      by_contra hk
      cases (hkey.undeclared hk).symm.trans hdeclared
    refine .pure ⟨Option.isSome_of_mem hdeclared, ?_⟩
    simp [isRootAt_of_isParameter hparameter hkey.fits]
  next =>
    rw [← hdesc]
    refine .bind (declares_declaration hB L hL hc hkey.declared) fun L' e _ he => ?_
    refine .descriptor_bind hd (.pure ⟨Option.isSome_of_mem he, ?_⟩)
    rw [hroot, he]

/-- A pass declares all that is pending, whatever the order. -/
theorem stubs_pending (hB : B.Closed σ) (hL : L.Knows B) {L0 : Ledger σ false}
    (hle : L0.Le L.toEntries) {keys : List (SymbolKind × DescId)} {ps : List (DescId × SymbolId)}
    (hps : List.Forall₂ L0.Pends keys ps) (hnodup : keys.Nodup)
    (hkeys : ∀ key ∈ keys, L.Takes B key) :
    L.Stubs files B (fun _ _ => True) (ps.mapM Lower.stubPending) fun L' ds =>
      List.Forall₂ L'.Gives keys ds := by
  induction hps generalizing L with
  | nil => exact .pure .nil
  | @cons key p keys ps hp hps ih =>
    obtain ⟨hkey, hkeys⟩ := List.forall_mem_cons.1 hkeys
    obtain ⟨hnot, hnodup⟩ := List.nodup_cons.1 hnodup
    rw [List.mapM_cons]
    refine .bind (Q := fun L' d => L.Grows σ B (Under key.1 key.2) L'.toEntries ∧ L'.Gives key d)
      ((stubs_stubPending hB hL ⟨hle.cached hp.1, hp.2⟩ hkey).imp (fun _ _ _ => trivial)
        fun _ _ hg hd => ⟨hg, hd⟩) fun L1 d _ ⟨hg, hd⟩ => ?_
    have hrest : ∀ k ∈ keys, L1.Takes B k := fun k hk => by
      refine ⟨(hkeys k hk).declared, (hkeys k hk).fits, fun hpar => ?_⟩
      refine Option.eq_none_iff_forall_ne_some.2 fun e he => ?_
      rcases hg.declared he with he | ⟨hunder | ⟨hkind, hdesc⟩, _⟩
      · cases ((hkeys k hk).undeclared hpar).symm.trans he
      · exact hpar hunder
      · exact hnot (Prod.ext hkind hdesc ▸ hk)
    refine .bind (ih (hL.mono hg.le) (hle.trans hg.le) hnodup hrest) fun L2 ds hg' hds => .pure ?_
    exact .cons (hd.mono hg'.le) hds

end Ledger

end TypedTree
