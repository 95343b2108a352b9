import TypedTree.Proofs.Reorder.Pending

namespace TypedTree

section signature

variable {σ : Setting} {n : Entries} {v : Visibility} {d : DescriptorKind} {k : DeclKind}
  (h : Signs σ n v d k)

include h

theorem Signs.shows_type {id : TypeId} (hid : id ∈ d.types) : ∃ τ, n.ShowsType σ id τ := by
  have hall : ∀ {ids : List TypeId} {τs}, List.Forall₂ (n.ShowsType σ) ids τs → id ∈ ids →
      ∃ τ, n.ShowsType σ id τ := fun hs hm => by
    obtain ⟨τ, _, hτ⟩ := Ledger.exists_of_mem_forall₂ hs hm
    exact ⟨τ, hτ⟩
  have hsome : ∀ {o : Option TypeId} {τ}, Option.Rel (n.ShowsType σ) o τ → id ∈ o.toList →
      ∃ τ, n.ShowsType σ id τ := fun hs hm => hall (Option.forall₂_toList hs) hm
  cases h with
  | classLike _ hss => exact hall hss hid
  | function _ hr he _ hτ _ =>
    simp only [DescriptorKind.types, List.mem_append, List.mem_singleton] at hid
    rcases hid with (hid | hid) | rfl
    · exact hsome hr hid
    · exact hsome he hid
    · exact ⟨_, hτ⟩
  | constructor _ hτ => exact ⟨_, List.mem_singleton.1 hid ▸ hτ⟩
  | property hτ hr he _ =>
    simp only [DescriptorKind.types, List.mem_cons, List.mem_append] at hid
    rcases hid with rfl | hid | hid
    · exact ⟨_, hτ⟩
    · exact hsome hr hid
    · exact hsome he hid
  | accessor _ hτ _ => exact ⟨_, List.mem_singleton.1 hid ▸ hτ⟩
  | typeParameter hbs => exact hall hbs hid
  | valueParameter _ hτ => exact ⟨_, List.mem_singleton.1 hid ▸ hτ⟩
  | typeAlias _ hτ => exact ⟨_, List.mem_singleton.1 hid ▸ hτ⟩

theorem Signs.cached_symbol (hkey : key ∈ d.symbols) : (n.cached? key.1 key.2).isSome := by
  cases h with
  | function _ _ _ _ _ hos =>
    obtain ⟨o, ho, rfl⟩ := List.mem_map.1 hkey
    obtain ⟨s, _, hs⟩ := Ledger.exists_of_mem_forall₂ hos ho
    exact Option.isSome_of_mem hs
  | accessor hp _ _ =>
    cases List.mem_singleton.1 hkey
    exact Option.isSome_of_mem hp
  | _ => cases hkey

theorem Signs.declared_parameter (hkey : key ∈ d.parameters) :
    (n.declared? key.1 key.2).isSome := by
  have hall : ∀ {kind : SymbolKind} {ps : List DescId} {ds}, n.Owners kind ps ds →
      key ∈ ps.map (kind, ·) → (n.declared? key.1 key.2).isSome := fun ho hm => by
    obtain ⟨p, hp, rfl⟩ := List.mem_map.1 hm
    obtain ⟨c, _, hc⟩ := Ledger.exists_of_mem_forall₂ ho hp
    exact Option.isSome_of_mem hc
  cases h with
  | classLike hts _ => exact hall hts hkey
  | function hts _ _ hps _ _ =>
    exact (List.mem_append.1 hkey).elim (hall hts) (hall hps)
  | constructor hps _ => exact hall hps hkey
  | property _ _ _ hts => exact hall hts hkey
  | accessor _ _ hps => exact hall hps hkey
  | typeParameter | valueParameter => cases hkey
  | typeAlias hts _ => exact hall hts hkey

end signature

namespace Ledger

variable {σ : Setting} {files : List SourceFile}

/-- The bounds that one run keeps to: what was declared before it, and what is there after it. -/
def boundsOf (L L' : Ledger σ false) : Bounds where
  known kind desc := (L.declared? kind desc).isSome
  cached kind desc := (L'.cached? kind desc).isSome
  declared kind desc := (L'.declared? kind desc).isSome

section bounds

variable {L L' : Ledger σ false} {B : Bounds} {P : SymbolKind → DescId → Prop}
  (h : L.Grows σ B P L'.toEntries) {kind : SymbolKind} {desc : DescId} {d : Descriptor}

include h

/-- What is declared in between is a stub. -/
theorem isStub_of_boundsOf (hd : (boundsOf L L').declared kind desc)
    (hk : ¬ (boundsOf L L').known kind desc) (hdesc : σ.world.descriptor? desc = some d) :
    ∃ decl id calls k, L'.Stub σ kind desc decl d id calls k := by
  obtain ⟨decl, hdecl⟩ := Option.isSome_iff_exists.1 hd
  rcases h.declared hdecl with hold | ⟨_, _, d', id, calls, k, hs⟩
  · exact (hk (Option.isSome_of_mem hold)).elim
  · cases hs.descriptor.symm.trans hdesc
    exact ⟨decl, id, calls, k, hs⟩

theorem closed_boundsOf : (boundsOf L L').Closed σ where
  types hd hk hdesc id hid k e hneeds := by
    obtain ⟨_, _, _, _, hs⟩ := isStub_of_boundsOf h hd hk hdesc
    obtain ⟨τ, hτ⟩ := hs.signature.shows_type hid
    exact hneeds _ _ hτ
  annotations hd hk hdesc k e hneeds := by
    obtain ⟨_, _, _, _, hs⟩ := isStub_of_boundsOf h hd hk hdesc
    exact hneeds _ _ hs.annotations
  symbols hd hk hdesc key hkey := by
    obtain ⟨_, _, _, _, hs⟩ := isStub_of_boundsOf h hd hk hdesc
    exact hs.signature.cached_symbol hkey
  parameters hd hk hdesc key hkey := by
    obtain ⟨_, _, _, _, hs⟩ := isStub_of_boundsOf h hd hk hdesc
    have hdeclared := hs.signature.declared_parameter hkey
    obtain ⟨c, hc⟩ := Option.isSome_iff_exists.1 hdeclared
    obtain ⟨id, _, hid, _⟩ := Entries.declared?_eq_some.1 hc
    exact ⟨Option.isSome_of_mem hid, hdeclared⟩

theorem sure_boundsOf : (boundsOf L L').Sure σ where
  types hd hk hdesc id hid := by
    obtain ⟨_, _, _, _, hs⟩ := isStub_of_boundsOf h hd hk hdesc
    obtain ⟨τ, hτ⟩ := hs.signature.shows_type hid
    exact ⟨_, _, hτ⟩
  annotations hd hk hdesc := by
    obtain ⟨_, _, _, _, hs⟩ := isStub_of_boundsOf h hd hk hdesc
    exact ⟨_, _, hs.annotations⟩
  symbols hd hk hdesc key hkey := by
    obtain ⟨_, _, _, _, hs⟩ := isStub_of_boundsOf h hd hk hdesc
    obtain ⟨id, hid⟩ := Option.isSome_iff_exists.1 (hs.signature.cached_symbol hkey)
    obtain ⟨_, _, _, _, hdesc', _⟩ := L'.sound.table.cached hid
    exact Option.isSome_of_mem hdesc'
  parameters hd hk hdesc key hkey := by
    have hc := ((closed_boundsOf h).parameters hd hk hdesc key hkey).1
    obtain ⟨id, hid⟩ := Option.isSome_iff_exists.1 hc
    obtain ⟨_, _, _, _, hdesc', _⟩ := L'.sound.table.cached hid
    exact Option.isSome_of_mem hdesc'

end bounds

/-- Two runs that have asked for the same keys and declared the same ones among them. -/
structure Same (L R : Ledger σ false) : Prop where
  cached : ∀ kind desc, (L.cached? kind desc).isSome ↔ (R.cached? kind desc).isSome
  declared : ∀ kind desc, (L.declared? kind desc).isSome ↔ (R.declared? kind desc).isSome

/-- Symbols of parameters that are not declared stand for parameters. -/
def Tame (L : Ledger σ false) : Prop := ∀ {kind desc}, (L.cached? kind desc).isSome →
  L.declared? kind desc = none → σ.world.Fits kind desc

theorem Tame.grows {L L' : Ledger σ false} {P : SymbolKind → DescId → Prop} (h : L.Tame)
    (hg : L.Grows σ B P L'.toEntries) : L'.Tame := fun hc hd => by
  rcases hg.tame hc with hc | hfits | hdeclared
  · exact h hc (hg.le.undeclared hd)
  · exact hfits
  · simp [hd] at hdeclared

/-- A pass that stays within bounds which hold all that is pending. -/
theorem stubs_pass (files : List SourceFile) {L : Ledger σ false} (htame : L.Tame) {B : Bounds}
    (hB : B.Closed σ)
    (hL : L.Knows B) {keys : List (SymbolKind × DescId)} (hnodup : keys.Nodup)
    (hps : List.Forall₂ L.Pends keys L.state.table.unboundSymbols)
    (hkeys : ∀ key ∈ keys, L.declared? key.1 key.2 = none)
    (hbound : ∀ key ∈ keys, B.declared key.1 key.2) :
    L.Stubs files B (fun _ _ => True)
      (L.state.table.unboundSymbols.mapM Lower.stubPending) fun L' ds =>
        List.Forall₂ L'.Gives keys ds :=
  stubs_pending hB hL (.refl _) hps hnodup fun key hkey =>
    have hpends := exists_of_mem_forall₂ hps hkey
    ⟨hbound key hkey, htame (Option.isSome_of_mem hpends.choose_spec.2.1) (hkeys key hkey),
      fun _ => hkeys key hkey⟩

theorem Same.grows {L R L' R' : Ledger σ false} (h : Same L R) {B B' : Bounds}
    {P P' : SymbolKind → DescId → Prop} (hg : L.Grows σ B P L'.toEntries)
    (hg' : R.Grows σ B' P' R'.toEntries)
    (hB : ∀ {kind desc}, B.cached kind desc → (R'.cached? kind desc).isSome)
    (hB' : ∀ {kind desc}, B'.cached kind desc → (L'.cached? kind desc).isSome)
    (hD : ∀ {kind desc}, B.declared kind desc → (R'.declared? kind desc).isSome)
    (hD' : ∀ {kind desc}, B'.declared kind desc → (L'.declared? kind desc).isSome) :
    Same L' R' := by
  have hcached : ∀ {M M' : Ledger σ false} {kind desc}, M.Le M'.toEntries →
      (M.cached? kind desc).isSome → (M'.cached? kind desc).isSome := fun hle hc => by
    obtain ⟨id, hid⟩ := Option.isSome_iff_exists.1 hc
    exact Option.isSome_of_mem (hle.cached hid)
  have hdeclared : ∀ {M M' : Ledger σ false} {kind desc}, M.Le M'.toEntries →
      (M.declared? kind desc).isSome → (M'.declared? kind desc).isSome := fun hle hd => by
    obtain ⟨d, hd⟩ := Option.isSome_iff_exists.1 hd
    exact Option.isSome_of_mem (hle.declared hd)
  refine ⟨fun kind desc => ⟨fun hc => ?_, fun hc => ?_⟩,
    fun kind desc => ⟨fun hd => ?_, fun hd => ?_⟩⟩
  · rcases hg.cached hc with hc | hc
    · exact hcached hg'.le ((h.cached kind desc).1 hc)
    · exact hB hc
  · rcases hg'.cached hc with hc | hc
    · exact hcached hg.le ((h.cached kind desc).2 hc)
    · exact hB' hc
  · obtain ⟨d, hd⟩ := Option.isSome_iff_exists.1 hd
    rcases hg.declared hd with hd | ⟨_, hd, _⟩
    · exact hdeclared hg'.le ((h.declared kind desc).1 (Option.isSome_of_mem hd))
    · exact hD hd
  · obtain ⟨d, hd⟩ := Option.isSome_iff_exists.1 hd
    rcases hg'.declared hd with hd | ⟨_, hd, _⟩
    · exact hdeclared hg.le ((h.declared kind desc).2 (Option.isSome_of_mem hd))
    · exact hD' hd

/-- What is pending in two runs with the same keys. -/
structure Pendings (L R : Ledger σ false) (keys keys' : List (SymbolKind × DescId)) : Prop where
  nodup : keys.Nodup
  nodup' : keys'.Nodup
  pends : List.Forall₂ L.Pends keys L.state.table.unboundSymbols
  pends' : List.Forall₂ R.Pends keys' R.state.table.unboundSymbols
  undeclared : ∀ key ∈ keys, L.declared? key.1 key.2 = none
  undeclared' : ∀ key ∈ keys', R.declared? key.1 key.2 = none
  perm : keys.Perm keys'

theorem Same.exists_pendings (h : Same L R) : ∃ keys keys', Pendings L R keys keys' := by
  obtain ⟨keys, hnodup, hpends, hkeys⟩ := L.exists_pending
  obtain ⟨keys', hnodup', hpends', hkeys'⟩ := R.exists_pending
  refine ⟨keys, keys', hnodup, hnodup', hpends, hpends', fun key hk => ((hkeys key).1 hk).2,
    fun key hk => ((hkeys' key).1 hk).2,
    (List.perm_ext_iff_of_nodup hnodup hnodup').2 fun key => ?_⟩
  rw [hkeys, hkeys', h.cached, ← Option.not_isSome_iff_eq_none, ← Option.not_isSome_iff_eq_none,
    h.declared]

/-- What two runs of a pass have made. -/
structure Passed (L R L' R' : Ledger σ false) : Prop where
  same : Same L' R'
  grows : ∃ B, L.Grows σ B (fun _ _ => True) L'.toEntries
  grows' : ∃ B, R.Grows σ B (fun _ _ => True) R'.toEntries

/-- If one run gets through a pass, the other one does, or never ends; and both come to the same
keys, whatever the order in which they take up what is pending. -/
theorem pass (files' : List SourceFile) {L R : Ledger σ false} (hsame : Same L R)
    (htame : L.Tame) (htame' : R.Tame) {keys keys' : List (SymbolKind × DescId)}
    (hp : Pendings L R keys keys') {ds : List (Option DeclId)} {s : State}
    (hok : (L.state.table.unboundSymbols.mapM Lower.stubPending).runFrom (σ.withFiles files)
      L.state = (.ok ds, s)) :
    match (R.state.table.unboundSymbols.mapM Lower.stubPending).runFrom (σ.withFiles files')
      R.state with
    | (.ok ds', s') => ∃ L' R' : Ledger σ false, L'.state = s ∧ R'.state = s' ∧ Passed L R L' R' ∧
        List.Forall₂ L'.Gives keys ds ∧ List.Forall₂ R'.Gives keys' ds'
    | (.error e, _) => e = .endless := by
  have hfirst := stubs_pass files htame (Bounds.closed_all σ) (fun _ _ h => h.elim)
    hp.nodup hp.pends hp.undeclared fun _ _ => trivial
  unfold Stubs at hfirst
  rw [hok] at hfirst
  obtain ⟨L1, hg1, rfl, hds⟩ := hfirst
  have hsecond := stubs_pass files' htame' (closed_boundsOf hg1)
    (fun kind desc hk => (hsame.declared kind desc).1 hk) hp.nodup' hp.pends' hp.undeclared'
    fun key hk => by
      obtain ⟨d, _, hd⟩ := exists_of_mem_forall₂ hds (hp.perm.mem_iff.2 hk)
      exact hd.1
  unfold Stubs at hsecond
  split
  next ds' s' hr =>
    rw [hr] at hsecond
    obtain ⟨R1, hg', rfl, hds'⟩ := hsecond
    -- The first run keeps to what the second one has made, too.
    have hagain := stubs_pass files htame (closed_boundsOf hg')
      (fun kind desc hk => (hsame.declared kind desc).2 hk) hp.nodup hp.pends hp.undeclared
      fun key hk => by
        obtain ⟨d, _, hd⟩ := exists_of_mem_forall₂ hds' (hp.perm.mem_iff.1 hk)
        exact hd.1
    unfold Stubs at hagain
    rw [hok] at hagain
    obtain ⟨L2, hg2, hstate, hds2⟩ := hagain
    have hcached : ∀ {kind desc}, L2.cached? kind desc = L1.cached? kind desc := by
      simp only [Entries.cached?, hstate, implies_true]
    have hdeclared : ∀ {kind desc}, L2.declared? kind desc = L1.declared? kind desc := by
      simp only [Entries.declared?, Entries.cached?, Entries.symbol?, hstate, implies_true]
    refine ⟨L2, R1, hstate, rfl, ⟨hsame.grows hg2 hg' id ?_ id ?_, ⟨_, hg2⟩, _, hg'⟩, hds2, hds'⟩
    · exact fun hc => hcached ▸ hc
    · exact fun hd => hdeclared ▸ hd
  next e s' hr =>
    rw [hr] at hsecond
    obtain ⟨_, _, _, _, he⟩ := hsecond
    exact he (sure_boundsOf hg1)

end Ledger

end TypedTree
