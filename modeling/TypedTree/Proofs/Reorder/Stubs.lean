import TypedTree.Proofs.Reorder.Passes

namespace TypedTree

/-- Entries that gained nothing but stubs. -/
structure Entries.Stubbed (σ : Setting) (n m : Entries) : Prop where
  keeps : n.Keeps m
  loose : ∀ {id x}, m.symbol? id = some x → m.descriptorOf? id = none → n.symbol? id = some x
  declared : ∀ {kind desc d}, m.declared? kind desc = some d →
    n.declared? kind desc = some d ∨ m.IsStub σ kind desc d
  declarations : m.state.stats.declarations = n.state.stats.declarations
  looseCount : m.state.table.loose = n.state.table.loose

namespace Entries.Stubbed

variable {σ : Setting} {n m k : Entries}

theorem refl (n : Entries) : n.Stubbed σ n where
  keeps := ⟨.refl n, id⟩
  loose h _ := h
  declared := .inl
  declarations := rfl
  looseCount := rfl

theorem trans (h : n.Stubbed σ m) (h' : m.Stubbed σ k) : n.Stubbed σ k where
  keeps := ⟨h.keeps.le.trans h'.keeps.le, fun hx => h'.keeps.expr (h.keeps.expr hx)⟩
  loose hx ho := by
    have hx' := h'.loose hx ho
    exact h.loose hx' ((h'.keeps.le.descriptorOf hx').symm.trans ho)
  declared hd := by
    rcases h'.declared hd with hd | hd
    · exact (h.declared hd).imp_right fun hs => hs.mono h'.keeps
    · exact .inr hd
  declarations := h'.declarations.trans h.declarations
  looseCount := h'.looseCount.trans h.looseCount

theorem ofGrows (h : n.Grows σ B P m) :
    n.Stubbed σ m where
  keeps := h.keeps
  loose := h.loose
  declared hd := (h.declared hd).imp_right fun hs => hs.2.2
  declarations := h.declarations
  looseCount := h.looseCount

end Entries.Stubbed

namespace Ledger

variable {σ : Setting} {files : List SourceFile}

theorem stubbed_countPass (L : Ledger σ false) : L.Stubbed σ L.countPass.toEntries where
  keeps := ⟨L.le_countPass, id⟩
  loose h _ := h
  declared := .inl
  declarations := rfl
  looseCount := rfl

/-- The symbols that were taken up have their declarations. -/
def Visits (L : Ledger σ false) (visited : List SymbolId) : Prop :=
  ∀ id ∈ visited, ∃ x, L.symbol? id = some x ∧ x.isBound

theorem visits_nil (L : Ledger σ false) : L.Visits [] := by simp [Visits]

theorem Visits.mono {L L' : Ledger σ false} (h : L.Visits visited) (hle : L.Le L'.toEntries) :
    L'.Visits visited := fun id hid => by
  obtain ⟨x, hx, hb⟩ := h id hid
  obtain ⟨y, hy, hxy⟩ := hle.table.symbol hx
  obtain ⟨d, hd⟩ := Option.isSome_iff_exists.1 (show x.owner.isSome from hb)
  exact ⟨y, hy, by rw [Symbol.isBound, hxy.owner d hd]; rfl⟩

/-- All that is unbound is still to be taken up. -/
theorem Visits.filter_unbound {L : Ledger σ false} {visited : List SymbolId}
    (h : L.Visits visited) :
    (L.state.table.unboundSymbols.filter fun p => !visited.contains p.2) =
      L.state.table.unboundSymbols := by
  refine List.filter_eq_self.2 fun p hp => ?_
  obtain ⟨id, hid, hdesc⟩ := List.mem_filterMap.1 hp
  obtain ⟨desc, _, rfl⟩ := Option.map_eq_some_iff.1 hdesc
  obtain ⟨x, hx, ho⟩ := SymbolTable.mem_allUnbound.1 hid
  simp only [Bool.not_eq_true', List.contains_eq_mem, decide_eq_false_iff_not]
  intro hmem
  obtain ⟨y, hy, hb⟩ := h id hmem
  cases hx.symm.trans hy
  simp [Symbol.isBound, ho] at hb

/-- A pass leaves nothing pending of what it has taken up. -/
theorem visits_of_gives {L L' : Ledger σ false} (hle : L.Le L'.toEntries)
    {keys : List (SymbolKind × DescId)} {ps : List (DescId × SymbolId)} {ds : List (Option DeclId)}
    (hps : List.Forall₂ L.Pends keys ps) (hds : List.Forall₂ L'.Gives keys ds) :
    L'.Visits (ps.map (·.2)) := by
  intro id hid
  obtain ⟨p, hp, rfl⟩ := List.mem_map.1 hid
  obtain ⟨key, hkey, hpends⟩ := exists_of_mem_forall₂ hps.flip hp
  obtain ⟨_, _, hgives⟩ := exists_of_mem_forall₂ hds hkey
  obtain ⟨d, hd⟩ := Option.isSome_iff_exists.1 hgives.1
  obtain ⟨id, x, hc, hx, ho⟩ := Entries.declared?_eq_some.1 hd
  cases (hle.cached hpends.1).symm.trans hc
  exact ⟨x, hx, by rw [Symbol.isBound, ho]; rfl⟩

def Roots (L : Ledger σ false) (keys : List (SymbolKind × DescId)) (ds : List DeclId) : Prop :=
  List.Forall₂ (fun key d => L.declared? key.1 key.2 = some d) keys ds

theorem roots_of_gives {L : Ledger σ false} {keys : List (SymbolKind × DescId)}
    {ds : List (Option DeclId)} (h : List.Forall₂ L.Gives keys ds) :
    L.Roots (keys.filter fun key => isRootAt σ key.2) (ds.filterMap id) := by
  induction h with
  | nil => exact .nil
  | @cons key d keys ds hd _ ih =>
    obtain ⟨hsome, rfl⟩ := hd
    obtain ⟨e, he⟩ := Option.isSome_iff_exists.1 hsome
    cases hr : isRootAt σ key.2 with
    | true =>
      simp only [List.filter_cons, hr, if_true, he, id]
      exact .cons he ih
    | false => simpa [hr] using ih

theorem Roots.mono {L L' : Ledger σ false} (hle : L.Le L'.toEntries)
    {keys : List (SymbolKind × DescId)} {ds : List DeclId} (h : L.Roots keys ds) :
    L'.Roots keys ds :=
  List.Forall₂.imp (fun _ _ hd => hle.declared hd) h

theorem runFrom_stubPasses {L : Ledger σ false} (h : L.Visits visited) (fuel : Nat) :
    (Lower.stubPasses (fuel + 1) visited).runFrom (σ.withFiles files) L.state =
      if L.state.table.unboundSymbols.isEmpty then (.ok [], L.state)
      else match (L.state.table.unboundSymbols.mapM Lower.stubPending).runFrom (σ.withFiles files)
          L.countPass.state with
        | (.error e, s) => (.error e, s)
        | (.ok roots, s) =>
          match (Lower.stubPasses fuel (visited ++ L.state.table.unboundSymbols.map (·.2))).runFrom
              (σ.withFiles files) s with
          | (.error e, s) => (.error e, s)
          | (.ok ds, s) => (.ok (roots.filterMap id ++ ds), s) := by
  refine (Lower.runFrom_bind_ok _ _ (Lower.runFrom_get _ _) _).trans ?_
  rw [h.filter_unbound]
  dsimp only
  by_cases he : L.state.table.unboundSymbols.isEmpty = true
  · rw [if_pos he, if_pos he]
    rfl
  · rw [if_neg he, if_neg he]
    have hcount : (modify fun s : State => { s with stats.passes := s.stats.passes + 1 } :
        Lower PUnit).runFrom (σ.withFiles files) L.state = (.ok ⟨⟩, L.countPass.state) := rfl
    rw [Lower.runFrom_bind_ok _ _ hcount, Lower.runFrom_bind]
    rcases (L.state.table.unboundSymbols.mapM Lower.stubPending).runFrom (σ.withFiles files)
      L.countPass.state with ⟨e | roots, s⟩
    · rfl
    · dsimp only
      rw [Lower.runFrom_bind]
      rcases (Lower.stubPasses fuel _).runFrom (σ.withFiles files) s with ⟨e | ds, t⟩ <;> rfl

/-- What two runs have made once nothing is pending. -/
structure Settles (L R L' R' : Ledger σ false) (ds ds' : List DeclId) : Prop where
  same : Same L' R'
  stubbed : L.Stubbed σ L'.toEntries
  stubbed' : R.Stubbed σ R'.toEntries
  passes : L'.state.stats.passes + R.state.stats.passes =
    R'.state.stats.passes + L.state.stats.passes
  roots : ∃ keys keys', L'.Roots keys ds ∧ R'.Roots keys' ds' ∧ keys.Perm keys'
  declared : ∀ {kind desc}, (R'.cached? kind desc).isSome → (R'.declared? kind desc).isSome

/-- If one run gets through all its passes, the other one does, or never ends. -/
theorem settles_stubPasses (files' : List SourceFile) (fuel : Nat) {L R : Ledger σ false}
    (hsame : Same L R) (htame : L.Tame) (htame' : R.Tame) {visited visited' : List SymbolId}
    (hv : L.Visits visited) (hv' : R.Visits visited') {ds : List DeclId} {s : State}
    (hok : (Lower.stubPasses fuel visited).runFrom (σ.withFiles files) L.state = (.ok ds, s)) :
    match (Lower.stubPasses fuel visited').runFrom (σ.withFiles files') R.state with
    | (.ok ds', s') => ∃ L' R' : Ledger σ false, L'.state = s ∧ R'.state = s' ∧
        Settles L R L' R' ds ds'
    | (.error e, _) => e = .endless := by
  -- Along the passes: both runs take up the same keys in each of them.
  induction fuel generalizing L R visited visited' ds with
  | zero => cases hok
  | succ fuel ih =>
    obtain ⟨keys, keys', hp⟩ := hsame.exists_pendings
    rw [runFrom_stubPasses hv] at hok
    rw [runFrom_stubPasses hv']
    have hempty : L.state.table.unboundSymbols.isEmpty = R.state.table.unboundSymbols.isEmpty := by
      rw [Bool.eq_iff_iff, List.isEmpty_iff_length_eq_zero, List.isEmpty_iff_length_eq_zero,
        ← hp.pends.length_eq, ← hp.pends'.length_eq, hp.perm.length_eq]
    rw [← hempty]
    by_cases he : L.state.table.unboundSymbols.isEmpty = true
    · rw [if_pos he] at hok ⊢
      cases hok
      refine ⟨L, R, rfl, rfl, hsame, .refl _, .refl _, Nat.add_comm _ _,
        ⟨[], [], .nil, .nil, .refl _⟩, fun {kind desc} hc => ?_⟩
      by_contra hd
      obtain ⟨id, hid⟩ := Option.isSome_iff_exists.1 hc
      have hmem := mem_pending hid (by simpa using hd)
      rw [hempty, List.isEmpty_iff] at he
      rw [he] at hmem
      cases hmem
    · rw [if_neg he] at hok ⊢
      rcases hr : (L.state.table.unboundSymbols.mapM Lower.stubPending).runFrom
        (σ.withFiles files) L.countPass.state with ⟨e | roots, t⟩
      · rw [hr] at hok
        cases hok
      rw [hr] at hok
      rcases hrest : (Lower.stubPasses fuel
        (visited ++ L.state.table.unboundSymbols.map (·.2))).runFrom (σ.withFiles files) t
        with ⟨e | rest, u⟩
      · simp only [hrest] at hok
        cases hok
      simp only [hrest] at hok
      cases hok
      have hpass := pass files' (L := L.countPass) (R := R.countPass)
        ⟨hsame.cached, hsame.declared⟩ htame htame'
        ⟨hp.nodup, hp.nodup', hp.pends, hp.pends', hp.undeclared, hp.undeclared', hp.perm⟩ hr
      rw [show R.countPass.state.table = R.state.table from rfl] at hpass
      rcases hr' : (R.state.table.unboundSymbols.mapM Lower.stubPending).runFrom
        (σ.withFiles files') R.countPass.state with ⟨e | roots', t'⟩
      · rw [hr'] at hpass
        exact hpass
      rw [hr'] at hpass
      obtain ⟨L1, R1, rfl, rfl, hpassed, hgives, hgives'⟩ := hpass
      obtain ⟨⟨B, hg⟩, B', hg'⟩ := hpassed.grows, hpassed.grows'
      have hle : L.Le L1.toEntries := L.le_countPass.trans hg.le
      have hle' : R.Le R1.toEntries := R.le_countPass.trans hg'.le
      have hnext := ih hpassed.same (Tame.grows (L := L.countPass) htame hg)
        (Tame.grows (L := R.countPass) htame' hg')
        (List.forall_mem_append.2 ⟨hv.mono hle, visits_of_gives hle hp.pends hgives⟩)
        (List.forall_mem_append.2 ⟨hv'.mono hle', visits_of_gives hle' hp.pends' hgives'⟩) hrest
      dsimp only
      rcases hrest' : (Lower.stubPasses fuel
        (visited' ++ R.state.table.unboundSymbols.map (·.2))).runFrom (σ.withFiles files') R1.state
        with ⟨e | rest', u'⟩
      · rw [hrest'] at hnext
        exact hnext
      rw [hrest'] at hnext
      obtain ⟨L2, R2, rfl, rfl, hset⟩ := hnext
      refine ⟨L2, R2, rfl, rfl, hset.same, ?_, ?_, ?_, ?_, hset.declared⟩
      · exact L.stubbed_countPass.trans ((Entries.Stubbed.ofGrows hg).trans hset.stubbed)
      · exact R.stubbed_countPass.trans ((Entries.Stubbed.ofGrows hg').trans hset.stubbed')
      · have hpasses := hset.passes
        have hcount : L1.state.stats.passes = L.state.stats.passes + 1 := hg.passes
        have hcount' : R1.state.stats.passes = R.state.stats.passes + 1 := hg'.passes
        omega
      · obtain ⟨ks, ks', hks, hks', hperm⟩ := hset.roots
        exact ⟨_, _, List.rel_append ((roots_of_gives hgives).mono hset.stubbed.keeps.le) hks,
          List.rel_append ((roots_of_gives hgives').mono hset.stubbed'.keeps.le) hks',
          (hp.perm.filter _).append hperm⟩

end Ledger

end TypedTree
