import TypedTree.Proofs.Acyclic
import TypedTree.Proofs.Reorder.Counterpart
import TypedTree.Proofs.Sample

namespace TypedTree

namespace SymbolTable

variable {w : World} {strict : Bool} {t t' : SymbolTable}

theorem boundCount_of_allUnbound (h : t.allUnbound = []) : t.boundCount = t.symbols.size := by
  rw [boundCount, ← Array.length_toList, List.countP_eq_length]
  intro x hx
  obtain ⟨i, hi⟩ := List.mem_iff_getElem?.1 hx
  by_contra hb
  have hmem : (⟨i⟩ : SymbolId) ∈ t.allUnbound :=
    mem_allUnbound.2 ⟨x, by simpa [get?] using hi, by simpa [Symbol.isBound] using hb⟩
  rw [h] at hmem
  cases hmem

theorem mem_keys : key ∈ t.cache.map (·.1) ↔ (t.cached? key.1 key.2).isSome := by
  rw [cached?]
  induction t.cache with
  | nil => simp
  | cons p rest ih =>
    rw [List.map_cons, List.mem_cons, ih, List.lookup_cons]
    by_cases hk : key = p.1
    · simp [hk]
    · have hbeq : ((key.1, key.2) == p.1) = false := by simpa using hk
      simp only [hbeq, hk, false_or]

theorem Sound.size_eq (h : t.Sound w strict) (h' : t'.Sound w strict)
    (hkeys : ∀ kind desc, (t.cached? kind desc).isSome ↔ (t'.cached? kind desc).isSome)
    (hloose : t.loose = t'.loose) : t.symbols.size = t'.symbols.size := by
  have hperm : (t.cache.map (·.1)).Perm (t'.cache.map (·.1)) :=
    (List.perm_ext_iff_of_nodup h.nodup h'.nodup).2 fun key => by
      rw [mem_keys, mem_keys]
      exact hkeys key.1 key.2
  have hlength := hperm.length_eq
  rw [List.length_map, List.length_map] at hlength
  have hle := h.cache_le
  have hle' := h'.cache_le
  unfold loose at hloose
  omega

end SymbolTable

namespace Ledger

variable {σ : Setting}

/-- Forgets that symbols of parameters stand for parameters only. -/
def relax (L : Ledger σ true) : Ledger σ false where
  toEntries := L.toEntries
  sound := { L.sound with table := { L.sound.table with fits := fun h => by cases h } }

theorem tame_relax (L : Ledger σ true) : L.relax.Tame := fun hc _ => by
  obtain ⟨id, hid⟩ := Option.isSome_iff_exists.1 hc
  exact L.sound.table.fits rfl hid

end Ledger

namespace Reordered

variable {σ : Setting} {files : List SourceFile} {L R : Ledger σ true} {qs : List (Lowered σ)}
  {ts : List ((q : Lowered σ) × Twin q)} (h : Reordered files L R qs ts)

include h

theorem same : Ledger.Same L.relax R.relax := ⟨fun _ _ => h.cached_iff, fun _ _ => h.declared_iff⟩

theorem allUnbound_eq_nil (hset : Ledger.Settles L.relax R.relax L' R' ds ds')
    (hL : L'.state.table.allUnbound = []) : R'.state.table.allUnbound = [] := by
  refine List.eq_nil_iff_forall_not_mem.2 fun id hid => ?_
  obtain ⟨x, hx, ho⟩ := SymbolTable.mem_allUnbound.1 hid
  cases hdesc : R'.descriptorOf? id with
  | some desc =>
    obtain ⟨y, hy, hc⟩ := R'.sound.table.origin hdesc
    cases hx.symm.trans hy
    obtain ⟨d, hd⟩ := Option.isSome_iff_exists.1 (hset.declared (Option.isSome_of_mem hc))
    obtain ⟨id', z, hc', hz, hzo⟩ := Entries.declared?_eq_some.1 hd
    cases hc.symm.trans hc'
    cases hx.symm.trans hz
    cases ho.symm.trans hzo
  | none =>
    have hx' := hset.stubbed'.loose hx hdesc
    have hloose : R.descriptorOf? id = none :=
      (hset.stubbed'.keeps.le.descriptorOf hx').symm.trans hdesc
    obtain ⟨a, y, hy, hya, hyo⟩ := h.loose_owner hx' hloose ho
    obtain ⟨z, hz, _⟩ := hset.stubbed.keeps.le.table.symbol hy
    have hold := hset.stubbed.loose hz ((hset.stubbed.keeps.le.descriptorOf hy).trans hya)
    cases hold.symm.trans hy
    have hmem := SymbolTable.mem_allUnbound.2 ⟨y, hz, hyo⟩
    rw [hL] at hmem
    cases hmem

theorem generateStubs (files' : List SourceFile) {ds : List DeclId} {t : State}
    (hok : Lower.generateStubs.runFrom (σ.withFiles files) L.state = (.ok ds, t)) :
    match Lower.generateStubs.runFrom (σ.withFiles files') R.state with
    | (.ok ds', t') => ∃ L' R' : Ledger σ false, L'.state = t ∧ R'.state = t' ∧
        Ledger.Settles L.relax R.relax L' R' ds ds' ∧ t.table.allUnbound = [] ∧
        t'.table.allUnbound = []
    | (.error e, _) => e = .endless := by
  have hfirst := Lower.runFrom_generateStubs (σ.withFiles files) L.state
  have hsecond := Lower.runFrom_generateStubs (σ.withFiles files') R.state
  rcases hr : (Lower.stubPasses (9 * (σ.withFiles files).world.descriptorCount + 1) []).runFrom
    (σ.withFiles files) L.state with ⟨e | roots, u⟩
  · rw [hr, hok] at hfirst
    cases hfirst
  rw [hr, hok] at hfirst
  dsimp only at hfirst
  split at hfirst
  next hbound =>
    cases hfirst
    have hset := Ledger.settles_stubPasses files' _ h.same L.tame_relax R.tame_relax
      (Ledger.visits_nil _) (Ledger.visits_nil _) hr
    change match (Lower.stubPasses (9 * (σ.withFiles files').world.descriptorCount + 1) []).runFrom
      (σ.withFiles files') R.state with
      | (.ok ds', s') => _
      | (.error e, _) => _ at hset
    rcases hr' : (Lower.stubPasses (9 * (σ.withFiles files').world.descriptorCount + 1) []).runFrom
      (σ.withFiles files') R.state with ⟨e | roots', u'⟩
    · rw [hr'] at hset hsecond
      rw [show Lower.generateStubs.runFrom (σ.withFiles files') R.state = _ from hsecond]
      exact hset
    · rw [hr'] at hset hsecond
      obtain ⟨L', R', rfl, rfl, hset⟩ := hset
      have hbound' := h.allUnbound_eq_nil hset hbound
      dsimp only at hsecond
      rw [if_pos hbound'] at hsecond
      rw [hsecond]
      exact ⟨L', R', rfl, rfl, hset, hbound, hbound'⟩
  next =>
    obtain ⟨e, he⟩ := hfirst
    cases he

variable {L' R' : Ledger σ false} {ds ds' : List DeclId}
  (hset : Ledger.Settles L.relax R.relax L' R' ds ds')

include hset

theorem stats_eq (hL : L'.state.table.allUnbound = []) (hR : R'.state.table.allUnbound = []) :
    L'.state.stats = R'.state.stats := by
  have hdeclarations : L'.state.stats.declarations = R'.state.stats.declarations := by
    rw [hset.stubbed.declarations, hset.stubbed'.declarations]
    exact h.declarations_eq
  have hloose : L'.state.table.loose = R'.state.table.loose := by
    rw [hset.stubbed.looseCount, hset.stubbed'.looseCount]
    exact h.loose_eq
  have hsize := L'.sound.table.size_eq R'.sound.table hset.same.cached hloose
  have hcount := L'.sound.counted
  have hcount' := R'.sound.counted
  rw [SymbolTable.boundCount_of_allUnbound hL] at hcount
  rw [SymbolTable.boundCount_of_allUnbound hR] at hcount'
  have hbefore := h.passes_eq
  have hp := hset.passes
  change L'.state.stats.passes + R.state.stats.passes =
    R'.state.stats.passes + L.state.stats.passes at hp
  have hstubs : L'.state.stats.stubs = R'.state.stats.stubs := by omega
  have hpasses' : L'.state.stats.passes = R'.state.stats.passes := by omega
  generalize L'.state.stats = a at *
  generalize R'.state.stats = b at *
  obtain ⟨_, _, _⟩ := a
  obtain ⟨_, _, _⟩ := b
  cases hdeclarations
  cases hstubs
  cases hpasses'
  rfl

theorem renderDecl_eq {f f' : Fragment} (hf : f.store = L'.state.store)
    (hf' : f'.store = R'.state.store) (hs : f.symbols = L'.state.table.symbols)
    (hs' : f'.symbols = R'.state.table.symbols) {d d' : DeclId}
    (hd : (Entries.counterparts σ L'.toEntries R'.toEntries (links ts)).decl [] d d') :
    f.renderDecl d = f'.renderDecl d' :=
  Fragment.renderDecl_eq (h.bisimulates hset.stubbed hset.stubbed' hf hf' hs hs')
    (hf ▸ L'.acyclic) (hf' ▸ R'.acyclic) hd

end Reordered

theorem map_eq_of_forall₂ {α β γ : Type} {f : α → γ} {g : β → γ} {xs : List α} {ys : List β}
    (h : List.Forall₂ (fun x y => f x = g y) xs ys) : xs.map f = ys.map g := by
  rw [← List.forall₂_eq_eq_eq, List.forall₂_map_left_iff, List.forall₂_map_right_iff]
  exact h

def Fragment.texts (f : Fragment) (files : List SourceFile) : List (SourceFile × List String) :=
  (files.zip f.files).map fun p => (p.1, p.2.declarations.map f.renderDecl)

def Fragment.externalTexts (f : Fragment) : List String := f.external.map f.renderDecl

/-- The session in which a unit is lowered, at its end. -/
def Session.ofModule (world : World) (config : Config) : Session :=
  (start world config).lowerFiles.2.finish.2

/-- What two runs over the same files in two orders have in common. -/
structure Session.Agree (files files' : List SourceFile) (s s' : Session) : Prop where
  length : s.files.length = files.length
  length' : s'.files.length = files'.length
  texts : (s.fragment.texts files).Perm (s'.fragment.texts files')
  externalTexts : s.fragment.externalTexts.Perm s'.fragment.externalTexts
  stats : s.stats = s'.stats

namespace Reordered

variable {σ : Setting} {files files' : List SourceFile} {L R : Ledger σ true}
  {qs : List (Lowered σ)} {ts : List ((q : Lowered σ) × Twin q)} (h : Reordered files L R qs ts)
  {L' R' : Ledger σ false} {ds ds' : List DeclId}
  (hset : Ledger.Settles L.relax R.relax L' R' ds ds')

include h hset

theorem agree {s s' : Session} (hs : s.state = L'.state) (hs' : s'.state = R'.state)
    (hL : L'.state.table.allUnbound = []) (hR : R'.state.table.allUnbound = [])
    (hfiles : s.files = qs.map (·.result)) (hfiles' : s'.files = ts.map (·.2.result))
    (hexternal : s.external = ds) (hexternal' : s'.external = ds')
    (hqs : qs.map (·.file) = files) (hts : ts.map (·.1.file) = files') :
    Session.Agree files files' s s' := by
  have hstore : s.fragment.store = L'.state.store := by rw [← hs]; rfl
  have hstore' : s'.fragment.store = R'.state.store := by rw [← hs']; rfl
  have hsymbols : s.fragment.symbols = L'.state.table.symbols := by rw [← hs]; rfl
  have hsymbols' : s'.fragment.symbols = R'.state.table.symbols := by rw [← hs']; rfl
  have hrender : ∀ {d d'}, (Entries.counterparts σ L'.toEntries R'.toEntries (links ts)).decl []
      d d' → s.fragment.renderDecl d = s'.fragment.renderDecl d' :=
    h.renderDecl_eq hset hstore hstore' hsymbols hsymbols'
  refine ⟨?_, ?_, ?_, ?_, ?_⟩
  · rw [hfiles, ← hqs, List.length_map, List.length_map]
  · rw [hfiles', ← hts, List.length_map, List.length_map]
  · have hfirst : s.fragment.texts files =
        qs.map fun q => (q.file, q.result.declarations.map s.fragment.renderDecl) := by
      change (files.zip s.files).map _ = _
      rw [hfiles, ← hqs, List.zip_map', List.map_map]
      rfl
    have hsecond : s'.fragment.texts files' = ts.map fun p =>
        (p.1.file, p.1.result.declarations.map s.fragment.renderDecl) := by
      change (files'.zip s'.files).map _ = _
      rw [hfiles', ← hts, List.zip_map', List.map_map]
      refine List.map_congr_left fun p hp => Prod.ext rfl (Eq.symm ?_)
      refine map_eq_of_forall₂ (p.2.declarations.imp fun d d' hd => hrender (.inr ?_))
      exact ⟨_, List.mem_map_of_mem hp, hd⟩
    rw [hfirst, hsecond]
    exact (h.perm.map _).symm.trans (by rw [List.map_map]; rfl)
  · obtain ⟨keys, keys', hkeys, hkeys', hperm⟩ := hset.roots
    let text (key : SymbolKind × DescId) : String :=
      ((L'.declared? key.1 key.2).map s.fragment.renderDecl).getD ""
    have hfirst : s.fragment.externalTexts = keys.map text := by
      change s.external.map _ = _
      rw [hexternal]
      refine (map_eq_of_forall₂ (hkeys.imp fun key d hd => ?_)).symm
      simp [text, hd]
    have hsecond : s'.fragment.externalTexts = keys'.map text := by
      change s'.external.map _ = _
      rw [hexternal']
      refine (map_eq_of_forall₂ (hkeys'.imp fun key d hd' => ?_)).symm
      obtain ⟨e, he⟩ := Option.isSome_iff_exists.1
        ((hset.same.declared key.1 key.2).2 (Option.isSome_of_mem hd'))
      simp only [text, he, Option.map_some, Option.getD_some]
      exact hrender (h.decl_of_declared hset.stubbed hset.stubbed' he hd')
    rw [hfirst, hsecond]
    exact hperm.map text
  · rw [Session.stats, Session.stats, hs, hs']
    exact h.stats_eq hset hL hR

end Reordered

/-- A session that has lowered all its files and nothing else. -/
structure Session.Lowers {σ : Setting} (files : List SourceFile) (L : Ledger σ true)
    (results : List TreeFile) (s : Session) : Prop where
  setting : s.setting = σ.withFiles files
  state : s.state = L.state
  files : s.files = results
  external : s.external = []

theorem Reordered.finish {qs : List (Lowered σ)} {ts : List ((q : Lowered σ) × Twin q)}
    (h : Reordered files L R qs ts) (hqs : qs.map (·.file) = files)
    (hts : ts.map (·.1.file) = files') {s s' : Session} (hs : s.Lowers files L (qs.map (·.result)))
    (hs' : s'.Lowers files' R (ts.map (·.2.result))) (hok : s.finish.1.toOption.isSome) :
    match s'.finish with
    | (.ok f', t') => s.finish.1 = .ok s.finish.2.fragment ∧ f' = t'.fragment ∧
        Session.Agree files files' s.finish.2 t'
    | (.error e, _) => e = .endless := by
  have hrun : Lower.generateStubs.runFrom s.setting s.state =
      Lower.generateStubs.runFrom (σ.withFiles files) L.state := by rw [hs.setting, hs.state]
  have hrun' : Lower.generateStubs.runFrom s'.setting s'.state =
      Lower.generateStubs.runFrom (σ.withFiles files') R.state := by rw [hs'.setting, hs'.state]
  rcases hg : Lower.generateStubs.runFrom (σ.withFiles files) L.state with ⟨e | ds, t⟩
  · rw [Session.finish_of_error (hrun.trans hg)] at hok
    cases hok
  have hstubs := h.generateStubs files' hg
  rcases hg' : Lower.generateStubs.runFrom (σ.withFiles files') R.state with ⟨e | ds', t'⟩
  · rw [hg'] at hstubs
    rw [Session.finish_of_error (hrun'.trans hg')]
    exact hstubs
  rw [hg'] at hstubs
  obtain ⟨L', R', hL', hR', hset, hL, hR⟩ := hstubs
  rw [Session.finish_of_ok (hrun.trans hg) hL, Session.finish_of_ok (hrun'.trans hg') hR]
  refine ⟨rfl, rfl, h.agree hset hL'.symm hR'.symm (hL' ▸ hL) (hR' ▸ hR) hs.files hs'.files ?_ ?_
    hqs hts⟩
  · change s.external ++ ds = ds
    rw [hs.external, List.nil_append]
  · change s'.external ++ ds' = ds'
    rw [hs'.external, List.nil_append]

namespace Session

variable {σ : Setting} {files files' : List SourceFile}

theorem agree_of_ok (hmem : files ⊆ σ.world.tree.files) (hperm : files'.Perm files)
    (hok : (lowerModule (σ.withFiles files).world σ.config).toOption.isSome) :
    match lowerModule (σ.withFiles files').world σ.config with
    | .ok f' => lowerModule (σ.withFiles files).world σ.config =
          .ok (ofModule (σ.withFiles files).world σ.config).fragment ∧
        f' = (ofModule (σ.withFiles files').world σ.config).fragment ∧
        Agree files files' (ofModule (σ.withFiles files).world σ.config)
          (ofModule (σ.withFiles files').world σ.config)
    | .error e => e = .endless := by
  have hfiles : (start (σ.withFiles files).world σ.config).lowerFiles =
      (start (σ.withFiles files).world σ.config).lowerEach files := rfl
  have hfiles' : (start (σ.withFiles files').world σ.config).lowerFiles =
      (start (σ.withFiles files').world σ.config).lowerEach files' := rfl
  rcases hl : (start (σ.withFiles files).world σ.config).lowerEach files with ⟨e | _, s⟩
  · rw [lowerModule, hfiles, hl] at hok
    cases hok
  obtain ⟨qs, L, hchain, hqs, hs⟩ := exists_chain (.empty σ true) rfl rfl hmem hl
  obtain ⟨qs', hqs', hqsperm⟩ : ∃ qs' : List (Lowered σ), qs'.map (·.file) = files' ∧
      qs'.Perm qs := by
    have hrel : List.Forall₂ (fun file q => file = Lowered.file q) files qs := by
      rw [← hqs, List.forall₂_map_left_iff, List.forall₂_same]
      exact fun _ _ => rfl
    obtain ⟨qs', hrel', hqsperm⟩ := List.perm_comp_forall₂ hperm hrel
    refine ⟨qs', ?_, hqsperm⟩
    rw [← List.map_id files']
    exact (map_eq_of_forall₂ hrel').symm
  have htwins := exists_twins (start (σ.withFiles files').world σ.config) (.empty σ true)
    (fun q hq => hchain.runs q (hqsperm.mem_iff.1 hq))
    ((hqsperm.pairwise_iff Lowered.Apart.symm).2 hchain.apart)
    (fun _ _ _ _ _ => by simp [Entries.declared?, Entries.cached?, Ledger.empty,
      SymbolTable.cached?]) rfl rfl
  rw [hqs'] at htwins
  rcases hl' : (start (σ.withFiles files').world σ.config).lowerEach files' with ⟨e | _, s'⟩
  · rw [hl'] at htwins
    rw [lowerModule, hfiles', hl']
    exact htwins
  rw [hl'] at htwins
  obtain ⟨ts, R, htwins, hts, hs'⟩ := htwins
  have hts' : ts.map (·.1.file) = files' := by
    rw [← hqs', ← hts, List.map_map]
    rfl
  rw [lowerModule, hfiles, hl] at hok
  have hlowers : s.Lowers files L (qs.map (·.result)) :=
    ⟨by rw [hs]; rfl, by rw [hs], by rw [hs]; rfl, by rw [hs]; rfl⟩
  have hlowers' : s'.Lowers files' R (ts.map (·.2.result)) :=
    ⟨by rw [hs']; rfl, by rw [hs'], by rw [hs']; rfl, by rw [hs']; rfl⟩
  have hfinish := Reordered.finish ⟨hchain, htwins, hts ▸ hqsperm⟩ hqs hts' hlowers hlowers' hok
  rw [lowerModule, lowerModule, ofModule, ofModule, hfiles, hfiles', hl, hl']
  dsimp only
  rcases hr : s'.finish with ⟨e | f', t'⟩
  · rw [hr] at hfinish
    exact hfinish
  · rw [hr] at hfinish
    exact hfinish

/-- The order of the files does not matter: if a unit is lowered in one order, it is in any other,
what each file declares has the same text, what is declared outside of the unit has the same texts,
and the same is counted. Runs that never end are left aside. -/
theorem lowerModule_reordered (world : World) (config : Config) (files : List SourceFile)
    (hperm : files.Perm world.tree.files) (hends : lowerModule world config ≠ .error .endless)
    (hends' : lowerModule { world with tree.files := files } config ≠ .error .endless) :
    ((∃ f, lowerModule world config = .ok f) ↔
      ∃ f', lowerModule { world with tree.files := files } config = .ok f') ∧
    ∀ f f', lowerModule world config = .ok f →
      lowerModule { world with tree.files := files } config = .ok f' →
      f.files.length = world.tree.files.length ∧ f'.files.length = files.length ∧
      (f.texts world.tree.files).Perm (f'.texts files) ∧
      f.externalTexts.Perm f'.externalTexts ∧
      (ofModule world config).stats =
        (ofModule { world with tree.files := files } config).stats := by
  have hthere : (lowerModule world config).toOption.isSome → _ :=
    agree_of_ok (σ := ⟨world, config⟩) (List.Subset.refl world.tree.files) hperm
  have hback : (lowerModule { world with tree.files := files } config).toOption.isSome → _ :=
    agree_of_ok (σ := ⟨world, config⟩) hperm.subset hperm.symm
  refine ⟨⟨fun ⟨f, hf⟩ => ?_, fun ⟨f', hf'⟩ => ?_⟩, fun f f' hf hf' => ?_⟩
  · have hrun := hthere (by rw [hf]; rfl)
    split at hrun
    next f' hf' => exact ⟨f', hf'⟩
    next e he =>
      subst hrun
      exact (hends' he).elim
  · have hrun := hback (by rw [hf']; rfl)
    split at hrun
    next f hf => exact ⟨f, hf⟩
    next e he =>
      subst hrun
      exact (hends he).elim
  · have hrun := hthere (by rw [hf]; rfl)
    split at hrun
    next f'' hf'' =>
      obtain ⟨hfirst, rfl, hagree⟩ := hrun
      cases hf.symm.trans hfirst
      cases hf'.symm.trans hf''
      exact ⟨hagree.length, hagree.length', hagree.texts, hagree.externalTexts, hagree.stats⟩
    next e he => cases hf'.symm.trans he

theorem lowerModule_reordered_twoFileWorld :
    twoFileWorld.tree.files.reverse.Perm twoFileWorld.tree.files ∧
    ∃ f f', lowerModule twoFileWorld {} = .ok f ∧
      lowerModule { twoFileWorld with tree.files := twoFileWorld.tree.files.reverse } {} = .ok f' ∧
      (f.texts twoFileWorld.tree.files).Perm (f'.texts twoFileWorld.tree.files.reverse) := by
  have hperm : twoFileWorld.tree.files.reverse.Perm twoFileWorld.tree.files := List.reverse_perm _
  have hok : (lowerModule twoFileWorld {}).toOption.isSome = true := by decide +kernel
  have hok' : (lowerModule { twoFileWorld with tree.files := twoFileWorld.tree.files.reverse }
    {}).toOption.isSome = true := by decide +kernel
  have hends : ∀ {r : Except LowerError Fragment}, r.toOption.isSome = true →
      r ≠ .error .endless := by
    rintro _ hr rfl
    cases hr
  have htexts := (lowerModule_reordered twoFileWorld {} _ hperm (hends hok) (hends hok')).2
  generalize lowerModule twoFileWorld {} = r at hok htexts ⊢
  generalize lowerModule { twoFileWorld with tree.files := twoFileWorld.tree.files.reverse } {} = r'
    at hok' htexts ⊢
  cases r with
  | error e => cases hok
  | ok f =>
    cases r' with
    | error e => cases hok'
    | ok f' => exact ⟨hperm, f, f', rfl, rfl, (htexts f f' rfl rfl).2.2.1⟩

end Session

end TypedTree
