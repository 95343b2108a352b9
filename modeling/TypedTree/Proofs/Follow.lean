import TypedTree.Proofs.Pass.Tree
import TypedTree.Proofs.Stub.Declaration
import TypedTree.Proofs.Trace.Session

namespace TypedTree

def Bounds.all : Bounds := ⟨fun _ _ => False, fun _ _ => True, fun _ _ => True⟩

theorem Bounds.closed_all (σ : Setting) : Bounds.all.Closed σ where
  types _ _ _ _ _ _ _ _ := trivial
  annotations _ _ _ _ _ _ := trivial
  symbols _ _ _ _ _ := trivial
  parameters _ _ _ _ _ := ⟨trivial, trivial⟩

theorem SymbolTable.mem_allUnbound {t : SymbolTable} {id : SymbolId} :
    id ∈ t.allUnbound ↔ ∃ x, t.get? id = some x ∧ x.owner = none := by
  simp only [allUnbound, List.mem_filterMap, List.mem_zipIdx_iff_getElem?, Prod.exists,
    SymbolTable.get?, Array.getElem?_toList]
  constructor
  · rintro ⟨x, i, hx, h⟩
    split at h
    next => cases h
    next hb =>
      cases h
      exact ⟨x, hx, by simpa [Symbol.isBound] using hb⟩
  · rintro ⟨x, hx, ho⟩
    exact ⟨x, id.index, hx, by simp [Symbol.isBound, ho]⟩

theorem SymbolTable.Sound.cached_of_mem {t : SymbolTable} (h : t.Sound w strict)
    {p : DescId × SymbolId} (hp : p ∈ t.unboundSymbols) :
    ∃ kind, t.cached? kind p.1 = some p.2 := by
  obtain ⟨id, _, hid⟩ := List.mem_filterMap.1 hp
  obtain ⟨desc, hdesc, rfl⟩ := Option.map_eq_some_iff.1 hid
  obtain ⟨x, _, hc⟩ := h.origin hdesc
  exact ⟨x.kind, hc⟩

namespace Ledger

variable {σ : Setting} {strict : Bool} {α β : Type}

/-- A step that the ledger follows, also if it fails. If it succeeds, every holder that it began has
its owner. -/
def Follows (L : Ledger σ strict) (m : Lower α) (Q : Ledger σ strict → α → Prop) : Prop :=
  match m.runFrom σ L.state with
  | (.ok a, s) => ∃ L' : Ledger σ strict, L ≤ L' ∧ L'.opens = L.opens ∧ L'.state = s ∧ Q L' a
  | (.error e, s) => ∃ L' : Ledger σ strict, L ≤ L' ∧ L'.state = s ∧ e.Mild σ.world

namespace Follows

variable {L : Ledger σ strict} {Q : Ledger σ strict → α → Prop} {R : Ledger σ strict → β → Prop}

theorem pure (h : Q L a) : L.Follows (pure a) Q := ⟨L, le_refl L, rfl, rfl, h⟩

theorem throw (h : e.Mild σ.world) : L.Follows (throw e) Q :=
  ⟨L, le_refl L, rfl, h⟩

theorem bind (h : L.Follows m Q) (hk : ∀ L' a, L ≤ L' → Q L' a → L'.Follows (k a) R) :
    L.Follows (m >>= k) R := by
  unfold Follows at h ⊢
  rcases hm : m.runFrom σ L.state with ⟨e | a, s⟩
  · rw [hm] at h
    rw [Lower.runFrom_bind_error _ _ hm]
    exact h
  · rw [hm] at h
    obtain ⟨L1, hle, hopens, rfl, ha⟩ := h
    have hnext := hk L1 a hle ha
    unfold Follows at hnext
    rw [Lower.runFrom_bind_ok _ _ hm]
    rcases hn : (k a).runFrom σ L1.state with ⟨e | b, s⟩
    · rw [hn] at hnext
      obtain ⟨L2, hle', hs, he⟩ := hnext
      exact ⟨L2, hle.trans hle', hs, he⟩
    · rw [hn] at hnext
      obtain ⟨L2, hle', hopens', hs, hb⟩ := hnext
      exact ⟨L2, hle.trans hle', hopens'.trans hopens, hs, hb⟩

theorem get_bind (h : L.Follows (k L.state) R) : L.Follows (get >>= k) R := by
  unfold Follows at h ⊢
  rwa [Lower.runFrom_bind_ok _ _ (Lower.runFrom_get _ _)]

theorem read_bind (h : L.Follows (k σ) R) : L.Follows (read >>= k) R := by
  unfold Follows at h ⊢
  rwa [Lower.runFrom_bind_ok _ _ (Lower.runFrom_read _ _)]

theorem symbol_bind {id : SymbolId} (hx : L.symbol? id = some x) {k : Symbol → Lower β}
    (hk : L.Follows (k x) R) : L.Follows (Lower.symbol id >>= k) R := by
  unfold Lower.symbol
  rw [bind_assoc]
  refine get_bind ?_
  rw [show L.state.table.get? id = some x from hx]
  exact hk

theorem descriptor_bind (hd : σ.world.descriptor? desc = some d) {k : Descriptor → Lower β}
    (hk : L.Follows (k d) R) : L.Follows (Lower.descriptor desc >>= k) R := by
  unfold Lower.descriptor
  rw [bind_assoc]
  refine read_bind ?_
  rw [hd]
  exact hk

theorem mapM {γ : Type} {xs : List γ} {f : γ → Lower α}
    (hS : ∀ {L1 L2 : Ledger σ strict} {a}, L1 ≤ L2 → S L1 a → S L2 a)
    (h : ∀ x ∈ xs, ∀ L', L ≤ L' → L'.Follows (f x) S) :
    L.Follows (xs.mapM f) fun L' as => ∀ a ∈ as, S L' a := by
  induction xs generalizing L with
  | nil => exact pure (by simp)
  | cons x xs ih =>
    rw [List.mapM_cons]
    refine bind (h x (by simp) L (le_refl L)) fun L1 a h1 ha => ?_
    refine bind (ih fun y hy L' hle => h y (by simp [hy]) L' (h1.trans hle)) fun L2 as h2 has => ?_
    exact pure (List.forall_mem_cons.2 ⟨hS h2 ha, has⟩)

end Follows

/-- Lowering a file: its declarations use no holder, and its annotations are settled. -/
theorem follows_lowerFile (L : Ledger σ strict) {file : SourceFile}
    (hf : file ∈ σ.world.tree.files) : L.Follows (Lower.lowerFile file) fun L' lowered =>
      (∀ e ∈ lowered.annotations, L'.Settled e) ∧ ∀ d ∈ lowered.declarations, L'.Lies [] d := by
  have hrun : (Pairing.tandem L L σ.world.tree.files σ.world.tree.files).Does (.start L L) _ _ _ :=
    (Pairing.lawful L L σ.world.tree.files σ.world.tree.files).lowerFile
      (σ.world.knows_file hf)
  change Tandem.Outcome _ _ _ ((Lower.lowerFile file).runFrom σ L.state) _ at hrun
  unfold Follows
  rcases hr : (Lower.lowerFile file).runFrom σ L.state with ⟨e | lowered, s⟩
  · rw [hr] at hrun
    obtain ⟨⟨L', hle, hs⟩, he⟩ := hrun
    exact ⟨L', hle, hs, he⟩
  · rw [hr] at hrun
    obtain ⟨w, b, hle, hs, ⟨hopens, halike⟩, _⟩ := hrun
    refine ⟨w.left, hle.1, ?_, hs, fun e he => ?_, fun d hd => ?_⟩
    · rw [w.opens_left, show w.opens = [] from hopens]
      rfl
    · obtain ⟨_, _, _, _, _, _, hstands, _⟩ := exists_of_mem_forall₂ halike.annotations he
      exact hstands.1
    · obtain ⟨_, _, g, hlink, hg⟩ := exists_of_mem_forall₂ halike.declarations hd
      obtain ⟨⟨t, hm⟩, _⟩ := w.nodes.mark hlink
      exact ⟨_, hm, by rw [List.subset_nil.1 hg]; exact List.Subset.refl _⟩

section stubs

variable {L : Ledger σ false} {B : Bounds} {P : SymbolKind → DescId → Prop}
  {Q : Ledger σ false → α → Prop}

theorem Stubs.follows (h : L.Stubs σ.world.tree.files B P m Q) : L.Follows m Q := by
  unfold Stubs at h
  rw [show σ.withFiles σ.world.tree.files = σ from rfl] at h
  unfold Follows
  rcases hr : m.runFrom σ L.state with ⟨e | a, s⟩
  · rw [hr] at h
    obtain ⟨L', hle, hs, he, _⟩ := h
    exact ⟨L', hle, hs, he⟩
  · rw [hr] at h
    obtain ⟨L', hg, hs, ha⟩ := h
    exact ⟨L', hg.le, hg.opens, hs, ha⟩

theorem follows_declaration {id : SymbolId} (hc : L.cached? kind desc = some id) :
    L.Follows (Lower.declaration id desc) fun L' d => (L'.mark? d).isSome := by
  have hdecl : Declares σ σ.world.tree.files .all Lower.declaration :=
    declares_declaration (Bounds.closed_all σ)
  refine Stubs.follows (.imp (hdecl L (fun _ _ h => h.elim) hc trivial) (fun _ _ h => h) ?_)
  intro L' d _ hd
  obtain ⟨_, _, _, hx, ho⟩ := Entries.declared?_eq_some.1 hd
  exact L'.sound.owners hx ho

theorem follows_stubPending (hc : L.cached? kind p.1 = some p.2) :
    L.Follows (Lower.stubPending p) fun L' d => ∀ e ∈ d, (L'.mark? e).isSome := by
  obtain ⟨x, d, hx, _, hd, _⟩ := L.sound.table.cached hc
  refine .symbol_bind hx ?_
  split
  next => exact .pure (by simp)
  next =>
    refine .bind (follows_declaration hc) fun L' e _ he => .descriptor_bind hd (.pure ?_)
    split
    next => simpa using he
    next => simp

def countPass (L : Ledger σ strict) : Ledger σ strict where
  toEntries := L.withTable L.state.table { L.state.stats with passes := L.state.stats.passes + 1 }
  sound := L.sound.withTable (.refl _) L.sound.table L.sound.owners L.sound.counted

theorem le_countPass (L : Ledger σ strict) : L ≤ L.countPass :=
  Entries.le_withTable (.refl _) _

theorem present_mono {L1 L2 : Ledger σ strict} (h : L1 ≤ L2) (hd : (L1.mark? d).isSome) :
    (L2.mark? d).isSome := by
  obtain ⟨m, hm⟩ := Option.isSome_iff_exists.1 hd
  exact Option.isSome_of_mem (h.mark hm)

theorem follows_stubPasses (fuel : Nat) (visited : List SymbolId) :
    L.Follows (Lower.stubPasses fuel visited) fun L' ds => ∀ d ∈ ds, (L'.mark? d).isSome := by
  induction fuel generalizing L visited with
  | zero => exact .throw ⟨by simp, by simp⟩
  | succ fuel ih =>
    refine .get_bind ?_
    dsimp only
    split
    next => exact .pure (by simp)
    next =>
      refine .bind (Q := fun L' _ => L.countPass ≤ L')
        ⟨L.countPass, L.le_countPass, rfl, rfl, le_refl _⟩ fun L1 _ _ h1 => ?_
      refine .bind (.mapM (S := fun L' d => ∀ e ∈ d, (L'.mark? e).isSome)
        (fun h hd e he => present_mono h (hd e he)) fun p hp L' hle => ?_) fun L2 ds _ hds => ?_
      · obtain ⟨kind, hc⟩ := L.sound.table.cached_of_mem (List.mem_filter.1 hp).1
        exact follows_stubPending ((L.le_countPass.trans (h1.trans hle)).cached hc)
      · refine .bind (ih _) fun L3 es h3 hes => .pure fun d hd => ?_
        rcases List.mem_append.1 hd with hd | hd
        · obtain ⟨o, ho, rfl⟩ := List.mem_filterMap.1 hd
          exact present_mono h3 (hds _ ho d rfl)
        · exact hes d hd

theorem runFrom_names (σ : Setting) {s : State} (ids : List SymbolId)
    (h : ∀ id ∈ ids, (s.table.get? id).isSome) : ∃ names,
      (ids.mapM fun id => do return (← Lower.symbol id).name : Lower _).runFrom σ s =
        (.ok names, s) ∧ names.length = ids.length := by
  induction ids with
  | nil => exact ⟨[], rfl, rfl⟩
  | cons id ids ih =>
    obtain ⟨x, hx⟩ := Option.isSome_iff_exists.1 (h id (by simp))
    obtain ⟨names, hnames, hlength⟩ := ih fun id' h' => h id' (by simp [h'])
    have hname : (do return (← Lower.symbol id).name : Lower _).runFrom σ s = (.ok x.name, s) := by
      simp [Lower.symbol, Lower.present, Lower.runFrom_bind, hx]
    refine ⟨x.name :: names, ?_, by simp [hlength]⟩
    rw [List.mapM_cons, Lower.runFrom_bind_ok _ _ hname, Lower.runFrom_bind_ok _ _ hnames]
    rfl

/-- Once stubs are made, every symbol has its declaration. -/
theorem follows_generateStubs : L.Follows Lower.generateStubs fun L' ds =>
    (∀ d ∈ ds, (L'.mark? d).isSome) ∧ L'.state.table.allUnbound = [] := by
  refine .read_bind (.bind (follows_stubPasses _ _) fun L1 ds _ hds => .get_bind ?_)
  obtain ⟨names, hnames, hlength⟩ := runFrom_names σ (s := L1.state)
    L1.state.table.allUnbound fun id hid => by
      obtain ⟨x, hx, _⟩ := SymbolTable.mem_allUnbound.1 hid
      exact Option.isSome_of_mem hx
  refine .bind (Q := fun L' names' => L' = L1 ∧ names' = names) ?_ ?_
  · unfold Follows
    rw [hnames]
    exact ⟨L1, le_refl _, rfl, rfl, rfl, rfl⟩
  · rintro L' _ _ ⟨rfl, rfl⟩
    split
    next hempty =>
      refine .pure ⟨hds, List.eq_nil_of_length_eq_zero ?_⟩
      rw [← hlength, List.isEmpty_iff.1 hempty]
      rfl
    next => exact .throw ⟨by simp, by simp⟩

theorem follows_declarationFor (hd : σ.world.descriptor? desc = some d) :
    L.Follows (do Lower.declaration (← Lower.symbolFor desc) desc) fun L' d =>
      (L'.mark? d).isSome := by
  have hfits : false = true → σ.world.Fits d.symbolKind desc := by simp
  have hrun := L.runFrom_symbolOf σ.world.tree.files hfits
  have hfor := Pairing.runFrom_symbolFor (σ := σ) desc σ.world.tree.files L.state
  rw [hd, show σ.withFiles σ.world.tree.files = σ from rfl] at hfor
  rw [show σ.withFiles σ.world.tree.files = σ from rfl] at hrun
  dsimp only at hfor
  refine .bind (Q := fun L' id => L'.cached? d.symbolKind desc = some id) ?_
    fun _ _ _ hc => follows_declaration hc
  unfold Follows
  rw [hfor]
  split
  next id s hr =>
    rw [hr] at hrun
    obtain ⟨L', hg, hs, hc⟩ := hrun
    exact ⟨L', hg.le, hg.opens, hs, hc⟩
  next e s hr =>
    rw [hr] at hrun
    cases hrun.2.2.symm.trans hd

end stubs

end Ledger

/-- Stubs are made if the passes come to an end and leave nothing without a declaration. -/
theorem Lower.runFrom_generateStubs (σ : Setting) (s : State) :
    match (stubPasses (9 * σ.world.descriptorCount + 1) []).runFrom σ s with
    | (.ok roots, t) =>
      if t.table.allUnbound = [] then generateStubs.runFrom σ s = (.ok roots, t)
      else ∃ e, generateStubs.runFrom σ s = (.error e, t)
    | (.error e, t) => generateStubs.runFrom σ s = (.error e, t) := by
  unfold generateStubs
  rw [runFrom_bind_ok _ _ (runFrom_read _ _)]
  rcases hr : (stubPasses (9 * σ.world.descriptorCount + 1) []).runFrom σ s with ⟨e | roots, t⟩
  · exact runFrom_bind_error _ _ hr _
  · dsimp only
    obtain ⟨names, hnames, hlength⟩ := Ledger.runFrom_names σ (s := t) t.table.allUnbound
      fun id hid => by
        obtain ⟨x, hx, _⟩ := SymbolTable.mem_allUnbound.1 hid
        exact Option.isSome_of_mem hx
    rw [runFrom_bind_ok _ _ hr, runFrom_bind_ok _ _ (runFrom_get _ _),
      runFrom_bind_ok _ _ hnames]
    split
    next hempty =>
      rw [hempty] at hlength
      rw [List.eq_nil_of_length_eq_zero hlength]
      rfl
    next hne =>
      have hnames : names.isEmpty = false := by
        cases names with
        | nil => exact (hne (List.eq_nil_of_length_eq_zero hlength.symm)).elim
        | cons name rest => rfl
      rw [hnames]
      exact ⟨_, rfl⟩

def Ledger.empty (σ : Setting) (strict : Bool) : Ledger σ strict where
  toEntries := ⟨{}, #[], #[], []⟩
  sound := {
    tints_size := rfl
    marks_size := rfl
    allows := fun part m hm => by
      cases part <;> simp [Entries.mentions, Store.mentions, Store.decl?, Store.expr?] at hm
    wellFounded := ⟨fun part => ⟨_, fun child h => by
      obtain ⟨m, hm, _⟩ := h
      cases part <;> simp [Entries.mentions, Store.mentions, Store.decl?, Store.expr?] at hm⟩⟩
    guarded := {
      nodup := List.nodup_nil
      opens := by simp
      closed := fun h hh => by
        cases h <;> simp [Entries.Has, Store.Has, Store.functionTarget?, Store.loopTarget?,
          Store.whenRef?] at hh }
    targets := by simp [Entries.mark?]
    classes := by simp [Entries.decl?, Store.decl?]
    owners := by simp [Entries.symbol?, SymbolTable.get?]
    table := SymbolTable.sound_empty σ.world strict
    types := by simp
    counted := rfl }

namespace Session

/-- A session whose state a ledger accounts for. The declarations of files use no holder that begins
outside of them. -/
structure Recorded {σ : Setting} (L : Ledger σ false) (s : Session) : Prop where
  setting : s.setting = σ
  state : L.state = s.state
  annotations : ∀ file ∈ s.files, ∀ e ∈ file.annotations, L.Settled e
  declarations : ∀ file ∈ s.files, ∀ d ∈ file.declarations, L.Lies [] d
  external : ∀ d ∈ s.external, (L.mark? d).isSome

/-- Whether an action asks for something that the unit has. -/
def Action.Known (w : World) : Action → Prop
  | .lowerFiles | .generateStubs => True
  | .declarationFor desc => (w.descriptor? desc).isSome

namespace Recorded

variable {σ : Setting} {L : Ledger σ false} {s : Session} (h : Recorded L s)

include h

theorem later {L' : Ledger σ false} {s' : Session} (hle : L ≤ L') (hset : s'.setting = s.setting)
    (hstate : L'.state = s'.state) (hfiles : s'.files = s.files)
    (hext : s'.external = s.external) : Recorded L' s' where
  setting := hset.trans h.setting
  state := hstate
  annotations file hf e he := hle.tint (h.annotations file (hfiles ▸ hf) e he)
  declarations file hf d hd := hle.lies (h.declarations file (hfiles ▸ hf) d hd)
  external d hd := Ledger.present_mono hle (h.external d (hext ▸ hd))

theorem run {α : Type} {m : Lower α} {Q : Ledger σ false → α → Prop} (hm : L.Follows m Q) :
    match s.run m with
    | (.ok a, s') => ∃ L' : Ledger σ false, L ≤ L' ∧ Recorded L' s' ∧ L'.opens = L.opens ∧ Q L' a
    | (.error e, s') => ∃ L' : Ledger σ false, L ≤ L' ∧ Recorded L' s' ∧ e.Mild σ.world := by
  unfold Ledger.Follows at hm
  rw [h.state] at hm
  unfold Session.run
  rw [h.setting]
  rcases hr : m.runFrom σ s.state with ⟨e | a, t⟩
  · rw [hr] at hm
    obtain ⟨L', hle, hs, he⟩ := hm
    exact ⟨L', hle, h.later hle h.setting.symm hs rfl rfl, he⟩
  · rw [hr] at hm
    obtain ⟨L', hle, hopens, hs, ha⟩ := hm
    exact ⟨L', hle, h.later hle h.setting.symm hs rfl rfl, hopens, ha⟩

theorem lowerEach {files : List SourceFile} (hf : files ⊆ σ.world.tree.files) :
    match s.lowerEach files with
    | (.ok _, s') => ∃ L' : Ledger σ false, L ≤ L' ∧ Recorded L' s' ∧ L'.opens = L.opens
    | (.error e, s') => ∃ L' : Ledger σ false, L ≤ L' ∧ Recorded L' s' ∧ e.Mild σ.world := by
  induction files generalizing s L with
  | nil => exact ⟨L, le_refl L, h, rfl⟩
  | cons file rest ih =>
    have hrun := h.run (L.follows_lowerFile (hf List.mem_cons_self))
    unfold Session.lowerEach
    rcases hr : s.run (Lower.lowerFile file) with ⟨e | lowered, s'⟩
    · rw [hr] at hrun
      exact hrun
    · rw [hr] at hrun
      obtain ⟨L1, hle, h1, hopens, hannotations, hdeclarations⟩ := hrun
      have h2 : Recorded L1 { s' with files := s'.files ++ [lowered] } := {
        setting := h1.setting
        state := h1.state
        annotations := fun f hf => by
          rcases List.mem_append.1 hf with hf | hf
          · exact h1.annotations f hf
          · exact List.mem_singleton.1 hf ▸ hannotations
        declarations := fun f hf => by
          rcases List.mem_append.1 hf with hf | hf
          · exact h1.declarations f hf
          · exact List.mem_singleton.1 hf ▸ hdeclarations
        external := h1.external }
      have hrest := ih h2 fun f hmem => hf (by simp [hmem])
      dsimp only
      generalize Session.lowerEach { s' with files := s'.files ++ [lowered] } rest = r at hrest ⊢
      obtain ⟨e | _, t⟩ := r
      · obtain ⟨L', hle', h', he⟩ := hrest
        exact ⟨L', hle.trans hle', h', he⟩
      · obtain ⟨L', hle', h', hopens'⟩ := hrest
        exact ⟨L', hle.trans hle', h', hopens'.trans hopens⟩

theorem generateStubs :
    match s.generateStubs with
    | (.ok _, s') => ∃ L' : Ledger σ false, L ≤ L' ∧ Recorded L' s' ∧ L'.opens = L.opens ∧
        s'.state.table.allUnbound = []
    | (.error e, s') => ∃ L' : Ledger σ false, L ≤ L' ∧ Recorded L' s' ∧ e.Mild σ.world := by
  have hrun := h.run Ledger.follows_generateStubs
  unfold Session.generateStubs
  rcases hr : s.run Lower.generateStubs with ⟨e | roots, s'⟩
  · rw [hr] at hrun
    exact hrun
  · rw [hr] at hrun
    obtain ⟨L', hle, h', hopens, hroots, hbound⟩ := hrun
    refine ⟨L', hle, ⟨h'.setting, h'.state, h'.annotations, h'.declarations, fun d hd => ?_⟩,
      hopens, by rw [← h'.state]; exact hbound⟩
    rcases List.mem_append.1 hd with hd | hd
    · exact h'.external d hd
    · exact hroots d hd

theorem act (a : Action) : ∃ L' : Ledger σ false, L ≤ L' ∧ Recorded L' (s.act a).2 ∧
    ∀ e, (s.act a).1 = .error e → a.Known σ.world → e.Mild σ.world := by
  cases a with
  | lowerFiles =>
    have hrun := h.lowerEach (List.Subset.refl σ.world.tree.files)
    simp only [Session.act, Session.lowerFiles, h.setting]
    generalize s.lowerEach σ.world.tree.files = r at hrun ⊢
    obtain ⟨e | _, t⟩ := r
    · obtain ⟨L', hle, h', he⟩ := hrun
      exact ⟨L', hle, h', fun e' he' _ => by cases he'; exact he⟩
    · obtain ⟨L', hle, h', _⟩ := hrun
      exact ⟨L', hle, h', fun e' he' => by cases he'⟩
  | generateStubs =>
    have hrun := h.generateStubs
    simp only [Session.act]
    generalize s.generateStubs = r at hrun ⊢
    obtain ⟨e | _, t⟩ := r
    · obtain ⟨L', hle, h', he⟩ := hrun
      exact ⟨L', hle, h', fun e' he' _ => by cases he'; exact he⟩
    · obtain ⟨L', hle, h', _⟩ := hrun
      exact ⟨L', hle, h', fun e' he' => by cases he'⟩
  | declarationFor desc =>
    simp only [Session.act, Session.declarationFor]
    cases hd : σ.world.descriptor? desc with
    | some d =>
      have hrun := h.run (Ledger.follows_declarationFor hd)
      generalize s.run _ = r at hrun ⊢
      obtain ⟨e | _, t⟩ := r
      · obtain ⟨L', hle, h', he⟩ := hrun
        exact ⟨L', hle, h', fun e' he' _ => by cases he'; exact he⟩
      · obtain ⟨L', hle, h', _⟩ := hrun
        exact ⟨L', hle, h', fun e' he' => by cases he'⟩
    | none =>
      have hfor := Pairing.runFrom_symbolFor (σ := σ) desc σ.world.tree.files s.state
      rw [hd, show σ.withFiles σ.world.tree.files = σ from rfl] at hfor
      unfold Session.run
      rw [h.setting, Lower.runFrom_bind_error _ _ hfor]
      exact ⟨L, le_refl L, h.later (le_refl L) h.setting.symm h.state rfl rfl,
        fun _ _ hk => by simp [Action.Known, hd] at hk⟩

theorem finish :
    match s.finish with
    | (.ok f, s') => f = s'.fragment ∧ f.unboundSymbols = [] ∧
        ∃ L' : Ledger σ false, Recorded L' s' ∧ L'.opens = L.opens
    | (.error e, _) => e.Mild σ.world := by
  have hstubs := h.generateStubs
  unfold Session.finish
  generalize s.generateStubs = r at hstubs ⊢
  obtain ⟨e | _, s'⟩ := r
  · obtain ⟨_, _, _, he⟩ := hstubs
    exact he
  · obtain ⟨L', _, h', hopens, hbound⟩ := hstubs
    dsimp only
    by_cases hv : (s'.setting.config.verifyBound && !s'.unboundNames.isEmpty) = true
    · rw [if_pos hv]
      exact ⟨by simp, by simp⟩
    · rw [if_neg hv]
      exact ⟨rfl, hbound, L', h', hopens⟩

theorem perform (actions : List Action) : ∃ L' : Ledger σ false, L ≤ L' ∧
    Recorded L' (s.perform actions).2 ∧ ∀ p ∈ actions.zip (s.perform actions).1,
      ∀ e, p.2 = .error e → p.1.Known σ.world → e.Mild σ.world := by
  induction actions generalizing s L with
  | nil => exact ⟨L, le_refl L, h, by simp⟩
  | cons a rest ih =>
    obtain ⟨L1, h1, hrec, herr⟩ := h.act a
    obtain ⟨L2, h2, hrec', herr'⟩ := ih hrec
    refine ⟨L2, h1.trans h2, hrec', ?_⟩
    simp only [Session.perform, List.zip_cons_cons, List.forall_mem_cons]
    exact ⟨herr, herr'⟩

end Recorded

theorem unboundNames_eq_nil {s : Session} (h : s.state.table.allUnbound = []) :
    s.unboundNames = [] := by
  have hnone : ∀ id : Nat, ((s.fragment.symbol? ⟨id⟩).bind fun x =>
      if x.isBound then none else some x.name) = none := by
    intro id
    cases hx : s.fragment.symbol? ⟨id⟩ with
    | none => rfl
    | some x =>
      have hbound : x.isBound := by
        by_contra hb
        have hmem : (⟨id⟩ : SymbolId) ∈ s.state.table.allUnbound :=
          SymbolTable.mem_allUnbound.2 ⟨x, hx, by simpa [Symbol.isBound] using hb⟩
        rw [h] at hmem
        cases hmem
      simp [hbound]
  simp [unboundNames, hnone]

theorem finish_of_error {s : Session}
    (h : Lower.generateStubs.runFrom s.setting s.state = (.error e, t)) :
    s.finish = (.error e, { s with state := t }) := by
  simp only [finish, Session.generateStubs, run, h]

theorem finish_of_ok {s : Session} {t : State}
    (h : Lower.generateStubs.runFrom s.setting s.state = (.ok roots, t))
    (hbound : t.table.allUnbound = []) :
    s.finish = (.ok { s with state := t, external := s.external ++ roots : Session }.fragment,
      { s with state := t, external := s.external ++ roots }) := by
  have hnames :
      { s with state := t, external := s.external ++ roots : Session }.unboundNames = [] :=
    unboundNames_eq_nil hbound
  simp only [finish, Session.generateStubs, run, h, hnames, List.isEmpty_nil, Bool.not_true,
    Bool.and_false, Bool.false_eq_true, if_false]

theorem recorded_start (σ : Setting) : Recorded (.empty σ false) (start σ.world σ.config) :=
  ⟨rfl, rfl, by simp [start], by simp [start], by simp [start]⟩

end Session

end TypedTree
