import TypedTree.Proofs.Depth
import TypedTree.Proofs.Reorder.Files
import TypedTree.Proofs.Reorder.Stubs

namespace TypedTree

theorem forall₂_of_common {α β γ : Type} {R : α → β → Prop} {S : α → γ → Prop} {T : β → γ → Prop}
    (hT : ∀ x b c, R x b → S x c → T b c) {xs : List α} {bs : List β} {cs : List γ}
    (h : List.Forall₂ R xs bs) (h' : List.Forall₂ S xs cs) : List.Forall₂ T bs cs := by
  induction h generalizing cs with
  | nil => cases h'; exact .nil
  | cons hb _ ih =>
    cases h' with
    | cons hc hcs => exact .cons (hT _ _ _ hb hc) (ih hcs)

theorem Store.Match.labelOf {f f' : Fragment} (h : f.store.Match f'.store a b) :
    f.labelOf a = f'.labelOf b := by
  cases a with
  | function t =>
    cases b with
    | function t' =>
      obtain ⟨x, x', hx, hx', hl, _⟩ := h
      simp [Fragment.labelOf, Fragment.functionLabel, hx, hx', hl]
    | _ => exact h.elim
  | loop t =>
    cases b with
    | loop t' =>
      obtain ⟨x, x', hx, hx', hl⟩ := h
      simp [Fragment.labelOf, Fragment.loopLabel, hx, hx', hl]
    | _ => exact h.elim
  | choice r =>
    cases b with
    | choice r' => rfl
    | _ => exact h.elim

namespace Entries

/-- Entries that forget how expressions may be used. -/
def bare (n : Entries) : Entries :=
  ⟨n.state, .replicate n.state.store.exprs.size .settled, #[], []⟩

/-- Entries in a later state, whatever is known of their nodes. -/
structure Preserves (n m : Entries) : Prop where
  expr : ∀ {id x}, n.expr? id = some x → m.expr? id = some x
  decl : ∀ {id x}, n.decl? id = some x → m.decl? id = some x
  table : n.state.table.Le m.state.table
  targets : n.state.store.TargetsLe m.state.store

variable {σ : Setting} {n n' m m' : Entries}

theorem Preserves.of_state (h : n.Preserves m) (hs : n'.state = n.state) : n'.Preserves m where
  expr hx := h.expr (by rwa [Entries.expr?, ← hs])
  decl hx := h.decl (by rwa [Entries.decl?, ← hs])
  table := hs ▸ h.table
  targets := hs ▸ h.targets

theorem Preserves.stands (h : n.Preserves m) (x : TreeType × ExprKind) (id : ExprId)
    (hx : n.Stands x id) : m.bare.Stands x id := by
  have hm := h.expr hx.2
  refine ⟨?_, hm⟩
  have hi : id.index < m.state.store.exprs.size := by
    have hsome : (m.state.store.exprs[id.index]?).isSome := Option.isSome_of_mem hm
    simpa using hsome
  simp [Settled, tint?, bare, hi]

theorem Preserves.realizes (h : n.Preserves m) {x : Wanted} {k : Made} (hx : Realizes σ n x k) :
    Realizes σ m.bare x k := by
  have hkey : ∀ {kind desc id}, n.cached? kind desc = some id →
      m.bare.cached? kind desc = some id := h.table.cached
  exact hx.imp hkey h.stands

theorem Preserves.shown (h : n.Preserves m) (h' : n'.Preserves m') :
    (Entries.shown σ n n').Le (Entries.shown σ m.bare m'.bare) where
  symbol := fun ⟨kind, desc, ha, hb⟩ => ⟨kind, desc, h.table.cached ha, h'.table.cached hb⟩
  note := fun ⟨x, c, c', hx, hs, hx', hs'⟩ =>
    ⟨x, c, c', h.realizes hx, h.stands c _ hs, h'.realizes hx', h'.stands c' _ hs'⟩
  expr := id
  decl := id
  holder := id

/-- Empty blocks in the place of one default value. -/
def Blocks (σ : Setting) (n n' : Entries) (a b : ExprId) : Prop :=
  ∃ id τ τ', n.ShowsType σ id τ ∧ n.expr? a = some ⟨τ, [], .block []⟩ ∧
    n'.ShowsType σ id τ' ∧ n'.expr? b = some ⟨τ', [], .block []⟩

/-- Stubs of one key. -/
def Stubs (σ : Setting) (n n' : Entries) (a b : DeclId) : Prop :=
  ∃ kind desc, n.IsStub σ kind desc a ∧ n'.IsStub σ kind desc b

/-- What stands for what in two finished trees: what is linked, what shows the same fact, and what
stubs of the same key consist of. -/
def counterparts (σ : Setting) (n n' : Entries) (links : List Links) : Correspondence where
  symbol a b := (shown σ n.bare n'.bare).symbol a b ∨ ∃ l ∈ links, l.symbol a b
  note := (shown σ n.bare n'.bare).note
  expr _ a b := Blocks σ n n' a b ∨ ∃ l ∈ links, ∃ g, l.expr a b g
  decl _ a b := Stubs σ n n' a b ∨ ∃ l ∈ links, ∃ g, l.decl a b g
  holder a b := ∃ l ∈ links, l.holder a b
  expr_weaken _ h := h
  decl_weaken _ h := h

variable {links : List Links}

theorem shown_le_counterparts : (shown σ n.bare n'.bare).Le (counterparts σ n n' links) where
  symbol := .inl
  note := id
  expr := False.elim
  decl := False.elim
  holder := False.elim

theorem ids_le_counterparts (hl : l ∈ links) (h : m.Preserves n) (h' : m'.Preserves n') :
    (l.ids σ m m').Le (counterparts σ n n' links) where
  symbol := Or.imp (h.shown h').symbol fun ha => ⟨l, hl, ha⟩
  note := (h.shown h').note
  expr := fun ⟨g, ha, _⟩ => .inr ⟨l, hl, g, ha⟩
  decl := fun ⟨g, ha, _⟩ => .inr ⟨l, hl, g, ha⟩
  holder ha := ⟨l, hl, ha⟩

theorem preserves_refl (n : Entries) : n.Preserves n := ⟨id, id, .refl _, .refl _⟩

theorem ShowsType.alike {id : TypeId} (h : n.ShowsType σ id τ) (h' : n'.ShowsType σ id τ') :
    TreeType.Alike (counterparts σ n n' links) τ τ' := by
  cases Realizes.alike h h' with
  | type ht =>
    exact (ht.mono ((preserves_refl n).shown (preserves_refl n'))).mono shown_le_counterparts

theorem forall₂_shows (h : List.Forall₂ (n.ShowsType σ) ids τs)
    (h' : List.Forall₂ (n'.ShowsType σ) ids τs') :
    List.Forall₂ (TreeType.Alike (counterparts σ n n' links)) τs τs' :=
  forall₂_of_common (fun _ _ _ hτ hτ' => hτ.alike hτ') h h'

theorem rel_shows {id : Option TypeId} (h : Option.Rel (n.ShowsType σ) id τ)
    (h' : Option.Rel (n'.ShowsType σ) id τ') :
    Option.Rel (TreeType.Alike (counterparts σ n n' links)) τ τ' := by
  cases h with
  | none => cases h'; exact .none
  | some hτ =>
    cases h' with
    | some hτ' => exact .some (hτ.alike hτ')

theorem forall₂_cached (h : List.Forall₂ (fun o s => n.cached? kind o = some s) descs ss)
    (h' : List.Forall₂ (fun o s => n'.cached? kind o = some s) descs ss') :
    List.Forall₂ (counterparts σ n n' links).symbol ss ss' :=
  forall₂_of_common (fun _ _ _ hs hs' => .inl ⟨kind, _, hs, hs'⟩) h h'

theorem Placeholder.alike (h : n.Placeholder σ info v) (h' : n'.Placeholder σ info v') :
    Option.Rel ((counterparts σ n n' links).part g) v v' := by
  unfold Placeholder at h h'
  split at h
  next hd =>
    rw [if_pos hd] at h'
    obtain ⟨e, τ, rfl, hτ, _, he⟩ := h
    obtain ⟨e', τ', rfl, hτ', _, he'⟩ := h'
    exact .some (.inl (.inl ⟨info.type, τ, τ', hτ, he, hτ', he'⟩))
  next hd =>
    rw [if_neg hd] at h'
    cases h
    cases h'
    exact .none

section signs

variable {g : Region} (howners : ∀ {kind desc c c'}, n.declared? kind desc = some c →
  n'.declared? kind desc = some c' → (counterparts σ n n' links).decl g c c')

include howners

theorem Owners.alike (h : n.Owners kind ps ds) (h' : n'.Owners kind ps ds') :
    List.Forall₂ ((counterparts σ n n' links).decl g) ds ds' :=
  forall₂_of_common (R := fun p d => n.declared? kind p = some d)
    (S := fun p d => n'.declared? kind p = some d) (fun _ _ _ => howners) h h'

theorem signs_alike (h : Signs σ n v d k) (h' : Signs σ n' v d k') :
    DeclKind.Alike (counterparts σ n n' links) g k k' := by
  cases h with
  | classLike hts hss =>
    cases h' with
    | classLike hts' hss' =>
      exact .classLike (Owners.alike (g := []) howners hts hts') (forall₂_shows hss hss') .nil
  | function hts hr he hps hτ hos =>
    cases h' with
    | function hts' hr' he' hps' hτ' hos' =>
      refine .function (Owners.alike howners hts hts') (rel_shows hr hr') (rel_shows he he')
        (Owners.alike howners hps hps') (hτ.alike hτ') .none (forall₂_cached hos hos')
  | constructor hps hτ =>
    cases h' with
    | constructor hps' hτ' =>
      exact .constructor (Owners.alike howners hps hps') (hτ.alike hτ') .none .none
  | property hτ hr he hts =>
    cases h' with
    | property hτ' hr' he' hts' =>
      exact .property (hτ.alike hτ') (rel_shows hr hr') (rel_shows he he')
        (Owners.alike howners hts hts') .none .none .none .none
  | accessor hp hτ hps =>
    cases h' with
    | accessor hp' hτ' hps' =>
      exact .accessor (.inl ⟨_, _, hp, hp'⟩) (hτ.alike hτ') (Owners.alike howners hps hps') .none
  | typeParameter hbs =>
    cases h' with
    | typeParameter hbs' => exact .typeParameter (forall₂_shows hbs hbs')
  | valueParameter hv hτ =>
    cases h' with
    | valueParameter hv' hτ' =>
      exact .valueParameter (hτ.alike hτ') (Placeholder.alike hv hv') .none
  | typeAlias hts hτ =>
    cases h' with
    | typeAlias hts' hτ' => exact .typeAlias (Owners.alike howners hts hts') (hτ.alike hτ')

theorem stubs_alike (h : Stubs σ n n' a b) : ∃ x y, n.decl? a = some x ∧
    n'.decl? b = some y ∧ Decl.Alike (counterparts σ n n' links) g x y := by
  obtain ⟨kind, desc, ⟨d, id, calls, k, hs⟩, d', id', calls', k', hs'⟩ := h
  cases hs.descriptor.symm.trans hs'.descriptor
  refine ⟨_, _, hs.decl, hs'.decl, .inl ⟨kind, desc, hs.cached, hs'.cached⟩, rfl, ?_,
    signs_alike howners hs.signature hs'.signature⟩
  cases hs.annotations.alike hs'.annotations with
  | exprs hx =>
    exact hx.imp fun _ _ => ((preserves_refl n).shown (preserves_refl n')).note

end signs

end Entries

namespace Reordered

variable {σ : Setting} {files : List SourceFile} {L R : Ledger σ true} {qs : List (Lowered σ)}
  {ts : List ((q : Lowered σ) × Twin q)} (h : Reordered files L R qs ts) {L' R' : Ledger σ false}
  (hL : L.Stubbed σ L'.toEntries) (hR : R.Stubbed σ R'.toEntries)

/-- All that was linked in some file. -/
def links (ts : List ((q : Lowered σ) × Twin q)) : List Links := ts.map (·.2.pairing.links)

include h

theorem preserves (hL : L.Stubbed σ L'.toEntries) {p : (q : Lowered σ) × Twin q} (hp : p ∈ ts) :
    p.2.pairing.left.Preserves L'.toEntries := by
  have hkeeps := h.chain.keeps_after _ (h.mem_first hp)
  have hlater : p.1.after.Preserves L'.toEntries := {
    expr := fun hx => hL.keeps.expr (hkeeps.expr hx)
    decl := fun hx => hL.keeps.le.decl (hkeeps.le.decl hx)
    table := hkeeps.le.table.trans hL.keeps.le.table
    targets := hkeeps.le.targets.trans hL.keeps.le.targets }
  exact hlater.of_state p.2.left

theorem preserves' (hR : R.Stubbed σ R'.toEntries) {p : (q : Lowered σ) × Twin q} (hp : p ∈ ts) :
    p.2.pairing.right.Preserves R'.toEntries := by
  have hkeeps := h.twins.keeps_after _ hp
  exact {
    expr := fun hx => hR.keeps.expr (hkeeps.expr hx)
    decl := fun hx => hR.keeps.le.decl (hkeeps.le.decl hx)
    table := hkeeps.le.table.trans hR.keeps.le.table
    targets := hkeeps.le.targets.trans hR.keeps.le.targets }

include hL hR

theorem decl_of_declared (hd : L'.declared? kind desc = some d)
    (hd' : R'.declared? kind desc = some d') :
    (Entries.counterparts σ L'.toEntries R'.toEntries (links ts)).decl g d d' := by
  cases hold : L.declared? kind desc with
  | some e =>
    cases (hL.keeps.le.declared hold).symm.trans hd
    obtain ⟨p, hp, e', g', hlink, he'⟩ := h.declared hold
    cases (hR.keeps.le.declared he').symm.trans hd'
    exact .inr ⟨_, List.mem_map_of_mem hp, g', hlink⟩
  | none =>
    have hold' : R.declared? kind desc = none := by
      rw [← Option.not_isSome_iff_eq_none, ← h.declared_iff, hold]
      simp
    refine .inl ⟨kind, desc, (hL.declared hd).resolve_left ?_, (hR.declared hd').resolve_left ?_⟩
    · simp [hold]
    · simp [hold']

/-- The two trees show the same from the roots down. -/
theorem bisimulates {f f' : Fragment} (hf : f.store = L'.state.store)
    (hf' : f'.store = R'.state.store) (hs : f.symbols = L'.state.table.symbols)
    (hs' : f'.symbols = R'.state.table.symbols) :
    (Entries.counterparts σ L'.toEntries R'.toEntries (links ts)).Bisimulates f f' where
  symbol {a b} hab := by
    have hname : ∀ {x}, L'.symbol? a = some x → f.nameOf a = x.name := fun hx => by
      simp [Fragment.nameOf, Fragment.symbol?, hs,
        show L'.state.table.symbols[a.index]? = _ from hx]
    have hname' : ∀ {x}, R'.symbol? b = some x → f'.nameOf b = x.name := fun hx => by
      simp [Fragment.nameOf, Fragment.symbol?, hs',
        show R'.state.table.symbols[b.index]? = _ from hx]
    rcases hab with ⟨kind, desc, ha, hb⟩ | ⟨_, hl, hab⟩
    · obtain ⟨x, d, hx, _, hd, hi, _⟩ := L'.sound.table.cached ha
      obtain ⟨y, d', hy, _, hd', hi', _⟩ := R'.sound.table.cached hb
      cases hd.symm.trans hd'
      rw [hname hx, hname' hy, Symbol.name, Symbol.name, hi, hi']
    · obtain ⟨p, hp, rfl⟩ := List.mem_map.1 hl
      obtain ⟨x, y, hx, hy, _, hi, _⟩ := p.2.pairing.keys.symbol hab
      obtain ⟨x', hx', hxx⟩ := (h.preserves hL hp).table.symbol hx
      obtain ⟨y', hy', hyy⟩ := (h.preserves' hR hp).table.symbol hy
      rw [hname hx', hname' hy', Symbol.name, Symbol.name, hxx.identity, hyy.identity, hi]
  holder {a b} hab := by
    obtain ⟨_, hl, hab⟩ := hab
    obtain ⟨p, hp, rfl⟩ := List.mem_map.1 hl
    have hmatch := (p.2.pairing.nodes.holder hab).mono (h.preserves hL hp).targets
      (h.preserves' hR hp).targets
    rw [← hf, ← hf'] at hmatch
    exact hmatch.labelOf
  part {g a b} hab := by
    rw [hf, hf']
    rcases hab with (⟨id, τ, τ', hτ, hx, hτ', hx'⟩ | ⟨_, hl, g', hab⟩) |
      ⟨x, c, c', hx, hstands, hx', hstands'⟩
    · exact ⟨_, _, g, hx, hx', hτ.alike hτ', .nil, .block .nil⟩
    · obtain ⟨p, hp, rfl⟩ := List.mem_map.1 hl
      obtain ⟨x, y, hx, hy, hxy⟩ := p.2.pairing.nodes.expr hab
      have hleft := h.preserves hL hp
      have hright := h.preserves' hR hp
      exact ⟨x, y, g', hleft.expr hx, hright.expr hy,
        hxy.mono (Entries.ids_le_counterparts hl hleft hright) (List.Subset.refl _)⟩
    · refine ⟨_, _, [], hstands.2, hstands'.2, ?_⟩
      cases hx.alike hx' with
      | content hc =>
        cases hc with
        | some hc =>
          exact ⟨hc.1.mono Entries.shown_le_counterparts, .nil,
            hc.2.mono Entries.shown_le_counterparts (List.Subset.refl _)⟩
  decl {g a b} hab := by
    rw [hf, hf']
    rcases hab with hab | ⟨_, hl, g', hab⟩
    · obtain ⟨x, y, hx, hy, hxy⟩ := Entries.stubs_alike (g := g)
        (fun hd hd' => h.decl_of_declared hL hR hd hd') hab
      exact ⟨x, y, g, hx, hy, hxy⟩
    · obtain ⟨p, hp, rfl⟩ := List.mem_map.1 hl
      obtain ⟨x, y, g'', hx, hy, hxy⟩ := p.2.pairing.nodes.decl hab
      have hleft := h.preserves hL hp
      have hright := h.preserves' hR hp
      exact ⟨x, y, g'', hleft.decl hx, hright.decl hy,
        hxy.mono (Entries.ids_le_counterparts hl hleft hright) (List.Subset.refl _)⟩

end Reordered

end TypedTree
