import TypedTree.Lowering.Stub
import TypedTree.Proofs.Stub.Grows

namespace TypedTree

/-- The kinds of symbols that parameters have. -/
def SymbolKind.isParameter : SymbolKind → Bool
  | .typeParameter | .valueParameter => true
  | _ => false

theorem Entries.Settles.fits {n : Entries} (h : n.Settles m) (g : List Holder) (part : TreePart) :
    n.Fits g part m := by
  cases m with
  | expr _ id => exact .inl h
  | note id => exact h
  | aside id => exact Option.isSome_of_mem h
  | symbol id => exact h
  | _ => exact h.elim

namespace Ledger

variable {σ : Setting} {strict : Bool} {L : Ledger σ strict}

theorem settles_type {id : TypeId} (h : L.ShowsType σ id τ) : ∀ m ∈ τ.mentions, L.Settles m := by
  intro m hm
  cases Realizes.alike h h with
  | type ht =>
    obtain ⟨m', _, hmm⟩ := exists_of_mem_forall₂ (ht.mentions (g := [])) hm
    exact L.settles_of_shown hmm

theorem settled_calls (h : Realizes σ L.toEntries x (.exprs calls)) :
    ∀ e ∈ calls, L.Settled e := by
  intro e he
  cases h.alike h with
  | exprs hx =>
    obtain ⟨e', _, _, _, _, _, hs, _⟩ := exists_of_mem_forall₂ hx he
    exact hs.1

/-- All holders that some declaration uses. -/
def holders (L : Ledger σ strict) : List Holder := L.marks.toList.flatMap (·.region)

theorem lies_of_declared (h : L.declared? kind desc = some d) : L.Lies L.holders d := by
  obtain ⟨id, x, _, hx, ho⟩ := Entries.declared?_eq_some.1 h
  obtain ⟨m, hm⟩ := Option.isSome_iff_exists.1 (L.sound.owners hx ho)
  refine ⟨m, hm, fun a ha => List.mem_flatMap.2 ⟨m, ?_, ha⟩⟩
  exact Array.mem_toList_iff.2 (Array.mem_of_getElem? hm)

section fits

open Mention

variable (part : TreePart)

theorem fits_shown {id : TypeId} {τ : TreeType} (h : L.ShowsType σ id τ) :
    ∀ m ∈ τ.mentions, L.Fits L.holders part m := fun m hm =>
  (settles_type h m hm).fits _ _

theorem fits_types (h : List.Forall₂ (L.ShowsType σ) ids τs) :
    ∀ m ∈ types τs, L.Fits L.holders part m := by
  intro m hm
  obtain ⟨τ, hτ, hm⟩ := List.mem_flatMap.1 hm
  obtain ⟨id, _, hid⟩ := exists_of_mem_forall₂ h.flip hτ
  exact fits_shown part hid m hm

theorem fits_type? {id : Option TypeId} (h : Option.Rel (L.ShowsType σ) id τ) :
    ∀ m ∈ type? τ, L.Fits L.holders part m :=
  fits_types part (Option.forall₂_toList h)

theorem fits_owners (h : L.Owners kind ps ds) : ∀ m ∈ decls ds, L.Fits L.holders part m := by
  intro m hm
  obtain ⟨d, hd, rfl⟩ := List.mem_map.1 hm
  obtain ⟨p, _, hp⟩ := exists_of_mem_forall₂ (List.Forall₂.flip h) hd
  exact lies_of_declared hp

theorem fits_cached {id : SymbolId} (h : L.cached? kind desc = some id) :
    L.Fits L.holders part (.symbol id) := by
  obtain ⟨x, _, hx, _⟩ := L.sound.table.cached h
  exact Option.isSome_of_mem hx

theorem fits_placeholder (h : L.Placeholder σ info value) :
    ∀ m ∈ expr? value, L.Fits L.holders part m := by
  intro m hm
  unfold Entries.Placeholder at h
  split at h
  next =>
    obtain ⟨e, type, rfl, _, ⟨g', ht, hg⟩, _⟩ := h
    obtain ⟨_, he, rfl⟩ := List.mem_map.1 hm
    cases Option.mem_toList.1 he
    exact .inr ⟨g', ht, List.Subset.trans hg (List.nil_subset _)⟩
  next =>
    subst h
    cases hm

theorem fits_signature (h : Signs σ L.toEntries v d k) :
    ∀ m ∈ k.mentions, L.Fits L.holders part m := by
  cases h with
  | classLike hts hss =>
    simp only [DeclKind.mentions, List.forall_mem_append]
    exact ⟨⟨fits_owners part hts, fits_types part hss⟩, by simp [decls]⟩
  | function hts hr he hps hτ hos =>
    simp only [DeclKind.mentions, List.forall_mem_append]
    refine ⟨⟨⟨⟨⟨⟨fits_owners part hts, fits_type? part hr⟩, fits_type? part he⟩,
      fits_owners part hps⟩, fits_shown part hτ⟩, fun m hm => ?_⟩, by simp [expr?, exprs]⟩
    obtain ⟨s, hs, rfl⟩ := List.mem_map.1 hm
    obtain ⟨o, _, ho⟩ := exists_of_mem_forall₂ hos.flip hs
    exact fits_cached part ho
  | constructor hps hτ =>
    simp only [DeclKind.mentions, List.forall_mem_append]
    exact ⟨⟨⟨fits_owners part hps, fits_shown part hτ⟩, by simp [expr?, exprs]⟩,
      by simp [expr?, exprs]⟩
  | property hτ hr he hts =>
    simp only [DeclKind.mentions, List.forall_mem_append]
    exact ⟨⟨⟨⟨⟨⟨⟨fits_owners part hts, fits_shown part hτ⟩, fits_type? part hr⟩,
      fits_type? part he⟩, by simp [expr?, exprs]⟩, by simp [expr?, exprs]⟩,
      by simp [decl?, decls]⟩, by simp [decl?, decls]⟩
  | accessor hp hτ hps =>
    simp only [DeclKind.mentions, List.forall_mem_append, List.forall_mem_cons]
    exact ⟨fits_cached part hp, ⟨fits_owners part hps, fits_shown part hτ⟩, by simp [expr?, exprs]⟩
  | typeParameter hbs => exact fits_types part hbs
  | valueParameter hv hτ =>
    simp only [DeclKind.mentions, List.forall_mem_append]
    exact ⟨⟨fits_shown part hτ, fits_placeholder part hv⟩, by simp [symbols]⟩
  | typeAlias hts hτ =>
    simp only [DeclKind.mentions, List.forall_mem_append]
    exact ⟨fits_owners part hts, fits_shown part hτ⟩

end fits

variable {files : List SourceFile} {α β : Type} {B : Bounds} {P : SymbolKind → DescId → Prop}
  {L : Ledger σ false} {R : Ledger σ false → β → Prop}

theorem Stubs.symbol_bind {id : SymbolId} (hx : L.symbol? id = some x) {k : Symbol → Lower β}
    (hk : L.Stubs files B P (k x) R) : L.Stubs files B P (Lower.symbol id >>= k) R := by
  unfold Lower.symbol
  rw [bind_assoc]
  refine .get_bind ?_
  rw [show L.state.table.get? id = some x from hx]
  exact hk

theorem Stubs.descriptor_bind (hd : σ.world.descriptor? desc = some d) {k : Descriptor → Lower β}
    (hk : L.Stubs files B P (k d) R) : L.Stubs files B P (Lower.descriptor desc >>= k) R := by
  unfold Lower.descriptor
  rw [bind_assoc]
  refine .read_bind ?_
  rw [show (σ.withFiles files).world.descriptor? desc = some d from hd]
  exact hk

/-- A stub that the bounds allow for. -/
structure Permits (B : Bounds) (σ : Setting) (kind : SymbolKind) (desc : DescId) (d : Descriptor) :
    Prop where
  closed : B.Closed σ
  declared : B.declared kind desc
  unknown : ¬ B.known kind desc
  descriptor : σ.world.descriptor? desc = some d

/-- What is known beforehand is declared. -/
def Knows (L : Ledger σ strict) (B : Bounds) : Prop :=
  ∀ kind desc, B.known kind desc → (L.declared? kind desc).isSome

theorem Knows.mono {L L' : Ledger σ strict} (h : L.Knows B) (hle : L.Le L'.toEntries) :
    L'.Knows B := by
  intro kind desc hk
  obtain ⟨d, hd⟩ := Option.isSome_iff_exists.1 (h kind desc hk)
  exact Option.isSome_of_mem (hle.declared hd)

/-- The keys that a stub declares: its own, and those of its parameters. -/
def Under (kind : SymbolKind) (desc : DescId) (k : SymbolKind) (e : DescId) : Prop :=
  k.isParameter ∨ k = kind ∧ e = desc

/-- A step that gives the declaration of a symbol, as far as the bounds allow. -/
def Declares (σ : Setting) (files : List SourceFile) (B : Bounds)
    (declaration : SymbolId → DescId → Lower DeclId) : Prop :=
  ∀ (L : Ledger σ false) {kind desc id}, L.Knows B → L.cached? kind desc = some id →
    B.declared kind desc → L.Stubs files B (Under kind desc) (declaration id desc) fun L' d =>
      L'.declared? kind desc = some d

theorem runs_symbolOf (L : Ledger σ false) (files : List SourceFile) (B : Bounds)
    {k : SymbolKind} {e : DescId} (hfinds : σ.world.Finds (.desc e))
    (hsure : B.Sure σ → (σ.world.descriptor? e).isSome) :
    match (Lower.symbolOf k e).runFrom (σ.withFiles files) L.state with
    | (.ok id, s) => ∃ L' : Ledger σ false, L.Gains (fun k' e' => k' = k ∧ e' = e) L'.toEntries ∧
        L'.state = s ∧ L'.cached? k e = some id
    | (.error c, s) => ∃ L' : Ledger σ false, L ≤ L' ∧ L'.state = s ∧ c.Mild σ.world ∧
        (B.Sure σ → c = .endless) := by
  have hfits : false = true → σ.world.Fits k e := fun h => by cases h
  have hrun := L.runFrom_symbolOf files hfits
  split
  next id s hm =>
    rw [hm] at hrun
    exact hrun
  next c s hm =>
    rw [hm] at hrun
    obtain ⟨hs, rfl, hnone⟩ := hrun
    refine ⟨L, le_refl L, hs, ⟨fun h => ?_, fun cause hc => by cases hc⟩, fun h => ?_⟩
    · have hhas := hfinds h
      simp [World.has, hnone] at hhas
    · have hhas := hsure h
      simp [hnone] at hhas

/-- An empty block is code that uses no holder. -/
theorem stubs_block {id : TypeId} (hτ : L.ShowsType σ id τ) :
    L.Stubs files B P (Lower.addExpr τ (.block [])) fun L' e =>
      L'.Code [] e ∧ L'.expr? e = some ⟨τ, [], .block []⟩ := by
  have hfits : ∀ m ∈ (⟨τ, [], .block []⟩ : Expr).mentions, L.Fits [] (.expr L.nextExpr) m := by
    intro m hm
    have hm : m ∈ τ.mentions := by
      simpa [Expr.mentions, ExprKind.mentions, Mention.annotations] using hm
    exact (settles_type hτ m hm).fits _ _
  have hsound := L.sound.addCode hfits
  refine ⟨⟨L.addExpr ⟨τ, [], .block []⟩ (.code []), hsound⟩, ?_, rfl,
    ⟨[], Entries.tint?_addExpr_nextExpr L.sound _ _, List.Subset.refl _⟩,
    L.expr?_addExpr_nextExpr _ _⟩
  exact {
    le := L.le_addExpr _ _
    expr := getElem?_push_of_some
    opens := rfl
    loose := fun h _ => h
    cached := .inl
    tame := .inl
    declared := .inl
    declarations := rfl
    passes := rfl
    looseCount := rfl }

section signature

variable {kind : SymbolKind} {desc : DescId} {d : Descriptor} (hp : Permits B σ kind desc d)
  {declaration : SymbolId → DescId → Lower DeclId} (hdecl : Declares σ files B declaration)

include hp

theorem stubs_convert {id : TypeId} (hid : id ∈ d.kind.types) :
    L.Stubs files B P (Lower.convert id) fun L' τ => L'.ShowsType σ id τ :=
  .ofMakes (convert L ((σ.world.knows_descriptor hp.descriptor).signatureType hid))
    (hp.closed.types hp.declared hp.unknown hp.descriptor id hid)
    fun hs => hs.types hp.declared hp.unknown hp.descriptor id hid

theorem stubs_convertAll (hids : ids ⊆ d.kind.types) :
    L.Stubs files B P (Lower.convertAll ids) fun L' τs =>
      List.Forall₂ (L'.ShowsType σ) ids τs :=
  .mapM (.refl _) (fun hg hs => hg.keeps.shows hs) fun _ hid _ _ => stubs_convert hp (hids hid)

theorem stubs_convertOptional {id : Option TypeId} (hid : id.toList ⊆ d.kind.types) :
    L.Stubs files B P (Lower.convertOptional id) fun L' τ => Option.Rel (L'.ShowsType σ) id τ :=
  .optionMapM fun _ hy => stubs_convert hp (hid (Option.mem_toList.2 hy))

theorem stubs_annotations :
    L.Stubs files B P (Lower.annotationCalls d.annotations) fun L' calls =>
      Realizes σ L'.toEntries (.annotationUses d.annotations) (.exprs calls) :=
  .ofMakes (annotationCallsWith convert L fun _ hu =>
      (σ.world.knows_descriptor hp.descriptor).annotationUse hu)
    (hp.closed.annotations hp.declared hp.unknown hp.descriptor)
    fun hs => hs.annotations hp.declared hp.unknown hp.descriptor

theorem stubs_symbolOf (hk : (k, e) ∈ d.kind.symbols) (hfits : σ.world.Fits k e) :
    L.Stubs files B P (Lower.symbolOf k e) fun L' id => L'.cached? k e = some id := by
  have hrun := L.runs_symbolOf files B (k := k) (e := e)
    ((σ.world.knows_descriptor hp.descriptor).signatureSymbol hk) fun hs =>
      hs.symbols hp.declared hp.unknown hp.descriptor _ hk
  unfold Stubs
  split
  next id s hm =>
    rw [hm] at hrun
    obtain ⟨L', hg, hs, hc⟩ := hrun
    refine ⟨L', .afterGains hg L.sound L'.sound (.refl _) ?_, hs, hc⟩
    rintro _ _ ⟨rfl, rfl⟩
    exact ⟨hp.closed.symbols hp.declared hp.unknown hp.descriptor _ hk, .inl hfits⟩
  next c s hm =>
    rw [hm] at hrun
    exact hrun

include hdecl

/-- A parameter is declared as soon as it has a symbol. -/
theorem stubs_parameter (hL : L.Knows B) {k : SymbolKind} {e : DescId} (hpar : k.isParameter)
    (hk : (k, e) ∈ d.kind.parameters) :
    L.Stubs files B (Under kind desc) (do declaration (← Lower.symbolOf k e) e)
      fun L' c => L'.declared? k e = some c := by
  have hB := hp.closed.parameters hp.declared hp.unknown hp.descriptor _ hk
  have hrun := L.runs_symbolOf files B (k := k) (e := e)
    ((σ.world.knows_descriptor hp.descriptor).signatureParameter hk) fun hs =>
      hs.parameters hp.declared hp.unknown hp.descriptor _ hk
  unfold Stubs
  rcases hm : (Lower.symbolOf k e).runFrom (σ.withFiles files) L.state with ⟨c | id, s⟩
  · rw [hm] at hrun
    rw [Lower.runFrom_bind_error _ _ hm]
    exact hrun
  · rw [hm] at hrun
    obtain ⟨L1, hg, rfl, hc⟩ := hrun
    have hnext := hdecl L1 (hL.mono hg.le) hc hB.2
    unfold Stubs at hnext
    rw [Lower.runFrom_bind_ok _ _ hm]
    rcases hn : (declaration id e).runFrom (σ.withFiles files) L1.state with ⟨c | a, s⟩
    · rw [hn] at hnext
      obtain ⟨L2, hle, hs, he⟩ := hnext
      exact ⟨L2, le_trans (a := L) hg.le hle, hs, he⟩
    · rw [hn] at hnext
      obtain ⟨L2, hg', hs, ha⟩ := hnext
      refine ⟨L2, .afterGains hg L.sound L1.sound (hg'.imp ?_) ?_, hs, ha⟩
      · rintro k' e' (hpar' | ⟨rfl, rfl⟩)
        · exact .inl hpar'
        · exact .inl hpar
      · rintro _ _ ⟨rfl, rfl⟩
        exact ⟨hB.1, .inr (Option.isSome_of_mem ha)⟩

theorem stubs_parametersWith (hL : L.Knows B) {k : SymbolKind} (hpar : k.isParameter)
    {ps : List DescId} (hps : ∀ e ∈ ps, (k, e) ∈ d.kind.parameters) :
    L.Stubs files B (Under kind desc) (Lower.parametersWith declaration k ps)
      fun L' ds => L'.Owners k ps ds :=
  .mapM (S := fun L' e c => L'.declared? k e = some c) (.refl _)
    (fun hg hs => hg.le.declared hs)
    fun e he _ hg => stubs_parameter hp hdecl (hL.mono hg.le) hpar (hps e he)

omit hdecl

theorem stubs_placeholder (hinfo : d.kind = .valueParameter info) :
    L.Stubs files B P (Lower.placeholder info) fun L' value => L'.Placeholder σ info value := by
  unfold Lower.placeholder Entries.Placeholder
  split
  next =>
    have htype : info.type ∈ d.kind.types := by simp [hinfo, DescriptorKind.types]
    refine .bind (stubs_convert hp htype) fun L1 τ _ hτ => ?_
    exact .bind (stubs_block hτ) fun L2 e hg he => .pure ⟨e, τ, rfl, hg.keeps.shows hτ, he⟩
  next => exact .pure rfl

include hdecl

theorem stubs_signatureWith (hL : L.Knows B) :
    L.Stubs files B (Under kind desc) (Lower.signatureWith declaration d)
      fun L' k => Signs σ L'.toEntries d.visibility d.kind k := by
  unfold Lower.signatureWith
  split
  next info hk =>
    refine .bind (stubs_parametersWith hp hdecl hL (k := .typeParameter) rfl fun e he => ?_)
      fun L1 ts h1 hts => ?_
    · simp [hk, DescriptorKind.parameters, he]
    refine .bind (stubs_convertAll hp fun _ h => ?_) fun L2 ss h2 hss => .pure ?_
    · simpa [hk, DescriptorKind.types] using h
    exact hk ▸ .classLike (h2.keeps.owners hts) hss
  next info hk =>
    refine .bind (stubs_parametersWith hp hdecl hL (k := .typeParameter) rfl fun e he => ?_)
      fun L1 ts h1 hts => ?_
    · simp [hk, DescriptorKind.parameters, he]
    refine .bind (stubs_convertOptional hp fun _ h => ?_) fun L2 r h2 hr => ?_
    · simp_all [DescriptorKind.types]
    refine .bind (stubs_convertOptional hp fun _ h => ?_) fun L3 x h3 hx => ?_
    · simp_all [DescriptorKind.types]
    refine .bind (stubs_parametersWith hp hdecl (hL.mono (h1.trans (h2.trans h3)).le)
      (k := .valueParameter) rfl fun e he => ?_) fun L4 ps h4 hps => ?_
    · simp [hk, DescriptorKind.parameters, he]
    refine .bind (stubs_convert hp (by simp [hk, DescriptorKind.types])) fun L5 τ h5 hτ => ?_
    refine .bind (.mapM (S := fun L' e id => L'.cached? .function e = some id) (.refl _)
      (fun hg hs => hg.le.cached hs) fun e he _ _ => stubs_symbolOf hp ?_ ⟨?_, ?_⟩)
      fun L6 os h6 hos => .pure ?_
    · simp [hk, DescriptorKind.symbols, he]
    · simp
    · simp
    have hs : ∀ id τ, L2.ShowsType σ id τ → L6.ShowsType σ id τ := fun _ _ =>
      (h3.trans (h4.trans (h5.trans h6))).keeps.shows
    have hs' : ∀ id τ, L3.ShowsType σ id τ → L6.ShowsType σ id τ := fun _ _ =>
      (h4.trans (h5.trans h6)).keeps.shows
    exact hk ▸ .function ((h2.trans (h3.trans (h4.trans (h5.trans h6)))).keeps.owners hts)
      (Option.rel_imp hs hr) (Option.rel_imp hs' hx) ((h5.trans h6).keeps.owners hps)
      (h6.keeps.shows hτ) hos
  next info hk =>
    refine .bind (stubs_parametersWith hp hdecl hL (k := .valueParameter) rfl fun e he => ?_)
      fun L1 ps h1 hps => ?_
    · simp [hk, DescriptorKind.parameters, he]
    refine .bind (stubs_convert hp (by simp [hk, DescriptorKind.types])) fun L2 τ h2 hτ => .pure ?_
    exact hk ▸ .constructor (h2.keeps.owners hps) hτ
  next info hk =>
    refine .bind (stubs_convert hp (by simp [hk, DescriptorKind.types])) fun L1 τ h1 hτ => ?_
    refine .bind (stubs_convertOptional hp fun _ h => ?_) fun L2 r h2 hr => ?_
    · simp_all [DescriptorKind.types]
    refine .bind (stubs_convertOptional hp fun _ h => ?_) fun L3 x h3 hx => ?_
    · simp_all [DescriptorKind.types]
    refine .bind (stubs_parametersWith hp hdecl (hL.mono (h1.trans (h2.trans h3)).le)
      (k := .typeParameter) rfl fun e he => ?_) fun L4 ts h4 hts => .pure ?_
    · simp [hk, DescriptorKind.parameters, he]
    have hs : ∀ id τ, L2.ShowsType σ id τ → L4.ShowsType σ id τ := fun _ _ =>
      (h3.trans h4).keeps.shows
    have hs' : ∀ id τ, L3.ShowsType σ id τ → L4.ShowsType σ id τ := fun _ _ => h4.keeps.shows
    exact hk ▸ .property ((h2.trans (h3.trans h4)).keeps.shows hτ) (Option.rel_imp hs hr)
      (Option.rel_imp hs' hx) hts
  next info hk =>
    refine .bind (stubs_symbolOf hp (k := .property) (e := info.property) ?_ ⟨?_, ?_⟩)
      fun L1 s h1 hs => ?_
    · simp [hk, DescriptorKind.symbols]
    · simp
    · simp
    refine .bind (stubs_convert hp (by simp [hk, DescriptorKind.types])) fun L2 τ h2 hτ => ?_
    refine .bind (stubs_parametersWith hp hdecl (hL.mono (h1.trans h2).le) (k := .valueParameter)
      rfl fun e he => ?_) fun L3 ps h3 hps => .pure ?_
    · simp [hk, DescriptorKind.parameters, he]
    exact hk ▸ .accessor ((h2.trans h3).le.cached hs) (h3.keeps.shows hτ) hps
  next info hk =>
    refine .bind (stubs_convertAll hp fun _ h => ?_) fun L1 bs h1 hbs => .pure ?_
    · simpa [hk, DescriptorKind.types] using h
    exact hk ▸ .typeParameter hbs
  next info hk =>
    refine .bind (stubs_placeholder hp hk) fun L1 value h1 hvalue => ?_
    refine .bind (stubs_convert hp (by simp [hk, DescriptorKind.types])) fun L2 τ h2 hτ => .pure ?_
    exact hk ▸ .valueParameter (h2.keeps.placeholder hvalue) hτ
  next info hk =>
    refine .bind (stubs_parametersWith hp hdecl hL (k := .typeParameter) rfl fun e he => ?_)
      fun L1 ts h1 hts => ?_
    · simp [hk, DescriptorKind.parameters, he]
    refine .bind (stubs_convert hp (by simp [hk, DescriptorKind.types])) fun L2 τ h2 hτ => .pure ?_
    exact hk ▸ .typeAlias (h2.keeps.owners hts) hτ

omit hdecl

/-- A stub becomes the owner of its symbol. -/
theorem stubs_declare {id : SymbolId} (hc : L.cached? kind desc = some id)
    (hx : L.symbol? id = some x) (ho : x.owner = none)
    (hcalls : Realizes σ L.toEntries (.annotationUses d.annotations) (.exprs calls))
    (hk : Signs σ L.toEntries d.visibility d.kind k) :
    L.Stubs files B (Under kind desc) (Lower.declare id .stub calls k)
      fun L' e => L'.declared? kind desc = some e := by
  have hfits : ∀ m ∈ (⟨id, .stub, calls, k⟩ : Decl).mentions,
      L.Fits L.holders (.decl L.nextDecl) m := by
    simp only [Decl.mentions, List.forall_mem_cons, List.forall_mem_append, Mention.annotations,
      List.forall_mem_map]
    exact ⟨Option.isSome_of_mem hx, settled_calls hcalls, fits_signature _ hk⟩
  have hclass : L.Confines ⟨id, .stub, calls, k⟩ := by
    rintro c rfl
    generalize d.kind = kind at hk
    cases hk with
    | classLike hts _ =>
      refine ⟨by simp, fun e he => .inr ⟨rfl, ?_⟩⟩
      obtain ⟨p, _, hp⟩ := exists_of_mem_forall₂ hts.flip he
      obtain ⟨id, y, hc, hy, ho⟩ := Entries.declared?_eq_some.1 hp
      obtain ⟨z, _, hz, hk, _⟩ := L.sound.table.cached hc
      cases hy.symm.trans hz
      exact ⟨id, y, hy, hk, ho⟩
  have hadd := L.sound.addDecl hfits hclass
  have hmark := Entries.mark?_addDecl_nextDecl L.sound ⟨id, .stub, calls, k⟩ ⟨L.holders, none⟩
  have hx' : (L.addDecl ⟨id, .stub, calls, k⟩ ⟨L.holders, none⟩).symbol? id = some x := hx
  have hkeeps := (Pairing.keeps_addDecl L.toEntries ⟨id, .stub, calls, k⟩
    ⟨L.holders, none⟩).trans (Pairing.keeps_own hx' ho L.nextDecl .stub)
  have hdeclared : ∀ {k' e'}, ((L.addDecl ⟨id, .stub, calls, k⟩ ⟨L.holders, none⟩).own id x
      L.nextDecl .stub).declared? k' e' =
        if L.cached? k' e' = some id then some L.nextDecl else L.declared? k' e' :=
    Entries.declared?_own hx' L.nextDecl .stub
  unfold Stubs
  rw [runFrom_declare hx, ho]
  refine ⟨⟨(L.addDecl ⟨id, .stub, calls, k⟩ ⟨L.holders, none⟩).own id x L.nextDecl .stub,
    hadd.own hx ho (Option.isSome_of_mem hmark) .stub⟩, ?_, rfl, ?_⟩
  · exact {
      le := hkeeps.le
      expr := hkeeps.expr
      opens := rfl
      loose := fun {id' y} hy hnone => by
        rw [Entries.symbol?_own hx'] at hy
        split at hy
        next he =>
          subst he
          cases (L.sound.descriptorOf_cached hc).symm.trans hnone
        next => exact hy
      cached := .inl
      tame := .inl
      declared := fun {k' e' c} h => by
        rw [hdeclared] at h
        split at h
        next hc' =>
          obtain ⟨rfl, rfl⟩ := L.sound.key_unique hc hc'
          cases h
          exact .inr ⟨.inr ⟨rfl, rfl⟩, hp.declared, d, id, calls, k, hp.descriptor, hc,
            L.decl?_addDecl_nextDecl _ ⟨L.holders, none⟩, hcalls.mono hkeeps.le, hk.mono hkeeps⟩
        next => exact .inl h
      declarations := rfl
      passes := rfl
      looseCount := by simp [Entries.own, Entries.withTable, SymbolTable.loose, SymbolTable.own,
        Entries.addDecl] }
  · exact hdeclared.trans (if_pos hc)

end signature

/-- A declaration is there, or is made as a stub. -/
theorem declares_declarationWith (hB : B.Closed σ)
    {declaration : SymbolId → DescId → Lower DeclId} (hdecl : Declares σ files B declaration) :
    Declares σ files B (Lower.declarationWith declaration) := by
  intro L kind desc id hL hc hdeclared
  obtain ⟨x, d, hx, _, hd, _⟩ := L.sound.table.cached hc
  refine .symbol_bind hx ?_
  split
  next owner ho => exact .pure (Entries.declared?_eq_some.2 ⟨id, x, hc, hx, ho⟩)
  next ho =>
    have hunknown : ¬ B.known kind desc := fun hk => by
      obtain ⟨c, hc'⟩ := Option.isSome_iff_exists.1 (hL kind desc hk)
      obtain ⟨id', y, hid, hy, hyo⟩ := Entries.declared?_eq_some.1 hc'
      cases hc.symm.trans hid
      cases hx.symm.trans hy
      cases ho.symm.trans hyo
    have hp : Permits B σ kind desc d := ⟨hB, hdeclared, hunknown, hd⟩
    refine .descriptor_bind hd (.bind (stubs_signatureWith hp hdecl hL) fun L1 k h1 hk => ?_)
    refine .bind (stubs_annotations hp) fun L2 calls h2 hcalls => ?_
    have hc2 := h2.le.cached (h1.le.cached hc)
    obtain ⟨y, _, hy, _⟩ := L2.sound.table.cached hc2
    refine .symbol_bind hy ?_
    split
    next owner ho => exact .pure (Entries.declared?_eq_some.2 ⟨id, y, hc2, hy, ho⟩)
    next ho => exact stubs_declare hp hc2 hy ho hcalls (hk.mono h2.keeps)

theorem declares_declarationUpTo (hB : B.Closed σ) :
    (fuel : Nat) → Declares σ files B (Lower.declarationUpTo fuel)
  | 0 => fun _ _ _ _ _ _ _ => .throw ⟨by simp, by simp⟩ fun _ => rfl
  | fuel + 1 => declares_declarationWith hB (declares_declarationUpTo hB fuel)

theorem declares_declaration (hB : B.Closed σ) : Declares σ files B Lower.declaration :=
  fun L _ _ _ hL hc hd => .read_bind (declares_declarationUpTo hB _ L hL hc hd)

end Ledger

end TypedTree
