import TypedTree.Proofs.Pairing.Keys

namespace TypedTree

namespace DescriptorKind

/-- The types in a signature. -/
def types : DescriptorKind → List TypeId
  | .classLike info => info.supertypes
  | .function info => info.dispatchReceiver.toList ++ info.extensionReceiver.toList ++
      [info.returnType]
  | .constructor info => [info.returnType]
  | .property info => info.type :: (info.dispatchReceiver.toList ++ info.extensionReceiver.toList)
  | .accessor info => [info.returnType]
  | .typeParameter info => info.upperBounds
  | .valueParameter info => [info.type]
  | .typeAlias info => [info.expanded]

/-- The keys of symbols that a signature mentions. -/
def symbols : DescriptorKind → List (SymbolKind × DescId)
  | .function info => info.overridden.map (.function, ·)
  | .accessor info => [(.property, info.property)]
  | _ => []

/-- The keys of the parameters in a signature. -/
def parameters : DescriptorKind → List (SymbolKind × DescId)
  | .classLike info => info.typeParameters.map (.typeParameter, ·)
  | .function info => info.typeParameters.map (.typeParameter, ·) ++
      info.valueParameters.map (.valueParameter, ·)
  | .constructor info => info.valueParameters.map (.valueParameter, ·)
  | .property info => info.typeParameters.map (.typeParameter, ·)
  | .accessor info => info.valueParameters.map (.valueParameter, ·)
  | .typeAlias info => info.typeParameters.map (.typeParameter, ·)
  | .typeParameter _ | .valueParameter _ => []

end DescriptorKind

section knows

variable {w : World} {d : Descriptor} (h : w.Knows d.refs)

include h

theorem World.Knows.signatureType {id : TypeId} (hid : id ∈ d.kind.types) :
    w.Finds (.type id) := by
  refine World.Knows.kind h _ ?_
  cases hk : d.kind <;>
    simp_all [DescriptorKind.types, DescriptorKind.refs, Reference.types, Reference.type?,
      Reference.descs, Reference.desc?]
  all_goals grind

theorem World.Knows.signatureSymbol (hkey : key ∈ d.kind.symbols) : w.Finds (.desc key.2) := by
  refine World.Knows.kind h _ ?_
  cases hk : d.kind <;> simp_all [DescriptorKind.symbols, DescriptorKind.refs, Reference.descs]
  obtain ⟨desc, hm, rfl⟩ := hkey
  simp [hm]

theorem World.Knows.signatureParameter (hkey : key ∈ d.kind.parameters) :
    w.Finds (.desc key.2) := by
  refine World.Knows.kind h _ ?_
  cases hk : d.kind <;>
    simp_all [DescriptorKind.parameters, DescriptorKind.refs, Reference.descs, Reference.desc?]
  all_goals grind

theorem World.Knows.annotationUse (hu : use ∈ d.annotations) : w.Knows use.refs := by
  intro r hr
  refine h r ?_
  simp only [Descriptor.refs, List.mem_append, List.mem_flatMap]
  exact .inl (.inr ⟨use, hu, hr⟩)

end knows

def Entries.ShowsType (n : Entries) (σ : Setting) (id : TypeId) (type : TreeType) : Prop :=
  Realizes σ n (.type id) (.type type)

/-- The declarations of parameters. -/
def Entries.Owners (n : Entries) (kind : SymbolKind) (parameters : List DescId)
    (decls : List DeclId) : Prop :=
  List.Forall₂ (fun p d => n.declared? kind p = some d) parameters decls

/-- An empty block in the place of a default value. -/
def Entries.Placeholder (n : Entries) (σ : Setting) (info : ValueParameterInfo)
    (value : Option ExprId) : Prop :=
  if info.declaresDefault then ∃ e type, value = some e ∧ n.ShowsType σ info.type type ∧
    n.Code [] e ∧ n.expr? e = some ⟨type, [], .block []⟩
  else value = none

/-- The signature that a descriptor gives, as a tree shows it. -/
inductive Signs (σ : Setting) (n : Entries) (v : Visibility) : DescriptorKind → DeclKind → Prop
  | classLike {info ts ss} : n.Owners .typeParameter info.typeParameters ts →
      List.Forall₂ (n.ShowsType σ) info.supertypes ss →
      Signs σ n v (.classLike info) (.classLike ⟨info.kind, v, info.modality, info.isData,
        info.isInner, info.isCompanion, ts, ss, []⟩)
  | function {info ts r e ps τ os} : n.Owners .typeParameter info.typeParameters ts →
      Option.Rel (n.ShowsType σ) info.dispatchReceiver r →
      Option.Rel (n.ShowsType σ) info.extensionReceiver e →
      n.Owners .valueParameter info.valueParameters ps → n.ShowsType σ info.returnType τ →
      List.Forall₂ (fun o s => n.cached? .function o = some s) info.overridden os →
      Signs σ n v (.function info) (.function ⟨v, info.modality, info.flags, ts, r, e, ps, τ, none,
        os, none⟩)
  | constructor {info ps τ} : n.Owners .valueParameter info.valueParameters ps →
      n.ShowsType σ info.returnType τ → Signs σ n v (.constructor info)
        (.constructor ⟨info.isPrimary, v, ps, τ, none, none⟩)
  | property {info τ r e ts} : n.ShowsType σ info.type τ →
      Option.Rel (n.ShowsType σ) info.dispatchReceiver r →
      Option.Rel (n.ShowsType σ) info.extensionReceiver e →
      n.Owners .typeParameter info.typeParameters ts →
      Signs σ n v (.property info) (.property ⟨v, info.modality, info.isVar, info.isLocal,
        info.isConst, info.isLateinit, τ, r, e, ts, none, none, none, none⟩)
  | accessor {info s τ ps} : n.cached? .property info.property = some s →
      n.ShowsType σ info.returnType τ → n.Owners .valueParameter info.valueParameters ps →
      Signs σ n v (.accessor info) (.accessor ⟨s, info.isSetter, v, τ, ps, none⟩)
  | typeParameter {info bs} : List.Forall₂ (n.ShowsType σ) info.upperBounds bs →
      Signs σ n v (.typeParameter info)
        (.typeParameter ⟨info.index, info.variance, info.isReified, bs⟩)
  | valueParameter {info τ value} : n.Placeholder σ info value → n.ShowsType σ info.type τ →
      Signs σ n v (.valueParameter info) (.valueParameter ⟨τ, value, info.isVararg,
        info.isCrossinline, info.isNoinline, none⟩)
  | typeAlias {info ts τ} : n.Owners .typeParameter info.typeParameters ts →
      n.ShowsType σ info.expanded τ → Signs σ n v (.typeAlias info) (.typeAlias ⟨v, ts, τ⟩)

/-- A stub: a declaration that has nothing but what its descriptor gives. -/
structure Entries.Stub (n : Entries) (σ : Setting) (kind : SymbolKind) (desc : DescId)
    (decl : DeclId) (d : Descriptor) (id : SymbolId) (calls : List ExprId) (k : DeclKind) :
    Prop where
  descriptor : σ.world.descriptor? desc = some d
  cached : n.cached? kind desc = some id
  decl : n.decl? decl = some ⟨id, .stub, calls, k⟩
  annotations : Realizes σ n (.annotationUses d.annotations) (.exprs calls)
  signature : Signs σ n d.visibility d.kind k

def Entries.IsStub (n : Entries) (σ : Setting) (kind : SymbolKind) (desc : DescId)
    (decl : DeclId) : Prop :=
  ∃ d id calls k, n.Stub σ kind desc decl d id calls k

section mono

variable {σ : Setting} {n m : Entries} (h : n.Keeps m)

include h

theorem Entries.Keeps.owners (ho : n.Owners kind ps ds) : m.Owners kind ps ds :=
  List.Forall₂.imp (fun _ _ => h.le.declared) ho

theorem Entries.Keeps.shows {id : TypeId} (hs : n.ShowsType σ id τ) : m.ShowsType σ id τ :=
  Realizes.mono h.le hs

theorem Entries.Keeps.placeholder (hv : n.Placeholder σ info value) :
    m.Placeholder σ info value := by
  unfold Entries.Placeholder at hv ⊢
  split
  next hd =>
    rw [if_pos hd] at hv
    obtain ⟨e, type, rfl, ht, hc, he⟩ := hv
    exact ⟨e, type, rfl, h.shows ht, h.le.code hc, h.expr he⟩
  next hd => rwa [if_neg hd] at hv

theorem Signs.mono (hk : Signs σ n v d k) : Signs σ m v d k := by
  have hs : ∀ id τ, n.ShowsType σ id τ → m.ShowsType σ id τ := fun _ _ => h.shows
  cases hk with
  | classLike hts hss => exact .classLike (h.owners hts) (hss.imp hs)
  | function hts hr he hps hτ hos =>
    exact .function (h.owners hts) (Option.rel_imp hs hr) (Option.rel_imp hs he) (h.owners hps)
      (hs _ _ hτ) (hos.imp fun _ _ => h.le.cached)
  | constructor hps hτ => exact .constructor (h.owners hps) (hs _ _ hτ)
  | property hτ hr he hts =>
    exact .property (hs _ _ hτ) (Option.rel_imp hs hr) (Option.rel_imp hs he) (h.owners hts)
  | accessor hp hτ hps => exact .accessor (h.le.cached hp) (hs _ _ hτ) (h.owners hps)
  | typeParameter hbs => exact .typeParameter (hbs.imp hs)
  | valueParameter hv hτ => exact .valueParameter (h.placeholder hv) (hs _ _ hτ)
  | typeAlias hts hτ => exact .typeAlias (h.owners hts) (hs _ _ hτ)

theorem Entries.IsStub.mono (hd : n.IsStub σ kind desc decl) : m.IsStub σ kind desc decl :=
  let ⟨d, id, calls, k, hs⟩ := hd
  ⟨d, id, calls, k, hs.descriptor, h.le.cached hs.cached, h.le.decl hs.decl,
    hs.annotations.mono h.le, hs.signature.mono h⟩

end mono

end TypedTree
