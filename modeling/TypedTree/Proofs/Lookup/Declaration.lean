import TypedTree.Lowering.Stub
import TypedTree.Proofs.Lookup.Stub

namespace TypedTree

/-- The step traverses the given look-ups, all within reach, and makes stubs for parameters on the
way. -/
def Gathers {α : Type} (σ : Setting) (b : State) (C : Prop) (ls : List Lookup) (m : Lower α)
    (Q : α → Prop) : Prop :=
  ∀ s, b.Stubbed σ s → (∀ key, σ.Finds ls key → b.Reached σ key) → m.Ends σ s
    (fun a s' => b.Stubbed σ s' ∧ s.Keeps s' ∧ (∀ key, σ.Finds ls key → s'.Has key) ∧ Q a)
    fun e s' => b.Stubbed σ s' ∧ s.Keeps s' ∧ e.Stops C

/-- Each symbol with a key gets its declaration. -/
def Declares (σ : Setting) (b : State) (C : DescId → Prop)
    (declaration : SymbolId → DescId → Lower DeclId) : Prop :=
  ∀ s key id, b.Stubbed σ s → s.table.cached? key.1 key.2 = some id →
    (declaration id key.2).Ends σ s
      (fun decl s' => b.Stubbed σ s' ∧ s.Keeps s' ∧ s'.declared? key = some decl)
      fun e s' => b.Stubbed σ s' ∧ s.Keeps s' ∧ e.Stops (C key.2)

namespace Gathers

open Lower

variable {σ : Setting} {b : State} {C : Prop} {ls ls' : List Lookup} {α β : Type} {m : Lower α}
  {k : α → Lower β} {P : α → Prop} {Q : β → Prop}

theorem pure {a : α} (h : P a) : Gathers σ b C [] (Pure.pure a) P := fun s hs _ =>
  .pure ⟨hs, .refl s, fun _ hk => (Setting.finds_nil hk).elim, h⟩

theorem bind (h : Gathers σ b C ls m P) (hk : ∀ a, P a → Gathers σ b C ls' (k a) Q) :
    Gathers σ b C (ls ++ ls') (m >>= k) Q := by
  intro s hs hreach
  refine (h s hs fun key hkey => hreach key (Setting.finds_append.2 (.inl hkey))).bind
    fun a s1 ⟨hs1, hle1, hall1, ha⟩ => (hk a ha s1 hs1 fun key hkey =>
      hreach key (Setting.finds_append.2 (.inr hkey))).imp ?_ fun _ _ ⟨hs2, hle2, he⟩ =>
        ⟨hs2, hle1.trans hle2, he⟩
  rintro c s2 ⟨hs2, hle2, hall2, hc⟩
  refine ⟨hs2, hle1.trans hle2, fun key hkey => ?_, hc⟩
  rcases Setting.finds_append.1 hkey with hkey | hkey
  · exact (hall1 key hkey).mono hle2.table
  · exact hall2 key hkey

/-- The order of the look-ups and repetitions among them do not matter. -/
theorem congr (h : Gathers σ b C ls m P) (hls : ∀ l, l ∈ ls ↔ l ∈ ls') :
    Gathers σ b C ls' m P := by
  intro s hs hreach
  have hfinds : ∀ key, σ.Finds ls key ↔ σ.Finds ls' key := fun key =>
    ⟨fun hk => hk.mono fun _ => (hls _).1, fun hk => hk.mono fun _ => (hls _).2⟩
  exact (h s hs fun key hkey => hreach key ((hfinds key).1 hkey)).imp
    (fun _ _ ⟨hs', hle, hall, ha⟩ =>
      ⟨hs', hle, fun key hkey => hall key ((hfinds key).2 hkey), ha⟩) fun _ _ he => he

theorem of_seeks (h : Seeks σ (fun _ => ¬ σ.Founded) ls m) (hC : ¬ σ.Founded → C) :
    Gathers σ b C ls m fun _ => True := by
  intro s hs hreach
  refine (h s hs.coherent).imp (fun a s' ⟨hs', hadds, hall⟩ => ?_) fun e s' ⟨hs', hadds, he⟩ => ?_
  · exact ⟨hs.adds hadds hs' hreach, hadds.keeps, hall, trivial⟩
  · exact ⟨hs.adds hadds hs' hreach, hadds.keeps, he.imp fun ⟨_, _, hfounded⟩ => hC hfounded⟩

theorem mapM {γ : Type} {xs : List γ} {f : γ → Lower α} {g : γ → List Lookup}
    (h : ∀ x ∈ xs, Gathers σ b C (g x) (f x) fun _ => True) :
    Gathers σ b C (xs.flatMap g) (xs.mapM f) fun _ => True := by
  induction xs with
  | nil => exact pure trivial
  | cons x xs ih =>
    obtain ⟨hx, hxs⟩ := List.forall_mem_cons.1 h
    rw [List.mapM_cons, List.flatMap_cons]
    exact hx.bind fun _ _ => ((ih hxs).bind fun _ _ => pure trivial).congr (by simp)

section

variable {declaration : SymbolId → DescId → Lower DeclId} {D : DescId → Prop}

theorem parametersWith (hdecl : Declares σ b D declaration) {kind : SymbolKind}
    (hkind : kind ≠ .initializer) {parameters : List DescId}
    (hD : ∀ parameter ∈ parameters, D parameter → C) :
    Gathers σ b C (parameters.map fun parameter => .key (kind, parameter))
      (Lower.parametersWith declaration kind parameters) fun _ => True := by
  rw [List.map_eq_flatMap]
  refine mapM fun parameter hparameter s hs hreach => ?_
  refine .bind (Q := fun id s' => b.Stubbed σ s' ∧ s.Keeps s' ∧
    s'.table.cached? kind parameter = some id) ((Seeks.ends_symbolOf hs.coherent hkind).imp
    (fun _ _ ⟨hs', hadds, hc⟩ => ⟨hs.adds hadds hs' hreach, hadds.keeps, hc⟩)
    fun _ _ ⟨hs', hadds, he⟩ => ⟨hs.adds hadds hs' hreach, hadds.keeps, he.imp False.elim⟩)
    fun id s1 ⟨hs1, hle1, hc⟩ => ?_
  refine (hdecl s1 (kind, parameter) id hs1 hc).imp (fun _ s2 ⟨hs2, hle2, hd⟩ => ?_)
    fun _ _ ⟨hs2, hle2, he⟩ => ⟨hs2, hle1.trans hle2, he.imp (hD parameter hparameter)⟩
  refine ⟨hs2, hle1.trans hle2, fun key hkey => ?_, trivial⟩
  rw [Lookup.leads_key.1 (Setting.finds_singleton.1 hkey)]
  exact State.has_of_declared? hd

theorem placeholder (hC : ¬ σ.Founded → C) (info : ValueParameterInfo) :
    Gathers σ b C (if info.declaresDefault then [.type info.type] else [])
      (Lower.placeholder info) fun _ => True := by
  unfold Lower.placeholder
  split
  next =>
    exact of_seeks ((Seeks.convert _).bind fun _ => Seeks.addExpr.bind fun _ => Seeks.pure) hC
  next => exact pure trivial

/-- A signature is made from all that it looks up, and has nothing else. -/
theorem signatureWith (hdecl : Declares σ b D declaration) (d : Descriptor)
    (hD : ∀ key ∈ d.kind.parameters, D key.2 → C) (hC : ¬ σ.Founded → C) :
    Gathers σ b C (d.kind.parameters.map .key ++ d.kind.symbols.map .key ++ d.kind.types.map .type)
      (Lower.signatureWith declaration d) fun kind => kind.isBare := by
  have htype : ∀ id, Gathers σ b C [.type id] (Lower.convert id) fun _ => True := fun id =>
    of_seeks (Seeks.convert id) hC
  have htypes : ∀ ids, Gathers σ b C (ids.map .type) (Lower.convertAll ids) fun _ => True :=
    fun ids => of_seeks (Seeks.convertAll ids) hC
  have hoptional : ∀ id : Option TypeId,
      Gathers σ b C (id.toList.map .type) (Lower.convertOptional id) fun _ => True :=
    fun id => of_seeks (Seeks.convertOptional id) hC
  have hsymbols : ∀ ids : List DescId, Gathers σ b C (ids.flatMap fun id => [.key (.function, id)])
      (ids.mapM (Lower.symbolOf .function)) fun _ => True := fun ids =>
    of_seeks (Seeks.mapM fun _ _ => Seeks.symbolOf (by decide)) hC
  have hparameters : ∀ kind ids, kind ≠ .initializer →
      (∀ id ∈ ids, (kind, id) ∈ d.kind.parameters) →
      Gathers σ b C (ids.map fun id => .key (kind, id))
        (Lower.parametersWith declaration kind ids) fun _ => True := fun kind ids hkind hids =>
    parametersWith hdecl hkind fun id hid => hD _ (hids id hid)
  unfold Lower.signatureWith
  cases hk : d.kind with
  | classLike info =>
    refine congr ((hparameters .typeParameter info.typeParameters (by decide) ?_).bind fun _ _ =>
      (htypes info.supertypes).bind fun _ _ => pure rfl) ?_
    · simp [hk, DescriptorKind.parameters]
    · simp [DescriptorKind.parameters, DescriptorKind.symbols, DescriptorKind.types]
  | function info =>
    refine congr ((hparameters .typeParameter info.typeParameters (by decide) ?_).bind fun _ _ =>
      (hoptional info.dispatchReceiver).bind fun _ _ =>
      (hoptional info.extensionReceiver).bind fun _ _ =>
      (hparameters .valueParameter info.valueParameters (by decide) ?_).bind fun _ _ =>
      (htype info.returnType).bind fun _ _ => (hsymbols info.overridden).bind fun _ _ =>
        pure rfl) ?_
    · simp +contextual [hk, DescriptorKind.parameters]
    · simp +contextual [hk, DescriptorKind.parameters]
    · intro l
      grind [DescriptorKind.parameters, DescriptorKind.symbols, DescriptorKind.types]
  | constructor info =>
    refine congr ((hparameters .valueParameter info.valueParameters (by decide) ?_).bind fun _ _ =>
      (htype info.returnType).bind fun _ _ => pure rfl) ?_
    · simp [hk, DescriptorKind.parameters]
    · simp [DescriptorKind.parameters, DescriptorKind.symbols, DescriptorKind.types]
  | property info =>
    refine congr ((htype info.type).bind fun _ _ =>
      (hoptional info.dispatchReceiver).bind fun _ _ =>
      (hoptional info.extensionReceiver).bind fun _ _ =>
      (hparameters .typeParameter info.typeParameters (by decide) ?_).bind fun _ _ => pure rfl) ?_
    · simp [hk, DescriptorKind.parameters]
    · intro l
      grind [DescriptorKind.parameters, DescriptorKind.symbols, DescriptorKind.types]
  | accessor info =>
    refine congr ((of_seeks (Seeks.symbolOf (by decide)) hC).bind fun _ _ =>
      (htype info.returnType).bind fun _ _ =>
      (hparameters .valueParameter info.valueParameters (by decide) ?_).bind fun _ _ => pure rfl) ?_
    · simp [hk, DescriptorKind.parameters]
    · intro l
      grind [DescriptorKind.parameters, DescriptorKind.symbols, DescriptorKind.types]
  | typeParameter info =>
    refine congr ((htypes info.upperBounds).bind fun _ _ => pure rfl) ?_
    simp [DescriptorKind.parameters, DescriptorKind.symbols, DescriptorKind.types]
  | valueParameter info =>
    refine congr ((placeholder hC info).bind fun _ _ => (htype info.type).bind fun _ _ =>
      pure rfl) ?_
    intro l
    simp [DescriptorKind.parameters, DescriptorKind.symbols, DescriptorKind.types]
  | typeAlias info =>
    refine congr ((hparameters .typeParameter info.typeParameters (by decide) ?_).bind fun _ _ =>
      (htype info.expanded).bind fun _ _ => pure rfl) ?_
    · simp [hk, DescriptorKind.parameters]
    · simp [DescriptorKind.parameters, DescriptorKind.symbols, DescriptorKind.types]

end

end Gathers

namespace Declares

open Lower

variable {σ : Setting} {b : State} {C D : DescId → Prop}

theorem declarationWith {declaration : SymbolId → DescId → Lower DeclId}
    (hdecl : Declares σ b D declaration)
    (hD : ∀ parameter desc, σ.Lists parameter desc → D parameter → C desc)
    (hC : ¬ σ.Founded → ∀ desc, C desc) : Declares σ b C (Lower.declarationWith declaration) := by
  intro s key id hs hc
  obtain ⟨x, d, hx, _, hd, _⟩ := hs.coherent.table.cached hc
  refine .symbol_bind hx ?_
  cases ho : x.owner with
  | some owner =>
    exact .pure ⟨hs, .refl s, State.declared?_eq_some.2 ⟨id, x, hc, hx, ho⟩⟩
  | none =>
    have hund : s.declared? key = none := by
      rw [State.declared?, hc, Option.bind_some, hx, Option.bind_some, ho]
    have hreach : ∀ key', σ.Finds (d.lookups σ) key' → b.Reached σ key' := fun key' =>
      .step (hs.reached (Option.isSome_of_mem hc)) (hs.undeclared hund) hd
    refine .descriptor_bind ⟨hs, .refl s, trivial⟩ fun d' hd' => ?_
    cases hd.symm.trans hd'
    have hsignature := Gathers.signatureWith (C := C key.2) hdecl d
      (fun p hp => hD p.2 key.2 ⟨d, p.1, hd, hp⟩) fun h => hC h key.2
    refine .bind (hsignature s hs fun key' hkey' => hreach key' (hkey'.mono ?_)) ?_
    · exact List.subset_append_left _ _
    rintro kind s1 ⟨hs1, hle1, hall1, hkind⟩
    have hannotations := Gathers.of_seeks (b := b) (Seeks.annotationCalls d.annotations)
      fun h => hC h key.2
    refine .bind ((hannotations s1 hs1 fun key' hkey' => hreach key' (hkey'.mono ?_)).imp
      (fun _ _ h => h) fun _ _ h => ⟨h.1, hle1.trans h.2.1, h.2.2⟩) ?_
    · exact List.subset_append_right _ _
    rintro calls s2 ⟨hs2, hle2, hall2, _⟩
    have hle := hle1.trans hle2
    obtain ⟨y, hy, _⟩ := hle.table.symbol hx
    refine .symbol_bind hy ?_
    cases hoy : y.owner with
    | some owner =>
      exact .pure ⟨hs2, hle, State.declared?_eq_some.2 ⟨id, y, hle.table.cached hc, hy, hoy⟩⟩
    | none =>
      have hfinds : ∀ key', σ.Finds (d.lookups σ) key' → s2.Has key' := fun key' hkey' => by
        rcases Setting.finds_append.1 hkey' with hkey' | hkey'
        · exact (hall1 key' hkey').mono hle2.table
        · exact hall2 key' hkey'
      have hstub := hs2.withStub (hle.table.cached hc) hy hoy hd hfinds hkind calls
      have hrun : ∀ σ', (declare id .stub calls kind).runFrom σ' s2 =
          (.ok ⟨s2.store.decls.size⟩, s2.withStub id y calls kind) := fun σ' => by
        rw [runFrom_declare hy, hoy]
        rfl
      have hkeeps : s2.Keeps (s2.withStub id y calls kind) := ⟨SymbolTable.le_own hy hoy _, rfl⟩
      refine .of_runFrom hrun ⟨hstub, hle.trans hkeeps, State.declared?_eq_some.2
        ⟨id, { y with owner := some ⟨s2.store.decls.size⟩ }, hle.table.cached hc, ?_, rfl⟩⟩
      rw [State.withStub, SymbolTable.get?_own hy, if_pos rfl]

theorem declarationUpTo : (fuel : Nat) →
    Declares σ b (fun desc => ¬ σ.Founded ∨ Descends σ.Lists fuel desc)
      (Lower.declarationUpTo fuel)
  | 0 => fun s _ _ hs _ => .throw ⟨hs, .refl s, .inr trivial⟩
  | fuel + 1 => (declarationUpTo fuel).declarationWith
      (fun parameter _ hlists h => h.imp_right fun hdown => ⟨parameter, hlists, hdown⟩)
      fun h _ => .inl h

/-- If the declaration of a symbol never ends, there is a circle. -/
theorem declaration : Declares σ b (fun _ => ¬ σ.Founded) Lower.declaration :=
  fun s key id hs hc => .read_bind (fun _ => rfl)
    ((declarationUpTo _ s key id hs hc).imp (fun _ _ h => h) fun _ _ ⟨hs', hle, he⟩ =>
      ⟨hs', hle, he.imp fun h => h.elim (fun hσ => hσ) Setting.not_founded_of_lists⟩)

end Declares

end TypedTree
