import TypedTree.Proofs.Lookup.Ends

namespace TypedTree

/-- The ways in which the traversal of a signature stops early. One that never ends has a reason. -/
def LowerError.Stops (reason : Prop) : LowerError → Prop
  | .errorType _ | .unexpectedClassifier _ _ | .noAnnotationConstructor _ | .dangling => True
  | .endless => reason
  | _ => False

theorem LowerError.Stops.imp {e : LowerError} (h : e.Stops P) (hP : P → P') : e.Stops P' := by
  cases e <;> first | exact h | exact hP h

/-- Only symbols for some of the given keys are new, and nothing is declared. -/
structure State.Adds (K : Key → Prop) (s s' : State) : Prop where
  table : s.table.Le s'.table
  symbol : ∀ {id x}, s'.table.get? id = some x → s.table.get? id = some x ∨
    s.table.get? id = none ∧ x.owner = none ∧ (s'.table.descriptorOf? id).isSome
  key : ∀ {key}, s'.Has key → s.Has key ∨ K key
  decls : s'.store.decls = s.store.decls
  stats : s'.stats = s.stats

namespace State.Adds

variable {σ : Setting} {K K' : Key → Prop} {s s' s'' : State}

theorem refl (K : Key → Prop) (s : State) : s.Adds K s where
  table := .refl _
  symbol := .inl
  key := .inl
  decls := rfl
  stats := rfl

theorem trans (h : s.Adds K s') (h' : s'.Adds K s'') : s.Adds K s'' where
  table := h.table.trans h'.table
  symbol {id x} hx := by
    rcases h'.symbol hx with hx' | ⟨hnone, ho, hd⟩
    · rcases h.symbol hx' with hx0 | ⟨hnone, ho, hd⟩
      · exact .inl hx0
      · rw [← h'.table.origin (Option.isSome_of_mem hx')] at hd
        exact .inr ⟨hnone, ho, hd⟩
    · refine .inr ⟨Option.eq_none_iff_forall_ne_some.2 fun y hy => ?_, ho, hd⟩
      obtain ⟨z, hz, _⟩ := h.table.symbol hy
      cases hnone.symm.trans hz
  key hk := (h'.key hk).elim h.key .inr
  decls := h'.decls.trans h.decls
  stats := h'.stats.trans h.stats

theorem mono (h : s.Adds K s') (hK : ∀ key, K key → K' key) : s.Adds K' s' where
  table := h.table
  symbol := h.symbol
  key hk := (h.key hk).imp_right (hK _)
  decls := h.decls
  stats := h.stats

theorem create (hc : s.table.cached? kind desc = none) (hK : K (kind, desc))
    (identity : SymbolIdentity) :
    s.Adds K { s with table := s.table.create kind desc identity } where
  table := SymbolTable.le_create hc identity
  symbol {id x} hx := by
    rw [SymbolTable.get?_create] at hx
    split at hx
    next he =>
      cases hx
      subst he
      refine .inr ⟨by simp [SymbolTable.get?], rfl, ?_⟩
      rw [SymbolTable.descriptorOf?_create, if_pos rfl]
      rfl
    next => exact .inl hx
  key {key} hk := by
    unfold State.Has at hk
    rw [SymbolTable.cached?_create] at hk
    split at hk
    next he => exact .inr (by rw [show key = (kind, desc) from Prod.ext he.1 he.2]; exact hK)
    next => exact .inl hk
  decls := rfl
  stats := rfl

theorem owes (h : s.Adds K s') {id : SymbolId} (ho : s'.Owes id) : s.Owes id := by
  obtain ⟨hloose, x, hx, hnone⟩ := ho
  rcases h.symbol hx with hx' | ⟨_, _, hsome⟩
  · exact ⟨(h.table.origin (Option.isSome_of_mem hx')).symm.trans hloose, x, hx', hnone⟩
  · rw [hloose] at hsome
    cases hsome

theorem declared?_eq (h : s.Adds K s') (hs : s.Coherent σ) (hs' : s'.Coherent σ) (key : Key) :
    s'.declared? key = s.declared? key := by
  cases hd : s'.declared? key with
  | none => exact (State.undeclared_mono h.table hd).symm
  | some d =>
    obtain ⟨id, x, hc, hx, ho⟩ := State.declared?_eq_some.1 hd
    rcases h.symbol hx with hx' | ⟨_, hnone, _⟩
    · -- A symbol that was there had its key.
      obtain ⟨y, _, hy, hk, _, _, hdesc⟩ := hs'.table.cached hc
      cases hx.symm.trans hy
      rw [h.table.origin (Option.isSome_of_mem hx')] at hdesc
      obtain ⟨z, hz, hcz⟩ := hs.table.origin hdesc
      cases hx'.symm.trans hz
      exact (State.declared?_eq_some.2 ⟨id, x, hk ▸ hcz, hx', ho⟩).symm
    · cases hnone.symm.trans ho

end State.Adds

/-- The step traverses the given look-ups: it asks for no other keys, and for all of them if it
succeeds. If it never ends, one of the types is to blame. -/
def Seeks {α : Type} (σ : Setting) (C : TypeId → Prop) (ls : List Lookup) (m : Lower α) : Prop :=
  ∀ s, s.Coherent σ → m.Ends σ s
    (fun _ s' => s'.Coherent σ ∧ s.Adds (σ.Finds ls) s' ∧ ∀ key, σ.Finds ls key → s'.Has key)
    fun e s' => s'.Coherent σ ∧ s.Adds (σ.Finds ls) s' ∧ e.Stops (∃ id, .type id ∈ ls ∧ C id)

namespace Seeks

open Lower

variable {σ : Setting} {C : TypeId → Prop} {ls ls' : List Lookup} {α β : Type} {m : Lower α}
  {k : α → Lower β}

theorem pure : Seeks σ C [] (Pure.pure a : Lower α) := fun s hs =>
  .pure ⟨hs, .refl _ s, fun _ hk => (Setting.finds_nil hk).elim⟩

theorem throw {e : LowerError} (he : e.Stops False) :
    Seeks σ C ls (MonadExcept.throw e : Lower α) := fun s hs =>
  .throw ⟨hs, .refl _ s, he.imp False.elim⟩

theorem bind (h : Seeks σ C ls m) (hk : ∀ a, Seeks σ C ls' (k a)) :
    Seeks σ C (ls ++ ls') (m >>= k) := by
  intro s hs
  have hl : ∀ key, σ.Finds ls key → σ.Finds (ls ++ ls') key := fun _ h =>
    Setting.finds_append.2 (.inl h)
  have hr : ∀ key, σ.Finds ls' key → σ.Finds (ls ++ ls') key := fun _ h =>
    Setting.finds_append.2 (.inr h)
  refine ((h s hs).imp (fun _ _ hQ => hQ) fun _ _ ⟨hs', hadds, he⟩ =>
    ⟨hs', hadds.mono hl, he.imp fun ⟨id, hid, hC⟩ => ⟨id, List.mem_append_left _ hid, hC⟩⟩).bind
    fun a s1 ⟨hs1, hadds1, hall1⟩ => (hk a s1 hs1).imp ?_ ?_
  · rintro b s2 ⟨hs2, hadds2, hall2⟩
    refine ⟨hs2, (hadds1.mono hl).trans (hadds2.mono hr), fun key hkey => ?_⟩
    rcases Setting.finds_append.1 hkey with hkey | hkey
    · exact (hall1 key hkey).mono hadds2.table
    · exact hall2 key hkey
  · rintro e s2 ⟨hs2, hadds2, he⟩
    exact ⟨hs2, (hadds1.mono hl).trans (hadds2.mono hr),
      he.imp fun ⟨id, hid, hC⟩ => ⟨id, List.mem_append_right _ hid, hC⟩⟩

theorem congr (h : Seeks σ C ls m) (hls : ls = ls') : Seeks σ C ls' m := hls ▸ h

theorem map (h : Seeks σ C ls m) : Seeks σ C ls (f <$> m) := by
  rw [map_eq_pure_bind]
  exact (h.bind fun _ => pure).congr (List.append_nil ls)

theorem read_bind {k : Setting → Lower β} (hv : ∀ v, k (σ.withVerify v) = k σ)
    (h : Seeks σ C ls (k σ)) : Seeks σ C ls (read >>= k) := fun s hs => (h s hs).read_bind hv

theorem descriptor_bind {id : DescId} {k : Descriptor → Lower β}
    (h : ∀ d, σ.world.descriptor? id = some d → Seeks σ C ls (k d)) :
    Seeks σ C ls (descriptor id >>= k) := fun s hs =>
  .descriptor_bind ⟨hs, .refl _ s, trivial⟩ fun d hd => h d hd s hs

theorem sourceType_bind {id : TypeId} {k : SourceType → Lower β}
    (h : ∀ t, σ.world.type? id = some t → Seeks σ C ls (k t)) :
    Seeks σ C ls (sourceType id >>= k) := fun s hs =>
  .sourceType_bind ⟨hs, .refl _ s, trivial⟩ fun t ht => h t ht s hs

theorem mapM {γ : Type} {xs : List γ} {f : γ → Lower α} {g : γ → List Lookup}
    (h : ∀ x ∈ xs, Seeks σ C (g x) (f x)) : Seeks σ C (xs.flatMap g) (xs.mapM f) := by
  induction xs with
  | nil => exact pure
  | cons x xs ih =>
    obtain ⟨hx, hxs⟩ := List.forall_mem_cons.1 h
    rw [List.mapM_cons, List.flatMap_cons]
    exact hx.bind fun _ => ((ih hxs).bind fun _ => pure).congr (List.append_nil _)

theorem imp_reason {D : TypeId → Prop} (h : Seeks σ C ls m)
    (hC : ∀ id, .type id ∈ ls → C id → D id) : Seeks σ D ls m := fun s hs =>
  (h s hs).imp (fun _ _ hQ => hQ) fun _ _ ⟨hs', hadds, he⟩ =>
    ⟨hs', hadds, he.imp fun ⟨id, hid, hid'⟩ => ⟨id, hid, hC id hid hid'⟩⟩

theorem ends_symbolOf (hs : s.Coherent σ) {kind : SymbolKind} {desc : DescId}
    (hkind : kind ≠ .initializer) : (Lower.symbolOf kind desc).Ends σ s
      (fun id s' => s'.Coherent σ ∧ s.Adds (σ.Finds [.key (kind, desc)]) s' ∧
        s'.table.cached? kind desc = some id)
      fun e s' => s'.Coherent σ ∧ s.Adds (σ.Finds [.key (kind, desc)]) s' ∧ e.Stops False := by
  unfold Lower.symbolOf
  refine .get_bind (.read_bind (fun _ => rfl) (.present_bind
    (fun _ => ⟨hs, .refl _ s, trivial⟩) fun p hp => ?_))
  obtain ⟨id, table⟩ := p
  refine .bind (Q := fun _ s' => s' = { s with table := table }) (.modify rfl) ?_
  rintro _ _ rfl
  refine .pure ?_
  rcases SymbolTable.getOrCreate?_cases hp with ⟨hc, rfl⟩ | ⟨hc, rfl, d, hd, rfl⟩
  · exact ⟨hs, .refl _ s, hc⟩
  · refine ⟨hs.create hd hc hkind, .create hc (Setting.finds_singleton.2 .key) _, ?_⟩
    rw [SymbolTable.cached?_create, if_pos ⟨rfl, rfl⟩]

theorem symbolOf (hkind : kind ≠ .initializer) :
    Seeks σ C [.key (kind, desc)] (Lower.symbolOf kind desc) := by
  intro s hs
  refine (ends_symbolOf hs hkind).imp (fun id s' ⟨hs', hadds, hc⟩ => ⟨hs', hadds, ?_⟩)
    fun e s' ⟨hs', hadds, he⟩ => ⟨hs', hadds, he.imp False.elim⟩
  intro key hkey
  rw [Lookup.leads_key.1 (Setting.finds_singleton.1 hkey)]
  exact Option.isSome_of_mem hc

theorem symbolKind_ne_initializer (d : Descriptor) : d.symbolKind ≠ .initializer := by
  unfold Descriptor.symbolKind
  cases d.kind with
  | function info => cases h : info.isAnonymous <;> simp [h]
  | _ => simp

theorem ends_symbolFor (hs : s.Coherent σ) {desc : DescId} {d : Descriptor}
    (hd : σ.world.descriptor? desc = some d) : (Lower.symbolFor desc).Ends σ s
      (fun id s' => s'.Coherent σ ∧ s.Adds (σ.Finds [.key (d.symbolKind, desc)]) s' ∧
        s'.table.cached? d.symbolKind desc = some id)
      fun e s' => s'.Coherent σ ∧ s.Adds (σ.Finds [.key (d.symbolKind, desc)]) s' ∧
        e.Stops False := by
  refine (ends_symbolOf hs (symbolKind_ne_initializer d)).of_eq fun σ' hσ' => ?_
  simp only [Lower.symbolFor, Lower.symbolOf, runFrom_bind, runFrom_get, runFrom_read,
    SymbolTable.symbolFor?, hσ', hd, Option.bind_some]

theorem addExpr : Seeks σ C [] (Lower.addExpr type kind) :=
  fun _ hs => .modifyGet ⟨hs.of_eq rfl rfl, ⟨.refl _, .inl, .inl, rfl, rfl⟩,
    fun _ hk => (Setting.finds_nil hk).elim⟩

theorem addContent : Seeks σ C [] (Lower.addContent content) := by
  cases content with
  | none => exact pure
  | some p => exact addExpr.map

/-- How types are converted: each conversion traverses its type. -/
def Converts (σ : Setting) (C : TypeId → Prop) (convert : TypeId → Lower TreeType) : Prop :=
  ∀ id, Seeks σ C [.type id] (convert id)

section

variable {convert : TypeId → Lower TreeType}

theorem slotsWith
    (hargs : ∀ q ∈ arguments, ∀ expected,
      Seeks σ C (q.2.lookups σ expected) (constantWith convert q.2 expected))
    (parameters : List DescId) : Seeks σ C
      (parameters.flatMap fun parameter =>
        match σ.world.descriptor? parameter with
        | none => []
        | some d =>
          match (AnnotationUse.lookupsOfArguments σ arguments).lookup d.name with
          | some argument => argument (d.valueParameter?.map (·.type))
          | none => [])
      (parameters.mapM (slotWith (argumentsWith convert arguments))) := by
  refine mapM fun parameter _ => descriptor_bind fun d hd => ?_
  rw [Ledger.lookup_argumentsWith, hd]
  simp only [AnnotationUse.lookup_lookupsOfArguments]
  cases hlookup : arguments.lookup d.name with
  | none => exact pure
  | some value =>
    have hvalue := hargs _ (Ledger.mem_of_lookup hlookup) (d.valueParameter?.map (·.type))
    exact (hvalue.bind fun _ => addContent).congr (List.append_nil _)

mutual

theorem constantWith (hconv : Converts σ C convert) : (value : Constant) → ∀ expected,
    Seeks σ C (value.lookups σ expected) (Lower.constantWith convert value expected)
  | .scalar value => fun expected => by
    simp only [Lower.constantWith, Constant.lookups]
    exact (hconv _).bind fun _ => pure
  | .array elements type => fun _ => by
    simp only [Lower.constantWith, Constant.lookups]
    exact (elementsWith hconv elements).bind fun _ => (hconv type).bind fun _ => pure
  | .enumEntry entry type => fun _ => by
    simp only [Lower.constantWith, Constant.lookups]
    refine read_bind (fun _ => rfl) ?_
    cases σ.config.literals with
    | unsupported => exact pure
    | complete =>
      exact (hconv type).bind fun _ => (symbolOf (by decide)).bind fun _ => pure
  | .nested use => fun _ => by
    simp only [Lower.constantWith, Constant.lookups]
    exact annotationWith hconv use
  | .classLiteral referenced type => fun _ => by
    simp only [Lower.constantWith, Constant.lookups]
    refine read_bind (fun _ => rfl) ?_
    cases σ.config.literals with
    | unsupported => exact pure
    | complete =>
      refine sourceType_bind fun t ht => ?_
      rw [ht]
      cases t with
      | failed _ => exact pure
      | simple _ => exact (hconv referenced).bind fun _ => (hconv type).bind fun _ => pure
      | flexible _ _ => exact (hconv referenced).bind fun _ => (hconv type).bind fun _ => pure
  | .failed _ => fun _ => by
    simp only [Lower.constantWith, Constant.lookups]
    exact pure

theorem elementsWith (hconv : Converts σ C convert) : (values : List Constant) →
    Seeks σ C (Constant.lookupsOfAll σ values) (Lower.elementsWith convert values)
  | [] => by
    simp only [Lower.elementsWith, Constant.lookupsOfAll]
    exact pure
  | value :: values => by
    simp only [Lower.elementsWith, Constant.lookupsOfAll]
    refine (constantWith hconv value none).bind fun _ =>
      (addContent : Seeks σ C [] _).bind fun _ => ?_
    exact ((elementsWith hconv values).bind fun _ => pure).congr (List.append_nil _)

theorem annotationWith (hconv : Converts σ C convert) : (use : AnnotationUse) →
    Seeks σ C (use.lookups σ) (Lower.annotationWith convert use)
  | ⟨type, arguments⟩ => by
    simp only [Lower.annotationWith, AnnotationUse.lookups]
    refine sourceType_bind fun t ht => ?_
    rw [ht]
    cases t with
    | flexible _ _ => exact pure
    | failed _ => exact pure
    | simple simple =>
      refine descriptor_bind fun d hd => ?_
      dsimp only
      rw [hd, Option.bind_some]
      cases d.class? with
      | none => exact pure
      | some info =>
        dsimp only
        cases info.mainConstructor? with
        | none => exact throw trivial
        | some constructor =>
          refine (hconv type).bind fun _ => (symbolOf (by decide)).bind fun _ => ?_
          refine descriptor_bind fun callee hcallee => ?_
          rw [hcallee]
          exact ((slotsWith (argumentsWith hconv arguments) callee.valueParameters).bind
            fun _ => pure).congr (List.append_nil _)

theorem argumentsWith (hconv : Converts σ C convert) : (arguments : List (Name × Constant)) →
    ∀ q ∈ arguments, ∀ expected,
      Seeks σ C (q.2.lookups σ expected) (Lower.constantWith convert q.2 expected)
  | (_, value) :: rest, q, hq => by
    rcases List.mem_cons.1 hq with rfl | hq
    · exact constantWith hconv value
    · exact argumentsWith hconv rest q hq

end

theorem annotationCallsWith (hconv : Converts σ C convert) (uses : List AnnotationUse) :
    Seeks σ C (uses.flatMap (·.lookups σ)) (Lower.annotationCallsWith convert uses) := by
  refine Seeks.congr (Seeks.bind (Seeks.mapM fun use _ => ?_) fun _ => pure) (List.append_nil _)
  exact ((annotationWith hconv use).bind fun _ => addContent).congr (List.append_nil _)

theorem projectionWith (hconv : Converts σ C convert) (argument : SourceTypeArgument) :
    Seeks σ C argument.lookups (Lower.projectionWith convert argument) := by
  cases argument with
  | star => exact pure
  | projection _ id => exact (hconv id).map

theorem classifierSymbol (id : DescId) :
    Seeks σ C (σ.world.classifierLookups id) (Lower.classifierSymbol id) := by
  refine descriptor_bind fun d hd => ?_
  simp only [World.classifierLookups, hd, Option.bind_some, Descriptor.classifierKind?]
  cases d.kind with
  | classLike _ => exact symbolOf (by decide)
  | typeParameter _ => exact symbolOf (by decide)
  | _ => exact throw trivial

/-- The conversion of a type is remembered once all that it looks up has been found. -/
theorem remember {id : TypeId} {t : SourceType} (ht : σ.world.type? id = some t) {C' : Prop}
    {m : Lower α} {f : α → TreeType} (h : Seeks σ C (t.lookups σ) m)
    (hC : ∀ part, .type part ∈ t.lookups σ → C part → C') :
    Seeks σ (fun _ => C') [.type id] (m >>= fun a => do rememberType id (f a); return f a) := by
  intro s hs
  have hfinds : ∀ key, σ.Finds [.type id] key ↔ σ.Finds (t.lookups σ) key := fun key => by
    rw [Setting.finds_singleton, Lookup.leads_type ht]
  refine .bind ((h s hs).imp (fun _ _ hQ => hQ) fun _ _ ⟨hs', hadds, he⟩ =>
    ⟨hs', hadds.mono fun key => (hfinds key).2, he.imp fun ⟨part, hpart, hc⟩ =>
      ⟨id, List.mem_singleton_self _, hC part hpart hc⟩⟩) fun a s1 ⟨hs1, hadds, hall⟩ => ?_
  refine .bind (Q := fun _ s' => s' = { s1 with types := (id, f a) :: s1.types }) (.modify rfl) ?_
  rintro _ _ rfl
  have hhas : ∀ key, σ.Finds [.type id] key → s1.Has key := fun key hkey =>
    hall key ((hfinds key).1 hkey)
  have hadds' := hadds.mono fun key => (hfinds key).2
  exact .pure ⟨hs1.remember fun hkey => hhas _ (Setting.finds_singleton.2 hkey),
    ⟨hadds'.table, hadds'.symbol, hadds'.key, hadds'.decls, hadds'.stats⟩, hhas⟩

theorem convertWith (hconv : Converts σ C convert) {D : TypeId → Prop}
    (hD : ∀ part whole, σ.Contains part whole → C part → D whole) :
    Converts σ D (Lower.convertWith convert) := by
  intro id s hs
  refine .get_bind ?_
  cases hlookup : s.types.lookup id with
  | some τ =>
    exact .pure ⟨hs, .refl _ s, fun key hkey => hs.types hlookup (Setting.finds_singleton.1 hkey)⟩
  | none =>
    have hreason : ∀ {t}, σ.world.type? id = some t → ∀ part, .type part ∈ t.lookups σ → C part →
        D id := fun ht part hpart hc => hD part id ⟨_, ht, hpart⟩ hc
    refine sourceType_bind (C := D) (fun t ht => ?_) s hs
    cases t with
    | failed _ => exact throw trivial
    | flexible lower upper =>
      refine imp_reason (remember (f := fun τ => τ) ht (hconv upper) (hreason ht)) ?_
      intro part hpart hc
      obtain rfl : part = id := by simpa using hpart
      exact hc
    | simple simple =>
      have hparts : Seeks σ C ((SourceType.simple simple).lookups σ) (do
          let classifier ← Lower.classifierSymbol simple.classifier
          let arguments ← simple.arguments.mapM (Lower.projectionWith convert)
          let annotations ← Lower.annotationCallsWith convert simple.annotations
          return (⟨classifier, simple.nullable, arguments, annotations⟩ : TreeType)) :=
        (classifierSymbol _).bind fun _ => (mapM fun a _ => projectionWith hconv a).bind fun _ =>
          ((annotationCallsWith hconv _).bind fun _ => pure).congr (List.append_nil _)
      have hall := remember (f := fun τ => τ) ht hparts (hreason ht)
      simp only [bind_assoc, pure_bind] at hall
      refine imp_reason hall ?_
      intro part hpart hc
      obtain rfl : part = id := by simpa using hpart
      exact hc

theorem convertUpTo : (fuel : Nat) → Converts σ (Descends σ.Contains fuel) (Lower.convertUpTo fuel)
  | 0 => fun id s hs => .throw ⟨hs, .refl _ s, id, List.mem_singleton_self _, trivial⟩
  | fuel + 1 => convertWith (convertUpTo fuel) fun part _ hpart h => ⟨part, hpart, h⟩

end

/-- If the conversion of a type never ends, there is a circle. -/
theorem convert (id : TypeId) : Seeks σ (fun _ => ¬ σ.Founded) [.type id] (Lower.convert id) :=
  read_bind (fun _ => rfl)
    ((convertUpTo _ id).imp_reason fun _ _ => Setting.not_founded_of_contains)

theorem annotationCalls (uses : List AnnotationUse) : Seeks σ (fun _ => ¬ σ.Founded)
    (uses.flatMap (·.lookups σ)) (Lower.annotationCalls uses) :=
  annotationCallsWith convert uses

theorem convertAll (ids : List TypeId) :
    Seeks σ (fun _ => ¬ σ.Founded) (ids.map .type) (Lower.convertAll ids) :=
  (mapM fun id _ => convert id).congr List.map_eq_flatMap.symm

theorem convertOptional (id : Option TypeId) :
    Seeks σ (fun _ => ¬ σ.Founded) (id.toList.map .type) (Lower.convertOptional id) := by
  cases id with
  | none => exact pure
  | some id => exact (convert id).map

end Seeks

end TypedTree
