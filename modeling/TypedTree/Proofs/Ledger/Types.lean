import TypedTree.Proofs.Ledger.Makes

namespace TypedTree.Ledger

variable {σ : Setting} {strict : Bool} {files : List SourceFile}

/-- Types are converted to what shows them. -/
def Converts (σ : Setting) (strict : Bool) (files : List SourceFile)
    (convert : TypeId → Lower TreeType) : Prop :=
  ∀ (L : Ledger σ strict) {id : TypeId}, σ.world.Finds (.type id) →
    L.Makes files (.type id) (convert id) fun L' τ => Realizes σ L'.toEntries (.type id) (.type τ)

/-- A constant is lowered to what shows it. -/
def Shows (σ : Setting) (strict : Bool) (files : List SourceFile)
    (convert : TypeId → Lower TreeType) (value : Constant) : Prop :=
  ∀ (L : Ledger σ strict) {expected : Option TypeId}, σ.world.Knows value.refs →
    (∀ id ∈ expected, σ.world.Finds (.type id)) →
    L.Makes files (.constant value expected) (Lower.constantWith convert value expected) fun L' c =>
      Realizes σ L'.toEntries (.constant value expected) (.content c)

theorem finds_scalar (w : World) (value : Scalar) : w.Finds (.type value.type) := by
  cases value <;> simp only [Scalar.type] <;> exact w.finds_builtin_type (by decide)

theorem finds_mainConstructor {w : World} {d : Descriptor} (hd : w.Knows d.refs)
    {info : ClassInfo} (hi : d.class? = some info) {constructor : DescId}
    (hc : info.mainConstructor? = some constructor) : w.Finds (.desc constructor) := by
  have hk := World.Knows.kind hd
  simp only [Descriptor.kind_of_class? hi, DescriptorKind.refs, Reference.descs, Reference.desc?,
    Reference.types, List.forall_mem_append, List.forall_mem_map, Option.mem_toList] at hk
  unfold ClassInfo.mainConstructor? at hc
  split at hc
  next hp =>
    cases hc
    exact hk.2 _ hp
  next hl =>
    cases hc
    exact hk.1.2 _ (by simp [hl])
  next => cases hc

theorem knows_argument {w : World} (h : w.Knows (AnnotationUse.refsOfArguments arguments)) :
    ∀ q ∈ arguments, w.Knows q.2.refs := by
  induction arguments with
  | nil => simp
  | cons p rest ih =>
    obtain ⟨name, value⟩ := p
    simp only [AnnotationUse.refsOfArguments, List.forall_mem_append] at h
    exact List.forall_mem_cons.2 ⟨h.1, ih h.2⟩

theorem lookup_argumentsWith (convert : TypeId → Lower TreeType)
    (arguments : List (Name × Constant)) (name : Name) :
    (Lower.argumentsWith convert arguments).lookup name =
      (arguments.lookup name).map (Lower.constantWith convert) := by
  induction arguments with
  | nil => rfl
  | cons p rest ih =>
    obtain ⟨name', value⟩ := p
    simp only [Lower.argumentsWith, List.lookup_cons]
    split
    next => rfl
    next => exact ih

theorem mem_of_lookup {α β : Type} [BEq α] [LawfulBEq α] {k : α} {v : β} {l : List (α × β)}
    (h : l.lookup k = some v) : (k, v) ∈ l := by
  induction l with
  | nil => cases h
  | cons p rest ih =>
    obtain ⟨k', v'⟩ := p
    by_cases hk : k = k'
    · subst hk
      simp only [List.lookup_cons_self, Option.some.injEq] at h
      simp [h]
    · rw [lookup_cons_of_ne hk] at h
      simp [ih h]

section

variable {convert : TypeId → Lower TreeType}

theorem slotsWith (hargs : ∀ q ∈ arguments, Shows σ strict files convert q.2)
    (hknows : ∀ q ∈ arguments, σ.world.Knows q.2.refs) (L : Ledger σ strict)
    {parameters : List DescId} (hp : ∀ p ∈ parameters, σ.world.Finds (.desc p)) :
    L.Makes files (.slots parameters arguments)
      (parameters.mapM (Lower.slotWith (Lower.argumentsWith convert arguments))) fun L' xs =>
        Realizes σ L'.toEntries (.slots parameters arguments) (.slots xs) := by
  induction parameters generalizing L with
  | nil => exact Makes.pure .noSlots
  | cons p ps ih =>
    rw [List.forall_mem_cons] at hp
    have hrest : Wanted.Implies σ (.slots (p :: ps) arguments) (.slots ps arguments) := by
      intro n m h
      cases h with
      | emptySlot _ _ hx => exact ⟨_, hx⟩
      | slot _ _ _ _ hx => exact ⟨_, hx⟩
    have hfound : Wanted.Realizable σ (.slots (p :: ps) arguments) →
        (σ.world.descriptor? p).isSome := by
      rintro ⟨n, m, h⟩
      cases h with
      | emptySlot hd => simp [hd]
      | slot hd => simp [hd]
    rw [List.mapM_cons]
    simp only [Lower.slotWith, bind_assoc]
    refine Makes.descriptor_bind hp.1 hfound fun d hd => ?_
    rw [lookup_argumentsWith]
    cases hlookup : arguments.lookup d.name with
    | none =>
      refine Makes.bind (Makes.pure (Q := fun _ e => e = none) rfl) fun L1 e _ he => ?_
      subst he
      exact Makes.bind ((ih L1 hp.2).part hrest) fun L2 xs _ hx =>
        Makes.pure (.emptySlot hd hlookup hx)
    | some value =>
      have hmem := mem_of_lookup hlookup
      have htype : ∀ id ∈ d.valueParameter?.map (·.type), σ.world.Finds (.type id) := by
        intro id hid
        obtain ⟨i, hi, rfl⟩ := Option.map_eq_some_iff.1 hid
        exact World.Knows.kind (σ.world.knows_descriptor hd) _
          (by simp [Descriptor.kind_of_valueParameter? hi, DescriptorKind.refs])
      have hvalue : Wanted.Implies σ (.slots (p :: ps) arguments)
          (.constant value (d.valueParameter?.map (·.type))) := by
        intro n m h
        cases h with
        | emptySlot hd' hn =>
          cases hd.symm.trans hd'
          cases hn.symm.trans hlookup
        | slot hd' hv hc =>
          cases hd.symm.trans hd'
          cases hv.symm.trans hlookup
          exact ⟨_, hc⟩
      simp only [Option.map_some, bind_assoc]
      refine Makes.bind ((hargs _ hmem L (hknows _ hmem) htype).part hvalue) fun L1 c _ hc => ?_
      refine Makes.bind (Makes.addContent hc) fun L2 e h2 he => ?_
      refine Makes.bind ((ih L2 hp.2).part hrest) fun L3 xs h3 hx => Makes.pure ?_
      exact .slot hd hlookup (hc.mono (le_trans (a := L1) h2 h3))
        (Option.rel_imp (fun _ _ => Entries.Stands.mono h3) he) hx

mutual

theorem constantWith (hconv : Converts σ strict files convert) :
    (value : Constant) → Shows σ strict files convert value
  | .scalar value => fun L expected _ he => by
    have hid : σ.world.Finds (.type (expected.getD value.type)) := by
      cases expected with
      | none => exact finds_scalar _ value
      | some id => exact he id rfl
    have hpart : Wanted.Implies σ (.constant (.scalar value) expected)
        (.type (expected.getD value.type)) := fun n m h => by
      cases h with
      | scalar ht => exact ⟨_, ht⟩
    simp only [Lower.constantWith]
    exact Makes.bind ((hconv L hid).part hpart) fun L1 τ _ hτ => Makes.pure (.scalar hτ)
  | .array elements id => fun L expected hk _ => by
    simp only [Constant.refs, List.forall_mem_cons] at hk
    have hall : Wanted.Implies σ (.constant (.array elements id) expected) (.constants elements) :=
      fun n m h => by
        cases h with
        | array hx _ => exact ⟨_, hx⟩
    have htype : Wanted.Implies σ (.constant (.array elements id) expected) (.type id) :=
      fun n m h => by
        cases h with
        | array _ ht => exact ⟨_, ht⟩
    simp only [Lower.constantWith]
    refine Makes.bind ((elementsWith hconv elements L hk.2).part hall) fun L1 xs _ hx => ?_
    exact Makes.bind ((hconv L1 hk.1).part htype) fun L2 τ h2 hτ =>
      Makes.pure (.array (hx.mono h2) hτ)
  | .enumEntry entry id => fun L expected hk _ => by
    simp only [Constant.refs, List.forall_mem_cons, List.not_mem_nil, false_implies,
      implies_true, and_true] at hk
    simp only [Lower.constantWith]
    refine Makes.read_bind ?_
    cases hl : σ.config.literals with
    | unsupported =>
      simp only [Setting.withFiles, hl]
      exact Makes.pure (.leftOut hl)
    | complete =>
      have hcomplete : ∀ n m, Realizes σ n (.constant (.enumEntry entry id) expected) m →
          (∃ m', Realizes σ n (.type id) m') ∧ (σ.world.descriptor? entry).isSome ∧
            (n.cached? .classLike entry).isSome := fun n m h => by
        cases h with
        | leftOut hl' => cases hl.symm.trans hl'
        | enumEntry _ ht hd hc => exact ⟨⟨_, ht⟩, by simp [hd], by simp [hc]⟩
      simp only [Setting.withFiles, hl]
      refine Makes.bind ((hconv L hk.2).part fun n m h => (hcomplete n m h).1)
        fun L1 τ _ hτ => ?_
      obtain ⟨hdesc, htype⟩ := hk
      refine Makes.bind (Makes.symbolOf hdesc (fun ⟨n, m, h⟩ => (hcomplete n m h).2.1)
        (fun n m h => (hcomplete n m h).2.2) ⟨by simp, by simp⟩) fun L2 c h2 hc => ?_
      obtain ⟨_, d, _, _, hd, _⟩ := L2.sound.table.cached hc
      exact Makes.pure (.enumEntry hl (hτ.mono h2) hd hc)
  | .nested use => fun L expected hk _ => by
    have hpart : Wanted.Implies σ (.constant (.nested use) expected) (.annotationUse use) :=
      fun n m h => by
        cases h with
        | nested hu => exact ⟨_, hu⟩
    simp only [Lower.constantWith]
    simp only [Constant.refs] at hk
    exact ((annotationWith hconv use L hk).part hpart).imp fun _ _ _ hc => .nested hc
  | .classLiteral referenced id => fun L expected hk _ => by
    simp only [Constant.refs, List.forall_mem_cons, List.not_mem_nil, false_implies,
      implies_true, and_true] at hk
    simp only [Lower.constantWith]
    refine Makes.read_bind ?_
    cases hl : σ.config.literals with
    | unsupported =>
      simp only [Setting.withFiles, hl]
      exact Makes.pure (.leftOutLiteral hl)
    | complete =>
      simp only [Setting.withFiles, hl]
      refine Makes.sourceType_bind hk.1 ?_ fun t ht => ?_
      · rintro ⟨n, m, h⟩
        cases h with
        | leftOutLiteral hl' => cases hl.symm.trans hl'
        | failedLiteral _ hf => simp [hf]
        | classLiteral _ hr _ =>
          cases hr with
          | flexible ht _ => simp [ht]
          | simple ht => simp [ht]
      · have hparts : (∀ message, t ≠ .failed message) → ∀ n m,
            Realizes σ n (.constant (.classLiteral referenced id) expected) m →
            (∃ m', Realizes σ n (.type referenced) m') ∧ ∃ m', Realizes σ n (.type id) m' := by
          intro hne n m h
          cases h with
          | leftOutLiteral hl' => cases hl.symm.trans hl'
          | failedLiteral _ hf => exact (hne _ (Option.some.inj (ht.symm.trans hf))).elim
          | classLiteral _ hr hτ => exact ⟨⟨_, hr⟩, _, hτ⟩
        have hgood : (∀ message, t ≠ .failed message) →
            L.Makes files (.constant (.classLiteral referenced id) expected) (do
              let classifier := (← convert referenced).classifier
              let type ← convert id
              return some (type, .classReference classifier)) fun L' c =>
              Realizes σ L'.toEntries (.constant (.classLiteral referenced id) expected)
                (.content c) := by
          intro hne
          refine Makes.bind ((hconv L hk.1).part fun n m h => (hparts hne n m h).1)
            fun L1 ρ _ hρ => ?_
          exact Makes.bind ((hconv L1 hk.2).part fun n m h => (hparts hne n m h).2)
            fun L2 τ h2 hτ => Makes.pure (.classLiteral hl (hρ.mono h2) hτ)
        cases t with
        | failed message => exact Makes.pure (.failedLiteral hl ht)
        | simple _ => exact hgood (by simp)
        | flexible _ _ => exact hgood (by simp)
  | .failed _ => fun L _ _ _ => by
    simp only [Lower.constantWith]
    exact Makes.pure .failed

theorem elementsWith (hconv : Converts σ strict files convert) :
    (values : List Constant) → ∀ (L : Ledger σ strict), σ.world.Knows (Constant.refsOfAll values) →
    L.Makes files (.constants values) (Lower.elementsWith convert values) fun L' xs =>
      Realizes σ L'.toEntries (.constants values) (.exprs xs)
  | [], L, _ => by
    simp only [Lower.elementsWith]
    exact Makes.pure .noConstants
  | value :: values, L, hk => by
    simp only [Constant.refsOfAll, List.forall_mem_append] at hk
    have hfirst : Wanted.Implies σ (.constants (value :: values)) (.constant value none) :=
      fun n m h => by
        cases h with
        | constants hc _ _ => exact ⟨_, hc⟩
    have hrest : Wanted.Implies σ (.constants (value :: values)) (.constants values) :=
      fun n m h => by
        cases h with
        | constants _ _ hx => exact ⟨_, hx⟩
    simp only [Lower.elementsWith]
    refine Makes.bind ((constantWith hconv value L hk.1 (by simp)).part hfirst) fun L1 c _ hc => ?_
    refine Makes.bind (Makes.addContent hc) fun L2 e h2 he => ?_
    refine Makes.bind ((elementsWith hconv values L2 hk.2).part hrest) fun L3 xs h3 hx =>
      Makes.pure ?_
    exact .constants (hc.mono (le_trans (a := L1) h2 h3))
      (Option.rel_imp (fun _ _ => Entries.Stands.mono h3) he) hx

theorem annotationWith (hconv : Converts σ strict files convert) :
    (use : AnnotationUse) → ∀ (L : Ledger σ strict), σ.world.Knows use.refs →
    L.Makes files (.annotationUse use) (Lower.annotationWith convert use) fun L' c =>
      Realizes σ L'.toEntries (.annotationUse use) (.content c)
  | ⟨type, arguments⟩, L, hk => by
    simp only [AnnotationUse.refs, List.forall_mem_cons] at hk
    simp only [Lower.annotationWith]
    refine Makes.sourceType_bind hk.1 ?_ fun t ht => ?_
    · rintro ⟨n, m, h⟩
      cases h with
      | noCall ht _ => simp [show σ.world.type? type = _ from ht]
      | noClass ht _ _ => simp [show σ.world.type? type = _ from ht]
      | call ht => simp [show σ.world.type? type = _ from ht]
    · cases t with
      | flexible _ _ => exact Makes.pure (.noCall ht (by simp))
      | failed _ => exact Makes.pure (.noCall ht (by simp))
      | simple simple =>
        have hclassifier : σ.world.Finds (.desc simple.classifier) :=
          σ.world.knows_type ht _ (by simp [SourceType.refs])
        refine Makes.descriptor_bind hclassifier ?_ fun d hd => ?_
        · rintro ⟨n, m, h⟩
          cases h with
          | noCall ht' hn => exact (hn _ (Option.some.inj (ht'.symm.trans ht))).elim
          | noClass ht' hd _ => cases ht.symm.trans ht'; simp [hd]
          | call ht' hd => cases ht.symm.trans ht'; simp [hd]
        · cases hi : d.class? with
          | none => exact Makes.pure (.noClass ht hd hi)
          | some info =>
            -- A tree that shows the annotation has the call in it.
            have hcall : ∀ n m, Realizes σ n (.annotationUse ⟨type, arguments⟩) m →
                ∃ constructor parent, info.mainConstructor? = some constructor ∧
                  (∃ m', Realizes σ n (.type type) m') ∧
                  (n.cached? .constructor constructor).isSome ∧
                  σ.world.descriptor? constructor = some parent ∧
                  ∃ m', Realizes σ n (.slots parent.valueParameters arguments) m' := by
              intro n m h
              cases h with
              | noCall ht' hn => exact (hn _ (Option.some.inj (ht'.symm.trans ht))).elim
              | noClass ht' hd' hn =>
                cases ht.symm.trans ht'
                cases hd.symm.trans hd'
                cases hn.symm.trans hi
              | call ht' hd' hi' hm hτ hc hp hx =>
                cases ht.symm.trans ht'
                cases hd.symm.trans hd'
                cases hi.symm.trans hi'
                exact ⟨_, _, hm, ⟨_, hτ⟩, by simp [hc], hp, _, hx⟩
            dsimp only
            cases hm : info.mainConstructor? with
            | none =>
              refine Makes.throw ⟨?_, by simp, by simp⟩
              rintro ⟨n, m, h⟩
              obtain ⟨_, _, hm', _⟩ := hcall n m h
              cases hm.symm.trans hm'
            | some constructor =>
              have hconstructor := finds_mainConstructor (σ.world.knows_descriptor hd) hi hm
              refine Makes.bind ((hconv L hk.1).part ?_) fun L1 τ _ hτ => ?_
              · intro n m h
                obtain ⟨_, _, _, hτ, _⟩ := hcall n m h
                exact hτ
              refine Makes.bind (Makes.symbolOf hconstructor ?_ ?_ ⟨by simp, by simp⟩)
                fun L2 c h2 hc => ?_
              · rintro ⟨n, m, h⟩
                obtain ⟨_, _, hm', _, _, hp, _⟩ := hcall n m h
                cases hm.symm.trans hm'
                simp [hp]
              · intro n m h
                obtain ⟨_, _, hm', _, hc, _⟩ := hcall n m h
                cases hm.symm.trans hm'
                exact hc
              refine Makes.descriptor_bind hconstructor ?_ fun parent hp => ?_
              · rintro ⟨n, m, h⟩
                obtain ⟨_, _, hm', _, _, hp, _⟩ := hcall n m h
                cases hm.symm.trans hm'
                simp [hp]
              refine Makes.bind ((slotsWith (argumentsWith hconv arguments)
                (knows_argument hk.2) L2
                (World.Knows.valueParameters (σ.world.knows_descriptor hp))).part ?_)
                fun L3 xs h3 hx => Makes.pure ?_
              · intro n m h
                obtain ⟨_, _, hm', _, _, hp', hx⟩ := hcall n m h
                cases hm.symm.trans hm'
                cases hp.symm.trans hp'
                exact hx
              · exact .call ht hd hi hm (hτ.mono (le_trans (a := L1) h2 h3))
                  (Entries.Le.cached h3 hc) hp hx

theorem argumentsWith (hconv : Converts σ strict files convert) :
    (arguments : List (Name × Constant)) → ∀ q ∈ arguments, Shows σ strict files convert q.2
  | (_, value) :: rest, q, hq => by
    rcases List.mem_cons.1 hq with rfl | hq
    · exact constantWith hconv value
    · exact argumentsWith hconv rest q hq

end

theorem filterMap_id_cons {α : Type} (e : Option α) (es : List (Option α)) :
    (e :: es).filterMap id = e.toList ++ es.filterMap id := by
  cases e <;> rfl

theorem annotationCallsWith (hconv : Converts σ strict files convert) (L : Ledger σ strict)
    {uses : List AnnotationUse} (hk : ∀ use ∈ uses, σ.world.Knows use.refs) :
    L.Makes files (.annotationUses uses) (Lower.annotationCallsWith convert uses) fun L' xs =>
      Realizes σ L'.toEntries (.annotationUses uses) (.exprs xs) := by
  refine Makes.bind (Q := fun L' es =>
    Realizes σ L'.toEntries (.annotationUses uses) (.exprs (es.filterMap id))) ?_
    fun _ _ _ hx => Makes.pure hx
  induction uses generalizing L with
  | nil => exact Makes.pure .noAnnotations
  | cons use uses ih =>
    rw [List.forall_mem_cons] at hk
    have hfirst : Wanted.Implies σ (.annotationUses (use :: uses)) (.annotationUse use) :=
      fun n m h => by
        cases h with
        | annotations hu _ _ => exact ⟨_, hu⟩
    have hrest : Wanted.Implies σ (.annotationUses (use :: uses)) (.annotationUses uses) :=
      fun n m h => by
        cases h with
        | annotations _ _ hx => exact ⟨_, hx⟩
    simp only [List.mapM_cons, bind_assoc]
    refine Makes.bind ((annotationWith hconv use L hk.1).part hfirst) fun L1 c _ hc => ?_
    refine Makes.bind (Makes.addContent hc) fun L2 e h2 he => ?_
    refine Makes.bind ((ih L2 hk.2).part hrest) fun L3 es h3 hx => Makes.pure ?_
    rw [filterMap_id_cons]
    exact .annotations (hc.mono (le_trans (a := L1) h2 h3))
      (Option.rel_imp (fun _ _ => Entries.Stands.mono h3) he) hx

theorem projectionsWith (hconv : Converts σ strict files convert) (L : Ledger σ strict)
    {arguments : List SourceTypeArgument} (hk : ∀ a ∈ arguments, σ.world.Knows a.refs) :
    L.Makes files (.projections arguments) (arguments.mapM (Lower.projectionWith convert))
      fun L' ps => Realizes σ L'.toEntries (.projections arguments) (.projections ps) := by
  induction arguments generalizing L with
  | nil => exact Makes.pure .noProjections
  | cons a as ih =>
    rw [List.forall_mem_cons] at hk
    rw [List.mapM_cons]
    cases a with
    | star =>
      have hrest : Wanted.Implies σ (.projections (.star :: as)) (.projections as) :=
        fun n m h => by
          cases h with
          | star hp => exact ⟨_, hp⟩
      simp only [Lower.projectionWith, pure_bind]
      exact Makes.bind ((ih L hk.2).part hrest) fun _ _ _ hp => Makes.pure (.star hp)
    | projection variance id =>
      have hfirst : Wanted.Implies σ (.projections (.projection variance id :: as)) (.type id) :=
        fun n m h => by
          cases h with
          | projection ht _ => exact ⟨_, ht⟩
      have hrest : Wanted.Implies σ (.projections (.projection variance id :: as))
          (.projections as) := fun n m h => by
        cases h with
        | projection _ hp => exact ⟨_, hp⟩
      have hid : σ.world.Finds (.type id) := hk.1 _ (by simp [SourceTypeArgument.refs])
      simp only [Lower.projectionWith, bind_assoc, pure_bind]
      refine Makes.bind ((hconv L hid).part hfirst) fun L1 τ _ hτ => ?_
      exact Makes.bind ((ih L1 hk.2).part hrest) fun L2 ps h2 hp =>
        Makes.pure (.projection (hτ.mono h2) hp)

theorem convertWith (hconv : Converts σ strict files convert) :
    Converts σ strict files (Lower.convertWith convert) := by
  intro L id hid
  refine Makes.get_bind ?_
  cases hcached : L.state.types.lookup id with
  | some τ => exact Makes.pure (L.sound.types hcached)
  | none =>
    refine Makes.sourceType_bind hid ?_ fun t ht => ?_
    · rintro ⟨n, m, h⟩
      cases h with
      | flexible ht _ => simp [ht]
      | simple ht => simp [ht]
    have hrefs := σ.world.knows_type ht
    cases t with
    | failed message =>
      refine Makes.throw ⟨?_, by simp, by simp⟩
      rintro ⟨n, m, h⟩
      cases h with
      | flexible ht' _ => cases ht.symm.trans ht'
      | simple ht' => cases ht.symm.trans ht'
    | flexible lower upper =>
      have hupper : Wanted.Implies σ (.type id) (.type upper) := fun n m h => by
        cases h with
        | flexible ht' hu => cases ht.symm.trans ht'; exact ⟨_, hu⟩
        | simple ht' => cases ht.symm.trans ht'
      refine Makes.bind ((hconv L (hrefs _ (by simp [SourceType.refs]))).part hupper)
        fun L1 τ _ hτ => ?_
      have hτ' : Realizes σ L1.toEntries (.type id) (.type τ) := .flexible ht hτ
      exact Makes.bind (Makes.rememberType hτ') fun L2 _ h2 _ => Makes.pure (hτ'.mono h2)
    | simple simple =>
      simp only [SourceType.refs, List.forall_mem_cons, List.forall_mem_append,
        List.forall_mem_flatMap] at hrefs
      obtain ⟨hclassifier, harguments, hannotations⟩ := hrefs
      -- A tree that shows the type has all its parts.
      have hparts : ∀ n m, Realizes σ n (.type id) m → ∃ d kind,
          σ.world.descriptor? simple.classifier = some d ∧ d.classifierKind? = some kind ∧
          (n.cached? kind simple.classifier).isSome ∧
          (∃ m', Realizes σ n (.projections simple.arguments) m') ∧
          ∃ m', Realizes σ n (.annotationUses simple.annotations) m' := fun n m h => by
        cases h with
        | flexible ht' _ => cases ht.symm.trans ht'
        | simple ht' hd hk hc hp hx =>
          cases ht.symm.trans ht'
          exact ⟨_, _, hd, hk, by simp [hc], ⟨_, hp⟩, _, hx⟩
      have hsymbol : L.Makes files (.type id) (Lower.classifierSymbol simple.classifier) fun L' c =>
          ∃ d kind, σ.world.descriptor? simple.classifier = some d ∧
            d.classifierKind? = some kind ∧ L'.cached? kind simple.classifier = some c := by
        refine Makes.descriptor_bind hclassifier ?_ fun d hd => ?_
        · rintro ⟨n, m, h⟩
          obtain ⟨d, _, hd, _⟩ := hparts n m h
          simp [hd]
        have hneeds : ∀ kind, d.classifierKind? = some kind →
            Wanted.Needs σ (.type id) kind simple.classifier := fun kind hk n m h => by
          obtain ⟨d', kind', hd', hk', hc, _⟩ := hparts n m h
          cases hd.symm.trans hd'
          cases hk.symm.trans hk'
          exact hc
        have hreal : Wanted.Realizable σ (.type id) →
            (σ.world.descriptor? simple.classifier).isSome := fun _ => by simp [hd]
        have hother : d.classifierKind? = none → ¬ Wanted.Realizable σ (.type id) := by
          rintro hnone ⟨n, m, h⟩
          obtain ⟨d', kind', hd', hk', _⟩ := hparts n m h
          cases hd.symm.trans hd'
          cases hnone.symm.trans hk'
        cases hkind : d.kind with
        | classLike info =>
          have hk : d.classifierKind? = some .classLike := by
            simp [Descriptor.classifierKind?, hkind]
          exact (Makes.symbolOf hclassifier hreal (hneeds _ hk) ⟨by simp, by simp⟩).imp
            fun _ _ _ hc => ⟨d, _, hd, hk, hc⟩
        | typeParameter info =>
          have hk : d.classifierKind? = some .typeParameter := by
            simp [Descriptor.classifierKind?, hkind]
          have hfits : σ.world.Fits .typeParameter simple.classifier :=
            ⟨fun _ => ⟨d, hd, by simp [Descriptor.typeParameter?, hkind]⟩, by simp⟩
          exact (Makes.symbolOf hclassifier hreal (hneeds _ hk) hfits).imp
            fun _ _ _ hc => ⟨d, _, hd, hk, hc⟩
        | _ =>
          exact Makes.throw ⟨fun h => (hother (by simp [Descriptor.classifierKind?, hkind]) h).elim,
            by simp, by simp⟩
      refine Makes.bind hsymbol fun L1 c _ ⟨d, kind, hd, hk, hc⟩ => ?_
      refine Makes.bind ((projectionsWith hconv L1 harguments).part ?_) fun L2 ps h2 hp => ?_
      · intro n m h
        obtain ⟨_, _, _, _, _, hp, _⟩ := hparts n m h
        exact hp
      refine Makes.bind ((annotationCallsWith hconv L2 hannotations).part ?_)
        fun L3 xs h3 hx => ?_
      · intro n m h
        obtain ⟨_, _, _, _, _, _, hx⟩ := hparts n m h
        exact hx
      have hτ : Realizes σ L3.toEntries (.type id) (.type ⟨c, simple.nullable, ps, xs⟩) :=
        .simple ht hd hk (Entries.Le.cached (le_trans (a := L1) h2 h3) hc) (hp.mono h3) hx
      exact Makes.bind (Makes.rememberType hτ) fun L4 _ h4 _ => Makes.pure (hτ.mono h4)

end

theorem convertUpTo (fuel : Nat) : Converts σ strict files (Lower.convertUpTo fuel) := by
  induction fuel with
  | zero => exact fun L id _ => Makes.throw ⟨fun _ => rfl, by simp, by simp⟩
  | succ fuel ih => exact convertWith ih

theorem convert : Converts σ strict files Lower.convert :=
  fun L _ hid => Makes.read_bind (convertUpTo _ L hid)

end TypedTree.Ledger
