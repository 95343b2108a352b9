import TypedTree.Proofs.Ledger.Types
import TypedTree.Proofs.Trace.Primitive

namespace TypedTree

open Desk Token Carries

/-- The facts agree about the given keys if they agree at all. -/
def World.Agrees (w : World) (keys : List Key) : Prop :=
  w.KindConsistent → ∀ key ∈ keys, w.Names key

theorem World.Agrees.subset {w : World} {keys keys' : List Key} (h : w.Agrees keys)
    (hsub : ∀ key ∈ keys', key ∈ keys) : w.Agrees keys' :=
  fun hw key hkey => h hw key (hsub key hkey)

theorem World.Agrees.append {w : World} {keys keys' : List Key} (h : w.Agrees (keys ++ keys')) :
    w.Agrees keys ∧ w.Agrees keys' :=
  ⟨h.subset fun _ => List.mem_append_left _, h.subset fun _ => List.mem_append_right _⟩

/-- Between two states the given types were converted, and besides only what they need. -/
structure Covers (σ : Setting) (types : List TypeId) (s s' : State) : Prop where
  cached : ∀ id ∈ types, (s'.types.lookup id).isSome
  only : ∀ id, s.types.lookup id = none → (s'.types.lookup id).isSome →
    ∃ whole ∈ types, Relation.ReflTransGen σ.Needs id whole

namespace Covers

variable {σ : Setting} {s s1 s2 : State} {N M : List TypeId}

theorem same (h : s1.types = s.types) : Covers σ [] s s1 :=
  ⟨by simp, fun id hn hs => by simp [h, hn] at hs⟩

theorem append (h : Covers σ N s s1) (h' : Covers σ M s1 s2) (hle : s1.Le s2) :
    Covers σ (N ++ M) s s2 where
  cached id hid := by
    rcases List.mem_append.1 hid with hid | hid
    · obtain ⟨τ, hτ⟩ := Option.isSome_iff_exists.1 (h.cached id hid)
      simp [hle.types hτ]
    · exact h'.cached id hid
  only id hnone hsome := by
    cases hmid : s1.types.lookup id with
    | some τ =>
      obtain ⟨whole, hw, hn⟩ := h.only id hnone (by simp [hmid])
      exact ⟨whole, List.mem_append_left _ hw, hn⟩
    | none =>
      obtain ⟨whole, hw, hn⟩ := h'.only id hmid hsome
      exact ⟨whole, List.mem_append_right _ hw, hn⟩

/-- A type is not there yet once its parts are: it would be a part of itself. -/
theorem lookup_eq_none {id : TypeId} (h : Covers σ (t.needs σ) s s1)
    (ht : σ.world.type? id = some t) (hnone : s.types.lookup id = none) (hs : s1.Sane σ) :
    s1.types.lookup id = none := by
  cases hτ : s1.types.lookup id with
  | none => rfl
  | some τ =>
    obtain ⟨part, hpart, hn⟩ := h.only id hnone (by simp [hτ])
    exact ((hs.grounds hτ).not_needs hn ⟨t, ht, hpart⟩).elim

theorem grounds {id : TypeId} (h : Covers σ (t.needs σ) s s1) (ht : σ.world.type? id = some t)
    (hs : s1.Sane σ) : σ.Grounds id := by
  refine .intro id fun part ⟨t', ht', hpart⟩ => ?_
  cases ht.symm.trans ht'
  obtain ⟨τ, hτ⟩ := Option.isSome_iff_exists.1 (h.cached part hpart)
  exact hs.grounds hτ

theorem remember {id : TypeId} (h : Covers σ (t.needs σ) s s1) (ht : σ.world.type? id = some t)
    (τ : TreeType) :
    Covers σ [id] s { s1 with types := (id, τ) :: s1.types } where
  cached id' hid' := by
    obtain rfl := List.mem_singleton.1 hid'
    simp [List.lookup_cons_self]
  only id' hnone hsome := by
    refine ⟨id, by simp, ?_⟩
    by_cases he : id' = id
    · exact he ▸ .refl
    · rw [lookup_cons_of_ne he] at hsome
      obtain ⟨part, hpart, hn⟩ := h.only id' hnone hsome
      exact hn.tail ⟨t, ht, hpart⟩

end Covers

instance : Carries ExprKind := ⟨fun k => tokens k.operands, inferInstance⟩

@[simp] theorem tokens_kind (k : ExprKind) : tokens k = tokens k.operands := rfl

/-- What is still to be added as an expression. -/
def State.Content (s : State) (c : Option (TreeType × ExprKind)) : Prop :=
  ∀ p ∈ c, s.Fits p.1 ∧ p.2.types = [] ∧ Holds p.2.isIndependent

def State.CallContent (s : State) (c : Option (TreeType × ExprKind)) : Prop :=
  s.Content c ∧ ∀ p ∈ c, ∃ callee xs, p.2 = .call (.plain callee) xs

namespace Does

variable {σ : Setting} {s : State} {α β : Type} {F C R : Multiset Token} {N M : List TypeId}

/-- The step converts the given types, and besides only what they need. -/
abbrev Converting (σ : Setting) (s : State) (F : Multiset Token) (N : List TypeId) (m : Lower α)
    (Q : State → α → Prop) (G : α → Multiset Token) : Prop :=
  Does σ s F m (fun s' a => Covers σ N s s' ∧ Q s' a) G

namespace Converting

variable {m : Lower α} {k : α → Lower β} {P : State → α → Prop} {Q : State → β → Prop}
  {H : α → Multiset Token} {G : β → Multiset Token}

theorem bind (h : Converting σ s F N m P H) (hC : C = F + R)
    (hk : ∀ s' a, s.Le s' → P s' a → Converting σ s' (H a + R) M (k a) Q G) :
    Converting σ s C (N ++ M) (m >>= k) Q G :=
  Does.bind h hC fun s1 a h1 ⟨hcov, ha⟩ =>
    (hk s1 a h1 ha).imp (fun _ _ h2 hb => ⟨hcov.append hb.1 h2, hb.2⟩) fun _ => le_rfl

theorem seq (h : Converting σ s 0 N m P H)
    (hk : ∀ s' a, s.Le s' → P s' a → Converting σ s' (H a + C) M (k a) Q G) :
    Converting σ s C (N ++ M) (m >>= k) Q G :=
  h.bind (zero_add C).symm hk

theorem pure (hb : Q s b) (hF : G b ≤ F) [Keeps F (G b)] :
    Converting σ s F [] (Pure.pure b) Q G :=
  Does.pure ⟨.same rfl, hb⟩ hF

theorem congr {m : Lower β} (h : Converting σ s F N m Q G) (hN : N = M) :
    Converting σ s F M m Q G := hN ▸ h

theorem of_same {m : Lower β} (h : Does σ s F m Q G)
    (hm : ∀ b s', m.runFrom σ s = (.ok b, s') → s'.types = s.types) :
    Converting σ s F [] m Q G := by
  intro hs R
  have hd := h hs R
  rcases hr : m.runFrom σ s with ⟨e | b, s'⟩
  · rwa [hr] at hd
  · rw [hr] at hd
    exact ⟨hd.1, .same (hm b s' hr), hd.2⟩

end Converting

theorem symbolOf_converting (hk : σ.world.KindConsistent → σ.world.Names (kind, desc)) :
    Converting σ s 0 [] (Lower.symbolOf kind desc) (fun s id => s.HasSymbol id kind) tokens := by
  refine .of_same (symbolOf hk) fun id s' h => ?_
  simp only [Lower.symbolOf, Lower.runFrom_bind, Lower.runFrom_get, Lower.runFrom_read] at h
  cases ht : s.table.getOrCreate? σ.world kind desc with
  | none =>
    rw [ht] at h
    cases h
  | some p =>
    rw [ht] at h
    cases h
    rfl

theorem addContent (hc : s.Content c) :
    Converting σ s (tokens c) [] (Lower.addContent c)
      (fun s e => ∀ id ∈ e, ∃ p x, c = some p ∧ s.store.expr? id = some x ∧ x.kind = p.2)
      tokens := by
  cases c with
  | none => exact Converting.pure (by simp) (by simp)
  | some p =>
    obtain ⟨hτ, hk, hfree⟩ := hc p rfl
    refine .of_same ?_ fun _ _ h => by cases h; rfl
    refine Does.bind (R := 0) (addKind hτ (by rw [hk]; simp) rfl)
      (by rw [takes_of_isIndependent]; simp) fun s1 e h1 he => pure ?_ (by simp)
    rintro _ ⟨⟩
    obtain ⟨x, hx, hxk⟩ := Option.map_eq_some_iff.1 he
    exact ⟨p, x, rfl, hx, hxk⟩

theorem names_mainConstructor {w : World} (hw : w.KindConsistent) {desc : DescId} {d : Descriptor}
    (hd : w.descriptor? desc = some d) {info : ClassInfo} (hi : d.class? = some info)
    {constructor : DescId} (hc : info.mainConstructor? = some constructor) :
    w.Names (.constructor, constructor) := by
  refine hw.kind hd _ ?_
  simp only [Descriptor.kind_of_class? hi, DescriptorKind.keys, List.mem_append]
  unfold ClassInfo.mainConstructor? at hc
  split at hc
  next hp =>
    cases hc
    exact .inr (by simp [Key.optional, Key.all, hp])
  next hl =>
    cases hc
    exact .inl (.inr (by simp [Key.all, hl]))
  next => cases hc

/-- Types are converted to types whose annotations are calls. -/
def Converts (σ : Setting) (convert : TypeId → Lower TreeType) : Prop :=
  ∀ s id, Converting σ s 0 [id] (convert id) State.Fits tokens

/-- A constant becomes content. -/
def Shows (σ : Setting) (convert : TypeId → Lower TreeType) (value : Constant) : Prop :=
  ∀ s expected, σ.world.Agrees value.keys →
    Converting σ s 0 (value.needs σ expected) (Lower.constantWith convert value expected)
      State.Content tokens

theorem agrees_argument {w : World} {arguments : List (Name × Constant)}
    (h : w.Agrees (AnnotationUse.keysOfArguments arguments)) :
    ∀ q ∈ arguments, w.Agrees q.2.keys := by
  induction arguments with
  | nil => simp
  | cons p rest ih =>
    obtain ⟨name, value⟩ := p
    simp only [AnnotationUse.keysOfArguments] at h
    exact List.forall_mem_cons.2 ⟨h.append.1, ih h.append.2⟩

section

variable {convert : TypeId → Lower TreeType}

theorem slotsWith {arguments : List (Name × Constant)}
    (hargs : ∀ q ∈ arguments, Shows σ convert q.2)
    (hagrees : ∀ q ∈ arguments, σ.world.Agrees q.2.keys) (parameters : List DescId) :
    Converting σ s 0
      (parameters.flatMap fun parameter =>
        match σ.world.descriptor? parameter with
        | none => []
        | some d =>
          match (AnnotationUse.needsOfArguments σ arguments).lookup d.name with
          | some argument => argument (d.valueParameter?.map (·.type))
          | none => [])
      (parameters.mapM (Lower.slotWith (Lower.argumentsWith convert arguments)))
      anything tokens := by
  induction parameters generalizing s with
  | nil => exact Converting.pure trivial (by simp)
  | cons p ps ih =>
    rw [List.mapM_cons, List.flatMap_cons]
    refine Converting.seq (P := anything) (H := tokens) ?_ fun s1 e h1 _ => ?_
    · refine descriptor_bind fun d hd => ?_
      rw [Ledger.lookup_argumentsWith, hd]
      simp only [AnnotationUse.lookup_needsOfArguments]
      cases hlookup : arguments.lookup d.name with
      | none => exact Converting.pure trivial (by simp)
      | some value =>
        have hmem := Ledger.mem_of_lookup hlookup
        refine Converting.congr (Converting.seq (hargs _ hmem s _ (hagrees _ hmem))
          fun s1 c h1 hc => ?_) (List.append_nil _)
        rw [add_zero]
        exact (addContent hc).imp (fun _ _ _ h => ⟨h.1, trivial⟩) fun _ => le_rfl
    · exact Converting.congr (Converting.seq ih fun s2 es h2 _ =>
        Converting.pure trivial (by simp [add_comm])) (List.append_nil _)

mutual

theorem constantWith (hconv : Converts σ convert) : (value : Constant) → Shows σ convert value
  | .scalar value => fun s expected _ => by
    simp only [Lower.constantWith, Constant.needs]
    exact Converting.seq (hconv s _) fun s1 τ h1 hτ =>
      Converting.pure (by rintro _ ⟨⟩; exact ⟨hτ, rfl, ⟨rfl⟩⟩) (by simp)
  | .array elements type => fun s _ hk => by
    simp only [Lower.constantWith, Constant.needs]
    refine Converting.seq (elementsWith hconv elements s hk) fun s1 es h1 _ => ?_
    exact Converting.seq (hconv s1 type) fun s2 τ h2 hτ =>
      Converting.pure (by rintro _ ⟨⟩; exact ⟨hτ, rfl, ⟨rfl⟩⟩) (by simp)
  | .enumEntry entry type => fun s _ hk => by
    simp only [Lower.constantWith, Constant.needs]
    refine read_bind ?_
    cases σ.config.literals with
    | unsupported => exact Converting.pure (by rintro _ ⟨⟩) (by simp)
    | complete =>
      refine Converting.seq (hconv s type) fun s1 τ h1 hτ => ?_
      exact Converting.seq (symbolOf_converting fun hw => hk hw _ (by simp [Constant.keys]))
        fun s2 c h2 _ => Converting.pure (by rintro _ ⟨⟩; exact ⟨h2.fits hτ, rfl, ⟨rfl⟩⟩)
          (by simp [Access.plain])
  | .nested use => fun s _ hk => by
    simp only [Lower.constantWith, Constant.needs]
    exact (annotationWith hconv use s hk).imp (fun _ _ _ h => ⟨h.1, h.2.1⟩) fun _ => le_rfl
  | .classLiteral referenced type => fun s _ _ => by
    simp only [Lower.constantWith, Constant.needs]
    refine read_bind ?_
    cases σ.config.literals with
    | unsupported => exact Converting.pure (by rintro _ ⟨⟩) (by simp)
    | complete =>
      refine sourceType_bind fun t ht => ?_
      have hgood : Converting σ s 0 [referenced, type] (do
          let classifier := (← convert referenced).classifier
          let type ← convert type
          return some (type, .classReference classifier)) State.Content tokens :=
        Converting.seq (hconv s referenced) fun s1 ρ _ _ =>
          Converting.seq (hconv s1 type) fun s2 τ _ hτ =>
            Converting.pure (by rintro _ ⟨⟩; exact ⟨hτ, rfl, ⟨rfl⟩⟩) (by simp)
      rw [ht]
      cases t with
      | failed _ => exact Converting.pure (by rintro _ ⟨⟩) (by simp)
      | simple _ => exact hgood
      | flexible _ _ => exact hgood
  | .failed _ => fun s _ _ => by
    simp only [Lower.constantWith, Constant.needs]
    exact Converting.pure (by rintro _ ⟨⟩) (by simp)

theorem elementsWith (hconv : Converts σ convert) : (values : List Constant) →
    ∀ s, σ.world.Agrees (Constant.keysOfAll values) →
    Converting σ s 0 (Constant.needsOfAll σ values) (Lower.elementsWith convert values)
      anything tokens
  | [], s, _ => by
    simp only [Lower.elementsWith, Constant.needsOfAll]
    exact Converting.pure trivial (by simp)
  | value :: values, s, hk => by
    simp only [Constant.keysOfAll] at hk
    simp only [Lower.elementsWith, Constant.needsOfAll]
    refine Converting.seq (constantWith hconv value s none hk.append.1) fun s1 c _ hc => ?_
    refine Converting.bind (N := []) (R := 0) (addContent hc) rfl fun s2 e _ _ => ?_
    exact Converting.congr (Converting.seq (elementsWith hconv values s2 hk.append.2)
      fun s3 es _ _ => Converting.pure trivial (by simp [add_comm])) (List.append_nil _)

theorem annotationWith (hconv : Converts σ convert) : (use : AnnotationUse) →
    ∀ s, σ.world.Agrees use.keys →
    Converting σ s 0 (use.needs σ) (Lower.annotationWith convert use) State.CallContent tokens
  | ⟨type, arguments⟩, s, hk => by
    simp only [Lower.annotationWith, AnnotationUse.needs]
    simp only [AnnotationUse.keys] at hk
    have hempty : Converting σ s 0 [] (Pure.pure none : Lower (Option (TreeType × ExprKind)))
        State.CallContent tokens :=
      Converting.pure ⟨by rintro _ ⟨⟩, by rintro _ ⟨⟩⟩ (by simp)
    refine sourceType_bind fun t ht => ?_
    rw [ht]
    cases t with
    | flexible _ _ => exact hempty
    | failed _ => exact hempty
    | simple simple =>
      refine descriptor_bind fun d hd => ?_
      dsimp only
      rw [hd, Option.bind_some]
      cases hi : d.class? with
      | none => exact hempty
      | some info =>
        dsimp only
        cases hm : info.mainConstructor? with
        | none => exact throw
        | some constructor =>
          dsimp only [Option.bind_some]
          cases hp : σ.world.descriptor? constructor with
          | none =>
            refine Does.seq (hconv s type) fun s1 _ _ _ => ?_
            refine Does.seq (symbolOf fun hw => names_mainConstructor hw hd hi hm)
              fun s2 _ _ _ => ?_
            exact descriptor_bind fun _ hp' => by cases hp.symm.trans hp'
          | some parent =>
            refine Converting.congr (Converting.seq (hconv s type) fun s1 τ h1 hτ => ?_) rfl
            refine Converting.congr (Converting.seq
              (symbolOf_converting fun hw => names_mainConstructor hw hd hi hm) fun s2 c h2 _ => ?_)
              (List.nil_append _)
            refine descriptor_bind fun parent' hp' => ?_
            cases hp.symm.trans hp'
            refine Converting.congr (Converting.seq (slotsWith (argumentsWith hconv arguments)
              (agrees_argument hk) parent.valueParameters) fun s3 es h3 _ => ?_) (List.append_nil _)
            refine Converting.pure ⟨?_, ?_⟩ (by simp [Access.plain])
            · rintro _ ⟨⟩
              exact ⟨(h2.trans h3).fits hτ, rfl, ⟨rfl⟩⟩
            · rintro _ ⟨⟩
              exact ⟨_, _, rfl⟩

theorem argumentsWith (hconv : Converts σ convert) :
    (arguments : List (Name × Constant)) → ∀ q ∈ arguments, Shows σ convert q.2
  | (_, value) :: rest, q, hq => by
    rcases List.mem_cons.1 hq with rfl | hq
    · exact constantWith hconv value
    · exact argumentsWith hconv rest q hq

end

/-- Symbols of which every one stands for a descriptor of the kind that is asked for. -/
theorem names_self {w : World} {d : Descriptor} (hd : w.descriptor? desc = some d)
    {kind : SymbolKind} (hk : d.symbolKind = kind) : w.Names (kind, desc) := fun d' hd' => by
  cases hd.symm.trans hd'
  exact hk

theorem annotationCallsWith (hconv : Converts σ convert) {uses : List AnnotationUse}
    (hk : σ.world.Agrees (uses.flatMap (·.keys))) :
    Converting σ s 0 (uses.flatMap (·.needs σ)) (Lower.annotationCallsWith convert uses)
      (fun s es => ∀ e ∈ es, s.IsCall e) tokens := by
  refine Converting.congr (Converting.seq (P := fun s es => ∀ e ∈ es.filterMap id, s.IsCall e)
    (H := tokens) ?_ fun s1 es _ hes => Converting.pure hes (by simp)) (List.append_nil _)
  induction uses generalizing s with
  | nil => exact Converting.pure (by simp) (by simp)
  | cons use uses ih =>
    rw [List.flatMap_cons] at hk ⊢
    simp only [List.mapM_cons, bind_assoc]
    refine Converting.seq (annotationWith hconv use s hk.append.1) fun s1 c h1 hc => ?_
    refine Converting.bind (N := []) (R := 0) (addContent hc.1) rfl fun s2 e h2 he => ?_
    refine Converting.congr (Converting.seq (ih hk.append.2) fun s3 es h3 hes => ?_)
      (List.append_nil _)
    refine Converting.pure (fun e' he' => ?_) (by simp [add_comm])
    cases e with
    | none => exact hes e' he'
    | some e =>
      rcases List.mem_cons.1 he' with rfl | he'
      · obtain ⟨p, x, rfl, hx, hxk⟩ := he e' rfl
        obtain ⟨a, xs, hcall⟩ := hc.2 p rfl
        exact h3.isCall ⟨x, a, xs, hx, hxk.trans hcall⟩
      · exact hes e' he'

theorem projectionsWith (hconv : Converts σ convert) {arguments : List SourceTypeArgument} :
    Converting σ s 0 (arguments.flatMap (·.needs)) (arguments.mapM (Lower.projectionWith convert))
      (fun s ps => ∀ e, .expr e ∈ TypeProjection.partsOfAll ps → s.IsCall e) tokens := by
  induction arguments generalizing s with
  | nil => exact Converting.pure (by simp [TypeProjection.partsOfAll]) (by simp)
  | cons a as ih =>
    rw [List.mapM_cons, List.flatMap_cons]
    cases a with
    | star =>
      simp only [Lower.projectionWith, pure_bind]
      refine Converting.congr (Converting.seq ih fun s1 ps _ hps => ?_) (List.append_nil _)
      exact Converting.pure (by simpa [TypeProjection.partsOfAll] using hps) (by simp)
    | projection variance id =>
      simp only [Lower.projectionWith, bind_assoc, pure_bind]
      refine Converting.seq (hconv s id) fun s1 τ h1 hτ => ?_
      refine Converting.congr (Converting.seq ih fun s2 ps h2 hps => ?_) (List.append_nil _)
      refine Converting.pure (fun e he => ?_) (by simp)
      simp only [TypeProjection.partsOfAll, List.mem_append] at he
      exact he.elim (h2.fits hτ e) (hps e)

theorem classifierSymbol {id : DescId} :
    Converting σ s 0 [] (Lower.classifierSymbol id) anything tokens := by
  refine descriptor_bind fun d hd => ?_
  split
  next _ hk =>
    exact (symbolOf_converting fun _ => names_self hd (by simp [Descriptor.symbolKind, hk])).imp
      (fun _ _ _ h => ⟨h.1, trivial⟩) fun _ => le_rfl
  next _ hk =>
    exact (symbolOf_converting fun _ => names_self hd (by simp [Descriptor.symbolKind, hk])).imp
      (fun _ _ _ h => ⟨h.1, trivial⟩) fun _ => le_rfl
  next => exact throw

/-- The last step of a conversion. What was converted on the way does not contain the type. -/
theorem remember {id : TypeId} (hcov : Covers σ (t.needs σ) s0 s) (ht : σ.world.type? id = some t)
    (hnone : s0.types.lookup id = none) (hτ : s.Fits τ) [Quiet F] :
    Does σ s F (do Lower.rememberType id τ; return τ)
      (fun s' τ => Covers σ [id] s0 s' ∧ s'.Fits τ) tokens := by
  refine sane fun hs => ?_
  refine Does.bind (m := Lower.rememberType id τ) (R := F) (F := 0) (P := fun s' _ =>
    s' = { s with types := (id, τ) :: s.types }) (H := tokens)
    (of_step rfl (fun R => ?_) rfl) (zero_add F).symm fun s1 _ h1 hs1 => ?_
  · exact .remember (hcov.lookup_eq_none ht hnone hs) (hcov.grounds ht hs) hτ
  · subst hs1
    exact pure ⟨hcov.remember ht τ, h1.fits hτ⟩ (Multiset.zero_le _)

theorem convertWith (hconv : Converts σ convert) : Converts σ (Lower.convertWith convert) := by
  intro s id
  refine get_bind ?_
  cases hlookup : s.types.lookup id with
  | some τ =>
    refine sane fun hs => pure ⟨⟨?_, ?_⟩, hs.types hlookup⟩ (by simp)
    · simp only [List.mem_singleton, forall_eq, hlookup, Option.isSome_some]
    · intro id' hnone hsome
      simp [hnone] at hsome
  | none =>
    refine sourceType_bind fun t ht => ?_
    cases t with
    | failed _ => exact throw
    | flexible lower upper =>
      refine Does.seq (hconv s upper) fun s1 τ h1 ⟨hcov, hτ⟩ => ?_
      exact remember (t := .flexible lower upper) hcov ht hlookup hτ
    | simple simple =>
      have hkeys : σ.world.Agrees (simple.annotations.flatMap (·.keys)) := fun hw => hw.type ht
      refine Does.seq classifierSymbol fun s1 c h1 ⟨hcov1, _⟩ => ?_
      refine Does.seq (projectionsWith hconv) fun s2 ps h2 ⟨hcov2, hps⟩ => ?_
      refine Does.seq (annotationCallsWith hconv hkeys) fun s3 xs h3 ⟨hcov3, hxs⟩ => ?_
      refine remember (t := .simple simple) ((hcov1.append hcov2 h2).append hcov3 h3) ht hlookup ?_
      intro e he
      simp only [TreeType.parts, List.mem_cons, List.mem_append, List.mem_map, reduceCtorEq,
        false_or, TreePart.expr.injEq, exists_eq_right] at he
      exact he.elim (fun he => h3.isCall (hps e he)) (hxs e)

theorem convertUpTo : (fuel : Nat) → Converts σ (Lower.convertUpTo fuel)
  | 0 => fun _ _ => throw
  | fuel + 1 => convertWith (convertUpTo fuel)

end

theorem converts : Converts σ Lower.convert := fun s id => read_bind (convertUpTo _ s id)

theorem convert {id : TypeId} : Does σ s 0 (Lower.convert id) State.Fits tokens :=
  (converts s id).imp (fun _ _ _ h => h.2) fun _ => le_rfl

theorem constant (hk : σ.world.Agrees value.keys) :
    Does σ s 0 (Lower.constant value expected) anything tokens :=
  Does.seq (constantWith converts value s expected hk) fun _ _ _ hc => by
    rw [add_zero]
    exact (addContent hc.2).imp (fun _ _ _ _ => trivial) fun _ => le_rfl

theorem annotationCall (hk : σ.world.Agrees use.keys) :
    Does σ s 0 (Lower.annotationCall use) anything tokens :=
  Does.seq (annotationWith converts use s hk) fun _ _ _ hc => by
    rw [add_zero]
    exact (addContent hc.2.1).imp (fun _ _ _ _ => trivial) fun _ => le_rfl

theorem annotationCalls (hk : σ.world.Agrees (uses.flatMap (·.keys))) :
    Does σ s 0 (Lower.annotationCalls uses) anything tokens :=
  (annotationCallsWith converts hk).imp (fun _ _ _ _ => trivial) fun _ => le_rfl

theorem convertAll :
    Does σ s 0 (Lower.convertAll ids) (fun s ts => ∀ t ∈ ts, s.Fits t) tokens :=
  mapM_all (fun h ht => h.fits ht) fun _ _ _ _ => convert

theorem convertOptional {id : Option TypeId} :
    Does σ s 0 (Lower.convertOptional id) (fun s τ => ∀ t ∈ τ, s.Fits t) tokens :=
  optionMapM fun _ _ => convert

theorem expressionType {id : NodeId} : Does σ s 0 (Lower.expressionType id) State.Fits tokens := by
  refine facts_bind ?_
  split
  next => exact convert
  next => exact convert

theorem writtenType {id : NodeId} : Does σ s 0 (Lower.writtenType id) State.Fits tokens :=
  facts_bind (required_bind fun _ _ => convert)

theorem unitValue : Does σ s 0 Lower.unitValue anything tokens :=
  Does.seq convert fun _ _ _ hτ => addExpr hτ (by simp) (by simp)

theorem malformed : Does σ s 0 (Lower.malformed kind message) anything tokens :=
  Does.seq convert fun _ _ _ hτ => addExpr hτ (by simp) (by simp)

end Does

end TypedTree
