import TypedTree.Proofs.Lookup.Types
import TypedTree.Proofs.Plain.Reading

namespace TypedTree

/-- What can be worked out from the facts, for a way to work out types. -/
abbrev Inquiry (β : Type) := (TypeId → Except LowerError PlainType) → Except LowerError β

/-- With less fuel an inquiry comes to the same, or it runs out. -/
def Setting.Steady {β : Type} (σ : Setting) (F : Inquiry β) : Prop :=
  ∀ fuel, Nears (F (σ.plainUpTo fuel)) (F σ.plain)

theorem Setting.Steady.of_nears {β : Type} {σ : Setting} {F : Inquiry β}
    (h : ∀ {f g}, (∀ id, Nears (f id) (g id)) → Nears (F f) (F g)) : σ.Steady F := fun fuel =>
  h (σ.plainUpTo_nears_plain fuel)

theorem Setting.Steady.const {β : Type} {σ : Setting} {p : Except LowerError β} :
    σ.Steady fun _ => p := fun _ => .refl p

theorem SymbolTable.get?_of_create {t : SymbolTable} {id : SymbolId} {x : Symbol}
    (hx : (t.create kind desc identity).get? id = some x) (ho : x.owner = some d) :
    t.get? id = some x := by
  rw [get?_create] at hx
  split at hx
  next =>
    cases hx
    cases ho
  next => exact hx

namespace State

/-- A state whose remembered types are what their ids stand for, and whose symbols belong to their
owners. -/
structure Faithful (σ : Setting) (s : State) : Prop where
  table : s.table.Sound σ.world false
  types : ∀ {id τ}, s.types.lookup id = some τ → ∃ T, σ.plain id = .ok T ∧ s.plain? τ = some T
  owner : ∀ {id x d}, s.table.get? id = some x → x.owner = some d →
    ∃ y, s.store.decl? d = some y ∧ y.symbol = id

/-- A later state that is faithful, and remembers of further types only those that an inquiry needs:
with fuel that is enough for the inquiry, they are known. -/
structure Learns {β : Type} (σ : Setting) (F : Inquiry β) (s s' : State) : Prop where
  le : s.Le s'
  faithful : s'.Faithful σ
  only : ∀ {fuel id}, F (σ.plainUpTo fuel) ≠ .error .endless → s.types.lookup id = none →
    (s'.types.lookup id).isSome → σ.plainUpTo fuel id ≠ .error .endless

variable {σ : Setting} {s s' s'' : State} {β δ : Type} {F : Inquiry β}

theorem Learns.of_types (hle : s.Le s') (hs' : s'.Faithful σ) (htypes : s'.types = s.types) :
    s.Learns σ F s' where
  le := hle
  faithful := hs'
  only _ hnone hsome := by simp [htypes, hnone] at hsome

theorem Learns.trans {G : β → Inquiry δ} (hF : σ.Steady F) (hb : F σ.plain = .ok b)
    (h : s.Learns σ F s') (h' : s'.Learns σ (G b) s'') :
    s.Learns σ (fun f => F f >>= (G · f)) s'' where
  le := h.le.trans h'.le
  faithful := h'.faithful
  only {fuel id} hne hnone hsome := by
    rcases hF fuel with he | he
    · exact (hne (by simp [he, bind, Except.bind])).elim
    · cases hmid : s'.types.lookup id with
      | some τ =>
        refine h.only (fun he' => ?_) hnone (Option.isSome_of_mem hmid)
        cases hb.symm.trans (he.symm.trans he')
      | none =>
        refine h'.only (fun he' => hne ?_) hmid hsome
        rw [he, hb]
        exact he'

/-- Types that are not remembered anew may be read in a later state, and the only owners are old
ones or new declarations. -/
theorem Faithful.of_le (hs : s.Faithful σ) (hle : s.Le s')
    (htable : s'.table.Sound σ.world false) (htypes : s'.types = s.types)
    (howner : ∀ {id x d}, s'.table.get? id = some x → x.owner = some d →
      s.table.get? id = some x ∨ ∃ y, s'.store.decl? d = some y ∧ y.symbol = id) :
    s'.Faithful σ where
  table := htable
  types hl := by
    obtain ⟨T, hT, hτ⟩ := hs.types (htypes ▸ hl)
    exact ⟨T, hT, hle.plain? hτ⟩
  owner hx ho := by
    rcases howner hx ho with hx | hy
    · obtain ⟨y, hy, hid⟩ := hs.owner hx ho
      exact ⟨y, hle.decl hy, hid⟩
    · exact hy

theorem Faithful.create (hs : s.Faithful σ) {kind : SymbolKind} {desc : DescId} {d : Descriptor}
    (hd : σ.world.descriptor? desc = some d) (hc : s.table.cached? kind desc = none) :
    s.Le { s with table := s.table.create kind desc (σ.world.identity d) } ∧
      State.Faithful σ { s with table := s.table.create kind desc (σ.world.identity d) } := by
  have hle : s.Le { s with table := s.table.create kind desc (σ.world.identity d) } :=
    Desk.le_sameStore (SymbolTable.le_create hc _) rfl rfl
  refine ⟨hle, hs.of_le hle (hs.table.create hd hc (by simp)) rfl fun hx ho => .inl ?_⟩
  exact SymbolTable.get?_of_create hx ho

theorem Faithful.addExpr (hs : s.Faithful σ) (x : Expr) :
    s.Le { s with store := (s.store.addExpr x).2 } ∧
      State.Faithful σ { s with store := (s.store.addExpr x).2 } :=
  ⟨Desk.le_addExpr s x, hs.of_le (Desk.le_addExpr s x) hs.table rfl fun hx _ => .inl hx⟩

/-- A type that is not remembered yet may be, as what it stands for. -/
theorem Faithful.remember (hs : s.Faithful σ) {id : TypeId} {τ : TreeType} {T : PlainType}
    (hnone : s.types.lookup id = none) (hT : σ.plain id = .ok T) (hτ : s.plain? τ = some T) :
    s.Le { s with types := (id, τ) :: s.types } ∧
      State.Faithful σ { s with types := (id, τ) :: s.types } := by
  have hle : s.Le { s with types := (id, τ) :: s.types } := by
    refine ⟨.refl _, fun h => h, fun {_ x} h => ⟨x, h, .refl x⟩, .refl _, fun {id' τ'} h => ?_⟩
    have hne : id' ≠ id := fun he => by cases hnone.symm.trans (he ▸ h)
    rwa [lookup_cons_of_ne hne]
  refine ⟨hle, hs.table, fun {id' τ'} h => ?_, hs.owner⟩
  by_cases he : id' = id
  · subst he
    rw [List.lookup_cons_self, Option.some.injEq] at h
    exact ⟨T, hT, h ▸ hle.plain? hτ⟩
  · rw [lookup_cons_of_ne he] at h
    obtain ⟨T', hT', hτ'⟩ := hs.types h
    exact ⟨T', hT', hle.plain? hτ'⟩

end State

/-- The step does what the inquiry says: it fails in the same way, or its result is as the relation
says. If it runs out of fuel, so does the inquiry. -/
def Mirrors {α β : Type} (σ : Setting) (fuel : Nat) (s : State) (m : Lower α) (F : Inquiry β)
    (R : State → α → β → Prop) : Prop :=
  m.Ends σ s (fun a s' => s.Learns σ F s' ∧ ∃ b, F σ.plain = .ok b ∧ R s' a b)
    fun e s' => s.Le s' ∧ s'.Faithful σ ∧
      (F σ.plain = .error e ∨ e = .endless ∧ F (σ.plainUpTo fuel) = .error .endless)

namespace Mirrors

open Lower

variable {σ : Setting} {fuel : Nat} {s : State} {α β γ δ : Type} {m : Lower α} {k : α → Lower γ}
  {F : Inquiry β} {G : β → Inquiry δ} {R : State → α → β → Prop} {S : State → γ → δ → Prop}

theorem pure (hs : s.Faithful σ) (hR : R s a b) :
    Mirrors σ fuel s (Pure.pure a) (fun _ => .ok b) R :=
  Ends.pure ⟨.of_types (.refl s) hs rfl, b, rfl, hR⟩

theorem throw (hs : s.Faithful σ) (e : LowerError) :
    Mirrors σ fuel s (MonadExcept.throw e : Lower α) (fun _ => .error e) R :=
  Ends.throw ⟨.refl s, hs, .inl rfl⟩

theorem bind (hF : σ.Steady F) (h : Mirrors σ fuel s m F R)
    (hk : ∀ a b s', s.Le s' → s'.Faithful σ → R s' a b → Mirrors σ fuel s' (k a) (G b) S) :
    Mirrors σ fuel s (m >>= k) (fun f => F f >>= (G · f)) S := by
  refine Ends.bind (Ends.imp h (fun _ _ hQ => hQ) ?_) fun a s1 ⟨hl, b, hb, hR⟩ =>
    Ends.imp (hk a b s1 hl.le hl.faithful hR) ?_ ?_
  · rintro e s' ⟨hle, hs', hp | ⟨rfl, hp⟩⟩
    · exact ⟨hle, hs', .inl (by simp [hp, Bind.bind, Except.bind])⟩
    · exact ⟨hle, hs', .inr ⟨rfl, by simp [hp, Bind.bind, Except.bind]⟩⟩
  · rintro c s2 ⟨hl', d, hd, hS⟩
    exact ⟨hl.trans hF hb hl', d, by simpa [hb, Bind.bind, Except.bind] using hd, hS⟩
  · rintro e s2 ⟨hle, hs2, hp⟩
    refine ⟨hl.le.trans hle, hs2, hp.imp (fun hp => ?_) fun ⟨he, hp⟩ => ⟨he, ?_⟩⟩
    · simpa [hb, Bind.bind, Except.bind] using hp
    · rcases hF fuel with hout | hsame
      · simp [hout, Bind.bind, Except.bind]
      · simpa [hsame, hb, Bind.bind, Except.bind] using hp

theorem andThen {S : State → γ → β → Prop} (h : Mirrors σ fuel s m F R)
    (hk : ∀ a b s', s'.Faithful σ → R s' a b → (k a).Ends σ s'
      (fun c s'' => (s'.Le s'' ∧ s''.Faithful σ) ∧ s''.types = s'.types ∧ S s'' c b)
      fun _ _ => False) : Mirrors σ fuel s (m >>= k) F S := by
  refine Ends.bind h fun a s1 ⟨hl, b, hb, hR⟩ => Ends.imp (hk a b s1 hl.faithful hR) ?_ ?_
  · rintro c s2 ⟨⟨hle, hs2⟩, htypes, hS⟩
    refine ⟨⟨hl.le.trans hle, hs2, fun hne hnone hsome => ?_⟩, b, hb, hS⟩
    rw [htypes] at hsome
    exact hl.only hne hnone hsome
  · exact fun _ _ hfalse => hfalse.elim

theorem map {f : α → γ} {S : State → γ → β → Prop} (h : Mirrors σ fuel s m F R)
    (hS : ∀ s' a b, R s' a b → S s' (f a) b) : Mirrors σ fuel s (f <$> m) F S := by
  rw [map_eq_pure_bind]
  exact h.andThen fun a b s' hs' hR => .pure ⟨⟨.refl s', hs'⟩, rfl, hS s' a b hR⟩

theorem congr (h : Mirrors σ fuel s m F R) (hF : F = F') : Mirrors σ fuel s m F' R := hF ▸ h

theorem imp {g : β → δ} {S : State → α → δ → Prop} (h : Mirrors σ fuel s m F R)
    (hS : ∀ s' a b, R s' a b → S s' a (g b)) :
    Mirrors σ fuel s m (fun f => F f >>= fun b => Pure.pure (g b)) S := by
  refine Ends.imp h ?_ ?_
  · rintro a s' ⟨hl, b, hb, hR⟩
    refine ⟨⟨hl.le, hl.faithful, fun hne => hl.only fun he => hne ?_⟩, g b, ?_, hS s' a b hR⟩
    · simp [he, Bind.bind, Except.bind]
    · simp [hb, Bind.bind, Except.bind, Pure.pure, Except.pure]
  · rintro e s' ⟨hle, hs', hp⟩
    refine ⟨hle, hs', hp.imp (fun hp => ?_) fun ⟨he, hp⟩ => ⟨he, ?_⟩⟩
    · simp [hp, Bind.bind, Except.bind]
    · simp [hp, Bind.bind, Except.bind]

theorem read_bind {k : Setting → Lower α} (hv : ∀ v, k (σ.withVerify v) = k σ)
    (h : Mirrors σ fuel s (k σ) F R) : Mirrors σ fuel s (read >>= k) F R :=
  Ends.read_bind hv h

theorem present_bind {G : α → Inquiry δ} (hs : s.Faithful σ)
    (h : ∀ a, x = some a → Mirrors σ fuel s (k a) (G a) S) :
    Mirrors σ fuel s (present x >>= k) (fun f => orDangling x >>= (G · f)) S := by
  cases x with
  | none => exact throw hs .dangling
  | some a =>
    simp only [present, pure_bind]
    exact h a rfl

theorem descriptor_bind {id : DescId} {k : Descriptor → Lower γ} {G : Descriptor → Inquiry δ}
    (hs : s.Faithful σ)
    (h : ∀ d, σ.world.descriptor? id = some d → Mirrors σ fuel s (k d) (G d) S) :
    Mirrors σ fuel s (descriptor id >>= k)
      (fun f => orDangling (σ.world.descriptor? id) >>= (G · f)) S := by
  simp only [descriptor, bind_assoc]
  exact read_bind (fun _ => rfl) (present_bind hs h)

theorem descriptor_bind_of_eq {id : DescId} {k : Descriptor → Lower α}
    (hd : σ.world.descriptor? id = some d) (h : Mirrors σ fuel s (k d) F R) :
    Mirrors σ fuel s (descriptor id >>= k) F R := by
  simp only [descriptor, bind_assoc]
  refine read_bind (fun _ => rfl) ?_
  rw [hd]
  simpa only [present, pure_bind] using h

theorem sourceType_bind {id : TypeId} {k : SourceType → Lower γ} {G : SourceType → Inquiry δ}
    (hs : s.Faithful σ)
    (h : ∀ t, σ.world.type? id = some t → Mirrors σ fuel s (k t) (G t) S) :
    Mirrors σ fuel s (sourceType id >>= k)
      (fun f => orDangling (σ.world.type? id) >>= (G · f)) S := by
  simp only [sourceType, bind_assoc]
  exact read_bind (fun _ => rfl) (present_bind hs h)

theorem mapM {ε : Type} {xs : List ε} {f : ε → Lower α} {F : ε → Inquiry β} (hs : s.Faithful σ)
    (hR : ∀ {s s' a b}, State.Le s s' → R s a b → R s' a b) (hF : ∀ x, σ.Steady (F x))
    (h : ∀ x ∈ xs, ∀ s', s'.Faithful σ → Mirrors σ fuel s' (f x) (F x) R) :
    Mirrors σ fuel s (xs.mapM f) (fun g => xs.mapM (F · g))
      fun s as bs => List.Forall₂ (R s) as bs := by
  induction xs generalizing s with
  | nil => exact pure hs .nil
  | cons x xs ih =>
    obtain ⟨hx, hxs⟩ := List.forall_mem_cons.1 h
    simp only [List.mapM_cons]
    refine bind (hF x) (hx s hs) fun a b s1 _ hs1 hab => ?_
    refine bind (fun fuel => Nears.mapM (fun y => hF y fuel) xs) (ih hs1 hxs)
      fun as bs s2 hle hs2 habs => ?_
    exact pure hs2 (.cons (hR hle hab) habs)

theorem symbolOf (hs : s.Faithful σ) (kind : SymbolKind) (desc : DescId) :
    Mirrors σ fuel s (Lower.symbolOf kind desc)
      (fun _ => orDangling (σ.world.descriptor? desc)) fun s id d =>
        s.keyOf? id = some (kind, desc) ∧ σ.world.descriptor? desc = some d := by
  unfold Lower.symbolOf
  refine Ends.get_bind (.read_bind (fun _ => rfl) (.present_bind (fun hnone => ?_) fun p hp => ?_))
  · refine ⟨.refl s, hs, .inl ?_⟩
    have hd : σ.world.descriptor? desc = none := by
      unfold SymbolTable.getOrCreate? at hnone
      split at hnone
      next => cases hnone
      next => exact Option.map_eq_none_iff.1 hnone
    rw [hd]
    rfl
  · obtain ⟨id, table⟩ := p
    refine .bind (Q := fun _ s' => s' = { s with table := table }) (.modify rfl) ?_
    rintro _ _ rfl
    refine .pure ?_
    rcases SymbolTable.getOrCreate?_cases hp with ⟨hc, rfl⟩ | ⟨hc, rfl, d, hd, rfl⟩
    · obtain ⟨_, d, _, _, hd, _⟩ := hs.table.cached hc
      exact ⟨.of_types (.refl s) hs rfl, d, by rw [hd]; rfl,
        (State.keyOf?_eq_some_iff hs.table).2 hc, hd⟩
    · obtain ⟨hle, hs'⟩ := hs.create hd hc
      refine ⟨.of_types hle hs' rfl, d, by rw [hd]; rfl,
        (State.keyOf?_eq_some_iff hs'.table).2 ?_, hd⟩
      rw [SymbolTable.cached?_create, if_pos ⟨rfl, rfl⟩]

theorem ends_addContent (hs : s.Faithful σ) (content : Option (TreeType × ExprKind)) :
    (Lower.addContent content).Ends σ s (fun e s' => (s.Le s' ∧ s'.Faithful σ) ∧
      s'.types = s.types ∧ Option.Rel (fun c e => s'.store.expr? e = some ⟨c.1, [], c.2⟩) content e)
      fun _ _ => False := by
  cases content with
  | none => exact .pure ⟨⟨.refl s, hs⟩, rfl, .none⟩
  | some c =>
    refine .bind (Q := fun e s' => e = ⟨s.store.exprs.size⟩ ∧
      s' = { s with store := (s.store.addExpr ⟨c.1, [], c.2⟩).2 }) (.modifyGet ⟨rfl, rfl⟩) ?_
    rintro _ _ ⟨rfl, rfl⟩
    exact .pure ⟨hs.addExpr _, rfl, .some (by simp [Store.expr?, Store.addExpr])⟩

theorem added {m : Lower (Option (TreeType × ExprKind))}
    {R : State → Option (TreeType × ExprKind) → β → Prop} (h : Mirrors σ fuel s m F R) :
    Mirrors σ fuel s (m >>= Lower.addContent) F fun _ _ _ => True :=
  h.andThen fun content _ _ hs' _ => (ends_addContent hs' content).imp
    (fun _ _ h => ⟨h.1, h.2.1, trivial⟩) fun _ _ h => h

/-- How types are converted: each conversion comes to what its type stands for, and is kept. -/
def Converts (σ : Setting) (fuel : Nat) (convert : TypeId → Lower TreeType) : Prop :=
  ∀ id s, s.Faithful σ → Mirrors σ fuel s (convert id) (· id) fun s τ T =>
    s.plain? τ = some T ∧ s.types.lookup id = some τ

theorem steady_type {id : TypeId} : σ.Steady (· id) := .of_nears fun h => h id

theorem steady_slot (parameter : DescId) :
    σ.Steady fun f => σ.world.checkSlot (AnnotationUse.checks σ f arguments) parameter :=
  .of_nears fun h => AnnotationUse.checkSlot_nears (AnnotationUse.check_nears h arguments) parameter

theorem steady_annotation {use : AnnotationUse} : σ.Steady (use.constructorKey σ ·) :=
  .of_nears fun h => use.constructorKey_nears h

section

variable {convert : TypeId → Lower TreeType}

/-- The call of an annotation, and the constructor it calls. -/
def Calls (s : State) : Option (TreeType × ExprKind) → Option Key → Prop :=
  Option.Rel fun content key =>
    ∃ access slots, content.2 = .call access slots ∧ s.keyOf? access.callee = some key

theorem slotWith (hs : s.Faithful σ) {arguments : List (Name × Constant)}
    (hargs : ∀ q ∈ arguments, ∀ expected s, s.Faithful σ →
      Mirrors σ fuel s (constantWith convert q.2 expected) (q.2.check σ · expected)
        fun _ _ _ => True) (parameter : DescId) :
    Mirrors σ fuel s (Lower.slotWith (argumentsWith convert arguments) parameter) 
      (fun f => σ.world.checkSlot (AnnotationUse.checks σ f arguments) parameter)
      fun _ _ _ => True := by
  unfold World.checkSlot
  refine descriptor_bind hs fun d _ => ?_
  rw [Ledger.lookup_argumentsWith]
  simp only [AnnotationUse.lookup_checks]
  cases hlookup : arguments.lookup d.name with
  | none => exact pure hs trivial
  | some value =>
    exact added (hargs _ (Ledger.mem_of_lookup hlookup) _ s hs)

mutual

theorem constantWith (hconv : Converts σ fuel convert) : (value : Constant) → ∀ expected s,
    s.Faithful σ → Mirrors σ fuel s (Lower.constantWith convert value expected)
      (value.check σ · expected) fun _ _ _ => True
  | .scalar _ => fun _ s hs => by
    simp only [Lower.constantWith, Constant.check]
    exact bind steady_type (hconv _ s hs) fun _ _ _ _ hs1 _ => pure hs1 trivial
  | .array elements _ => fun _ s hs => by
    simp only [Lower.constantWith, Constant.check]
    refine bind (.of_nears fun h => Constant.checkAll_nears h elements)
      (elementsWith hconv elements s hs) fun _ _ s1 _ hs1 _ => ?_
    exact bind steady_type (hconv _ s1 hs1) fun _ _ _ _ hs2 _ => pure hs2 trivial
  | .enumEntry entry type => fun _ s hs => by
    simp only [Lower.constantWith, Constant.check]
    refine read_bind (fun _ => rfl) ?_
    cases σ.config.literals with
    | unsupported => exact pure hs trivial
    | complete =>
      refine bind steady_type (hconv type s hs) fun _ _ s1 _ hs1 _ => ?_
      exact bind .const (symbolOf hs1 _ entry) fun _ _ _ _ hs2 _ => pure hs2 trivial
  | .nested use => fun _ s hs => by
    simp only [Lower.constantWith, Constant.check]
    exact imp (annotationWith hconv use s hs) fun _ _ _ _ => trivial
  | .classLiteral referenced type => fun _ s hs => by
    simp only [Lower.constantWith, Constant.check]
    refine read_bind (fun _ => rfl) ?_
    have hboth : Mirrors σ fuel s (do
        let classifier := (← convert referenced).classifier
        let type ← convert type
        return some (type, ExprKind.classReference classifier)) (fun f => do
        let _ ← f referenced
        let _ ← f type) fun _ _ _ => True :=
      bind steady_type (hconv referenced s hs) fun _ _ s1 _ hs1 _ =>
        bind steady_type (hconv type s1 hs1) fun _ _ _ _ hs2 _ => pure hs2 trivial
    cases σ.config.literals with
    | unsupported => exact pure hs trivial
    | complete =>
      refine sourceType_bind hs fun t _ => ?_
      cases t with
      | failed _ => exact pure hs trivial
      | simple _ => exact hboth
      | flexible _ _ => exact hboth
  | .failed _ => fun _ s hs => by
    simp only [Lower.constantWith, Constant.check]
    exact pure hs trivial

theorem elementsWith (hconv : Converts σ fuel convert) : (values : List Constant) → ∀ s,
    s.Faithful σ → Mirrors σ fuel s (Lower.elementsWith convert values)
      (Constant.checkAll σ · values) fun _ _ _ => True
  | [] => fun s hs => by
    simp only [Lower.elementsWith, Constant.checkAll]
    exact pure hs trivial
  | value :: values => fun s hs => by
    simp only [Lower.elementsWith, Constant.checkAll, ← bind_assoc]
    refine bind (.of_nears fun h => Constant.check_nears h value none)
      (added (constantWith hconv value none s hs)) fun _ _ s1 _ hs1 _ => ?_
    rw [← map_eq_pure_bind]
    exact map (elementsWith hconv values s1 hs1) fun _ _ _ _ => trivial

theorem annotationWith (hconv : Converts σ fuel convert) : (use : AnnotationUse) → ∀ s,
    s.Faithful σ →
      Mirrors σ fuel s (Lower.annotationWith convert use) (use.constructorKey σ ·) Calls
  | ⟨type, arguments⟩ => fun s hs => by
    simp only [Lower.annotationWith, AnnotationUse.constructorKey]
    refine sourceType_bind hs fun t _ => ?_
    cases t with
    | flexible _ _ => exact pure hs .none
    | failed _ => exact pure hs .none
    | simple simple =>
      refine descriptor_bind hs fun d _ => ?_
      cases d.class? with
      | none => exact pure hs .none
      | some info =>
        dsimp only
        cases info.mainConstructor? with
        | none => exact throw hs _
        | some constructor =>
          refine bind steady_type (hconv type s hs) fun _ _ s1 _ hs1 _ => ?_
          refine bind .const (symbolOf hs1 _ constructor) fun id callee s2 _ hs2 ⟨hid, hd⟩ => ?_
          refine descriptor_bind_of_eq hd ?_
          refine bind (fun fuel => Nears.mapM (steady_slot · fuel) _)
            (mapM hs2 (fun _ _ => trivial) steady_slot fun parameter _ s' hs' =>
              slotWith hs' (argumentsWith hconv arguments) parameter) fun slots _ s3 h3 hs3 _ => ?_
          exact pure hs3 (.some ⟨_, _, rfl, h3.keyOf? hid⟩)

theorem argumentsWith (hconv : Converts σ fuel convert) : (arguments : List (Name × Constant)) →
    ∀ q ∈ arguments, ∀ expected s, s.Faithful σ → Mirrors σ fuel s
      (Lower.constantWith convert q.2 expected) (q.2.check σ · expected) fun _ _ _ => True
  | (_, value) :: rest, q, hq => by
    rcases List.mem_cons.1 hq with rfl | hq
    · exact constantWith hconv value
    · exact argumentsWith hconv rest q hq

end

theorem annotationCallsWith (hs : s.Faithful σ) (hconv : Converts σ fuel convert)
    (uses : List AnnotationUse) : Mirrors σ fuel s (Lower.annotationCallsWith convert uses)
      (fun f => uses.mapM (·.constructorKey σ f)) fun s calls keys =>
        List.Forall₂ (fun e key => s.calleeKey? e = some key) calls keys.reduceOption := by
  refine andThen (R := fun s calls keys => List.Forall₂
    (Option.Rel fun e key => s.calleeKey? e = some key) calls keys)
    (mapM hs (fun hle => Option.rel_imp fun _ _ => hle.calleeKey?) (fun _ => steady_annotation)
      fun use _ s1 hs1 => ?_) fun calls keys s1 hs1 hcalls => .pure ⟨⟨.refl s1, hs1⟩, rfl, ?_⟩
  · refine andThen (annotationWith hconv use s1 hs1) fun content key s2 hs2 hkey =>
      (ends_addContent hs2 content).imp (fun e s3 ⟨⟨hle, hs3⟩, htypes, he⟩ =>
        ⟨⟨hle, hs3⟩, htypes, ?_⟩) fun _ _ h => h
    cases hkey with
    | none => cases he; exact .none
    | some hkey =>
      obtain ⟨access, slots, hk, hkey⟩ := hkey
      cases he with
      | some he =>
        exact .some (State.calleeKey?_eq_some.2 ⟨_, access, slots, he, hk, hle.keyOf? hkey⟩)
  · clear * - hcalls
    induction hcalls with
    | nil => exact .nil
    | cons h _ ih =>
      cases h with
      | none => exact ih
      | some h => exact .cons h ih

theorem steady_argument {argument : SourceTypeArgument} : σ.Steady (argument.plainWith ·) := by
  cases argument with
  | star => exact .const
  | projection _ type => exact .of_nears fun h => (h type).bind fun _ => .refl _

theorem projectionWith (hs : s.Faithful σ) (hconv : Converts σ fuel convert)
    (argument : SourceTypeArgument) : Mirrors σ fuel s (Lower.projectionWith convert argument)
      (argument.plainWith ·) fun s p P => s.plainProjection? p = some P := by
  cases argument with
  | star => exact pure hs rfl
  | projection variance type =>
    refine bind steady_type (hconv type s hs) fun τ T s1 _ hs1 hT => pure hs1 ?_
    exact State.plainProjection?_eq_some.2 ⟨T, hT.1, rfl⟩

theorem classifierSymbol (hs : s.Faithful σ) (id : DescId) :
    Mirrors σ fuel s (Lower.classifierSymbol id) (fun _ => σ.world.classifierKey id)
      fun s c key => s.keyOf? c = some key := by
  unfold World.classifierKey
  refine descriptor_bind hs fun d hd => ?_
  have hsymbol (kind : SymbolKind) : Mirrors σ fuel s (Lower.symbolOf kind id)
      (fun _ => .ok (kind, id)) fun s c key => s.keyOf? c = some key := by
    have hmade : Mirrors σ fuel s (Lower.symbolOf kind id)
        (fun _ => orDangling (σ.world.descriptor? id) >>= fun _ => .ok (kind, id))
        fun s c key => s.keyOf? c = some key := imp (symbolOf hs kind id) fun _ _ _ h => h.1
    rw [hd] at hmade
    exact hmade
  cases d.kind with
  | classLike _ => exact hsymbol _
  | typeParameter _ => exact hsymbol _
  | _ => exact throw hs _

theorem simple (hs : s.Faithful σ) (hconv : Converts σ fuel convert) {id : TypeId}
    {simple : SimpleType} (ht : σ.world.type? id = some (.simple simple)) :
    Mirrors σ fuel s (do
      let classifier ← Lower.classifierSymbol simple.classifier
      let arguments ← simple.arguments.mapM (Lower.projectionWith convert)
      let annotations ← Lower.annotationCallsWith convert simple.annotations
      return (⟨classifier, simple.nullable, arguments, annotations⟩ : TreeType))
      (σ.plainWith · id) fun s τ T => s.plain? τ = some T := by
  simp only [Setting.plainWith, ht, orDangling_some_bind]
  refine bind .const (classifierSymbol hs _) fun c key s1 _ hs1 hkey => ?_
  refine bind (fun fuel => Nears.mapM (fun _ => steady_argument fuel) _)
    (mapM (R := fun s p P => s.plainProjection? p = some P) hs1 (fun hle => hle.plainProjection?)
      (fun _ => steady_argument) fun a _ s' hs' => projectionWith hs' hconv a)
    fun ps Ps s2 h2 hs2 hps => ?_
  refine bind (fun fuel => Nears.mapM (fun _ => steady_annotation fuel) _)
    (annotationCallsWith hs2 hconv _) fun calls keys s3 h3 hs3 hcalls => pure hs3 ?_
  refine State.plain?_eq_some.2 ⟨h3.keyOf? (h2.keyOf? hkey), rfl, h3.plainAll? ?_, hcalls⟩
  rw [State.plainAll?_eq_mapM, mapM_eq_some_iff]
  exact hps

/-- What has been worked out for a type is remembered. A part of the type would need less fuel, so
that none of them is the type itself. -/
theorem remember {m : Lower TreeType} {id : TypeId} {R : State → TreeType → PlainType → Prop}
    (hnone : s.types.lookup id = none) (h : Mirrors σ fuel s m (σ.plainWith · id) R)
    (hR : ∀ {s τ T}, R s τ T → s.plain? τ = some T) :
    Mirrors σ (fuel + 1) s (m >>= fun τ => do rememberType id τ; return τ) (· id)
      fun s τ T => s.plain? τ = some T ∧ s.types.lookup id = some τ := by
  have hplain := σ.plain_eq id
  refine Ends.bind (Ends.imp h (fun _ _ hQ => hQ) ?_) fun τ s1 ⟨hl, T, hT, hτ⟩ => ?_
  · rintro e s' ⟨hle, hs', hp⟩
    exact ⟨hle, hs', hp.imp_left hplain.trans⟩
  have hstill : s1.types.lookup id = none := by
    by_contra hsome
    have hout (n : Nat) : σ.plainUpTo n id = .error .endless := by
      induction n with
      | zero => rfl
      | succ n ih =>
        by_contra hne
        exact hl.only hne hnone (Option.isSome_iff_ne_none.2 hsome) ih
    cases (hplain.trans hT).symm.trans (hout _)
  obtain ⟨hle, hs'⟩ := hl.faithful.remember hstill (hplain.trans hT) (hR hτ)
  refine .bind (Q := fun _ s' => s' = { s1 with types := (id, τ) :: s1.types }) (.modify rfl) ?_
  rintro _ _ rfl
  refine .pure ⟨⟨hl.le.trans hle, hs', fun {n id'} hne hnone' hsome => ?_⟩, T, hplain.trans hT,
    hle.plain? (hR hτ), by simp [List.lookup_cons_self]⟩
  by_cases he : id' = id
  · exact he ▸ hne
  · rw [lookup_cons_of_ne he] at hsome
    cases n with
    | zero => exact (hne rfl).elim
    | succ n =>
      have hless := hl.only hne hnone' hsome
      rwa [← (σ.plainUpTo_nears n id').resolve_left hless]

theorem convertWith (hconv : Converts σ fuel convert) :
    Converts σ (fuel + 1) (Lower.convertWith convert) := by
  intro id s hs
  refine Ends.get_bind ?_
  cases hlookup : s.types.lookup id with
  | some τ =>
    obtain ⟨T, hT, hτ⟩ := hs.types hlookup
    exact .pure ⟨.of_types (.refl s) hs rfl, T, hT, hτ, hlookup⟩
  | none =>
    simp only [sourceType, bind_assoc]
    refine Ends.read_bind (fun _ => rfl) ?_
    refine Ends.present_bind (fun ht => ⟨.refl s, hs, .inl ?_⟩) fun t ht => ?_
    · exact Setting.plainUpTo_of_type?_eq_none ht _
    · cases t with
      | failed message =>
        refine Ends.throw ⟨.refl s, hs, .inl ?_⟩
        rw [σ.plain_eq, Setting.plainWith, ht, orDangling_some_bind]
        rfl
      | flexible _ upper =>
        refine remember hlookup ((hconv upper s hs).congr ?_) fun h => h.1
        simp only [Setting.plainWith, ht, orDangling_some_bind]
      | simple simple =>
        have hall := remember hlookup (Mirrors.simple hs hconv ht) fun h => h
        simp only [bind_assoc, pure_bind] at hall
        exact hall

theorem convertUpTo : (fuel : Nat) → Converts σ fuel (Lower.convertUpTo fuel)
  | 0 => fun _ s hs => Ends.throw ⟨.refl s, hs, .inr ⟨rfl, rfl⟩⟩
  | fuel + 1 => convertWith (convertUpTo fuel)

end

theorem convert : Converts σ (σ.world.typeCount + 1) Lower.convert := fun id s hs =>
  read_bind (fun _ => rfl) (convertUpTo _ id s hs)

theorem constant (hs : s.Faithful σ) (value : Constant) (expected : Option TypeId) :
    Mirrors σ (σ.world.typeCount + 1) s (Lower.constant value expected) (value.check σ · expected)
      fun _ _ _ => True :=
  added (constantWith convert value expected s hs)

theorem annotationCall (hs : s.Faithful σ) (use : AnnotationUse) :
    Mirrors σ (σ.world.typeCount + 1) s (Lower.annotationCall use) (use.constructorKey σ ·)
      fun _ _ _ => True :=
  added (annotationWith convert use s hs)

end Mirrors

end TypedTree
