import TypedTree.Lowering.Stub
import TypedTree.Proofs.Trace.Declaration

namespace TypedTree

open Desk Token Carries

/-- A symbol that stands for a descriptor of its kind, if the facts agree about kinds. -/
def State.StandsFor (σ : Setting) (s : State) (id : SymbolId) (desc : DescId) : Prop :=
  ∃ kind, s.HasSymbol id kind ∧ (σ.world.KindConsistent → σ.world.Names (kind, desc))

theorem State.StandsFor.later {s s' : State} {id : SymbolId} (h : s.StandsFor σ id desc)
    (hle : s.Le s') : s'.StandsFor σ id desc :=
  let ⟨kind, hid, hk⟩ := h
  ⟨kind, hle.hasSymbol hid, hk⟩

theorem State.Sane.standsFor {s : State} (h : s.Sane σ) {p : DescId × SymbolId}
    (hp : p ∈ s.table.unboundSymbols) : s.StandsFor σ p.2 p.1 := by
  unfold SymbolTable.unboundSymbols at hp
  obtain ⟨id, _, hid⟩ := List.mem_filterMap.1 hp
  obtain ⟨desc, hdesc, rfl⟩ := Option.map_eq_some_iff.1 hid
  obtain ⟨x, hx, hc⟩ := h.table.origin hdesc
  exact ⟨x.kind, ⟨x, hx, rfl⟩, fun hw => h.kinds hw hc⟩

namespace Does

variable {σ : Setting} {s : State} {declaration : SymbolId → DescId → Lower DeclId}

/-- A declaration is made for a symbol that stands for the descriptor. -/
def Stubs (σ : Setting) (declaration : SymbolId → DescId → Lower DeclId) : Prop :=
  ∀ s id desc, s.StandsFor σ id desc → Does σ s 0 (declaration id desc) anything tokens

theorem parametersWith (h : Stubs σ declaration) {kind : SymbolKind} {parameters : List DescId}
    (hk : σ.world.Agrees (Key.all kind parameters)) :
    Does σ s 0 (Lower.parametersWith declaration kind parameters) anything tokens := by
  refine mapM_each fun p hp s' _ => ?_
  have hp : σ.world.KindConsistent → σ.world.Names (kind, p) := fun hw =>
    hk hw _ (by simp [Key.all, hp])
  exact Does.seq (symbolOf hp) fun s1 id _ hid => (h s1 id p ⟨kind, hid, hp⟩).weaken (by simp)

theorem placeholder : Does σ s 0 (Lower.placeholder info) anything tokens := by
  unfold Lower.placeholder
  split
  next =>
    refine Does.seq convert fun _ _ _ hτ => ?_
    exact Does.seq (addExpr hτ (by simp) (by simp)) fun _ _ _ _ => pure trivial (by simp)
  next => exact pure trivial (by simp)

theorem signatureWith (h : Stubs σ declaration) {desc : DescId} {d : Descriptor}
    (hd : σ.world.descriptor? desc = some d) : Does σ s 0 (Lower.signatureWith declaration d)
      (fun s k => k.Suits d.symbolKind ∧ ∀ t ∈ k.types, s.Fits t) fun k => tokens k.operands := by
  have hkeys : σ.world.Agrees d.kind.keys := fun hw => hw.kind hd
  unfold Lower.signatureWith Descriptor.symbolKind
  generalize d.kind = kind at hkeys ⊢
  cases kind with
  | classLike _ =>
    dsimp only [DescriptorKind.keys] at hkeys
    refine Does.seq (parametersWith h hkeys.append.1.append.1) fun _ _ _ _ => ?_
    exact Does.seq convertAll fun _ _ _ hts => pure ⟨trivial, by simpa using hts⟩ (by simp)
  | function info =>
    dsimp only [DescriptorKind.keys] at hkeys
    refine Does.seq (parametersWith h hkeys.append.1.append.1) fun s1 _ _ _ => ?_
    refine Does.seq convertOptional fun s2 _ _ hdispatch => ?_
    refine Does.seq convertOptional fun s3 _ h3 hextension => ?_
    refine Does.seq (parametersWith h hkeys.append.1.append.2) fun s4 _ h4 _ => ?_
    refine Does.seq convert fun s5 τ h5 hτ => ?_
    refine Does.seq (mapM_each fun desc hmem _ _ => (symbolOf fun hw => hkeys.append.2 hw _ ?_).any)
      fun s6 _ h6 _ => ?_
    · simp [Key.all, hmem]
    refine pure ⟨?_, ?_⟩ (by simp)
    · dsimp only
      cases info.isAnonymous <;> exact trivial
    · simp only [DeclKind.types, List.forall_mem_append, List.forall_mem_singleton,
        Option.mem_toList]
      exact ⟨⟨fun t ht => (h3.trans (h4.trans (h5.trans h6))).fits (hdispatch t ht),
        fun t ht => (h4.trans (h5.trans h6)).fits (hextension t ht)⟩, h6.fits hτ⟩
  | constructor _ =>
    dsimp only [DescriptorKind.keys] at hkeys
    refine Does.seq (parametersWith h hkeys) fun _ _ _ _ => ?_
    exact Does.seq convert fun _ _ _ hτ => pure ⟨trivial, by simpa using hτ⟩ (by simp)
  | property _ =>
    dsimp only [DescriptorKind.keys] at hkeys
    refine Does.seq convert fun s1 τ _ hτ => ?_
    refine Does.seq convertOptional fun s2 _ h2 hdispatch => ?_
    refine Does.seq convertOptional fun s3 _ h3 hextension => ?_
    refine Does.seq (parametersWith h hkeys.append.1.append.1) fun s4 _ h4 _ => ?_
    refine pure ⟨trivial, ?_⟩ (by simp)
    simp only [DeclKind.types, List.forall_mem_cons, List.forall_mem_append, Option.mem_toList]
    exact ⟨(h2.trans (h3.trans h4)).fits hτ, fun t ht => (h3.trans h4).fits (hdispatch t ht),
      fun t ht => h4.fits (hextension t ht)⟩
  | accessor _ =>
    dsimp only [DescriptorKind.keys] at hkeys
    refine Does.seq (symbolOf fun hw => hkeys hw _ (by simp)) fun _ _ _ _ => ?_
    refine Does.seq convert fun s1 τ _ hτ => ?_
    refine Does.seq (parametersWith h (hkeys.subset fun _ => List.mem_cons_of_mem _))
      fun s2 _ h2 _ => ?_
    exact pure ⟨trivial, by simpa using h2.fits hτ⟩ (by simp)
  | typeParameter _ =>
    exact Does.seq convertAll fun _ _ _ hts => pure ⟨trivial, by simpa using hts⟩ (by simp)
  | valueParameter _ =>
    refine Does.seq placeholder fun _ _ _ _ => ?_
    exact Does.seq convert fun _ _ _ hτ => pure ⟨trivial, by simpa using hτ⟩ (by simp)
  | typeAlias _ =>
    dsimp only [DescriptorKind.keys] at hkeys
    refine Does.seq (parametersWith h hkeys) fun _ _ _ _ => ?_
    exact Does.seq convert fun _ _ _ hτ => pure ⟨trivial, by simpa using hτ⟩ (by simp)

theorem declarationWith (h : Stubs σ declaration) :
    Stubs σ (Lower.declarationWith declaration) := by
  intro s id desc ⟨kind, hid, hk⟩
  refine symbol_bind fun _ _ => ?_
  split
  next => exact pure trivial (by simp)
  next =>
    refine descriptor_bind fun d hd => Does.seq (signatureWith h hd) fun s1 k h1 hsig => ?_
    have hannotations : σ.world.Agrees (d.annotations.flatMap (·.keys)) := fun hw key hkey =>
      hw.descriptor hd key (by simp only [Descriptor.keys, List.mem_append, hkey, true_or])
    refine Does.seq (annotationCalls hannotations) fun s2 calls h2 _ => symbol_bind fun _ _ => ?_
    split
    next => exact pure trivial (Multiset.zero_le _)
    next =>
      refine declare ((h1.trans h2).hasSymbol hid) (fun hw => ?_)
        (fun t ht => h2.fits (hsig.2 t ht)) (by rw [add_zero])
      have hkind : d.symbolKind = kind := hk hw d hd
      exact hkind ▸ hsig.1

theorem declarationUpTo : (fuel : Nat) → Stubs σ (Lower.declarationUpTo fuel)
  | 0 => fun _ _ _ _ => throw
  | fuel + 1 => declarationWith (declarationUpTo fuel)

theorem declaration_stubs : Stubs σ Lower.declaration := fun s id desc h =>
  read_bind (declarationUpTo _ s id desc h)

theorem stubPending (hp : s.StandsFor σ p.2 p.1) :
    Does σ s 0 (Lower.stubPending p) anything tokens := by
  refine symbol_bind fun _ _ => ?_
  split
  next => exact pure trivial (by simp)
  next =>
    refine Does.seq (declaration_stubs s _ _ hp) fun _ _ _ _ => descriptor_bind fun _ _ => ?_
    exact pure trivial (by simp)

theorem stubPasses : Does σ s 0 (Lower.stubPasses fuel visited) anything tokens := by
  induction fuel generalizing s visited with
  | zero => exact throw
  | succ fuel ih =>
    refine sane fun hs => get_bind ?_
    have hpending : ∀ p ∈ s.table.unboundSymbols.filter (fun p => !visited.contains p.2),
        s.StandsFor σ p.2 p.1 := fun p hp => hs.standsFor (List.mem_filter.1 hp).1
    dsimp only
    split
    next => exact pure trivial (by simp)
    next =>
      refine Does.seq (P := anything) (H := fun _ => 0) (of_step rfl (fun _ => .pass) trivial)
        fun s1 _ h1 _ => ?_
      refine Does.seq (mapM_each fun p hp _ h => stubPending ((hpending p hp).later (h1.trans h)))
        fun s2 _ _ _ => Does.seq ih fun _ _ _ _ => pure trivial (by simp)

theorem generateStubs : Does σ s 0 Lower.generateStubs anything tokens := by
  refine read_bind (Does.seq stubPasses fun s1 roots _ _ => get_bind ?_)
  refine Does.seq (mapM_each fun _ _ _ _ => symbol_bind fun _ _ => pure trivial (by simp))
    fun _ _ _ _ => ?_
  split
  next => exact pure trivial (by rw [tokens_decls]; exact Multiset.zero_le _)
  next => exact throw

theorem declarationFor : Does σ s 0
    (do Lower.declaration (← Lower.symbolFor desc) desc) anything tokens := by
  refine Does.seq symbolFor fun s1 id _ ⟨d, hd, hid⟩ => ?_
  exact (declaration_stubs s1 id desc ⟨_, hid, fun _ => names_self hd rfl⟩).weaken (by simp)

end Does

end TypedTree
