import TypedTree.Proofs.Signature.Yields

namespace TypedTree

open Lower

/-- The key is one of a parameter that some signature lists. -/
def World.Listed (w : World) (key : Key) : Prop :=
  ∃ desc d, w.descriptor? desc = some d ∧ key ∈ d.kind.parameters

namespace State

variable {σ : Setting} {K : Key → Prop} {b s s' : State}

theorem Faithful.declKey? (hs : s.Faithful σ) {key : Key} {d : DeclId}
    (h : s.declared? key = some d) : s.declKey? d = some key := by
  obtain ⟨id, x, hc, hx, ho⟩ := declared?_eq_some.1 h
  obtain ⟨y, hy, rfl⟩ := hs.owner hx ho
  exact Option.bind_eq_some_iff.2 ⟨y, hy, (keyOf?_eq_some_iff hs.table).2 hc⟩

/-- What the declaration of a key tells is what its descriptor does. -/
structure Stands (σ : Setting) (s : State) (key : Key) (x : Decl) : Prop where
  named : s.keyOf? x.symbol = some key
  origin : x.origin = .stub
  signature : ∃ d, σ.world.descriptor? key.2 = some d ∧
    Agree (d.signature σ) (s.signature? x.kind)

theorem Stands.mono (h : s.Stands σ key x) (hle : s.Le s') :
    s'.Stands σ key x where
  named := hle.keyOf? h.named
  origin := h.origin
  signature := by
    obtain ⟨d, hd, hsig⟩ := h.signature
    exact ⟨d, hd, hsig.mono (hle.signature? x.kind)⟩

/-- Since the first state, stubs for some of the given keys have been added, with the signatures of
their descriptors. -/
structure Signed (σ : Setting) (K : Key → Prop) (b s : State) : Prop where
  le : b.Le s
  coherent : s.Coherent σ
  faithful : s.Faithful σ
  new : ∀ {d x}, s.store.decl? d = some x → b.store.decl? d = none →
    ∃ key, K key ∧ s.Stands σ key x

theorem Signed.refl (hc : s.Coherent σ) (hf : s.Faithful σ) : s.Signed σ K s where
  le := .refl s
  coherent := hc
  faithful := hf
  new h hnone := by cases hnone.symm.trans h

theorem Signed.trans (h : b.Signed σ K s) (h' : s.Signed σ K t) : b.Signed σ K t where
  le := h.le.trans h'.le
  coherent := h'.coherent
  faithful := h'.faithful
  new {d x} hx hnone := by
    cases hs : s.store.decl? d with
    | none => exact h'.new hx hs
    | some y =>
      cases (h'.le.decl hs).symm.trans hx
      obtain ⟨key, hK, hstands⟩ := h.new hs hnone
      exact ⟨key, hK, hstands.mono h'.le⟩

theorem Signed.lasting : Lasting σ (b.Signed σ K) where
  coherent h := h.coherent
  faithful h := h.faithful
  quiet {s s'} h hle hc hf hdecls := {
    le := h.le.trans hle
    coherent := hc
    faithful := hf
    new := fun hx hnone => by
      rw [Store.decl?, hdecls] at hx
      obtain ⟨key, hK, hstands⟩ := h.new hx hnone
      exact ⟨key, hK, hstands.mono hle⟩ }

theorem Signed.declare (h : b.Signed σ K s) {key : Key} {id : SymbolId} {x : Symbol}
    {calls : List ExprId} {kind : DeclKind} {d : Descriptor} (hK : K key)
    (hid : s.keyOf? id = some key) (hx : s.table.get? id = some x) (ho : x.owner = none)
    (hd : σ.world.descriptor? key.2 = some d)
    (hsig : Agree (d.signature σ) (s.signature? kind)) :
    Yields σ (b.Signed σ K) s (Lower.declare id .stub calls kind) fun s c =>
      s.declared? key = some c := by
  intro _
  have hwork : Builds σ true [id] (Lower.declare id .stub calls kind) := .declare fun _ => rfl
  have hup := hwork.upholds h.coherent h.faithful
  have hcoherent := hwork.coherent h.coherent
  rw [runFrom_declare hx, ho] at hup hcoherent ⊢
  have hcached := (keyOf?_eq_some_iff h.faithful.table).1 hid
  refine ⟨hup.le, ⟨h.le.trans hup.le, hcoherent, hup.faithful, fun {c y} hy hnone => ?_⟩,
    fun c hc => ?_⟩
  · rcases Desk.getElem?_push_cases hy with hy | rfl
    · obtain ⟨key', hK', hstands⟩ := h.new hy hnone
      exact ⟨key', hK', hstands.mono hup.le⟩
    · exact ⟨key, hK, hup.le.keyOf? hid, rfl, d, hd, hsig.mono (hup.le.signature? kind)⟩
  · cases hc
    refine declared?_eq_some.2 ⟨id, { x with owner := some ⟨s.store.decls.size⟩ }, hcached, ?_, rfl⟩
    rw [SymbolTable.get?_own hx, if_pos rfl]

end State

namespace Yields

variable {σ : Setting} {K : Key → Prop} {b s : State}

/-- A way to declare symbols for some of the given keys. -/
def Declares (σ : Setting) (K : Key → Prop) (b : State)
    (declaration : SymbolId → DescId → Lower DeclId) : Prop :=
  ∀ {s : State} {key : Key} {id : SymbolId}, s.keyOf? id = some key → K key →
    Yields σ (b.Signed σ K) s (declaration id key.2) fun s d => s.declared? key = some d

section

variable {declaration : SymbolId → DescId → Lower DeclId} (hdecl : Declares σ K b declaration)

include hdecl

theorem parametersWith (hkind : kind ≠ .initializer) {parameters : List DescId}
    (hK : ∀ p ∈ parameters, K (kind, p)) :
    Yields σ (b.Signed σ K) s (Lower.parametersWith declaration kind parameters) fun s ds =>
      ds.mapM s.declKey? = some (parameters.map (kind, ·)) := by
  refine (mapM (S := fun s p d => s.declKey? d = some (kind, p)) (fun hle h => hle.declKey? h)
    fun p hp s' _ => ?_).imp fun _ _ _ h => ?_
  · refine bind (symbolOf State.Signed.lasting hkind p) fun id s1 _ _ hid => ?_
    exact (hdecl hid (hK p hp)).imp fun s2 d hs2 hd => hs2.faithful.declKey? hd
  · rw [mapM_eq_some_iff, List.forall₂_map_right_iff]
    exact h.flip

theorem signatureWith (hK : ∀ key, σ.world.Listed key → K key) {desc : DescId} {d : Descriptor}
    (hd : σ.world.descriptor? desc = some d) :
    Yields σ (b.Signed σ K) s (Lower.signatureWith declaration d) fun s kind =>
      Agree (d.signature σ) (s.signature? kind) := by
  have hI : Lasting σ (b.Signed σ K) := State.Signed.lasting
  have hparameters {s : State} {kind : SymbolKind} {ps : List DescId} (hkind : kind ≠ .initializer)
      (hps : ∀ p ∈ ps, (kind, p) ∈ d.kind.parameters) :
      Yields σ (b.Signed σ K) s (Lower.parametersWith declaration kind ps) fun s ds =>
        ds.mapM s.declKey? = some (ps.map (kind, ·)) :=
    parametersWith hdecl hkind fun p hp => hK _ ⟨desc, d, hd, hps p hp⟩
  unfold Lower.signatureWith Descriptor.signature
  cases hk : d.kind with
  | classLike info =>
    refine bind (hparameters (by decide) ?_) fun ts s1 _ _ hts => ?_
    · simp [hk, DescriptorKind.parameters]
    refine bind (convertAll hI _) fun ss s2 h2 _ hss => pure ?_
    exact .known (h2.declKeys hts) (hss.bind fun _ => .pure _)
  | function info =>
    refine bind (hparameters (by decide) ?_) fun ts s1 _ _ hts => ?_
    · simp +contextual [hk, DescriptorKind.parameters]
    refine bind (convertOptional hI _) fun r s2 h2 _ hr => ?_
    refine bind (convertOptional hI _) fun e s3 h3 _ he => ?_
    refine bind (hparameters (by decide) ?_) fun ps s4 h4 _ hps => ?_
    · simp +contextual [hk, DescriptorKind.parameters]
    refine bind (convert hI _) fun τ s5 h5 _ hτ => ?_
    refine bind (symbols hI (by decide) _) fun os s6 h6 _ hos => pure ?_
    have h5' := h5.trans h6
    have h4' := h4.trans h5'
    have h3' := h3.trans h4'
    refine .known ((h2.trans h3').declKeys hts) ?_
    refine (h3'.agreeOptional hr).bind fun _ => (h4'.agreeOptional he).bind fun _ => ?_
    exact .known (h5'.declKeys hps) ((h6.agree hτ).bind fun _ => .known hos (.pure _))
  | constructor info =>
    refine bind (hparameters (by decide) ?_) fun ps s1 _ _ hps => ?_
    · simp [hk, DescriptorKind.parameters]
    refine bind (convert hI _) fun τ s2 h2 _ hτ => pure ?_
    exact .known (h2.declKeys hps) (hτ.bind fun _ => .pure _)
  | property info =>
    refine bind (convert hI _) fun τ s1 _ _ hτ => ?_
    refine bind (convertOptional hI _) fun r s2 h2 _ hr => ?_
    refine bind (convertOptional hI _) fun e s3 h3 _ he => ?_
    refine bind (hparameters (by decide) ?_) fun ts s4 h4 _ hts => pure ?_
    · simp [hk, DescriptorKind.parameters]
    have h3' := h3.trans h4
    refine ((h2.trans h3').agree hτ).bind fun _ => (h3'.agreeOptional hr).bind fun _ => ?_
    exact (h4.agreeOptional he).bind fun _ => .known hts (.pure _)
  | accessor info =>
    refine bind (symbolOf hI (by decide) _) fun id s1 _ _ hid => ?_
    refine bind (convert hI _) fun τ s2 h2 _ hτ => ?_
    refine bind (hparameters (by decide) ?_) fun ps s3 h3 _ hps => pure ?_
    · simp [hk, DescriptorKind.parameters]
    refine .known ((h2.trans h3).keyOf? hid) ?_
    exact (h3.agree hτ).bind fun _ => .known hps (.pure _)
  | typeParameter info =>
    exact bind (convertAll hI _) fun bs s1 _ _ hbs => pure (hbs.bind fun _ => .pure _)
  | valueParameter info =>
    refine bind (P := fun _ _ => True) ?_ fun value s1 _ _ _ => ?_
    · unfold Lower.placeholder
      split
      next =>
        refine bind (convert hI _) fun τ s1 _ _ _ => ?_
        exact bind (addExpr hI) fun e s2 _ _ _ => pure trivial
      next => exact pure trivial
    · exact bind (convert hI _) fun τ s2 _ _ hτ => pure (hτ.bind fun _ => .pure _)
  | typeAlias info =>
    refine bind (hparameters (by decide) ?_) fun ts s1 _ _ hts => ?_
    · simp [hk, DescriptorKind.parameters]
    refine bind (convert hI _) fun τ s2 h2 _ hτ => pure ?_
    exact .known (h2.declKeys hts) (hτ.bind fun _ => .pure _)

theorem declarationWith (hK : ∀ key, σ.world.Listed key → K key) :
    Declares σ K b (Lower.declarationWith declaration) := by
  intro s key id hid hkey
  have howned {s : State} (hs : b.Signed σ K s) (hid : s.keyOf? id = some key) {x : Symbol}
      (hx : s.table.get? id = some x) {c : DeclId} (ho : x.owner = some c) :
      s.declared? key = some c :=
    State.declared?_eq_some.2 ⟨id, x, (State.keyOf?_eq_some_iff hs.faithful.table).1 hid, hx, ho⟩
  refine given fun hs => symbol_bind fun x hx => ?_
  cases ho : x.owner with
  | some owner => exact pure (howned hs hid hx ho)
  | none =>
    refine descriptor_bind fun d hd => ?_
    refine bind (signatureWith hdecl hK hd) fun kind s1 h1 _ hkind => ?_
    refine bind (annotationCalls State.Signed.lasting _) fun calls s2 h2 hs2 _ => ?_
    have hid2 := h2.keyOf? (h1.keyOf? hid)
    refine symbol_bind fun y hy => ?_
    cases hoy : y.owner with
    | some owner => exact pure (howned hs2 hid2 hy hoy)
    | none => exact hs2.declare hkey hid2 hy hoy hd (hkind.mono (h2.signature? kind))

end

theorem declarationUpTo (hK : ∀ key, σ.world.Listed key → K key) :
    (fuel : Nat) → Declares σ K b (Lower.declarationUpTo fuel)
  | 0 => fun _ _ => throw
  | fuel + 1 => declarationWith (declarationUpTo hK fuel) hK

/-- A symbol gets the declaration that its descriptor calls for. -/
theorem declaration (hK : ∀ key, σ.world.Listed key → K key) :
    Declares σ K b Lower.declaration := fun hid hkey =>
  read_bind (declarationUpTo hK _ hid hkey)

end Yields

namespace State

variable {σ : Setting} {s s' : State} {key : Key} {id : SymbolId} {c : DeclId}

/-- The declaration of a symbol that has none is a new stub, and comes with new stubs for parameters
alone. -/
structure Declared (σ : Setting) (s s' : State) (key : Key) (c : DeclId) : Prop where
  signed : s.Signed σ (fun k => k = key ∨ σ.world.Listed k) s'
  new : s.store.decl? c = none
  stands : ∃ x, s'.store.decl? c = some x ∧ s'.Stands σ key x
  unique : ∀ {e x}, s'.store.decl? e = some x → s.store.decl? e = none →
    s'.keyOf? x.symbol = some key → e = c

theorem Apt.declaration (hs : s.Apt σ) (hid : s.keyOf? id = some key)
    (hfree : s.declared? key = none)
    (hrun : (Lower.declaration id key.2).runFrom σ s = (.ok c, s')) : s.Declared σ s' key c := by
  obtain ⟨hc, hf⟩ := hs
  have hyields := Yields.declaration (K := fun k => k = key ∨ σ.world.Listed k) (b := s)
    (fun _ => .inr) hid (.inl rfl) (.refl hc hf)
  rw [hrun] at hyields
  obtain ⟨_, hsigned, hdeclared⟩ := hyields
  obtain ⟨hstubbed, _⟩ := (Declares.declaration s key id (.refl hc)
    ((keyOf?_eq_some_iff hf.table).1 hid)).ok hrun
  obtain ⟨⟨hnew, _, x, hx, hcached, _⟩, _⟩ := hstubbed.stub (hdeclared c rfl) hfree
  have hnamed := (keyOf?_eq_some_iff hsigned.faithful.table).2 hcached
  refine ⟨hsigned, hnew, ?_, fun {e y} hy hnone hkey => ?_⟩
  · obtain ⟨key', _, hstands⟩ := hsigned.new hx hnew
    cases hstands.named.symm.trans hnamed
    exact ⟨x, hx, hstands⟩
  · obtain ⟨key', _, he⟩ := hstubbed.new hy hnone
    obtain ⟨z, hz, hkey'⟩ := Option.bind_eq_some_iff.1 (hsigned.faithful.declKey? he)
    cases hy.symm.trans hz
    cases hkey.symm.trans hkey'
    exact Option.some.inj (he.symm.trans (hdeclared c rfl))

theorem Declared.shows (h : s.Declared σ s' key c) : s'.Shows σ key.2 c := by
  obtain ⟨x, hx, hnamed, _, d, hd, hsig⟩ := h.stands
  exact ⟨d, x, hd, hx, ⟨key.1, hnamed⟩, hsig⟩

end State

end TypedTree
