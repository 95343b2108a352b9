import TypedTree.Proofs.Signature.Yields

namespace TypedTree

open Lower

namespace World

/-- The nodes declare these descriptors, in this order. -/
def Lists (w : World) (nodes : List NodeId) (descs : List DescId) : Prop :=
  nodes.map (fun id => (w.factsOf id).declares) = descs.map some

instance (w : World) (nodes : List NodeId) (descs : List DescId) :
    Decidable (w.Lists nodes descs) :=
  inferInstanceAs (Decidable (_ = _))

/-- A node lists the parameters that a descriptor of what it declares has. -/
def ListsParameters (w : World) : NodeKind → DescriptorKind → Prop
  | .classDecl n, .classLike info => w.Lists n.typeParameters info.typeParameters
  | .enumEntry _ _ _, .classLike info => w.Lists [] info.typeParameters
  | .function n, .function info =>
    w.Lists n.typeParameters info.typeParameters ∧ w.Lists n.parameters info.valueParameters
  | .property n, .property info => w.Lists n.typeParameters info.typeParameters
  | .typeAlias _ parameters _, .typeAlias info => w.Lists parameters info.typeParameters
  | .typeParameter _ _, .typeParameter _ => True
  | .parameter _, .valueParameter _ => True
  | _, _ => False

theorem Lists.forall₂ {w : World} (h : w.Lists nodes descs) :
    List.Forall₂ (fun id desc => (w.factsOf id).declares = some desc) nodes descs := by
  rw [Lists, ← List.forall₂_eq_eq_eq, List.forall₂_map_left_iff, List.forall₂_map_right_iff] at h
  exact h

end World

namespace State

variable {σ : Setting} {s s' : State}

/-- The declaration is one of what the node declares. Where the node lists the parameters that its
descriptor has, the declaration tells what the descriptor does. -/
structure Follows (σ : Setting) (s : State) (id : NodeId) (key : Key) (c : DeclId) : Prop where
  declares : (σ.world.factsOf id).declares = some key.2
  named : s.declKey? c = some key
  signature : ∃ n d x, σ.world.tree.node? id = some n ∧ σ.world.descriptor? key.2 = some d ∧
    s.store.decl? c = some x ∧
    (σ.world.ListsParameters n.kind d.kind → Agree (d.signature σ) (s.signature? x.kind))

theorem Follows.mono {id : NodeId} (h : s.Follows σ id key c) (hle : s.Le s') :
    s'.Follows σ id key c where
  declares := h.declares
  named := hle.declKey? h.named
  signature := by
    obtain ⟨n, d, x, hn, hd, hx, hsig⟩ := h.signature
    exact ⟨n, d, x, hn, hd, hle.decl hx, fun hl => (hsig hl).mono (hle.signature? x.kind)⟩

theorem Follows.shows {id : NodeId} (h : s.Follows σ id key c) {n : Node} {desc : DescId}
    {d : Descriptor} (hn : σ.world.tree.node? id = some n)
    (hdesc : (σ.world.factsOf id).declares = some desc) (hd : σ.world.descriptor? desc = some d)
    (hl : σ.world.ListsParameters n.kind d.kind) : s.Shows σ desc c := by
  obtain ⟨hdesc', hnamed, n', d', x, hn', hd', hx, hsig⟩ := h
  cases hdesc.symm.trans hdesc'
  cases hn.symm.trans hn'
  cases hd.symm.trans hd'
  obtain ⟨x', hx', hkey⟩ := Option.bind_eq_some_iff.1 hnamed
  cases hx.symm.trans hx'
  exact ⟨d, x, hd, hx, ⟨key.1, hkey⟩, hsig hl⟩

theorem declKeys_of_lists {descs : List DescId} {cs : List DeclId}
    (h : List.Forall₂ (fun id c => ∃ desc, s.Follows σ id (kind, desc) c) nodes cs)
    (hl : σ.world.Lists nodes descs) : cs.mapM s.declKey? = some (descs.map (kind, ·)) := by
  rw [mapM_eq_some_iff, List.forall₂_map_right_iff]
  replace hl := hl.forall₂
  induction hl generalizing cs with
  | nil =>
    cases h
    exact .nil
  | cons hdesc _ ih =>
    cases h with
    | cons hc hcs =>
      obtain ⟨desc, hc⟩ := hc
      cases hdesc.symm.trans hc.declares
      exact .cons hc.named (ih hcs)

end State

namespace Yields

variable {σ : Setting} {s : State}

theorem unexpectedDeclaration {α : Type} {Q : State → α → Prop} :
    Yields σ I s (Lower.unexpectedDeclaration d what : Lower α) Q := throw

theorem symbolFor (hd : σ.world.descriptor? desc = some d) :
    Brings σ s (Lower.symbolFor desc) fun s id =>
      s.keyOf? id = some (d.symbolKind, desc) := by
  refine (symbolOf State.Apt.lasting (Seeks.symbolKind_ne_initializer d) desc).of_runFrom ?_
  simp only [Lower.symbolFor, Lower.symbolOf, runFrom_bind, runFrom_get, runFrom_read,
    SymbolTable.symbolFor?, hd, Option.bind_some]

section declare

variable {node : NodeId} {n : Node} {key : Key} {d : Descriptor} {id : SymbolId}
  {calls : List ExprId} {kind : DeclKind} (hn : σ.world.tree.node? node = some n)
  (hdesc : (σ.world.factsOf node).declares = some key.2)
  (hd : σ.world.descriptor? key.2 = some d) (hid : s.keyOf? id = some key)
  (hsig : σ.world.ListsParameters n.kind d.kind → Agree (d.signature σ) (s.signature? kind))

include hn hdesc hd hid hsig

theorem declare : Brings σ s (Lower.declare id .source calls kind) fun s c =>
    s.Follows σ node key c := by
  intro hs
  have hwork : Builds σ false [id] (Lower.declare id .source calls kind) := .declare nofun
  have hup := hwork.upholds hs.1 hs.2
  refine ⟨hup.le, ⟨hwork.coherent hs.1, hup.faithful⟩, fun c hc => ?_⟩
  have hle := hup.le
  obtain ⟨x, hx, _⟩ := Option.bind_eq_some_iff.1 hid
  rw [runFrom_declare hx] at hle hc ⊢
  cases ho : x.owner with
  | some owner => simp [ho] at hc
  | none =>
    simp only [ho] at hle hc ⊢
    cases hc
    have hnew : (s.store.addDecl ⟨id, .source, calls, kind⟩).2.decl? ⟨s.store.decls.size⟩ =
        some ⟨id, .source, calls, kind⟩ := by simp [Store.addDecl, Store.decl?]
    exact ⟨hdesc, Option.bind_eq_some_iff.2 ⟨_, hnew, hle.keyOf? hid⟩, n, d, _, hn, hd, hnew,
      fun hl => (hsig hl).mono (hle.signature? kind)⟩

theorem declareCallable :
    Brings σ s (Lower.declareCallable target id .source calls kind) fun s c =>
      s.Follows σ node key c :=
  bind (declare hn hdesc hd hid hsig) fun _ _ _ _ hc =>
    bind (work .bindFunctionTarget) fun _ _ h2 _ _ => pure (hc.mono h2)

end declare

theorem lowerTypeParameter {id : NodeId} :
    Brings σ s (Lower.lowerTypeParameter id) fun s c =>
      ∃ desc, s.Follows σ id (.typeParameter, desc) c := by
  refine node_bind fun n hn => ?_
  split
  next annotations hnode =>
    refine declared_bind fun desc hdesc => descriptor_bind fun d hd => ?_
    split
    next => exact unexpectedDeclaration
    next info hi =>
      refine bind (symbolOf State.Apt.lasting (by decide) desc) fun symbol s1 _ _ hid => ?_
      refine bind (work Tidy.annotationEntries) fun calls s2 h2 _ _ => ?_
      refine bind (convertAll State.Apt.lasting _) fun bounds s3 h3 _ hbounds => ?_
      have hid := (h2.trans h3).keyOf? hid
      refine (declare hn hdesc hd hid fun _ => ?_).imp fun _ _ _ hc => ⟨desc, hc⟩
      rw [Descriptor.signature, Descriptor.kind_of_typeParameter? hi]
      exact hbounds.bind fun _ => .pure _
  next => exact unexpected

theorem lowerTypeParameters :
    Brings σ s (ids.mapM Lower.lowerTypeParameter) fun s cs =>
      ∀ descs, σ.world.Lists ids descs →
        cs.mapM s.declKey? = some (descs.map (.typeParameter, ·)) :=
  (mapM (S := fun s id c => ∃ desc, s.Follows σ id (.typeParameter, desc) c)
    (fun hle h => h.imp fun _ h => h.mono hle) fun _ _ _ _ => lowerTypeParameter).imp
      fun _ _ _ h _ hl => State.declKeys_of_lists h hl

theorem lowerTypeAlias {id : NodeId} (hn : σ.world.tree.node? id = some n)
    (hkind : n.kind = .typeAlias name typeParameters annotations) :
    Brings σ s (Lower.lowerTypeAlias id typeParameters annotations) fun s c =>
      ∃ key, s.Follows σ id key c := by
  refine declared_bind fun desc hdesc => descriptor_bind fun d hd => ?_
  split
  next => exact unexpectedDeclaration
  next info hi =>
    have hk := Descriptor.kind_of_typeAlias? hi
    refine bind (symbolOf State.Apt.lasting (by decide) desc) fun symbol s1 _ _ hid => ?_
    refine bind (work Tidy.annotationEntries) fun calls s2 h2 _ _ => ?_
    refine bind lowerTypeParameters fun ts s3 h3 _ hts => ?_
    refine bind (convert State.Apt.lasting _) fun τ s4 h4 _ hτ => ?_
    have hid := (h2.trans (h3.trans h4)).keyOf? hid
    refine (declare hn hdesc hd hid fun hl => ?_).imp fun _ _ _ hc => ⟨_, hc⟩
    rw [hkind, hk] at hl
    rw [Descriptor.signature, hk]
    exact .known (h4.declKeys (hts _ hl)) (hτ.bind fun _ => .pure _)

section descent

variable {d : Descent} (hd : d.Tidy σ) {scope : Scope}

include hd

theorem lowerValueParameter {id : NodeId} :
    Brings σ s (Lower.lowerValueParameter d scope id) fun s c =>
      ∃ desc, s.Follows σ id (.valueParameter, desc) c := by
  refine node_bind fun n hn => ?_
  split
  next parameter hnode =>
    refine declared_bind fun desc hdesc => descriptor_bind fun descriptor hdescriptor => ?_
    split
    next => exact unexpectedDeclaration
    next info hi =>
      refine bind (symbolOf State.Apt.lasting (by decide) desc) fun symbol s1 _ _ hid => ?_
      refine bind (work Tidy.annotationEntries) fun calls s2 h2 _ _ => ?_
      refine bind (work (Tidy.optionMapM (hd.expr scope))) fun value s3 h3 _ _ => ?_
      refine facts_bind ?_
      refine bind (work (Tidy.optionMapM fun _ => Tidy.symbolOf (by decide)))
        fun property s4 h4 _ _ => ?_
      refine bind (convert State.Apt.lasting _) fun τ s5 h5 _ hτ => ?_
      have hid := (h2.trans (h3.trans (h4.trans h5))).keyOf? hid
      refine (declare hn hdesc hdescriptor hid fun _ => ?_).imp fun _ _ _ hc => ⟨desc, hc⟩
      rw [Descriptor.signature, Descriptor.kind_of_valueParameter? hi]
      exact hτ.bind fun _ => .pure _
  next => exact unexpected

theorem lowerValueParameters :
    Brings σ s (ids.mapM (Lower.lowerValueParameter d scope)) fun s cs =>
      ∀ descs, σ.world.Lists ids descs →
        cs.mapM s.declKey? = some (descs.map (.valueParameter, ·)) :=
  (mapM (S := fun s id c => ∃ desc, s.Follows σ id (.valueParameter, desc) c)
    (fun hle h => h.imp fun _ h => h.mono hle) fun _ _ _ _ => lowerValueParameter hd).imp
      fun _ _ _ h _ hl => State.declKeys_of_lists h hl

theorem lowerFunction {id : NodeId} :
    Brings σ s (Lower.lowerFunction d scope id label) fun s c =>
      ∃ key, s.Follows σ id key c := by
  have hI : Lasting σ (State.Apt σ) := State.Apt.lasting
  refine node_bind fun n hn => ?_
  split
  next function hnode =>
    refine declared_bind fun desc hdesc => descriptor_bind fun descriptor hdescriptor => ?_
    split
    next => exact unexpectedDeclaration
    next info hi =>
      have hk := Descriptor.kind_of_function? hi
      refine bind (symbolFor hdescriptor) fun symbol s1 _ _ hid => ?_
      refine bind (work Tidy.annotationEntries) fun calls s2 h2 _ _ => ?_
      refine bind lowerTypeParameters fun ts s3 h3 _ hts => ?_
      refine bind (work .newFunctionTarget) fun target s4 h4 _ _ => ?_
      refine bind (lowerValueParameters hd) fun ps s5 h5 _ hps => ?_
      refine bind (work (Tidy.optionMapM fun _ => Tidy.lowerFunctionBody hd))
        fun body s6 h6 _ _ => ?_
      refine bind (convertOptional hI _) fun r s7 h7 _ hr => ?_
      refine bind (convertOptional hI _) fun e s8 h8 _ he => ?_
      refine bind (convert hI _) fun τ s9 h9 _ hτ => ?_
      refine bind (symbols hI (by decide) _) fun os s10 h10 _ hos => ?_
      have h8' := h9.trans h10
      have h7' := h8.trans h8'
      have h5' := h6.trans (h7.trans h7')
      have h3' := h4.trans (h5.trans h5')
      have hid := (h2.trans (h3.trans h3')).keyOf? hid
      refine (declareCallable hn hdesc hdescriptor hid fun hl => ?_).imp fun _ _ _ hc => ⟨_, hc⟩
      rw [hnode, hk] at hl
      rw [Descriptor.signature, hk]
      refine .known (h3'.declKeys (hts _ hl.1)) ?_
      refine (h7'.agreeOptional hr).bind fun _ => (h8'.agreeOptional he).bind fun _ => ?_
      refine .known (h5'.declKeys (hps _ hl.2)) ?_
      exact (h10.agree hτ).bind fun _ => .known hos (.pure _)
  next => exact unexpected

theorem lowerProperty {id : NodeId} {n : Node} {node : PropertyNode}
    (hn : σ.world.tree.node? id = some n) (hkind : n.kind = .property node) :
    Brings σ s (Lower.lowerProperty d scope id node) fun s c =>
      ∃ key, s.Follows σ id key c := by
  have hI : Lasting σ (State.Apt σ) := State.Apt.lasting
  refine declared_bind fun desc hdesc => descriptor_bind fun descriptor hdescriptor => ?_
  split
  next => exact unexpectedDeclaration
  next info hi =>
    have hk := Descriptor.kind_of_property? hi
    refine bind (symbolOf hI (by decide) desc) fun symbol s1 _ _ hid => ?_
    refine bind (work Tidy.annotationEntries) fun calls s2 h2 _ _ => ?_
    refine bind lowerTypeParameters fun ts s3 h3 _ hts => ?_
    refine bind (convert hI _) fun τ s4 h4 _ hτ => ?_
    refine bind (work (Tidy.optionMapM (hd.expr scope))) fun value s5 h5 _ _ => ?_
    refine bind (work (Tidy.propertyParts hd)) fun parts s6 h6 _ _ => ?_
    refine bind (convertOptional hI _) fun r s7 h7 _ hr => ?_
    refine bind (convertOptional hI _) fun e s8 h8 _ he => ?_
    have h4' := h5.trans (h6.trans (h7.trans h8))
    have h3' := h4.trans h4'
    have hid := (h2.trans (h3.trans h3')).keyOf? hid
    refine (declare hn hdesc hdescriptor hid fun hl => ?_).imp fun _ _ _ hc => ⟨_, hc⟩
    rw [hkind, hk] at hl
    rw [Descriptor.signature, hk]
    refine (h4'.agree hτ).bind fun _ => (h8.agreeOptional hr).bind fun _ => ?_
    exact he.bind fun _ => .known (h3'.declKeys (hts _ hl)) (.pure _)

theorem lowerClass {id : NodeId} :
    Brings σ s (Lower.lowerClass d id) fun s c => ∃ key, s.Follows σ id key c := by
  have hI : Lasting σ (State.Apt σ) := State.Apt.lasting
  refine node_bind fun n hn => ?_
  split
  next node hnode =>
    refine declared_bind fun desc hdesc => descriptor_bind fun descriptor hdescriptor => ?_
    split
    next => exact unexpectedDeclaration
    next info hi =>
      have hk := Descriptor.kind_of_class? hi
      refine bind (symbolOf hI (by decide) desc) fun symbol s1 _ _ hid => ?_
      refine bind (work Tidy.annotationEntries) fun calls s2 h2 _ _ => ?_
      refine bind lowerTypeParameters fun ts s3 h3 _ hts => ?_
      refine bind (work (Tidy.lowerPrimaryConstructor hd)) fun constructors s4 h4 _ _ => ?_
      refine bind (work (Tidy.mapM (hd.decl .root))) fun members s5 h5 _ _ => ?_
      simp only [Lower.classDecl, bind_assoc, pure_bind]
      refine bind (convertAll hI _) fun supertypes s6 h6 _ hss => ?_
      have h3' := h4.trans (h5.trans h6)
      have hid := (h2.trans (h3.trans h3')).keyOf? hid
      refine (declare hn hdesc hdescriptor hid fun hl => ?_).imp fun _ _ _ hc => ⟨_, hc⟩
      rw [hnode, hk] at hl
      rw [Descriptor.signature, hk]
      exact .known (h3'.declKeys (hts _ hl)) (hss.bind fun _ => .pure _)
  next => exact unexpected

theorem lowerEnumEntry {id : NodeId} (hn : σ.world.tree.node? id = some n)
    (hkind : n.kind = .enumEntry name declarations annotations) :
    Brings σ s (Lower.lowerEnumEntry d id declarations annotations) fun s c =>
      ∃ key, s.Follows σ id key c := by
  have hI : Lasting σ (State.Apt σ) := State.Apt.lasting
  refine declared_bind fun desc hdesc => descriptor_bind fun descriptor hdescriptor => ?_
  split
  next => exact unexpectedDeclaration
  next info hi =>
    have hk := Descriptor.kind_of_class? hi
    refine bind (symbolOf hI (by decide) desc) fun symbol s1 _ _ hid => ?_
    refine bind (work Tidy.annotationEntries) fun calls s2 h2 _ _ => ?_
    refine bind (work (Tidy.mapM (hd.decl .root))) fun members s3 h3 _ _ => ?_
    simp only [Lower.classDecl, bind_assoc, pure_bind]
    refine bind (convertAll hI _) fun supertypes s4 h4 _ hss => ?_
    have hid := (h2.trans (h3.trans h4)).keyOf? hid
    refine (declare hn hdesc hdescriptor hid fun hl => ?_).imp fun _ _ _ hc => ⟨_, hc⟩
    rw [hkind, hk] at hl
    rw [Descriptor.signature, hk]
    exact .known (State.declKeys_of_lists (σ := σ) .nil hl) (hss.bind fun _ => .pure _)

theorem declarationStep {id : NodeId} {n : Node} {desc : DescId} {descriptor : Descriptor}
    (hn : σ.world.tree.node? id = some n) (hdesc : (σ.world.factsOf id).declares = some desc)
    (hdescriptor : σ.world.descriptor? desc = some descriptor)
    (hl : σ.world.ListsParameters n.kind descriptor.kind) :
    Brings σ s (Lower.declarationStep d scope id) fun s c => s.Shows σ desc c := by
  have hshows (s : State) (c : DeclId) (_ : s.Apt σ) (h : ∃ key, s.Follows σ id key c) :
      s.Shows σ desc c := by
    obtain ⟨key, h⟩ := h
    exact h.shows hn hdesc hdescriptor hl
  refine node_bind fun n' hn' => ?_
  cases hn.symm.trans hn'
  cases hkind : n.kind with
  | classDecl node => exact (lowerClass hd).imp hshows
  | enumEntry name declarations annotations => exact (lowerEnumEntry hd hn hkind).imp hshows
  | function node => exact (lowerFunction hd).imp hshows
  | property node => exact (lowerProperty hd hn hkind).imp hshows
  | typeAlias name typeParameters annotations => exact (lowerTypeAlias hn hkind).imp hshows
  | secondaryConstructor _ _ _ _ | initializer _ _ => rw [hkind] at hl; exact hl.elim
  | _ => exact unexpected

end descent

end Yields

end TypedTree
