import TypedTree.Proofs.Effect
import TypedTree.Proofs.Pairing.Steps

namespace TypedTree

namespace Pairing

variable {σ : Setting} {strict : Bool} {b b' : Ledger σ strict} {w : Pairing b b'}
  {files files' : List SourceFile} {α β : Type} {g : Region}

theorem runs_of_ok (w' : Pairing b b') (hle : w ≤ w')
    (h : m.runFrom (σ.withFiles files) w.left.state = (.ok c, w'.left.state))
    (h' : m'.runFrom (σ.withFiles files') w.right.state = (.ok c', w'.right.state))
    (hQ : Q w' c c') :
    (tandem b b' files files').Runs w m m' Q := by
  unfold Tandem.Runs
  change (tandem b b' files files').Outcome w Q (m.runFrom (σ.withFiles files) w.left.state)
    (m'.runFrom (σ.withFiles files') w.right.state)
  rw [h, h']
  exact ⟨w', c', hle, rfl, hQ, .inl rfl⟩

theorem shown_le_ids (w : Pairing b b') :
    (Entries.shown σ w.left.toEntries w.right.toEntries).Le w.ids :=
  w.links.shown_le _ _

theorem alike_type {id : TypeId}
    (h : Realizes σ w.left.toEntries (.type id) (.type τ) ∧
      Realizes σ w.right.toEntries (.type id) (.type τ')) :
    TreeType.Alike w.ids τ τ' := by
  cases h.1.alike h.2 with
  | type h => exact h.mono w.shown_le_ids

theorem does_convert {id : TypeId} (hid : σ.world.Finds (.type id)) :
    (tandem b b' files files').Does w (Lower.convert id) (Lower.convert id) fun w' τ τ' =>
      Realizes σ w'.left.toEntries (.type id) (.type τ) ∧
        Realizes σ w'.right.toEntries (.type id) (.type τ') :=
  does_makes (fun _ L => Ledger.convert L hid) Realizes.form_type

theorem makes_symbolOf (hdesc : σ.world.Finds (.desc desc)) (hfits : σ.world.Fits kind desc)
    (files : List SourceFile) (L : Ledger σ strict) :
    L.Makes files (.symbol kind desc) (Lower.symbolOf kind desc) fun L' id =>
      Realizes σ L'.toEntries (.symbol kind desc) (.symbol id) := by
  refine (Ledger.Makes.symbolOf hdesc ?_ ?_ hfits).imp fun L' id _ hc => ?_
  · rintro ⟨n, m, h⟩
    cases h with
    | symbol hd => simp [hd]
  · intro n m h
    cases h with
    | symbol _ _ hc => simp [hc]
  · obtain ⟨_, d, _, _, hd, _⟩ := L'.sound.table.cached hc
    exact .symbol hd hfits hc

theorem does_symbol
    (hm : ∀ (files : List SourceFile) (L : Ledger σ strict),
      L.Makes files (.symbol kind desc) m fun L' id =>
        Realizes σ L'.toEntries (.symbol kind desc) (.symbol id)) :
    (tandem b b' files files').Does w m m fun w' => w'.ids.symbol := by
  refine (does_makes hm fun h => ?_).imp fun w' a a' _ h => ?_
  · cases h with
    | symbol => exact ⟨_, rfl⟩
  · cases h.1.alike h.2 with
    | symbol h => exact .inl h

theorem fits_symbolKind {w : World} {d : Descriptor} (hd : w.descriptor? desc = some d) :
    w.Fits d.symbolKind desc := by
  constructor
  · intro h
    refine ⟨d, hd, ?_⟩
    unfold Descriptor.symbolKind at h
    split at h <;> simp_all [Descriptor.typeParameter?]
    split at h <;> cases h
  · intro h
    refine ⟨d, hd, ?_⟩
    unfold Descriptor.symbolKind at h
    split at h <;> simp_all [Descriptor.valueParameter?]
    split at h <;> cases h

theorem runFrom_symbolFor (desc : DescId) (files : List SourceFile) (s : State) :
    (Lower.symbolFor desc).runFrom (σ.withFiles files) s =
      match σ.world.descriptor? desc with
      | some d => (Lower.symbolOf d.symbolKind desc).runFrom (σ.withFiles files) s
      | none => (.error .dangling, s) := by
  have h : s.table.symbolFor? (σ.withFiles files).world desc = (σ.world.descriptor? desc).bind
      fun d => s.table.getOrCreate? (σ.withFiles files).world d.symbolKind desc := rfl
  simp only [Lower.symbolFor, Lower.symbolOf]
  rw [Lower.runFrom_bind_ok _ _ (Lower.runFrom_get _ _),
    Lower.runFrom_bind_ok _ _ (Lower.runFrom_read _ _), h]
  cases σ.world.descriptor? desc with
  | none => rfl
  | some d => rfl

theorem does_symbolFor (hdesc : σ.world.Finds (.desc desc)) :
    (tandem b b' files files').Does w (Lower.symbolFor desc) (Lower.symbolFor desc)
      fun w' => w'.ids.symbol := by
  cases hd : σ.world.descriptor? desc with
  | some d =>
    have hm : ∀ (files : List SourceFile) (L : Ledger σ strict),
        L.Makes files (.symbol d.symbolKind desc) (Lower.symbolFor desc) fun L' id =>
          Realizes σ L'.toEntries (.symbol d.symbolKind desc) (.symbol id) := by
      intro files L
      have h := makes_symbolOf hdesc (fits_symbolKind hd) files L
      unfold Ledger.Makes at h ⊢
      rwa [runFrom_symbolFor, hd]
    exact does_symbol hm
  | none =>
    unfold Tandem.Does Tandem.Runs
    change (tandem b b' files files').Outcome w _
      ((Lower.symbolFor desc).runFrom (σ.withFiles files) w.left.state) _
    rw [runFrom_symbolFor, hd]
    refine ⟨⟨w.left, le_refl _, rfl⟩, fun h => ?_, by simp⟩
    have := hdesc h
    simp [World.has, hd] at this

theorem does_settle (h : Realizes σ w.left.toEntries x (.content c))
    (h' : Realizes σ w.right.toEntries x (.content c')) :
    (tandem b b' files files').Does w (Lower.addContent c) (Lower.addContent c') fun w' =>
      Option.Rel w'.ids.note := by
  cases h.alike h' with
  | content hc =>
    cases hc with
    | none => exact Tandem.Does.pure .none
    | some _ =>
      have hN : ∀ {n : Entries} (kind : SymbolKind) (desc : DescId), False →
          (n.cached? kind desc).isSome := fun _ _ hf => hf.elim
      refine runs_of_ok (w.gain (w.left.gains_settle (N := fun _ _ => False) h)
        (w.right.gains_settle (N := fun _ _ => False) h') hN hN) (w.le_gain ..) rfl rfl
        ⟨rfl, .some ⟨x, _, _, ?_, w.left.stands_settle h, ?_, w.right.stands_settle h'⟩⟩
      · exact h.mono (w.left.gains_settle (N := fun _ _ => False) h).le
      · exact h'.mono (w.right.gains_settle (N := fun _ _ => False) h').le

theorem does_annotationCall (hk : σ.world.Knows use.refs) :
    (tandem b b' files files').Does w (Lower.annotationCall use) (Lower.annotationCall use)
      fun w' => Option.Rel w'.ids.note := by
  refine Tandem.Does.bind (does_makes (fun _ L => Ledger.annotationWith Ledger.convert use L hk)
    Realizes.form_annotationUse) fun w' c c' _ h => ?_
  exact does_settle h.1 h.2

theorem does_addExpr (hτ : TreeType.Alike w.ids τ τ') (hk : ExprKind.Alike w.ids g k k')
    (hp : k.isPlain) :
    (tandem b b' files files').Does w (Lower.addExpr τ k) (Lower.addExpr τ' k')
      fun w' => w'.ids.expr g := by
  have h : Expr.Alike w.ids g ⟨τ, [], k⟩ ⟨τ', [], k'⟩ := ⟨hτ, .nil, hk⟩
  exact runs_of_ok (w.addExpr h hp) (w.le_addExpr h hp) rfl rfl
    ⟨rfl, g, .inr ⟨rfl, rfl, rfl⟩, List.Subset.refl _⟩

theorem isPlain_content (h : Realizes σ n x (.content (some c))) : c.2.isPlain := by
  generalize hm : Made.content (some c) = m at h
  induction h with
  | nested _ ih => exact ih hm
  | _ => cases hm <;> rfl

theorem does_constant (hk : σ.world.Knows value.refs)
    (he : ∀ id ∈ expected, σ.world.Finds (.type id)) :
    (tandem b b' files files').Does w (Lower.constant value expected)
      (Lower.constant value expected) fun w' => Option.Rel (w'.ids.expr []) := by
  refine Tandem.Does.bind (does_makes (fun _ L => Ledger.constantWith Ledger.convert value L hk he)
    Realizes.form_constant) fun w' c c' _ h => ?_
  cases h.1.alike h.2 with
  | content hc =>
    cases hc with
    | none => exact Tandem.Does.pure .none
    | some hc =>
      exact Tandem.Does.bind (does_addExpr (hc.1.mono w'.shown_le_ids)
        (hc.2.mono w'.shown_le_ids (List.Subset.refl _)) (isPlain_content h.1))
        fun w'' e e' _ he => Tandem.Does.pure (.some he)

theorem does_freshLocal (kind : SymbolKind) (name : Name) :
    (tandem b b' files files').Does w (Lower.freshLocal kind name) (Lower.freshLocal kind name)
      fun w' => w'.ids.symbol :=
  runs_of_ok (w.fresh kind _) (w.le_fresh kind _) rfl rfl ⟨rfl, .inr (.inr ⟨rfl, rfl⟩)⟩

theorem symbol_unique (h : w.ids.symbol a a') (h' : w.ids.symbol c c') : a = c ↔ a' = c' := by
  rcases h with ⟨k, e, hk, hk'⟩ | hl
  · constructor
    · rintro rfl
      have := (w.keys.cached_iff w.left.sound w.right.sound h').1 hk
      exact Option.some.inj (hk'.symm.trans this)
    · rintro rfl
      have := (w.keys.cached_iff w.left.sound w.right.sound h').2 hk'
      exact Option.some.inj (hk.symm.trans this)
  · rcases h' with ⟨k, e, hk, hk'⟩ | hl'
    · obtain ⟨hn, hn'⟩ := w.keys.symbol_loose hl
      constructor
      · rintro rfl
        cases hn.symm.trans (w.left.sound.descriptorOf_cached hk)
      · rintro rfl
        cases hn'.symm.trans (w.right.sound.descriptorOf_cached hk')
    · exact w.keys.symbol_unique hl hl'

theorem alike_part (h : w.ids.part g e e') : ∃ x x', w.left.expr? e = some x ∧
    w.right.expr? e' = some x' ∧ Expr.Alike w.ids g x x' := by
  rcases h with ⟨g', h, hg⟩ | ⟨x, c, c', hx, hs, hx', hs'⟩
  · obtain ⟨x, x', hx, hx', hxx⟩ := w.nodes.expr h
    exact ⟨x, x', hx, hx', hxx.mono ⟨id, id, id, id, id⟩ hg⟩
  · refine ⟨_, _, hs.2, hs'.2, ?_⟩
    cases hx.alike hx' with
    | content hc =>
      cases hc with
      | some hc =>
        exact ⟨hc.1.mono w.shown_le_ids, .nil, hc.2.mono w.shown_le_ids (List.nil_subset _)⟩

theorem begins_function (label : Option Name) (isLambda : Bool) :
    (tandem b b' files files').Runs w (Lower.newFunctionTarget label isLambda)
      (Lower.newFunctionTarget label isLambda) fun w' t t' =>
        w'.opens = (.function t, .function t') :: w.opens ∧
          w'.ids.holder (.function t) (.function t') := by
  refine runs_of_ok (w.begin
    (L := ⟨_, w.left.sound.beginFunction label isLambda⟩)
    (R := ⟨_, w.right.sound.beginFunction label isLambda⟩)
    ⟨w.left.le_beginFunction label isLambda, id⟩ ⟨w.right.le_beginFunction label isLambda, id⟩
    rfl rfl ?_ ?_ ?_ rfl rfl rfl rfl) ⟨w.left.le_beginFunction label isLambda,
      w.right.le_beginFunction label isLambda, w.links.le_addHolder _ _⟩ rfl rfl
    ⟨rfl, .inr ⟨rfl, rfl⟩⟩
  · simp [Entries.Has, Store.Has, Store.functionTarget?]
  · simp [Entries.Has, Store.Has, Store.functionTarget?]
  · refine ⟨_, _, Array.getElem?_push_size, Array.getElem?_push_size, rfl, rfl⟩

theorem begins_loop (label : Option Name) :
    (tandem b b' files files').Runs w (Lower.newLoopTarget label) (Lower.newLoopTarget label)
      fun w' t t' => w'.opens = (.loop t, .loop t') :: w.opens ∧
        w'.ids.holder (.loop t) (.loop t') := by
  refine runs_of_ok (w.begin
    (L := ⟨_, w.left.sound.beginLoop label⟩) (R := ⟨_, w.right.sound.beginLoop label⟩)
    ⟨w.left.le_beginLoop label, id⟩ ⟨w.right.le_beginLoop label, id⟩
    rfl rfl ?_ ?_ ?_ rfl rfl rfl rfl) ⟨w.left.le_beginLoop label,
      w.right.le_beginLoop label, w.links.le_addHolder _ _⟩ rfl rfl ⟨rfl, .inr ⟨rfl, rfl⟩⟩
  · simp [Entries.Has, Store.Has, Store.loopTarget?]
  · simp [Entries.Has, Store.Has, Store.loopTarget?]
  · exact ⟨_, _, Array.getElem?_push_size, Array.getElem?_push_size, rfl⟩

theorem begins_choice :
    (tandem b b' files files').Runs w Lower.newWhenRef Lower.newWhenRef fun w' r r' =>
      w'.opens = (.choice r, .choice r') :: w.opens ∧
        w'.ids.holder (.choice r) (.choice r') := by
  refine runs_of_ok (w.begin
    (L := ⟨_, w.left.sound.beginChoice⟩) (R := ⟨_, w.right.sound.beginChoice⟩)
    ⟨w.left.le_beginChoice, id⟩ ⟨w.right.le_beginChoice, id⟩
    rfl rfl ?_ ?_ ?_ rfl rfl rfl rfl) ⟨w.left.le_beginChoice, w.right.le_beginChoice,
      w.links.le_addHolder _ _⟩ rfl rfl ⟨rfl, .inr ⟨rfl, rfl⟩⟩
  · simp [Entries.Has, Store.Has, Store.whenRef?]
  · simp [Entries.Has, Store.Has, Store.whenRef?]
  · constructor <;> simp [Entries.beginChoice, Store.addWhenRef, Store.whenRef?]

section owner

variable {o : Region} {τ τ' : TreeType} {k k' : ExprKind} (hτ : TreeType.Alike w.ids τ τ')
  (hk : ExprKind.Alike w.ids g k k')

include hτ hk

theorem closes_loop (ho : w.opens = (.loop t, .loop t') :: o) (hm : .holds (.loop t) ∈ k.mentions) :
    (tandem b b' files files').Runs w (Lower.addLoop t τ k) (Lower.addLoop t' τ' k')
      fun w' e e' => w'.opens = o ∧ w'.ids.expr g e e' := by
  have h : Expr.Alike w.ids g ⟨τ, [], k⟩ ⟨τ', [], k'⟩ := ⟨hτ, .nil, hk⟩
  have hx := (k.holds_mem _).1 hm
  have hl := w.left.sound.guarded.opens (.loop t) (by simp [w.opens_left_cons ho])
  have hr := w.right.sound.guarded.opens (.loop t') (by simp [w.opens_right_cons ho])
  exact runs_of_ok (w.addOwner ho h hx trivial trivial) (w.le_addOwner ho h hx trivial trivial)
    (runFrom_addLoop hl.1 hl.2 τ k) (runFrom_addLoop hr.1 hr.2 τ' k')
    ⟨rfl, g, .inr ⟨rfl, rfl, rfl⟩, List.Subset.refl _⟩

theorem closes_choice (ho : w.opens = (.choice r, .choice r') :: o)
    (hm : .holds (.choice r) ∈ k.mentions) :
    (tandem b b' files files').Runs w (Lower.addChoice r τ k) (Lower.addChoice r' τ' k')
      fun w' e e' => w'.opens = o ∧ w'.ids.expr g e e' := by
  have h : Expr.Alike w.ids g ⟨τ, [], k⟩ ⟨τ', [], k'⟩ := ⟨hτ, .nil, hk⟩
  have hx := (k.holds_mem _).1 hm
  have hl := w.left.sound.guarded.opens (.choice r) (by simp [w.opens_left_cons ho])
  have hr := w.right.sound.guarded.opens (.choice r') (by simp [w.opens_right_cons ho])
  exact runs_of_ok (w.addOwner ho h hx trivial trivial) (w.le_addOwner ho h hx trivial trivial)
    (runFrom_addChoice hl.1 hl.2 τ k) (runFrom_addChoice hr.1 hr.2 τ' k')
    ⟨rfl, g, .inr ⟨rfl, rfl, rfl⟩, List.Subset.refl _⟩

end owner

theorem does_annotateExpr (he : w.ids.expr g e e') {xs xs' : List ExprId}
    (hxs : List.Forall₂ w.ids.note xs xs') :
    (tandem b b' files files').Does w (Lower.annotateExpr e xs) (Lower.annotateExpr e' xs')
      fun _ _ _ => True := by
  obtain ⟨g', he, _⟩ := he
  obtain ⟨x, x', hx, hx', _⟩ := w.nodes.expr he
  exact runs_of_ok (w.annotate he hxs) (w.le_annotate he hxs) (runFrom_annotateExpr hx xs)
    (runFrom_annotateExpr hx' xs') ⟨rfl, trivial⟩

/-- Symbols that stand for each other are there. A symbol that only the second run has declared was
declared before. -/
theorem owners_of_symbol (hs : w.ids.symbol s s') : ∃ x x',
    w.left.symbol? s = some x ∧ w.right.symbol? s' = some x' ∧
    (x.owner = none → x'.owner = none ∨ ∃ kind desc, w.left.cached? kind desc = some s ∧
      (b'.declared? kind desc).isSome) := by
  rcases hs with ⟨kind, desc, hc, hc'⟩ | hl
  · obtain ⟨x, _, hx, _⟩ := w.left.sound.table.cached hc
    obtain ⟨x', _, hx', _⟩ := w.right.sound.table.cached hc'
    refine ⟨x, x', hx, hx', fun ho => ?_⟩
    cases ho' : x'.owner with
    | none => exact .inl rfl
    | some d' =>
      refine .inr ⟨kind, desc, hc, ?_⟩
      by_contra hnone
      have hd' : w.right.declared? kind desc = some d' :=
        Entries.declared?_eq_some.2 ⟨s', x', hc', hx', ho'⟩
      obtain ⟨_, hsome⟩ := w.keys.declared' (Option.isSome_of_mem hd')
        (by simpa using hnone)
      obtain ⟨d, hd⟩ := Option.isSome_iff_exists.1 hsome
      obtain ⟨id, y, hid, hy, hyo⟩ := Entries.declared?_eq_some.1 hd
      cases hc.symm.trans hid
      cases hy.symm.trans hx
      cases ho.symm.trans hyo
  · obtain ⟨x, x', hx, hx', _, _, hr⟩ := w.keys.symbol hl
    refine ⟨x, x', hx, hx', fun ho => .inl ?_⟩
    rw [ho] at hr
    generalize x'.owner = y at hr ⊢
    cases hr
    rfl

/-- Both runs make a declaration, once it is added, the owner of its symbol. -/
theorem binds_symbol (hv : v ≤ w) {m m' : Lower DeclId} {s s' : SymbolId} {d d' : DeclId}
    (origin : Origin) (hs : w.ids.symbol s s') (hd : w.links.decl d d' g)
    (hok : ∀ x, w.left.symbol? s = some x → x.owner = none →
      m.runFrom (σ.withFiles files) v.left.state = (.ok d, (w.left.own s x d origin).state))
    (hok' : ∀ x, w.right.symbol? s' = some x → x.owner = none →
      m'.runFrom (σ.withFiles files') v.right.state = (.ok d', (w.right.own s' x d' origin).state))
    (hbound : ∀ x existing, w.left.symbol? s = some x → x.owner = some existing →
      ∃ L : Ledger σ strict, v.left ≤ L ∧ m.runFrom (σ.withFiles files) v.left.state =
        (.error (.alreadyBound (.symbolBound x.name existing d)), L.state))
    (hbound' : ∀ x existing, w.right.symbol? s' = some x → x.owner = some existing →
      ∃ e u, m'.runFrom (σ.withFiles files') v.right.state = (.error e, u)) :
    (tandem b b' files files').Runs v m m' fun w' c c' =>
      w'.opens = w.opens ∧ w'.ids.decl g c c' := by
  obtain ⟨x, x', hx, hx', howner⟩ := owners_of_symbol hs
  unfold Tandem.Runs
  change (tandem b b' files files').Outcome v _ (m.runFrom (σ.withFiles files) v.left.state)
    (m'.runFrom (σ.withFiles files') v.right.state)
  cases ho : x.owner with
  | some existing =>
    obtain ⟨L, hle, hr⟩ := hbound x existing hx ho
    rw [hr]
    refine ⟨⟨L, hle, rfl⟩, by simp, fun cause hc => ?_⟩
    cases hc
    exact ⟨_, _, _, rfl⟩
  | none =>
    rw [hok x hx ho]
    have hlink : ∃ g', w.links.decl d d' g' ∧ g' ⊆ g := ⟨g, hd, List.Subset.refl _⟩
    rcases howner ho with ho' | ⟨kind, desc, hc, hb'⟩
    · rw [hok' x' hx' ho']
      exact ⟨w.own hs hx hx' ho ho' hd origin, d', ⟨hv.1.trans (Entries.le_own hx ho d origin),
        hv.2.1.trans (Entries.le_own hx' ho' d' origin), hv.2.2⟩, rfl, ⟨rfl, hlink⟩, .inl rfl⟩
    · have hpart := (w.keys.part w.left.sound hc hx ho hb' d origin).2
      cases ho' : x'.owner with
      | none =>
        rw [hok' x' hx' ho']
        exact ⟨w.own hs hx hx' ho ho' hd origin, d', ⟨hv.1.trans (Entries.le_own hx ho d origin),
          hv.2.1.trans (Entries.le_own hx' ho' d' origin), hv.2.2⟩, rfl, ⟨rfl, hlink⟩, .inl rfl⟩
      | some existing =>
        obtain ⟨e, u, hr⟩ := hbound' x' existing hx' ho'
        exact ⟨w.ownAlone hc hx ho hb' hd origin, d', ⟨hv.1.trans (Entries.le_own hx ho d origin),
          hv.2.1, hv.2.2⟩, rfl, ⟨rfl, hlink⟩, .inr ⟨e, u, hr, .inr hpart⟩⟩

section declare

variable {s s' : SymbolId} {origin : Origin} {xs xs' : List ExprId} {k k' : DeclKind}

theorem does_declare (hs : w.ids.symbol s s') (hxs : List.Forall₂ w.ids.note xs xs')
    (hk : DeclKind.Alike w.ids g k k') :
    (tandem b b' files files').Does w (Lower.declare s origin xs k) (Lower.declare s' origin xs' k')
      fun w' => w'.ids.decl g := by
  have h : Decl.Alike w.ids g ⟨s, origin, xs, k⟩ ⟨s', origin, xs', k'⟩ := ⟨hs, rfl, hxs, hk⟩
  have hle := w.le_addDecl h
  have hs' := ((tandem b b' files files').ids_mono hle).symbol hs
  refine binds_symbol (g := g) hle origin hs' (.inr ⟨rfl, rfl, rfl⟩) (fun x hx ho => ?_)
    (fun x hx ho => ?_) (fun x existing hx ho => ?_) fun x existing hx ho => ?_
  · rw [runFrom_declare (s := w.left.state) hx, ho]
    rfl
  · rw [runFrom_declare (s := w.right.state) hx, ho]
    rfl
  · refine ⟨(w.addDecl h).left, hle.1, ?_⟩
    rw [runFrom_declare (s := w.left.state) hx, ho]
    rfl
  · rw [runFrom_declare (s := w.right.state) hx, ho]
    exact ⟨_, _, rfl⟩

/-- A callable that is declared gets its target, and one that is not leaves it open. -/
theorem runFrom_declareCallable (hh : u.store.Has (.function t))
    (ho : u.store.owner? (.function t) = none) {x : Symbol} (hx : u.table.get? s = some x) :
    (Lower.declareCallable t s origin xs k).runFrom σ u =
      match x.owner with
      | some existing =>
        (.error (.alreadyBound (.symbolBound x.name existing ⟨u.store.decls.size⟩)),
          { u with store := (u.store.addDecl ⟨s, origin, xs, k⟩).2 })
      | none => (.ok ⟨u.store.decls.size⟩,
          { u with
            store := (u.store.addDecl ⟨s, origin, xs, k⟩).2.own (.function t)
              (.decl ⟨u.store.decls.size⟩)
            table := u.table.own s x ⟨u.store.decls.size⟩
            stats := u.stats.count origin }) := by
  have hd := runFrom_declare (σ := σ) hx origin xs k
  unfold Lower.declareCallable
  cases hox : x.owner with
  | some existing =>
    rw [hox] at hd
    rw [Lower.runFrom_bind_error _ _ hd]
  | none =>
    rw [hox] at hd
    have hb := runFrom_bindFunctionTarget (σ := σ) (s := { u with
      store := (u.store.addDecl ⟨s, origin, xs, k⟩).2
      table := u.table.own s x ⟨u.store.decls.size⟩
      stats := u.stats.count origin }) hh ho ⟨u.store.decls.size⟩
    rw [Lower.runFrom_bind_ok _ _ hd, Lower.runFrom_bind_ok _ _ hb]
    rfl

theorem closes_callable (ho : w.opens = (.function t, .function t') :: o) (hs : w.ids.symbol s s')
    (hxs : List.Forall₂ w.ids.note xs xs')
    (hk : DeclKind.Alike w.ids ((.function t, .function t') :: g) k k') (hc : k.isCallable) :
    (tandem b b' files files').Runs w (Lower.declareCallable t s origin xs k)
      (Lower.declareCallable t' s' origin xs' k') fun w' d d' =>
        w'.opens = o ∧ w'.ids.decl g d d' := by
  have h : Decl.Alike w.ids ((.function t, .function t') :: g) ⟨s, origin, xs, k⟩
    ⟨s', origin, xs', k'⟩ := ⟨hs, rfl, hxs, hk⟩
  have hl := w.left.sound.guarded.opens (.function t) (by simp [w.opens_left_cons ho])
  have hr := w.right.sound.guarded.opens (.function t') (by simp [w.opens_right_cons ho])
  have hle := w.le_addCallable ho h hc
  have hs' := ((tandem b b' files files').ids_mono hle).symbol hs
  refine binds_symbol (g := g) hle origin hs' (.inr ⟨rfl, rfl, rfl⟩) (fun x hx hx' => ?_)
    (fun x hx hx' => ?_) (fun x existing hx hx' => ?_) fun x existing hx hx' => ?_
  · rw [runFrom_declareCallable (u := w.left.state) hl.1 hl.2 hx, hx']
    rfl
  · rw [runFrom_declareCallable (u := w.right.state) hr.1 hr.2 hx, hx']
    rfl
  · refine ⟨(w.addDecl h).left, (w.le_addDecl h).1, ?_⟩
    rw [runFrom_declareCallable (u := w.left.state) hl.1 hl.2 hx, hx']
    rfl
  · rw [runFrom_declareCallable (u := w.right.state) hr.1 hr.2 hx, hx']
    exact ⟨_, _, rfl⟩

end declare

theorem isBare_stringType (h : Realizes σ n (.type Builtin.stringType) (.type τ)) : τ.isBare := by
  have hbuiltin : ∃ simple, σ.world.type? Builtin.stringType = some (.simple simple) ∧
      simple.arguments = [] ∧ simple.annotations = [] := ⟨_, rfl, rfl, rfl⟩
  obtain ⟨simple, ht, ha, hx⟩ := hbuiltin
  cases h with
  | flexible ht' => cases ht.symm.trans ht'
  | simple ht' _ _ _ hps hxs =>
    cases ht.symm.trans ht'
    rw [ha] at hps
    rw [hx] at hxs
    cases hps
    cases hxs
    rfl

theorem lawful (b b' : Ledger σ strict) (files files' : List SourceFile) :
    (tandem b b' files files').Lawful where
  throws h h' := ⟨⟨_, le_refl _, rfl⟩, h, fun cause hc => (h' cause hc).elim⟩
  convert hid := (does_convert hid).imp fun _ _ _ _ => alike_type
  stringType := by
    refine (does_convert (σ.world.finds_builtin_type (by decide))).imp fun w' τ τ' _ h => ?_
    exact ⟨alike_type h, isBare_stringType h.1, isBare_stringType h.2⟩
  annotationCall := does_annotationCall
  constant := does_constant
  symbolOf hdesc hfits := does_symbol (makes_symbolOf hdesc hfits)
  symbolFor := does_symbolFor
  freshLocal := does_freshLocal _ _
  symbol_unique := symbol_unique
  part := alike_part
  decl := fun ⟨g, h, _⟩ => by
    obtain ⟨x, x', g', hx, hx', hxx⟩ := (Pairing.nodes _).decl h
    exact ⟨x, x', g', hx, hx', hxx⟩
  functionTarget h := (Pairing.nodes _).holder h
  loopTarget h := (Pairing.nodes _).holder h
  newFunctionTarget := begins_function _ _
  newLoopTarget := begins_loop _
  newWhenRef := begins_choice
  addExpr := does_addExpr
  addLoop ho hτ hk hm := closes_loop hτ hk ho hm
  addChoice ho hτ hk hm := closes_choice hτ hk ho hm
  annotateExpr he hxs := does_annotateExpr he hxs
  declare := does_declare
  declareCallable := closes_callable

end Pairing

end TypedTree
