import TypedTree.Proofs.Sample
import TypedTree.Proofs.Trace.Session

namespace TypedTree

/-- How many symbols are owned by a declaration of an origin that is asked for. -/
def State.countOwned (s : State) (p : Origin → Bool) : Nat :=
  s.table.symbols.toList.countP fun x => (x.owner.bind s.store.decl?).any fun d => p d.origin

/-- Owners are there and know their symbols, and the counts say how many of them there are. -/
structure State.Owned (s : State) : Prop where
  owner : ∀ {id x d}, s.table.get? id = some x → x.owner = some d →
    ∃ decl, s.store.decl? d = some decl ∧ decl.symbol = id
  stubs : s.stats.stubs = s.countOwned (· == .stub)
  declarations : s.stats.declarations = s.countOwned (· != .stub)

/-- Every declaration owns its symbol and is counted. -/
structure State.Closed (s : State) : Prop where
  owns : ∀ {d decl}, s.store.decl? d = some decl →
    ∃ x, s.table.get? decl.symbol = some x ∧ x.owner = some d
  counted : s.stats.declarations + s.stats.stubs = s.store.decls.size

/-- Symbols are owned by declarations of their kind. -/
def State.Suited (s : State) : Prop :=
  ∀ id x d, s.table.get? id = some x → x.owner = some d →
    ∃ decl, s.store.decl? d = some decl ∧ decl.kind.Suits x.kind

namespace State

theorem countOwned_congr {s s' : State} (p : Origin → Bool)
    (htable : s'.table.symbols = s.table.symbols)
    (hstore : ∀ d, s'.store.decl? d = s.store.decl? d) : s'.countOwned p = s.countOwned p := by
  have hdecl : s'.store.decl? = s.store.decl? := funext hstore
  rw [countOwned, countOwned, htable, hdecl]

theorem countOwned_push {s : State} {t : SymbolTable} (p : Origin → Bool) {kind : SymbolKind}
    {identity : SymbolIdentity} (ht : t.symbols = s.table.symbols.push ⟨kind, identity, none⟩) :
    ({ s with table := t } : State).countOwned p = s.countOwned p := by
  simp [countOwned, ht]

/-- Owners that are there already stay where they are when a declaration is added. -/
theorem countOwned_addDecl {s : State} (h : s.Owned) (p : Origin → Bool) (d : Decl) :
    ({ s with store := (s.store.addDecl d).2 } : State).countOwned p = s.countOwned p := by
  refine List.countP_congr fun x hx => ?_
  obtain ⟨i, hi, rfl⟩ := Array.mem_iff_getElem.1 (Array.mem_toList_iff.1 hx)
  cases howner : s.table.symbols[i].owner with
  | none => simp
  | some owner =>
    have hget : s.table.get? ⟨i⟩ = some s.table.symbols[i] := by
      simp only [SymbolTable.get?, Array.getElem?_eq_getElem hi]
    obtain ⟨decl, hdecl, _⟩ := h.owner hget howner
    have hnew : (s.store.addDecl d).2.decl? owner = some decl := getElem?_push_of_some hdecl
    simp [hdecl, hnew]

theorem countOwned_declare {s : State} (h : s.Owned) (p : Origin → Bool) {id : SymbolId}
    {x : Symbol} (hx : s.table.get? id = some x) (ho : x.owner = none) (d : Decl) (stats : Stats) :
    ({ s with
        store := (s.store.addDecl d).2
        table := s.table.own id x ⟨s.store.decls.size⟩
        stats := stats } : State).countOwned p =
      s.countOwned p + if p d.origin then 1 else 0 := by
  obtain ⟨hi, he⟩ := Array.getElem?_eq_some_iff.1 hx
  have hi' : id.index < s.table.symbols.toList.length := by simpa using hi
  have hnew : (s.store.addDecl d).2.decl? ⟨s.store.decls.size⟩ = some d := by
    simp [Store.decl?, Store.addDecl]
  rw [← countOwned_addDecl h p d]
  change (s.table.own id x ⟨s.store.decls.size⟩).symbols.toList.countP (fun y =>
    (y.owner.bind (s.store.addDecl d).2.decl?).any fun d => p d.origin) = _
  rw [SymbolTable.own, Array.toList_setIfInBounds, List.countP_set hi']
  simp [he, ho, hnew, countOwned]

end State

namespace Desk

variable {σ : Setting} {clean : Bool} {d d' : Desk}

theorem Step.owned (h : Step σ clean d d') (ho : d.state.Owned) : d'.state.Owned := by
  have hle := h.le
  obtain ⟨howner, hstubs, hdeclarations⟩ := ho
  cases h with
  | @symbol _ s kind desc x =>
    have hcount := fun p => State.countOwned_push (s := s)
      (t := s.table.create kind desc (σ.world.identity x)) p rfl
    refine ⟨fun {id y d} hy hyo => ?_, by rw [hcount]; exact hstubs,
      by rw [hcount]; exact hdeclarations⟩
    rcases getElem?_push_cases hy with hy | rfl
    · exact howner hy hyo
    · cases hyo
  | @fresh _ s kind identity =>
    have hcount := fun p =>
      State.countOwned_push (s := s) (t := (s.table.fresh kind identity).2) p rfl
    refine ⟨fun {id y d} hy hyo => ?_, by rw [hcount]; exact hstubs,
      by rw [hcount]; exact hdeclarations⟩
    rcases getElem?_push_cases hy with hy | rfl
    · exact howner hy hyo
    · cases hyo
  | @declare _ s id x origin calls k hx hxo =>
    have hcount := fun p => State.countOwned_declare ⟨howner, hstubs, hdeclarations⟩ p hx hxo
      ⟨id, origin, calls, k⟩ (s.stats.count origin)
    refine ⟨fun {id' y d} hy hyo => ?_, ?_, ?_⟩
    · simp only [SymbolTable.get?_own hx] at hy
      split at hy
      next he =>
        subst he
        cases hy
        cases hyo
        exact ⟨⟨id', origin, calls, k⟩, by simp [Store.decl?, Store.addDecl], rfl⟩
      next =>
        obtain ⟨decl, hdecl, hsym⟩ := howner hy hyo
        exact ⟨decl, hle.decl hdecl, hsym⟩
    · rw [hcount]
      cases origin <;> simp [Stats.count] <;> exact hstubs
    · rw [hcount]
      cases origin <;> simp [Stats.count] <;> exact hdeclarations
  | @orphan _ s x =>
    have hcount := fun p => State.countOwned_addDecl ⟨howner, hstubs, hdeclarations⟩ p x
    refine ⟨fun hy hyo => ?_, by rw [hcount]; exact hstubs, by rw [hcount]; exact hdeclarations⟩
    obtain ⟨decl, hdecl, hsym⟩ := howner hy hyo
    exact ⟨decl, hle.decl hdecl, hsym⟩
  | @own _ s holder part hn =>
    have hdecl : ∀ d, (s.store.own holder part).decl? d = s.store.decl? d := fun d => by
      rw [Store.decl?, Store.decls_own, Store.decl?]
    have hcount : ∀ p, ({ s with store := s.store.own holder part } : State).countOwned p =
        s.countOwned p := fun p => State.countOwned_congr p rfl hdecl
    refine ⟨fun hy hyo => ?_, by rw [hcount]; exact hstubs, by rw [hcount]; exact hdeclarations⟩
    obtain ⟨decl, hx, hsym⟩ := howner hy hyo
    exact ⟨decl, hle.decl hx, hsym⟩
  | _ => exact ⟨howner, hstubs, hdeclarations⟩

theorem Steps.owned (h : Steps σ clean d d') (ho : d.state.Owned) : d'.state.Owned := by
  induction h with
  | refl => exact ho
  | tail _ hs ih => exact hs.owned ih

theorem Step.closed (h : Step σ true d d') (hc : d.state.Closed) : d'.state.Closed := by
  have hle := h.le
  obtain ⟨howns, hcounted⟩ := hc
  have howns' {d1 decl} (h : d.state.store.decl? d1 = some decl) :
      ∃ x, d'.state.table.get? decl.symbol = some x ∧ x.owner = some d1 := by
    obtain ⟨x, hx, ho⟩ := howns h
    obtain ⟨y, hy, hxy⟩ := hle.table.symbol hx
    exact ⟨y, hy, hxy.owner _ ho⟩
  cases h with
  | @declare _ s id x origin calls k hx =>
    refine ⟨fun {d1 decl} h => ?_, ?_⟩
    · by_cases hd : d1 = ⟨s.store.decls.size⟩
      · subst hd
        have he : decl = ⟨id, origin, calls, k⟩ := by
          simpa [Store.decl?, Store.addDecl] using h.symm
        exact ⟨{ x with owner := some ⟨s.store.decls.size⟩ },
          by rw [he]; simp [SymbolTable.get?_own hx], rfl⟩
      · refine howns' ?_
        obtain ⟨i⟩ := d1
        have hi : i ≠ s.store.decls.size := fun he => hd (by rw [he])
        simpa [Store.decl?, Store.addDecl, Array.getElem?_push, hi] using h
    · have := Stats.count_total s.stats origin
      simp only [Store.addDecl, Array.size_push] at hcounted ⊢
      omega
  | orphan hc => cases hc
  | own hn =>
    refine ⟨fun {d1 decl} h => howns' ?_, by simpa using hcounted⟩
    rwa [Store.decl?, Store.decls_own] at h
  | _ => exact ⟨howns', hcounted⟩

theorem Steps.closed (h : Steps σ true d d') (hc : d.state.Closed) : d'.state.Closed := by
  induction h with
  | refl => exact hc
  | tail _ hs ih => exact hs.closed ih

theorem Step.suited (hw : σ.world.KindConsistent) (h : Step σ clean d d') (hs : d.state.Suited) :
    d'.state.Suited := by
  have hle := h.le
  have hlater {id x d1} (hx : d.state.table.get? id = some x) (ho : x.owner = some d1) :
      ∃ decl, d'.state.store.decl? d1 = some decl ∧ decl.kind.Suits x.kind := by
    obtain ⟨decl, hdecl, hk⟩ := hs _ _ _ hx ho
    exact ⟨decl, hle.decl hdecl, hk⟩
  cases h with
  | symbol =>
    intro id x d1 hx ho
    rcases getElem?_push_cases hx with hx | rfl
    · exact hlater hx ho
    · cases ho
  | fresh =>
    intro id x d1 hx ho
    rcases getElem?_push_cases hx with hx | rfl
    · exact hlater hx ho
    · cases ho
  | @declare _ s id x origin calls k hx _ hk =>
    intro id' y d1 hy ho
    simp only [SymbolTable.get?_own hx] at hy
    split at hy
    next =>
      cases hy
      cases ho
      exact ⟨⟨id, origin, calls, k⟩, by simp [Store.decl?, Store.addDecl], hk hw⟩
    next => exact hlater hy ho
  | _ => exact fun _ _ _ => hlater

theorem Steps.suited (hw : σ.world.KindConsistent) (h : Steps σ clean d d')
    (hs : d.state.Suited) : d'.state.Suited := by
  induction h with
  | refl => exact hs
  | tail _ hstep ih => exact hstep.suited hw ih

end Desk

namespace State.Sane

variable {σ : Setting} {s : State} (h : s.Sane σ) (hw : σ.world.KindConsistent)

include h hw

theorem symbolKind_eq {id : SymbolId} (hid : s.table.descriptorOf? id = some desc) :
    ∃ x d, s.table.get? id = some x ∧ σ.world.descriptor? desc = some d ∧
      x.kind = d.symbolKind ∧ s.table.cached? d.symbolKind desc = some id := by
  obtain ⟨x, hx, hc⟩ := h.table.origin hid
  obtain ⟨_, d, _, _, hd, _⟩ := h.table.cached hc
  have hk : d.symbolKind = x.kind := h.kinds hw hc d hd
  exact ⟨x, d, hx, hd, hk.symm, hk ▸ hc⟩

/-- Two symbols of one descriptor would be of one kind, and the key of that kind has one symbol. -/
theorem unique {id : SymbolId} (hid : s.table.descriptorOf? id = some desc)
    (hid' : s.table.descriptorOf? id' = some desc) : id = id' := by
  obtain ⟨_, d, _, hd, _, hc⟩ := h.symbolKind_eq hw hid
  obtain ⟨_, d', _, hd', _, hc'⟩ := h.symbolKind_eq hw hid'
  cases hd.symm.trans hd'
  exact Option.some.inj (hc.symm.trans hc')

end State.Sane

namespace Session

theorem owned_start : ({} : State).Owned :=
  ⟨by simp [SymbolTable.get?], rfl, rfl⟩

theorem closed_start : ({} : State).Closed := ⟨by simp [Store.decl?], rfl⟩

theorem suited_start : ({} : State).Suited := by simp [State.Suited, SymbolTable.get?]

theorem isClean_of_not_symbolBound {results : List (Except LowerError Unit)}
    (h : ∀ name existing new, .error (.alreadyBound (.symbolBound name existing new)) ∉ results) :
    results.all isClean = true := by
  refine List.all_eq_true.2 fun r hr => ?_
  rcases r with e | _
  · cases e with
    | alreadyBound cause =>
      cases cause with
      | symbolBound name existing new => exact (h name existing new hr).elim
      | _ => rfl
    | _ => rfl
  · rfl

/-- Whatever a session was asked to do, and whether it failed or not, the owner of a symbol is a
declaration of that symbol, and the counts are those of the owners by their origin. Unless a symbol
was to be declared twice, each declaration owns its symbol. -/
theorem owners_and_counts (world : World) (config : Config) (actions : List Action) :
    let results := ((start world config).perform actions).1
    let s := ((start world config).perform actions).2.state
    (∀ id x d, s.table.get? id = some x → x.owner = some d →
        ∃ decl, s.store.decl? d = some decl ∧ decl.symbol = id) ∧
      (∀ id id' x x' d, s.table.get? id = some x → s.table.get? id' = some x' →
        x.owner = some d → x'.owner = some d → id = id') ∧
      s.stats.stubs = s.countOwned (· == .stub) ∧
      s.stats.declarations = s.countOwned (· != .stub) ∧
      ((∀ name existing new,
          .error (.alreadyBound (.symbolBound name existing new)) ∉ results) →
        (∀ d decl, s.store.decl? d = some decl →
          ∃ x, s.table.get? decl.symbol = some x ∧ x.owner = some d) ∧
        s.stats.declarations + s.stats.stubs = s.store.decls.size) := by
  obtain ⟨h, hsteps⟩ := steps_of_perform world config actions
  have howned := hsteps.owned owned_start
  refine ⟨fun _ _ _ => howned.owner, fun id id' x x' d hx hx' ho ho' => ?_, howned.stubs,
    howned.declarations, fun hnone => ?_⟩
  · obtain ⟨decl, hdecl, rfl⟩ := howned.owner hx ho
    obtain ⟨decl', hdecl', rfl⟩ := howned.owner hx' ho'
    rw [Option.some.inj (hdecl.symm.trans hdecl')]
  · rw [isClean_of_not_symbolBound hnone] at hsteps
    have hclosed := hsteps.closed closed_start
    exact ⟨fun _ _ => hclosed.owns, hclosed.counted⟩

/-- If the facts agree about kinds, each descriptor has at most one symbol, which is of the kind of
the descriptor, and each symbol is owned by a declaration of its kind. -/
theorem symbols_of_kindConsistent (world : World) (hw : world.KindConsistent) (config : Config)
    (actions : List Action) :
    let s := ((start world config).perform actions).2.state
    (∀ id id' desc, s.table.descriptorOf? id = some desc →
        s.table.descriptorOf? id' = some desc → id = id') ∧
      (∀ kind kind' desc id id', s.table.cached? kind desc = some id →
        s.table.cached? kind' desc = some id' → id = id') ∧
      (∀ id desc, s.table.descriptorOf? id = some desc → ∃ x d, s.table.get? id = some x ∧
        world.descriptor? desc = some d ∧ x.kind = d.symbolKind) ∧
      ∀ id x d, s.table.get? id = some x → x.owner = some d →
        ∃ decl, s.store.decl? d = some decl ∧ decl.kind.Suits x.kind := by
  obtain ⟨h, hsteps⟩ := steps_of_perform world config actions
  have hsane := hsteps.sane (sane_start _)
  refine ⟨fun id id' desc h h' => ?_, fun kind kind' desc id id' h h' => ?_,
    fun id desc h => ?_, hsteps.suited hw suited_start⟩
  · exact hsane.unique hw h h'
  · obtain ⟨_, _, _, _, _, _, ho⟩ := hsane.table.cached h
    obtain ⟨_, _, _, _, _, _, ho'⟩ := hsane.table.cached h'
    exact hsane.unique hw ho ho'
  · obtain ⟨x, d, hx, hd, hk, _⟩ := hsane.symbolKind_eq hw h
    exact ⟨x, d, hx, hd, hk⟩

/-- A unit whose facts agree about kinds, lowered and then completed with stubs. -/
theorem symbols_of_sampleWorld : sampleWorld.KindConsistent ∧
    let s := ((start sampleWorld {}).perform [.lowerFiles, .generateStubs]).2
    ∀ id id' desc, s.state.table.descriptorOf? id = some desc →
      s.state.table.descriptorOf? id' = some desc → id = id' :=
  ⟨by decide,
    (symbols_of_kindConsistent sampleWorld (by decide) {} [.lowerFiles, .generateStubs]).1⟩

end Session

end TypedTree
