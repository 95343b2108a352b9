import TypedTree.Proofs.Pairing.Links

namespace TypedTree

namespace Entries

variable {σ : Setting} {strict : Bool} {n m : Entries} {kind : SymbolKind} {desc : DescId}
  {N : SymbolKind → DescId → Prop}

def declared? (n : Entries) (kind : SymbolKind) (desc : DescId) : Option DeclId :=
  (n.cached? kind desc).bind fun id => (n.symbol? id).bind (·.owner)

def descriptorOf? (n : Entries) (id : SymbolId) : Option DescId := n.state.table.descriptorOf? id

theorem declared?_eq_some : n.declared? kind desc = some d ↔
    ∃ id x, n.cached? kind desc = some id ∧ n.symbol? id = some x ∧ x.owner = some d := by
  simp [declared?, Option.bind_eq_some_iff]

theorem Le.declared (h : n.Le m) {d : DeclId} (hd : n.declared? kind desc = some d) :
    m.declared? kind desc = some d := by
  rw [declared?_eq_some] at hd ⊢
  obtain ⟨id, x, hc, hx, ho⟩ := hd
  obtain ⟨y, hy, hxy⟩ := h.table.symbol hx
  exact ⟨id, y, h.cached hc, hy, hxy.owner d ho⟩

theorem Le.undeclared (h : n.Le m) (hd : m.declared? kind desc = none) :
    n.declared? kind desc = none := by
  cases hn : n.declared? kind desc with
  | none => rfl
  | some d => cases hd.symm.trans (h.declared hn)

theorem Le.descriptorOf (h : n.Le m) {id : SymbolId} {x : Symbol} (hx : n.symbol? id = some x) :
    m.descriptorOf? id = n.descriptorOf? id :=
  h.table.origin (Option.isSome_of_mem hx)

theorem Gains.symbol_of_some (h : n.Gains N m) {id : SymbolId} {x : Symbol}
    (hx : n.symbol? id = some x) : m.symbol? id = some x := by
  obtain ⟨y, hy, _⟩ := h.le.table.symbol hx
  rcases h.symbol hy with hy' | ⟨hnone, _⟩
  · cases hx.symm.trans hy'
    exact hy
  · cases hnone.symm.trans hx

/-- Types and annotations declare nothing. -/
theorem Gains.declared? (h : n.Gains N m) (hs : n.Sound σ strict) (hs' : m.Sound σ strict) :
    m.declared? kind desc = n.declared? kind desc := by
  cases hc : n.cached? kind desc with
  | some id =>
    obtain ⟨x, _, hx, _⟩ := hs.table.cached hc
    have hx' := h.symbol_of_some hx
    simp [Entries.declared?, hc, h.le.cached hc, show n.symbol? id = some x from hx, hx']
  | none =>
    cases hc' : m.cached? kind desc with
    | none => simp [Entries.declared?, hc, hc']
    | some id =>
      obtain ⟨y, _, hy, hk, _, _, ho⟩ := hs'.table.cached hc'
      rcases h.symbol hy with hy' | ⟨_, hnone, _⟩
      · -- The symbol would have been there for its key before.
        have ho' := (h.le.descriptorOf hy').symm.trans ho
        obtain ⟨x, hx, hcx⟩ := hs.table.origin ho'
        cases hx.symm.trans hy'
        rw [hk] at hcx
        cases hc.symm.trans hcx
      · simp [Entries.declared?, hc, hc', show m.symbol? id = some y from hy, hnone]

theorem declared?_fresh (hs : n.Sound σ strict) (kind' : SymbolKind) (identity : SymbolIdentity) :
    (n.fresh kind' identity).declared? kind desc = n.declared? kind desc := by
  cases hc : n.cached? kind desc with
  | none => simp [declared?, hc, show (n.fresh kind' identity).cached? kind desc = none from hc]
  | some id =>
    obtain ⟨x, _, hx, _⟩ := hs.table.cached hc
    have hne : id ≠ n.nextSymbol := fun he => by cases (he ▸ n.symbol?_nextSymbol).symm.trans hx
    simp [declared?, hc, show (n.fresh kind' identity).cached? kind desc = some id from hc,
      symbol?_fresh, hne]

theorem declared?_own {id : SymbolId} (hx : n.symbol? id = some x) (d : DeclId) (origin : Origin) :
    (n.own id x d origin).declared? kind desc =
      if n.cached? kind desc = some id then some d else n.declared? kind desc := by
  have hcached : (n.own id x d origin).cached? kind desc = n.cached? kind desc := rfl
  cases hc : n.cached? kind desc with
  | none => simp [declared?, hcached, hc]
  | some id' => by_cases he : id' = id <;> simp [declared?, hcached, hc, symbol?_own hx, he]

theorem Sound.key_unique (hs : n.Sound σ strict) {kind' : SymbolKind} {desc' : DescId}
    {id : SymbolId} (h : n.cached? kind desc = some id) (h' : n.cached? kind' desc' = some id) :
    kind = kind' ∧ desc = desc' := by
  obtain ⟨x, _, hx, hk, _, _, ho⟩ := hs.table.cached h
  obtain ⟨y, _, hy, hk', _, _, ho'⟩ := hs.table.cached h'
  cases hx.symm.trans hy
  exact ⟨hk.symm.trans hk', Option.some.inj (ho.symm.trans ho')⟩

theorem Sound.descriptorOf_cached (hs : n.Sound σ strict) {id : SymbolId}
    (h : n.cached? kind desc = some id) : n.descriptorOf? id = some desc :=
  let ⟨_, _, _, _, _, _, ho⟩ := hs.table.cached h
  ho

end Entries

namespace Links

/-- The first run has declared something that the second one had declared before. -/
def Parted (b b' n : Entries) : Prop :=
  ∃ kind desc, (n.declared? kind desc).isSome ∧ b.declared? kind desc = none ∧
    (b'.declared? kind desc).isSome

/-- A count that grew by the same amount in both runs. -/
def Even (b b' n n' : Entries) (f : Entries → Nat) : Prop := f n + f b' = f n' + f b

def declarations (n : Entries) : Nat := n.state.stats.declarations

def stubs (n : Entries) : Nat := n.state.stats.stubs

def loose (n : Entries) : Nat := n.state.table.loose

/-- Two runs that were at `b` and `b'` ask for symbols of the same keys, and declare the same ones
among them. Symbols of no key are linked. -/
structure Keys (l : Links) (b b' n n' : Entries) : Prop where
  le : b.Le n
  le' : b'.Le n'
  cached : ∀ {kind desc}, (n.cached? kind desc).isSome →
    (b.cached? kind desc).isSome ∨ (n'.cached? kind desc).isSome
  cached' : ∀ {kind desc}, (n'.cached? kind desc).isSome →
    (b'.cached? kind desc).isSome ∨ (n.cached? kind desc).isSome
  declared : ∀ {kind desc d}, n.declared? kind desc = some d → b.declared? kind desc = none →
    ∃ d', n'.declared? kind desc = some d' ∧
      ((b'.declared? kind desc).isSome ∨ ∃ g, l.decl d d' g)
  declared' : ∀ {kind desc}, (n'.declared? kind desc).isSome → b'.declared? kind desc = none →
    b.declared? kind desc = none ∧ (n.declared? kind desc).isSome
  symbol : ∀ {a a'}, l.symbol a a' → ∃ x x', n.symbol? a = some x ∧ n'.symbol? a' = some x' ∧
    x.kind = x'.kind ∧ x.identity = x'.identity ∧
    Option.Rel (fun d d' => ∃ g, l.decl d d' g) x.owner x'.owner
  symbol_loose : ∀ {a a'}, l.symbol a a' → n.descriptorOf? a = none ∧ n'.descriptorOf? a' = none
  symbol_new : ∀ {a a'}, l.symbol a a' → b.symbol? a = none ∧ b'.symbol? a' = none
  symbol_unique : ∀ {a a' c c'}, l.symbol a a' → l.symbol c c' → (a = c ↔ a' = c')
  old : ∀ {a x}, b.symbol? a = some x → b.descriptorOf? a = none → n.symbol? a = some x
  new' : ∀ {a' x'}, n'.symbol? a' = some x' → n'.descriptorOf? a' = none →
    b'.symbol? a' = some x' ∨ ∃ a, l.symbol a a'
  even : ¬ Parted b b' n →
    Even b b' n n' declarations ∧ Even b b' n n' stubs ∧ Even b b' n n' loose
  passes : n.state.stats.passes = b.state.stats.passes
  passes' : n'.state.stats.passes = b'.state.stats.passes

variable {σ : Setting} {strict : Bool} {b b' n n' m m' : Entries} {l l' : Links}

theorem Keys.keep (h : l.Keys b b' n n') (hle : n.Le m) (hle' : n'.Le m')
    (ht : m.state.table = n.state.table) (ht' : m'.state.table = n'.state.table)
    (hst : m.state.stats = n.state.stats) (hst' : m'.state.stats = n'.state.stats)
    (hl : l.Le l') (hs : ∀ {a a'}, l'.symbol a a' → l.symbol a a') : l'.Keys b b' m m' := by
  have hc : m.cached? = n.cached? := by funext; simp [Entries.cached?, ht]
  have hc' : m'.cached? = n'.cached? := by funext; simp [Entries.cached?, ht']
  have hx : m.symbol? = n.symbol? := by funext; simp [Entries.symbol?, ht]
  have hx' : m'.symbol? = n'.symbol? := by funext; simp [Entries.symbol?, ht']
  have ho : m.descriptorOf? = n.descriptorOf? := by funext; simp [Entries.descriptorOf?, ht]
  have ho' : m'.descriptorOf? = n'.descriptorOf? := by funext; simp [Entries.descriptorOf?, ht']
  have hd : m.declared? = n.declared? := by funext; simp [Entries.declared?, hc, hx]
  have hd' : m'.declared? = n'.declared? := by funext; simp [Entries.declared?, hc', hx']
  exact {
    le := h.le.trans hle
    le' := h.le'.trans hle'
    cached := by rw [hc, hc']; exact h.cached
    cached' := by rw [hc, hc']; exact h.cached'
    declared := fun hk hb => by
      rw [hd] at hk
      rw [hd']
      obtain ⟨d', hd', ho⟩ := h.declared hk hb
      exact ⟨d', hd', ho.imp_right fun hg => hg.imp fun _ => hl.decl⟩
    declared' := by rw [hd, hd']; exact h.declared'
    symbol := fun ha => by
      rw [hx, hx']
      obtain ⟨x, x', hx, hx', hk, hi, ho⟩ := h.symbol (hs ha)
      exact ⟨x, x', hx, hx', hk, hi, Option.rel_imp (fun _ _ hg => hg.imp fun _ => hl.decl) ho⟩
    symbol_loose := fun ha => by rw [ho, ho']; exact h.symbol_loose (hs ha)
    symbol_new := fun ha => h.symbol_new (hs ha)
    symbol_unique := fun ha hc => h.symbol_unique (hs ha) (hs hc)
    old := by rw [hx]; exact h.old
    new' := fun ha hn => by
      rw [hx'] at ha
      rw [ho'] at hn
      exact (h.new' ha hn).imp_right fun ha => ha.imp fun _ => hl.symbol
    even := fun hp => by
      have hev := h.even fun hk => by
        obtain ⟨kind, desc, hk, hr⟩ := hk
        exact hp ⟨kind, desc, by rwa [hd], hr⟩
      simpa only [Even, declarations, stubs, loose, ht, ht', hst, hst'] using hev
    passes := by rw [hst]; exact h.passes
    passes' := by rw [hst']; exact h.passes' }

theorem Keys.gains (h : l.Keys b b' n n') {N N' : SymbolKind → DescId → Prop} (hg : n.Gains N m)
    (hg' : n'.Gains N' m') (hs : n.Sound σ strict) (hs' : n'.Sound σ strict)
    (hm : m.Sound σ strict) (hm' : m'.Sound σ strict)
    (hN : ∀ kind desc, N kind desc → (m'.cached? kind desc).isSome)
    (hN' : ∀ kind desc, N' kind desc → (m.cached? kind desc).isSome) : l.Keys b b' m m' := by
  have hd : m.declared? = n.declared? := by funext kind desc; exact hg.declared? hs hm
  have hd' : m'.declared? = n'.declared? := by funext kind desc; exact hg'.declared? hs' hm'
  have hkey : ∀ {n m : Entries}, n.Le m → ∀ {kind desc}, (n.cached? kind desc).isSome →
      (m.cached? kind desc).isSome := by
    intro n m hle kind desc hc
    obtain ⟨id, hc⟩ := Option.isSome_iff_exists.1 hc
    exact Option.isSome_iff_exists.2 ⟨id, hle.cached hc⟩
  exact {
    le := h.le.trans hg.le
    le' := h.le'.trans hg'.le
    cached := fun {kind desc} hc => by
      obtain ⟨id, hc⟩ := Option.isSome_iff_exists.1 hc
      rcases hg.key hc with hc | hc
      · exact (h.cached (Option.isSome_of_mem hc)).imp_right (hkey hg'.le)
      · exact .inr (hN kind desc hc)
    cached' := fun {kind desc} hc => by
      obtain ⟨id, hc⟩ := Option.isSome_iff_exists.1 hc
      rcases hg'.key hc with hc | hc
      · exact (h.cached' (Option.isSome_of_mem hc)).imp_right (hkey hg.le)
      · exact .inr (hN' kind desc hc)
    declared := by rw [hd, hd']; exact h.declared
    declared' := by rw [hd, hd']; exact h.declared'
    symbol := fun ha => by
      obtain ⟨x, x', hx, hx', hr⟩ := h.symbol ha
      exact ⟨x, x', hg.symbol_of_some hx, hg'.symbol_of_some hx', hr⟩
    symbol_loose := fun ha => by
      obtain ⟨x, x', hx, hx', _⟩ := h.symbol ha
      rw [hg.le.descriptorOf hx, hg'.le.descriptorOf hx']
      exact h.symbol_loose ha
    symbol_new := h.symbol_new
    symbol_unique := h.symbol_unique
    old := fun hx ho => hg.symbol_of_some (h.old hx ho)
    new' := fun {a' x'} hx ho => by
      rcases hg'.symbol hx with hx | ⟨_, _, hsome⟩
      · rw [hg'.le.descriptorOf hx] at ho
        exact h.new' hx ho
      · rw [show m'.state.table.descriptorOf? a' = none from ho] at hsome
        cases hsome
    even := fun hp => by
      have hev := h.even fun ⟨kind, desc, hk, hr⟩ => hp ⟨kind, desc, by rwa [hd], hr⟩
      simpa only [Even, declarations, stubs, loose, hg.stats, hg'.stats, hg.loose, hg'.loose]
        using hev
    passes := by rw [hg.stats]; exact h.passes
    passes' := by rw [hg'.stats]; exact h.passes' }

theorem Keys.fresh (h : l.Keys b b' n n') (hs : n.Sound σ strict) (hs' : n'.Sound σ strict)
    (kind : SymbolKind) (identity : SymbolIdentity) :
    (l.addSymbol n.nextSymbol n'.nextSymbol).Keys b b' (n.fresh kind identity)
      (n'.fresh kind identity) := by
  have hle := n.le_fresh kind identity
  have hle' := n'.le_fresh kind identity
  have hd : (n.fresh kind identity).declared? = n.declared? := by
    funext; exact Entries.declared?_fresh hs kind identity
  have hd' : (n'.fresh kind identity).declared? = n'.declared? := by
    funext; exact Entries.declared?_fresh hs' kind identity
  have hne : ∀ {a a'}, l.symbol a a' → a ≠ n.nextSymbol ∧ a' ≠ n'.nextSymbol := by
    intro a a' ha
    obtain ⟨x, x', hx, hx', _⟩ := h.symbol ha
    constructor
    · rintro rfl
      cases n.symbol?_nextSymbol.symm.trans hx
    · rintro rfl
      cases n'.symbol?_nextSymbol.symm.trans hx'
  exact {
    le := h.le.trans hle
    le' := h.le'.trans hle'
    cached := h.cached
    cached' := h.cached'
    declared := by rw [hd, hd']; exact h.declared
    declared' := by rw [hd, hd']; exact h.declared'
    symbol := fun ha => by
      simp only [Entries.symbol?_fresh]
      rcases ha with ha | ⟨rfl, rfl⟩
      · rw [if_neg (hne ha).1, if_neg (hne ha).2]
        exact h.symbol ha
      · exact ⟨_, _, if_pos rfl, if_pos rfl, rfl, rfl, .none⟩
    symbol_loose := fun ha => by
      rcases ha with ha | ⟨rfl, rfl⟩
      · exact h.symbol_loose ha
      · exact ⟨hs.descriptorOf?_nextSymbol, hs'.descriptorOf?_nextSymbol⟩
    symbol_new := fun ha => by
      rcases ha with ha | ⟨rfl, rfl⟩
      · exact h.symbol_new ha
      · constructor
        · refine Option.eq_none_iff_forall_ne_some.2 fun x hx => ?_
          obtain ⟨y, hy, _⟩ := h.le.table.symbol hx
          cases n.symbol?_nextSymbol.symm.trans hy
        · refine Option.eq_none_iff_forall_ne_some.2 fun x hx => ?_
          obtain ⟨y, hy, _⟩ := h.le'.table.symbol hx
          cases n'.symbol?_nextSymbol.symm.trans hy
    symbol_unique := fun ha hc => by
      rcases ha with ha | ⟨rfl, rfl⟩ <;> rcases hc with hc | ⟨rfl, rfl⟩
      · exact h.symbol_unique ha hc
      · simp [hne ha]
      · simp [(hne hc).1.symm, (hne hc).2.symm]
      · simp
    old := fun {a x} hx ho => by
      have hx' := h.old hx ho
      rw [Entries.symbol?_fresh, if_neg, hx']
      rintro rfl
      cases n.symbol?_nextSymbol.symm.trans hx'
    new' := fun {a' x'} hx ho => by
      rw [Entries.symbol?_fresh] at hx
      split at hx
      next he => exact .inr ⟨_, .inr ⟨rfl, he⟩⟩
      next => exact (h.new' hx ho).imp_right fun ⟨a, ha⟩ => ⟨a, .inl ha⟩
    even := fun hp => by
      obtain ⟨h1, h2, h3⟩ := h.even fun ⟨k, d, hk, hr⟩ => hp ⟨k, d, by rwa [hd], hr⟩
      have hloose := hs.table.loose_fresh kind identity
      have hloose' := hs'.table.loose_fresh kind identity
      refine ⟨h1, h2, ?_⟩
      simp only [Even, loose, Entries.fresh, Entries.withTable, hloose, hloose'] at h3 ⊢
      omega
    passes := h.passes
    passes' := h.passes' }

section own

variable {s s' : SymbolId} {x x' : Symbol} {d d' : DeclId} {g : Region}

theorem Keys.cached_iff (h : l.Keys b b' n n') (hs : n.Sound σ strict) (hs' : n'.Sound σ strict)
    (hsym : (l.ids σ n n').symbol s s') {kind : SymbolKind} {desc : DescId} :
    n.cached? kind desc = some s ↔ n'.cached? kind desc = some s' := by
  rcases hsym with ⟨k, e, hk, hk'⟩ | hl
  · constructor
    · intro hc
      obtain ⟨rfl, rfl⟩ := hs.key_unique hc hk
      exact hk'
    · intro hc
      obtain ⟨rfl, rfl⟩ := hs'.key_unique hc hk'
      exact hk
  · obtain ⟨hn, hn'⟩ := h.symbol_loose hl
    constructor
    · intro hc
      cases hn.symm.trans (hs.descriptorOf_cached hc)
    · intro hc
      cases hn'.symm.trans (hs'.descriptorOf_cached hc)

theorem Keys.old_ne (h : l.Keys b b' n n') (hs : n.Sound σ strict)
    (hsym : (l.ids σ n n').symbol s s') {a : SymbolId} {y : Symbol} (ha : b.symbol? a = some y)
    (ho : b.descriptorOf? a = none) : a ≠ s := by
  rintro rfl
  rcases hsym with ⟨k, e, hk, _⟩ | hl
  · cases ((h.le.descriptorOf ha).trans ho).symm.trans (hs.descriptorOf_cached hk)
  · cases (h.symbol_new hl).1.symm.trans ha

theorem Keys.own (h : l.Keys b b' n n') (hs : n.Sound σ strict) (hs' : n'.Sound σ strict)
    (hsym : (l.ids σ n n').symbol s s') (hx : n.symbol? s = some x) (hx' : n'.symbol? s' = some x')
    (ho : x.owner = none) (ho' : x'.owner = none) (hd : l.decl d d' g) (origin : Origin) :
    l.Keys b b' (n.own s x d origin) (n'.own s' x' d' origin) := by
  have hle := Entries.le_own hx ho d origin
  have hle' := Entries.le_own hx' ho' d' origin
  have hiff : ∀ {kind desc}, n.cached? kind desc = some s ↔ n'.cached? kind desc = some s' :=
    h.cached_iff hs hs' hsym
  exact {
    le := h.le.trans hle
    le' := h.le'.trans hle'
    cached := h.cached
    cached' := h.cached'
    declared := fun {kind desc e} he hb => by
      simp only [Entries.declared?_own hx, Entries.declared?_own hx', ← hiff] at he ⊢
      split
      next hc =>
        rw [if_pos hc] at he
        cases he
        exact ⟨d', rfl, .inr ⟨g, hd⟩⟩
      next hc =>
        rw [if_neg hc] at he
        exact h.declared he hb
    declared' := fun {kind desc} he hb => by
      simp only [Entries.declared?_own hx, Entries.declared?_own hx', ← hiff] at he ⊢
      split
      next hc =>
        have hnone : n.declared? kind desc = none := by simp [Entries.declared?, hc, hx, ho]
        exact ⟨h.le.undeclared hnone, rfl⟩
      next hc =>
        rw [if_neg hc] at he
        exact h.declared' he hb
    symbol := fun {a a'} ha => by
      obtain ⟨y, y', hy, hy', hk, hi, hr⟩ := h.symbol ha
      have haiff : a = s ↔ a' = s' := by
        rcases hsym with ⟨k, e, hk, hk'⟩ | hl
        · obtain ⟨hn, hn'⟩ := h.symbol_loose ha
          have hne : a ≠ s := by
            rintro rfl
            cases hn.symm.trans (hs.descriptorOf_cached hk)
          have hne' : a' ≠ s' := by
            rintro rfl
            cases hn'.symm.trans (hs'.descriptorOf_cached hk')
          simp [hne, hne']
        · exact h.symbol_unique ha hl
      simp only [Entries.symbol?_own hx, Entries.symbol?_own hx', ← haiff]
      split
      next he =>
        subst he
        cases haiff.1 rfl
        cases hx.symm.trans hy
        cases hx'.symm.trans hy'
        exact ⟨_, _, rfl, rfl, hk, hi, .some ⟨g, hd⟩⟩
      next => exact ⟨y, y', hy, hy', hk, hi, hr⟩
    symbol_loose := h.symbol_loose
    symbol_new := h.symbol_new
    symbol_unique := h.symbol_unique
    old := fun ha hn => by
      rw [Entries.symbol?_own hx, if_neg (h.old_ne hs hsym ha hn)]
      exact h.old ha hn
    new' := fun {a' y'} ha hn => by
      rw [Entries.symbol?_own hx'] at ha
      split at ha
      next he =>
        subst he
        rcases hsym with ⟨k, e, _, hk'⟩ | hl
        · cases (show n'.descriptorOf? a' = none from hn).symm.trans (hs'.descriptorOf_cached hk')
        · exact .inr ⟨s, hl⟩
      next => exact h.new' ha hn
    even := fun hp => by
      obtain ⟨h1, h2, h3⟩ := h.even fun ⟨k, e, hk, hr⟩ => hp ⟨k, e, by
        obtain ⟨f, hf⟩ := Option.isSome_iff_exists.1 hk
        exact Option.isSome_of_mem (hle.declared hf), hr⟩
      have hloose : ∀ {n s x d}, loose (Entries.own n s x d origin) = loose n := by
        simp [loose, Entries.own, Entries.withTable, SymbolTable.loose, SymbolTable.own]
      refine ⟨?_, ?_, by simpa only [Even, hloose] using h3⟩
      all_goals
        simp only [Even, declarations, stubs, Entries.own, Entries.withTable] at h1 h2 ⊢
        cases origin <;> simp only [Stats.count] <;> omega
    passes := by cases origin <;> exact h.passes
    passes' := by cases origin <;> exact h.passes' }

/-- The first run declares what the second one had declared before: from here on they part. -/
theorem Keys.part (h : l.Keys b b' n n') (hs : n.Sound σ strict) {kind : SymbolKind}
    {desc : DescId} (hc : n.cached? kind desc = some s) (hx : n.symbol? s = some x)
    (ho : x.owner = none) (hb' : (b'.declared? kind desc).isSome) (d : DeclId) (origin : Origin) :
    l.Keys b b' (n.own s x d origin) n' ∧ Parted b b' (n.own s x d origin) := by
  have hle := Entries.le_own hx ho d origin
  have hnone : n.declared? kind desc = none := by simp [Entries.declared?, hc, hx, ho]
  have hkey : ∀ {kind' desc'}, n.cached? kind' desc' = some s ↔ kind' = kind ∧ desc' = desc := by
    intro kind' desc'
    constructor
    · intro hc'
      exact hs.key_unique hc' hc
    · rintro ⟨rfl, rfl⟩
      exact hc
  have hparted : Parted b b' (n.own s x d origin) := by
    refine ⟨kind, desc, ?_, h.le.undeclared hnone, hb'⟩
    simp [Entries.declared?_own hx, hc]
  refine ⟨?_, hparted⟩
  exact {
    le := h.le.trans hle
    le' := h.le'
    cached := h.cached
    cached' := h.cached'
    declared := fun {kind' desc' e} he hb => by
      simp only [Entries.declared?_own hx, hkey] at he
      split at he
      next heq =>
        obtain ⟨rfl, rfl⟩ := heq
        obtain ⟨f, hf⟩ := Option.isSome_iff_exists.1 hb'
        exact ⟨f, h.le'.declared hf, .inl hb'⟩
      next => exact h.declared he hb
    declared' := fun {kind' desc'} he hb => by
      obtain ⟨h1, h2⟩ := h.declared' he hb
      obtain ⟨f, hf⟩ := Option.isSome_iff_exists.1 h2
      exact ⟨h1, Option.isSome_of_mem (hle.declared hf)⟩
    symbol := fun {a a'} ha => by
      have hne : a ≠ s := by
        rintro rfl
        cases (h.symbol_loose ha).1.symm.trans (hs.descriptorOf_cached hc)
      simp only [Entries.symbol?_own hx, if_neg hne]
      exact h.symbol ha
    symbol_loose := h.symbol_loose
    symbol_new := h.symbol_new
    symbol_unique := h.symbol_unique
    old := fun {a y} ha hn => by
      have hne : a ≠ s := by
        rintro rfl
        cases ((h.le.descriptorOf ha).trans hn).symm.trans (hs.descriptorOf_cached hc)
      rw [Entries.symbol?_own hx, if_neg hne]
      exact h.old ha hn
    new' := h.new'
    even := fun hp => (hp hparted).elim
    passes := by cases origin <;> exact h.passes
    passes' := h.passes' }

end own

end Links

end TypedTree
