import TypedTree.Proofs.Ledger.Table
import TypedTree.Proofs.Run

namespace TypedTree

def Setting.withFiles (σ : Setting) (files : List SourceFile) : Setting :=
  ⟨{ σ.world with tree.files := files }, σ.config⟩

/-- Entries that gained types and annotations: nothing else is new, and the new symbols are for
keys of the given kind. -/
structure Entries.Gains (N : SymbolKind → DescId → Prop) (n n' : Entries) : Prop where
  le : n.Le n'
  expr : ∀ {id x}, n.expr? id = some x → n'.expr? id = some x
  opens : n'.opens = n.opens
  symbol : ∀ {id x}, n'.symbol? id = some x → n.symbol? id = some x ∨
    n.symbol? id = none ∧ x.owner = none ∧ (n'.state.table.descriptorOf? id).isSome
  key : ∀ {kind desc id}, n'.cached? kind desc = some id →
    n.cached? kind desc = some id ∨ N kind desc
  stats : n'.state.stats = n.state.stats
  loose : n'.state.table.loose = n.state.table.loose

namespace Entries.Gains

variable {N N' : SymbolKind → DescId → Prop} {n n' n'' : Entries}

theorem refl (n : Entries) : n.Gains N n where
  le := .refl n
  expr h := h
  opens := rfl
  symbol := .inl
  key := .inl
  stats := rfl
  loose := rfl

theorem trans (h : n.Gains N n') (h' : n'.Gains N n'') : n.Gains N n'' where
  le := h.le.trans h'.le
  expr hx := h'.expr (h.expr hx)
  opens := h'.opens.trans h.opens
  symbol {id x} hx := by
    rcases h'.symbol hx with hx' | ⟨hnone, ho, hd⟩
    · rcases h.symbol hx' with hx'' | ⟨hnone, ho, hd⟩
      · exact .inl hx''
      · refine .inr ⟨hnone, ho, ?_⟩
        rwa [h'.le.table.origin (Option.isSome_of_mem hx')]
    · refine .inr ⟨?_, ho, hd⟩
      cases hn : n.symbol? id with
      | none => rfl
      | some y =>
        obtain ⟨z, hz, _⟩ := h.le.table.symbol hn
        cases hz.symm.trans hnone
  key hc := by
    rcases h'.key hc with hc | hN
    · exact h.key hc
    · exact .inr hN
  stats := h'.stats.trans h.stats
  loose := h'.loose.trans h.loose

theorem imp (h : n.Gains N n') (hN : ∀ kind desc, N kind desc → N' kind desc) : n.Gains N' n' :=
  { h with key := fun hc => (h.key hc).imp_right (hN _ _) }

end Entries.Gains

namespace Wanted

/-- A fact that some tree can show. -/
def Realizable (σ : Setting) (x : Wanted) : Prop := ∃ n m, Realizes σ n x m

/-- A symbol that every tree with the fact has. -/
def Needs (σ : Setting) (x : Wanted) (kind : SymbolKind) (desc : DescId) : Prop :=
  ∀ n m, Realizes σ n x m → (n.cached? kind desc).isSome

/-- A symbol that is made on the way to a fact. -/
def Gets (σ : Setting) (x : Wanted) (kind : SymbolKind) (desc : DescId) : Prop :=
  x.Needs σ kind desc ∧ σ.world.Fits kind desc

/-- A tree with one fact has the other one, too. -/
def Implies (σ : Setting) (x y : Wanted) : Prop :=
  ∀ n m, Realizes σ n x m → ∃ m', Realizes σ n y m'

/-- How asking for a fact may fail: a fact that some tree shows is only ever out of reach. -/
structure Errs (σ : Setting) (x : Wanted) (e : LowerError) : Prop where
  endless : x.Realizable σ → e = .endless
  inRange : σ.world.InRange → e ≠ .dangling
  notBound : ∀ cause, e ≠ .alreadyBound cause

variable {σ : Setting} {x y : Wanted}

theorem Implies.errs (h : x.Implies σ y) {e : LowerError} (he : y.Errs σ e) : x.Errs σ e where
  endless := fun ⟨n, m, hx⟩ => he.endless ⟨n, h n m hx⟩
  inRange := he.inRange
  notBound := he.notBound

theorem Implies.needs (h : x.Implies σ y) {kind : SymbolKind} {desc : DescId}
    (hy : y.Needs σ kind desc) : x.Needs σ kind desc := fun n m hx =>
  let ⟨m', hm⟩ := h n m hx
  hy n m' hm

end Wanted

namespace Ledger

variable {σ : Setting} {strict : Bool} {files : List SourceFile} {α β : Type}

/-- A step on the way to a fact: it only gains types and annotations, also if it fails. -/
def Makes (L : Ledger σ strict) (files : List SourceFile) (x : Wanted) (m : Lower α)
    (Q : Ledger σ strict → α → Prop) : Prop :=
  match m.runFrom (σ.withFiles files) L.state with
  | (.ok a, s) => ∃ L' : Ledger σ strict, L.Gains (x.Gets σ) L'.toEntries ∧ L'.state = s ∧ Q L' a
  | (.error e, s) => ∃ L' : Ledger σ strict, L ≤ L' ∧ L'.state = s ∧ x.Errs σ e

variable {L : Ledger σ strict} {x y : Wanted} {Q : Ledger σ strict → α → Prop}
  {R : Ledger σ strict → β → Prop}

namespace Makes

theorem pure (h : Q L a) : L.Makes files x (pure a) Q := ⟨L, .refl _, rfl, h⟩

theorem throw (h : x.Errs σ e) : L.Makes files x (throw e) Q :=
  ⟨L, le_refl L, rfl, h⟩

theorem bind (h : L.Makes files x m Q) (hk : ∀ L' a, L ≤ L' → Q L' a → L'.Makes files x (k a) R) :
    L.Makes files x (m >>= k) R := by
  unfold Makes at h ⊢
  rw [Lower.runFrom_bind]
  rcases hm : m.runFrom (σ.withFiles files) L.state with ⟨e | a, s⟩
  · rw [hm] at h
    exact h
  · rw [hm] at h
    obtain ⟨L1, hg, rfl, ha⟩ := h
    have hk := hk L1 a hg.le ha
    unfold Makes at hk
    dsimp only
    rcases hn : (k a).runFrom (σ.withFiles files) L1.state with ⟨e | b, t⟩
    · rw [hn] at hk
      obtain ⟨L2, hle, hs, he⟩ := hk
      exact ⟨L2, le_trans (a := L) hg.le hle, hs, he⟩
    · rw [hn] at hk
      obtain ⟨L2, hg', hs, hb⟩ := hk
      exact ⟨L2, hg.trans hg', hs, hb⟩

theorem imp (h : L.Makes files x m Q) (hQ : ∀ L' a, L ≤ L' → Q L' a → Q' L' a) :
    L.Makes files x m Q' := by
  unfold Makes at h ⊢
  split
  next a s hm =>
    rw [hm] at h
    obtain ⟨L', hg, hs, ha⟩ := h
    exact ⟨L', hg, hs, hQ L' a hg.le ha⟩
  next e s hm =>
    rw [hm] at h
    exact h

theorem part (h : L.Makes files y m Q) (hxy : x.Implies σ y) : L.Makes files x m Q := by
  unfold Makes at h ⊢
  split
  next a s hm =>
    rw [hm] at h
    obtain ⟨L', hg, hs, ha⟩ := h
    exact ⟨L', hg.imp fun _ _ => And.imp_left hxy.needs, hs, ha⟩
  next e s hm =>
    rw [hm] at h
    obtain ⟨L', hle, hs, he⟩ := h
    exact ⟨L', hle, hs, hxy.errs he⟩

theorem get_bind (h : L.Makes files x (k L.state) R) : L.Makes files x (get >>= k) R := by
  unfold Makes at h ⊢
  rwa [Lower.runFrom_bind_ok _ _ (Lower.runFrom_get _ _)]

theorem read_bind (h : L.Makes files x (k (σ.withFiles files)) R) :
    L.Makes files x (read >>= k) R := by
  unfold Makes at h ⊢
  rwa [Lower.runFrom_bind_ok _ _ (Lower.runFrom_read _ _)]

/-- Looking up what a realizable fact refers to fails only in a unit with a reference that leads
nowhere. -/
theorem present_bind {γ : Type} {found : Option γ} (hin : σ.world.InRange → found.isSome)
    (hreal : x.Realizable σ → found.isSome) {k : γ → Lower β}
    (hk : ∀ c, found = some c → L.Makes files x (k c) R) :
    L.Makes files x (Lower.present found >>= k) R := by
  cases found with
  | none =>
    refine throw ⟨fun h => ?_, fun h => ?_, by simp⟩
    · simpa using hreal h
    · simpa using hin h
  | some c => simpa [Lower.present] using hk c rfl

theorem sourceType_bind {id : TypeId} (hid : σ.world.Finds (.type id))
    (hreal : x.Realizable σ → (σ.world.type? id).isSome) {k : SourceType → Lower β}
    (hk : ∀ t, σ.world.type? id = some t → L.Makes files x (k t) R) :
    L.Makes files x (Lower.sourceType id >>= k) R := by
  simp only [Lower.sourceType, bind_assoc]
  exact read_bind (present_bind hid hreal hk)

theorem descriptor_bind {id : DescId} (hid : σ.world.Finds (.desc id))
    (hreal : x.Realizable σ → (σ.world.descriptor? id).isSome) {k : Descriptor → Lower β}
    (hk : ∀ d, σ.world.descriptor? id = some d → L.Makes files x (k d) R) :
    L.Makes files x (Lower.descriptor id >>= k) R := by
  simp only [Lower.descriptor, bind_assoc]
  exact read_bind (present_bind hid hreal hk)

end Makes

def create (L : Ledger σ strict) {kind : SymbolKind} {desc : DescId} {d : Descriptor}
    (hd : σ.world.descriptor? desc = some d) (hc : L.cached? kind desc = none)
    (hfits : strict = true → σ.world.Fits kind desc) : Ledger σ strict where
  toEntries := L.withTable (L.state.table.create kind desc (σ.world.identity d)) L.state.stats
  sound := by
    refine L.sound.withTable (SymbolTable.le_create hc _) (L.sound.table.create hd hc hfits) ?_
      ((SymbolTable.boundCount_push _ kind (σ.world.identity d) rfl).trans L.sound.counted)
    intro id x e hx he
    rw [SymbolTable.get?_create] at hx
    split at hx
    next =>
      cases hx
      cases he
    next => exact L.sound.owners hx he

theorem gains_create (L : Ledger σ strict) {kind : SymbolKind} {desc : DescId} {d : Descriptor}
    (hd : σ.world.descriptor? desc = some d) (hc : L.cached? kind desc = none)
    (hfits : strict = true → σ.world.Fits kind desc) (hN : N kind desc) :
    L.Gains N (L.create hd hc hfits).toEntries where
  le := Entries.le_withTable (SymbolTable.le_create hc _) _
  expr h := h
  opens := rfl
  symbol {id x} hx := by
    simp only [create, Entries.withTable, Entries.symbol?, SymbolTable.get?_create] at hx
    split at hx
    next he =>
      cases hx
      refine .inr ⟨by simp [Entries.symbol?, SymbolTable.get?, he], rfl, ?_⟩
      simp [create, Entries.withTable, SymbolTable.descriptorOf?_create, he]
    next => exact .inl hx
  key {kind' desc' id} h := by
    simp only [create, Entries.withTable, Entries.cached?, SymbolTable.cached?_create] at h
    split at h
    next he => exact .inr (he.1 ▸ he.2 ▸ hN)
    next => exact .inl h
  stats := rfl
  loose := SymbolTable.loose_create _ kind desc _

/-- The symbol of a key is there, or is new, or its descriptor is missing. -/
theorem runFrom_symbolOf (L : Ledger σ strict) (files : List SourceFile) {kind : SymbolKind}
    {desc : DescId} (hfits : strict = true → σ.world.Fits kind desc) :
    match (Lower.symbolOf kind desc).runFrom (σ.withFiles files) L.state with
    | (.ok id, s) => ∃ L' : Ledger σ strict, L.Gains (fun k e => k = kind ∧ e = desc) L'.toEntries ∧
        L'.state = s ∧ L'.cached? kind desc = some id
    | (.error e, s) => L.state = s ∧ e = .dangling ∧ σ.world.descriptor? desc = none := by
  unfold Lower.symbolOf
  rw [Lower.runFrom_bind_ok _ _ (Lower.runFrom_get _ _),
    Lower.runFrom_bind_ok _ _ (Lower.runFrom_read _ _)]
  simp only [Setting.withFiles, SymbolTable.getOrCreate?_withFiles]
  cases hc : L.state.table.getOrCreate? σ.world kind desc with
  | none =>
    refine ⟨rfl, rfl, ?_⟩
    unfold SymbolTable.getOrCreate? at hc
    split at hc
    next => cases hc
    next => simpa using hc
  | some c =>
    obtain ⟨id, t⟩ := c
    rcases SymbolTable.getOrCreate?_cases hc with ⟨hcached, rfl⟩ | ⟨hnone, rfl, d, hd, rfl⟩
    · exact ⟨L, .refl _, rfl, hcached⟩
    · exact ⟨L.create hd hnone hfits, L.gains_create hd hnone hfits ⟨rfl, rfl⟩, rfl,
        by simp [create, Entries.withTable, Entries.cached?, SymbolTable.cached?_create]⟩

theorem Makes.symbolOf (hdesc : σ.world.Finds (.desc desc))
    (hreal : x.Realizable σ → (σ.world.descriptor? desc).isSome) (hneeds : x.Needs σ kind desc)
    (hfits : σ.world.Fits kind desc) :
    L.Makes files x (Lower.symbolOf kind desc) fun L' id => L'.cached? kind desc = some id := by
  have hrun := L.runFrom_symbolOf files fun _ => hfits
  unfold Makes
  split
  next id s hm =>
    rw [hm] at hrun
    obtain ⟨L', hg, hs, hc⟩ := hrun
    exact ⟨L', hg.imp (by rintro _ _ ⟨rfl, rfl⟩; exact ⟨hneeds, hfits⟩), hs, hc⟩
  next e s hm =>
    rw [hm] at hrun
    obtain ⟨hs, rfl, hnone⟩ := hrun
    refine ⟨L, le_refl L, hs, fun h => ?_, fun h => ?_, by simp⟩
    · simp [hnone] at hreal
      exact (hreal h).elim
    · have := hdesc h
      simp [World.has, hnone] at this

theorem settles_of_shown (L : Ledger σ strict) {n : Entries} {g : Region} {m m' : Mention}
    (h : Mention.Alike (Entries.shown σ L.toEntries n) g m m') : L.Settles m := by
  cases h with
  | expr h _ =>
    rcases h with h | ⟨_, _, _, _, h, _⟩
    · exact h.elim
    · exact h.1
  | decl h => exact h.elim
  | note h =>
    obtain ⟨_, _, _, _, h, _⟩ := h
    exact h.1
  | aside h =>
    rcases h with h | ⟨_, _, _, _, h, _⟩
    · exact h.elim
    · exact h.1
  | symbol h =>
    obtain ⟨kind, desc, h, _⟩ := h
    obtain ⟨x, _, hx, _⟩ := L.sound.table.cached h
    exact Option.isSome_of_mem hx
  | holds h => exact h.elim
  | uses h _ => exact h.elim

theorem exists_of_mem_forall₂ {α β : Type} {R : α → β → Prop} {xs : List α} {ys : List β}
    (h : List.Forall₂ R xs ys) {x : α} (hx : x ∈ xs) : ∃ y ∈ ys, R x y := by
  induction h with
  | nil => simp at hx
  | cons hab _ ih =>
    rcases List.mem_cons.1 hx with rfl | hx
    · exact ⟨_, by simp, hab⟩
    · obtain ⟨y, hy, hxy⟩ := ih hx
      exact ⟨y, by simp [hy], hxy⟩

theorem settles_content (L : Ledger σ strict) {c : TreeType × ExprKind}
    (h : Realizes σ L.toEntries x (.content (some c))) :
    ∀ m ∈ (⟨c.1, [], c.2⟩ : Expr).mentions, L.Settles m := by
  intro m hm
  cases h.alike h with
  | content hc =>
    cases hc with
    | some hc =>
      have halike : Expr.Alike (Entries.shown σ L.toEntries L.toEntries) [] ⟨c.1, [], c.2⟩
          ⟨c.1, [], c.2⟩ := ⟨hc.1, .nil, hc.2⟩
      obtain ⟨m', _, hmm⟩ := exists_of_mem_forall₂ halike.mentions hm
      exact L.settles_of_shown hmm

def settle (L : Ledger σ strict) {c : TreeType × ExprKind}
    (h : Realizes σ L.toEntries x (.content (some c))) : Ledger σ strict where
  toEntries := L.addExpr ⟨c.1, [], c.2⟩ .settled
  sound := L.sound.addSettled (L.settles_content h)

theorem gains_settle (L : Ledger σ strict) {c : TreeType × ExprKind}
    (h : Realizes σ L.toEntries x (.content (some c))) :
    L.Gains N (L.settle h).toEntries where
  le := L.le_addExpr _ _
  expr h := getElem?_push_of_some h
  opens := rfl
  symbol := .inl
  key := .inl
  stats := rfl
  loose := rfl

theorem stands_settle (L : Ledger σ strict) {c : TreeType × ExprKind}
    (h : Realizes σ L.toEntries x (.content (some c))) : (L.settle h).Stands c L.nextExpr :=
  ⟨Entries.tint?_addExpr_nextExpr L.sound _ _, L.expr?_addExpr_nextExpr _ _⟩

def remember (L : Ledger σ strict) {id : TypeId} {τ : TreeType}
    (h : Realizes σ L.toEntries (.type id) (.type τ)) : Ledger σ strict where
  toEntries := L.toEntries.remember id τ
  sound := L.sound.remember h

theorem gains_remember (L : Ledger σ strict) {id : TypeId} {τ : TreeType}
    (h : Realizes σ L.toEntries (.type id) (.type τ)) :
    L.Gains N (L.remember h).toEntries where
  le := L.le_remember id τ
  expr h := h
  opens := rfl
  symbol := .inl
  key := .inl
  stats := rfl
  loose := rfl

namespace Makes

theorem addContent (h : Realizes σ L.toEntries y (.content c)) :
    L.Makes files x (Lower.addContent c) fun L' e => Option.Rel L'.Stands c e := by
  cases c with
  | none => exact pure .none
  | some c => exact ⟨L.settle h, L.gains_settle h, rfl, .some (L.stands_settle h)⟩

theorem rememberType {id : TypeId} (h : Realizes σ L.toEntries (.type id) (.type τ)) :
    L.Makes files x (Lower.rememberType id τ) fun _ _ => True :=
  ⟨L.remember h, L.gains_remember h, rfl, trivial⟩

end Makes

end Ledger

end TypedTree
