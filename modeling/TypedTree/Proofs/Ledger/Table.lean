import TypedTree.Proofs.Ledger.Growth

namespace TypedTree

theorem World.identity_withFiles (w : World) (files : List SourceFile) (d : Descriptor) :
    World.identity { w with tree.files := files } d = w.identity d := by
  have hcontainers : ∀ fuel id, World.containersUpTo { w with tree.files := files } fuel id =
      w.containersUpTo fuel id := by
    intro fuel
    induction fuel with
    | zero => intro id; rfl
    | succ fuel ih =>
      intro id
      cases id with
      | none => rfl
      | some id =>
        simp only [World.containersUpTo, ih]
        rfl
  have hall : World.containers { w with tree.files := files } d = w.containers d :=
    hcontainers _ _
  simp only [World.identity, hall]

theorem lookup_cons_of_ne {α β : Type} [BEq α] [LawfulBEq α] {k k' : α} (h : k ≠ k') (v : β)
    (l : List (α × β)) : ((k', v) :: l).lookup k = l.lookup k := by
  simp [List.lookup_cons, beq_false_of_ne h]

namespace SymbolTable

variable {w : World} {strict : Bool} {t t' : SymbolTable} {kind : SymbolKind} {desc : DescId}
  {id : SymbolId}

theorem getOrCreate?_withFiles (t : SymbolTable) (w : World) (files : List SourceFile)
    (kind : SymbolKind) (desc : DescId) :
    t.getOrCreate? { w with tree.files := files } kind desc = t.getOrCreate? w kind desc := by
  simp only [getOrCreate?, World.identity_withFiles]
  rfl

def create (t : SymbolTable) (kind : SymbolKind) (desc : DescId) (identity : SymbolIdentity) :
    SymbolTable :=
  { symbols := t.symbols.push ⟨kind, identity, none⟩
    cache := ((kind, desc), ⟨t.symbols.size⟩) :: t.cache
    origins := (⟨t.symbols.size⟩, desc) :: t.origins }

theorem getOrCreate?_cases (h : t.getOrCreate? w kind desc = some (id, t')) :
    t.cached? kind desc = some id ∧ t' = t ∨
      t.cached? kind desc = none ∧ id = ⟨t.symbols.size⟩ ∧
        ∃ d, w.descriptor? desc = some d ∧ t' = t.create kind desc (w.identity d) := by
  unfold getOrCreate? at h
  split at h
  next c hc =>
    cases h
    exact .inl ⟨hc, rfl⟩
  next hc =>
    obtain ⟨d, hd, he⟩ := Option.map_eq_some_iff.1 h
    cases he
    exact .inr ⟨hc, rfl, d, hd, rfl⟩

theorem sound_empty (w : World) (strict : Bool) : SymbolTable.Sound w strict {} :=
  ⟨by simp [cached?], by simp [descriptorOf?], by simp [cached?], by simp, by simp⟩

theorem get?_push_of_some (h : t.get? id = some x) : (t.symbols.push y)[id.index]? = some x :=
  getElem?_push_of_some h

theorem Sound.cached_ne_size (h : t.Sound w strict) {kind : SymbolKind} {desc : DescId}
    (hc : t.cached? kind desc = some id) : id ≠ ⟨t.symbols.size⟩ := by
  rintro rfl
  obtain ⟨x, _, hx, _⟩ := h.cached hc
  simp [get?] at hx

theorem cached?_create (t : SymbolTable) (kind kind' : SymbolKind) (desc desc' : DescId)
    (identity : SymbolIdentity) : (t.create kind desc identity).cached? kind' desc' =
      if kind' = kind ∧ desc' = desc then some ⟨t.symbols.size⟩ else t.cached? kind' desc' := by
  by_cases h : kind' = kind ∧ desc' = desc
  · obtain ⟨rfl, rfl⟩ := h
    simp [cached?, create]
  · rw [if_neg h, cached?, create, lookup_cons_of_ne (by simpa using h)]
    rfl

theorem descriptorOf?_create (t : SymbolTable) (kind : SymbolKind) (desc : DescId)
    (identity : SymbolIdentity) (id : SymbolId) :
    (t.create kind desc identity).descriptorOf? id =
      if id = ⟨t.symbols.size⟩ then some desc else t.descriptorOf? id := by
  by_cases h : id = ⟨t.symbols.size⟩
  · subst h
    simp [descriptorOf?, create]
  · rw [if_neg h, descriptorOf?, create, lookup_cons_of_ne h]
    rfl

theorem get?_create (t : SymbolTable) (kind : SymbolKind) (desc : DescId)
    (identity : SymbolIdentity) (id : SymbolId) :
    (t.create kind desc identity).get? id =
      if id = ⟨t.symbols.size⟩ then some ⟨kind, identity, none⟩ else t.get? id := by
  obtain ⟨i⟩ := id
  simp [get?, create, Array.getElem?_push]

theorem le_create (hc : t.cached? kind desc = none) (identity : SymbolIdentity) :
    t.Le (t.create kind desc identity) where
  symbol {_ x} hx := ⟨x, get?_push_of_some hx, .refl x⟩
  cached {kind' desc' _} h := by
    rw [cached?_create, if_neg, h]
    rintro ⟨rfl, rfl⟩
    cases hc.symm.trans h
  origin {id} hx := by
    rw [descriptorOf?_create, if_neg]
    rintro rfl
    simp [get?] at hx

theorem Sound.create (h : t.Sound w strict) {d : Descriptor}
    (hd : w.descriptor? desc = some d) (hc : t.cached? kind desc = none)
    (hfits : strict = true → w.Fits kind desc) :
    (t.create kind desc (w.identity d)).Sound w strict where
  cached {kind' desc' id'} h' := by
    rw [cached?_create] at h'
    split at h'
    next he =>
      obtain ⟨rfl, rfl⟩ := he
      cases h'
      exact ⟨_, d, by rw [get?_create, if_pos rfl], rfl, hd, rfl,
        by rw [descriptorOf?_create, if_pos rfl]⟩
    next =>
      obtain ⟨x, d', hx, hk, hd', hi, ho⟩ := h.cached h'
      have hne := h.cached_ne_size h'
      exact ⟨x, d', by rw [get?_create, if_neg hne, hx], hk, hd', hi,
        by rw [descriptorOf?_create, if_neg hne, ho]⟩
  origin {id' desc'} h' := by
    rw [descriptorOf?_create] at h'
    split at h'
    next he =>
      cases h'
      subst he
      exact ⟨_, by rw [get?_create, if_pos rfl], by rw [cached?_create, if_pos ⟨rfl, rfl⟩]⟩
    next hne =>
      obtain ⟨x, hx, hx'⟩ := h.origin h'
      refine ⟨x, by rw [get?_create, if_neg hne, hx], ?_⟩
      rw [cached?_create, if_neg, hx']
      rintro ⟨rfl, rfl⟩
      cases hc.symm.trans hx'
  fits hs {kind' desc' id'} h' := by
    rw [cached?_create] at h'
    split at h'
    next he =>
      obtain ⟨rfl, rfl⟩ := he
      exact hfits hs
    next => exact h.fits hs h'
  nodup := by
    refine List.nodup_cons.2 ⟨fun hm => ?_, h.nodup⟩
    obtain ⟨p, hp, he⟩ := List.mem_map.1 hm
    simpa [he] using List.lookup_eq_none_iff.1 hc p hp
  cache_le := by simpa [SymbolTable.create] using h.cache_le

theorem le_fresh (t : SymbolTable) (kind : SymbolKind) (identity : SymbolIdentity) :
    t.Le (t.fresh kind identity).2 where
  symbol {_ x} hx := ⟨x, get?_push_of_some hx, .refl x⟩
  cached h := h
  origin _ := rfl

theorem Sound.fresh (h : t.Sound w strict) (kind : SymbolKind) (identity : SymbolIdentity) :
    (t.fresh kind identity).2.Sound w strict where
  cached h' := by
    obtain ⟨x, d, hx, hk, hd, hi, ho⟩ := h.cached h'
    exact ⟨x, d, get?_push_of_some hx, hk, hd, hi, ho⟩
  origin h' := by
    obtain ⟨x, hx, hc⟩ := h.origin h'
    exact ⟨x, get?_push_of_some hx, hc⟩
  fits hs := h.fits hs
  nodup := h.nodup
  cache_le := by simpa [SymbolTable.fresh] using Nat.le_succ_of_le h.cache_le

/-- The table with an owner for a symbol. -/
def own (t : SymbolTable) (id : SymbolId) (x : Symbol) (decl : DeclId) : SymbolTable :=
  { t with symbols := t.symbols.setIfInBounds id.index { x with owner := some decl } }

theorem bind?_eq (hx : t.get? id = some x) (decl : DeclId) :
    t.bind? id decl = some (match x.owner with
      | some existing => .error (.symbolBound x.name existing decl)
      | none => .ok (t.own id x decl)) := by
  simp only [get?] at hx
  cases ho : x.owner <;>
    simp [bind?, Store.changeAt, hx, Symbol.bind, ho, Except.map, own]

theorem get?_own (hx : t.get? id = some x) (decl : DeclId) (id' : SymbolId) :
    (t.own id x decl).get? id' =
      if id' = id then some { x with owner := some decl } else t.get? id' := by
  obtain ⟨i⟩ := id
  obtain ⟨j⟩ := id'
  have hi : i < t.symbols.size := (Array.getElem?_eq_some_iff.1 hx).1
  by_cases h : i = j
  · subst h
    simp [get?, own, hi]
  · simp [get?, own, h, Ne.symm h]

theorem le_own (hx : t.get? id = some x) (ho : x.owner = none) (decl : DeclId) :
    t.Le (t.own id x decl) where
  symbol {id' y} hy := by
    rw [get?_own hx]
    split
    next he =>
      subst he
      cases hx.symm.trans hy
      exact ⟨_, rfl, rfl, rfl, by simp [ho]⟩
    next => exact ⟨y, hy, .refl y⟩
  cached h := h
  origin _ := rfl

theorem Sound.own (h : t.Sound w strict) {x : Symbol} (hx : t.get? id = some x)
    (decl : DeclId) : (t.own id x decl).Sound w strict where
  cached {_ _ id'} h' := by
    obtain ⟨y, d, hy, hk, hd, hi, ho⟩ := h.cached h'
    by_cases he : id' = id
    · subst he
      cases hx.symm.trans hy
      exact ⟨{ x with owner := some decl }, d, by rw [get?_own hx, if_pos rfl], hk, hd, hi, ho⟩
    · exact ⟨y, d, by rw [get?_own hx, if_neg he, hy], hk, hd, hi, ho⟩
  origin {id' _} h' := by
    obtain ⟨y, hy, hc⟩ := h.origin h'
    by_cases he : id' = id
    · subst he
      cases hx.symm.trans hy
      exact ⟨{ x with owner := some decl }, by rw [get?_own hx, if_pos rfl], hc⟩
    · exact ⟨y, by rw [get?_own hx, if_neg he, hy], hc⟩
  fits hs := h.fits hs
  nodup := h.nodup
  cache_le := by simpa [SymbolTable.own] using h.cache_le

theorem boundCount_push (t : SymbolTable) (kind : SymbolKind) (identity : SymbolIdentity)
    {t' : SymbolTable} (h : t'.symbols = t.symbols.push ⟨kind, identity, none⟩) :
    t'.boundCount = t.boundCount := by
  simp [boundCount, h, Symbol.isBound]

theorem boundCount_own (hx : t.get? id = some x) (ho : x.owner = none) (decl : DeclId) :
    (t.own id x decl).boundCount = t.boundCount + 1 := by
  obtain ⟨hi, he⟩ := Array.getElem?_eq_some_iff.1 hx
  have hi' : id.index < t.symbols.toList.length := by simpa using hi
  simp [boundCount, own, List.countP_set hi', Symbol.isBound, he, ho]

theorem loose_create (t : SymbolTable) (kind : SymbolKind) (desc : DescId)
    (identity : SymbolIdentity) : (t.create kind desc identity).loose = t.loose := by
  simp [loose, SymbolTable.create]

theorem Sound.loose_fresh (h : t.Sound w strict) (kind : SymbolKind) (identity : SymbolIdentity) :
    (t.fresh kind identity).2.loose = t.loose + 1 := by
  have hle := h.cache_le
  simp only [loose, SymbolTable.fresh, Array.size_push]
  omega

end SymbolTable

/-- One more declaration of the given origin. -/
def Stats.count (s : Stats) : Origin → Stats
  | .stub => { s with stubs := s.stubs + 1 }
  | .source | .synthetic => { s with declarations := s.declarations + 1 }

theorem Stats.count_total (s : Stats) (origin : Origin) :
    (s.count origin).declarations + (s.count origin).stubs = s.declarations + s.stubs + 1 := by
  cases origin <;> simp only [count] <;> omega

namespace Entries

variable {n n' : Entries} {σ : Setting} {strict : Bool}

/-- Only the table and the counts change. -/
def withTable (n : Entries) (t : SymbolTable) (stats : Stats) : Entries :=
  { n with state := { n.state with table := t, stats := stats } }

theorem le_withTable (h : n.state.table.Le t) (stats : Stats) :
    n.Le (n.withTable t stats) where
  tint h := h
  mark h := h
  settled _ h := h
  decl h := h
  mentions _ := List.Subset.refl _
  targets := .refl _
  table := h

theorem Sound.withTable (h : n.Sound σ strict) {t : SymbolTable} (hle : n.state.table.Le t)
    (ht : t.Sound σ.world strict)
    (howner : ∀ {id x d}, t.get? id = some x → x.owner = some d → (n.mark? d).isSome)
    {stats : Stats} (hcounted : t.boundCount = stats.declarations + stats.stubs) :
    (n.withTable t stats).Sound σ strict where
  tints_size := h.tints_size
  marks_size := h.marks_size
  allows part m hm := (le_withTable hle stats).allows (h.allows part m hm)
  wellFounded := h.wellFounded
  guarded := h.guarded.keep (le_withTable hle stats) rfl (fun _ hh => hh) fun _ => rfl
  targets := h.targets
  classes hx := (le_withTable hle stats).confines (h.classes hx)
  owners := howner
  table := ht
  types hτ := (h.types hτ).mono (le_withTable hle stats)
  counted := hcounted

def fresh (n : Entries) (kind : SymbolKind) (identity : SymbolIdentity) : Entries :=
  n.withTable (n.state.table.fresh kind identity).2 n.state.stats

def nextSymbol (n : Entries) : SymbolId := ⟨n.state.table.symbols.size⟩

theorem symbol?_fresh (n : Entries) (kind : SymbolKind) (identity : SymbolIdentity)
    (id : SymbolId) : (n.fresh kind identity).symbol? id =
      if id = n.nextSymbol then some ⟨kind, identity, none⟩ else n.symbol? id := by
  obtain ⟨i⟩ := id
  simp [symbol?, fresh, withTable, SymbolTable.get?, SymbolTable.fresh, nextSymbol,
    Array.getElem?_push]

@[simp] theorem symbol?_nextSymbol (n : Entries) : n.symbol? n.nextSymbol = none := by
  simp [symbol?, nextSymbol, SymbolTable.get?]

theorem Sound.descriptorOf?_nextSymbol (h : n.Sound σ strict) :
    n.state.table.descriptorOf? n.nextSymbol = none := by
  cases ho : n.state.table.descriptorOf? n.nextSymbol with
  | none => rfl
  | some desc =>
    obtain ⟨x, hx, _⟩ := h.table.origin ho
    cases n.symbol?_nextSymbol.symm.trans hx

theorem le_fresh (n : Entries) (kind : SymbolKind) (identity : SymbolIdentity) :
    n.Le (n.fresh kind identity) :=
  le_withTable (n.state.table.le_fresh kind identity) _

theorem Sound.fresh (h : n.Sound σ strict) (kind : SymbolKind) (identity : SymbolIdentity) :
    (n.fresh kind identity).Sound σ strict := by
  refine h.withTable (n.state.table.le_fresh kind identity) (h.table.fresh kind identity) ?_
    ((SymbolTable.boundCount_push _ kind identity rfl).trans h.counted)
  intro id x d hx hd
  rw [show (n.state.table.fresh kind identity).2.get? id = _ from
    n.symbol?_fresh kind identity id] at hx
  split at hx
  next =>
    cases hx
    cases hd
  next => exact h.owners hx hd

/-- The entries with an owner for a symbol, which is counted. -/
def own (n : Entries) (id : SymbolId) (x : Symbol) (decl : DeclId) (origin : Origin) : Entries :=
  n.withTable (n.state.table.own id x decl) (n.state.stats.count origin)

theorem symbol?_own {id : SymbolId} (hx : n.symbol? id = some x) (decl : DeclId) (origin : Origin)
    (id' : SymbolId) : (n.own id x decl origin).symbol? id' =
      if id' = id then some { x with owner := some decl } else n.symbol? id' :=
  SymbolTable.get?_own hx decl id'

theorem le_own {id : SymbolId} (hx : n.symbol? id = some x) (ho : x.owner = none) (decl : DeclId)
    (origin : Origin) : n.Le (n.own id x decl origin) :=
  le_withTable (SymbolTable.le_own hx ho decl) _

theorem Sound.own (h : n.Sound σ strict) {id : SymbolId} {x : Symbol}
    (hx : n.symbol? id = some x) (ho : x.owner = none) {decl : DeclId}
    (hd : (n.mark? decl).isSome) (origin : Origin) : (n.own id x decl origin).Sound σ strict := by
  refine h.withTable (SymbolTable.le_own hx ho decl) (h.table.own hx decl) ?_ ?_
  · intro id' y e hy he
    rw [SymbolTable.get?_own hx] at hy
    split at hy
    next =>
      cases hy
      cases he
      exact hd
    next => exact h.owners hy he
  · rw [SymbolTable.boundCount_own hx ho, Stats.count_total, h.counted]

def remember (n : Entries) (id : TypeId) (τ : TreeType) : Entries :=
  { n with state.types := (id, τ) :: n.state.types }

theorem le_remember (n : Entries) (id : TypeId) (τ : TreeType) : n.Le (n.remember id τ) where
  tint h := h
  mark h := h
  settled _ h := h
  decl h := h
  mentions _ := List.Subset.refl _
  targets := .refl _
  table := .refl _

theorem Sound.remember (h : n.Sound σ strict) {id : TypeId} {τ : TreeType}
    (hτ : Realizes σ n (.type id) (.type τ)) : (n.remember id τ).Sound σ strict where
  tints_size := h.tints_size
  marks_size := h.marks_size
  allows part m hm := (n.le_remember id τ).allows (h.allows part m hm)
  wellFounded := h.wellFounded
  guarded := h.guarded.keep (n.le_remember id τ) rfl (fun _ hh => hh) fun _ => rfl
  targets := h.targets
  classes hx := (n.le_remember id τ).confines (h.classes hx)
  owners := h.owners
  table := h.table
  types {id' τ'} h' := by
    by_cases he : id' = id
    · subst he
      simp only [Entries.remember, List.lookup_cons_self, Option.some.injEq] at h'
      exact (h' ▸ hτ).mono (n.le_remember id' τ)
    · simp only [Entries.remember, lookup_cons_of_ne he] at h'
      exact (h.types h').mono (n.le_remember id τ)
  counted := h.counted

end Entries

end TypedTree
