import Mathlib.Order.Basic
import TypedTree.Lowering.State
import TypedTree.Proofs.Mention

namespace TypedTree

def Store.mentions (s : Store) : TreePart → List Mention
  | .decl id => ((s.decl? id).map (·.mentions)).getD []
  | .expr id => ((s.expr? id).map (·.mentions)).getD []
  | .type _ | .symbol _ | .functionTarget _ | .loopTarget _ | .whenRef _ => []

/-- A symbol that may have got an owner, and is else the same. -/
structure Symbol.Le (x y : Symbol) : Prop where
  kind : y.kind = x.kind
  identity : y.identity = x.identity
  owner : ∀ d, x.owner = some d → y.owner = some d

theorem Symbol.Le.refl (x : Symbol) : x.Le x := ⟨rfl, rfl, fun _ h => h⟩

theorem Symbol.Le.trans {x y : Symbol} (h : x.Le y) (h' : y.Le z) : x.Le z :=
  ⟨h'.kind.trans h.kind, h'.identity.trans h.identity, fun d hd => h'.owner d (h.owner d hd)⟩

/-- A later table: keys keep their symbols, and symbols their descriptors. -/
structure SymbolTable.Le (t t' : SymbolTable) : Prop where
  symbol : ∀ {id x}, t.get? id = some x → ∃ y, t'.get? id = some y ∧ x.Le y
  cached : ∀ {kind desc id}, t.cached? kind desc = some id → t'.cached? kind desc = some id
  origin : ∀ {id}, (t.get? id).isSome → t'.descriptorOf? id = t.descriptorOf? id

theorem SymbolTable.Le.refl (t : SymbolTable) : t.Le t where
  symbol {_ x} h := ⟨x, h, .refl x⟩
  cached h := h
  origin _ := rfl

theorem SymbolTable.Le.trans {t t' : SymbolTable} (h : t.Le t') (h' : t'.Le t'') :
    t.Le t'' where
  symbol hx := by
    obtain ⟨y, hy, hxy⟩ := h.symbol hx
    obtain ⟨z, hz, hyz⟩ := h'.symbol hy
    exact ⟨z, hz, hxy.trans hyz⟩
  cached hc := h'.cached (h.cached hc)
  origin hx := by
    obtain ⟨x, hx⟩ := Option.isSome_iff_exists.1 hx
    obtain ⟨y, hy, _⟩ := h.symbol hx
    exact (h'.origin (by simp [hy])).trans (h.origin (by simp [hx]))

structure FunctionTarget.Le (x y : FunctionTarget) : Prop where
  label : y.label = x.label
  isLambda : y.isLambda = x.isLambda
  owner : ∀ d, x.owner = some d → y.owner = some d

structure LoopTarget.Le (x y : LoopTarget) : Prop where
  label : y.label = x.label
  owner : ∀ e, x.owner = some e → y.owner = some e

/-- Later targets: they stay as they are and keep their owners. -/
structure Store.TargetsLe (s s' : Store) : Prop where
  function : ∀ {t x}, s.functionTarget? t = some x → ∃ y, s'.functionTarget? t = some y ∧ x.Le y
  loop : ∀ {t x}, s.loopTarget? t = some x → ∃ y, s'.loopTarget? t = some y ∧ x.Le y
  choice : ∀ {r x}, s.whenRef? r = some x →
    ∃ y, s'.whenRef? r = some y ∧ ∀ e, x.owner = some e → y.owner = some e

theorem Store.TargetsLe.of_same {s s' : Store} (hf : s'.functionTargets = s.functionTargets)
    (hl : s'.loopTargets = s.loopTargets) (hw : s'.whenRefs = s.whenRefs) : s.TargetsLe s' where
  function {_ x} h := ⟨x, by rwa [functionTarget?, hf], rfl, rfl, fun _ h => h⟩
  loop {_ x} h := ⟨x, by rwa [loopTarget?, hl], rfl, fun _ h => h⟩
  choice {_ x} h := ⟨x, by rwa [whenRef?, hw], fun _ h => h⟩

theorem Store.TargetsLe.refl (s : Store) : s.TargetsLe s := .of_same rfl rfl rfl

theorem Store.TargetsLe.trans {s s' : Store} (h : s.TargetsLe s') (h' : s'.TargetsLe s'') :
    s.TargetsLe s'' where
  function hx := by
    obtain ⟨y, hy, hxy⟩ := h.function hx
    obtain ⟨z, hz, hyz⟩ := h'.function hy
    exact ⟨z, hz, hyz.label.trans hxy.label, hyz.isLambda.trans hxy.isLambda,
      fun d hd => hyz.owner d (hxy.owner d hd)⟩
  loop hx := by
    obtain ⟨y, hy, hxy⟩ := h.loop hx
    obtain ⟨z, hz, hyz⟩ := h'.loop hy
    exact ⟨z, hz, hyz.label.trans hxy.label, fun e he => hyz.owner e (hxy.owner e he)⟩
  choice hx := by
    obtain ⟨y, hy, hxy⟩ := h.choice hx
    obtain ⟨z, hz, hyz⟩ := h'.choice hy
    exact ⟨z, hz, fun e he => hyz e (hxy e he)⟩

/-- What a holder stands for, once that is there. -/
def Store.owner? (s : Store) : Holder → Option TreePart
  | .function t => ((s.functionTarget? t).bind (·.owner)).map .decl
  | .loop t => ((s.loopTarget? t).bind (·.owner)).map .expr
  | .choice r => ((s.whenRef? r).bind (·.owner)).map .expr

def Store.Has (s : Store) : Holder → Prop
  | .function t => (s.functionTarget? t).isSome
  | .loop t => (s.loopTarget? t).isSome
  | .choice r => (s.whenRef? r).isSome

theorem Store.TargetsLe.has {s s' : Store} (h : s.TargetsLe s') {holder : Holder}
    (hh : s.Has holder) : s'.Has holder := by
  cases holder with
  | function t =>
    obtain ⟨x, hx⟩ := Option.isSome_iff_exists.1 hh
    obtain ⟨y, hy, _⟩ := h.function hx
    simp [Has, hy]
  | loop t =>
    obtain ⟨x, hx⟩ := Option.isSome_iff_exists.1 hh
    obtain ⟨y, hy, _⟩ := h.loop hx
    simp [Has, hy]
  | choice r =>
    obtain ⟨x, hx⟩ := Option.isSome_iff_exists.1 hh
    obtain ⟨y, hy, _⟩ := h.choice hx
    simp [Has, hy]

theorem Store.TargetsLe.owner {s s' : Store} (h : s.TargetsLe s') {holder : Holder}
    {part : TreePart} (ho : s.owner? holder = some part) : s'.owner? holder = some part := by
  cases holder with
  | function t =>
    simp only [owner?, Option.map_eq_some_iff, Option.bind_eq_some_iff] at ho ⊢
    obtain ⟨d, ⟨x, hx, hd⟩, rfl⟩ := ho
    obtain ⟨y, hy, hxy⟩ := h.function hx
    exact ⟨d, ⟨y, hy, hxy.owner d hd⟩, rfl⟩
  | loop t =>
    simp only [owner?, Option.map_eq_some_iff, Option.bind_eq_some_iff] at ho ⊢
    obtain ⟨e, ⟨x, hx, he⟩, rfl⟩ := ho
    obtain ⟨y, hy, hxy⟩ := h.loop hx
    exact ⟨e, ⟨y, hy, hxy.owner e he⟩, rfl⟩
  | choice r =>
    simp only [owner?, Option.map_eq_some_iff, Option.bind_eq_some_iff] at ho ⊢
    obtain ⟨e, ⟨x, hx, he⟩, rfl⟩ := ho
    obtain ⟨y, hy, hxy⟩ := h.choice hx
    exact ⟨e, ⟨y, hy, hxy e he⟩, rfl⟩

/-- How an expression may be used. -/
inductive Tint where
  /-- A piece of a type or of an annotation. Many nodes may share it, so it never changes. -/
  | settled
  /-- A piece of code that uses only the given holders. -/
  | code (region : List Holder)

/-- The holders that a declaration uses, and the target that it owns. -/
structure Mark where
  region : List Holder
  target : Option FunctionTargetId

/-- The holders that what stands in a declaration may use. -/
def Mark.inner (m : Mark) : List Holder := m.target.toList.map .function ++ m.region

/-- A state of lowering with what is known of its nodes. -/
structure Entries where
  state : State
  tints : Array Tint
  marks : Array Mark
  /-- The holders that have no owner yet, innermost first. -/
  opens : List Holder

namespace Entries

def tint? (n : Entries) (id : ExprId) : Option Tint := n.tints[id.index]?

def mark? (n : Entries) (id : DeclId) : Option Mark := n.marks[id.index]?

def expr? (n : Entries) (id : ExprId) : Option Expr := n.state.store.expr? id

def decl? (n : Entries) (id : DeclId) : Option Decl := n.state.store.decl? id

def symbol? (n : Entries) (id : SymbolId) : Option Symbol := n.state.table.get? id

def cached? (n : Entries) (kind : SymbolKind) (desc : DescId) : Option SymbolId :=
  n.state.table.cached? kind desc

def mentions (n : Entries) : TreePart → List Mention := n.state.store.mentions

def owner? (n : Entries) : Holder → Option TreePart := n.state.store.owner?

def Has (n : Entries) : Holder → Prop := n.state.store.Has

def Settled (n : Entries) (id : ExprId) : Prop := n.tint? id = some .settled

/-- Code that may stand where the given holders may be used. -/
def Code (n : Entries) (g : List Holder) (id : ExprId) : Prop :=
  ∃ g', n.tint? id = some (.code g') ∧ g' ⊆ g

/-- A declaration that may stand where the given holders may be used. -/
def Lies (n : Entries) (g : List Holder) (id : DeclId) : Prop :=
  ∃ m, n.mark? id = some m ∧ m.region ⊆ g

/-- In a class, nothing uses a holder from outside. The type parameters of a stub may be declared
anywhere. -/
def Confines (n : Entries) (x : Decl) : Prop :=
  ∀ c, x.kind = .classLike c → (∀ d ∈ c.declarations, n.Lies [] d) ∧
    ∀ d ∈ c.typeParameters, n.Lies [] d ∨ x.origin = .stub ∧
      ∃ id y, n.symbol? id = some y ∧ y.kind = .typeParameter ∧ y.owner = some d

/-- A mention that may stand in a settled expression. -/
def Settles (n : Entries) : Mention → Prop
  | .expr _ id | .note id | .aside id => n.Settled id
  | .symbol id => (n.symbol? id).isSome
  | .decl _ | .holds _ | .uses _ => False

/-- A mention that may stand in a part of a tree where the given holders may be used. -/
def Fits (n : Entries) (g : List Holder) (part : TreePart) : Mention → Prop
  | .expr inside id => n.Settled id ∨ n.Code (inside ++ g) id
  | .decl id => n.Lies g id
  | .note id => n.Settled id
  | .aside id => (n.tint? id).isSome
  | .symbol id => (n.symbol? id).isSome
  | .holds h => n.owner? h = some part
  | .uses h => n.Has h ∧ h ∈ g

def Allows (n : Entries) (part : TreePart) (m : Mention) : Prop :=
  match part with
  | .expr id =>
    match n.tint? id with
    | some .settled => n.Settles m
    | some (.code g) => n.Fits g part m
    | none => False
  | .decl id =>
    match n.mark? id with
    | some mark => n.Fits mark.inner part m
    | none => False
  | .type _ | .symbol _ | .functionTarget _ | .loopTarget _ | .whenRef _ => False

/-- Later entries: what is there stays, and only code gets further annotations. -/
structure Le (n n' : Entries) : Prop where
  tint : ∀ {id t}, n.tint? id = some t → n'.tint? id = some t
  mark : ∀ {id m}, n.mark? id = some m → n'.mark? id = some m
  settled : ∀ {id x}, n.Settled id → n.expr? id = some x → n'.expr? id = some x
  decl : ∀ {id x}, n.decl? id = some x → n'.decl? id = some x
  mentions : ∀ part, n.mentions part ⊆ n'.mentions part
  targets : n.state.store.TargetsLe n'.state.store
  table : n.state.table.Le n'.state.table

theorem Le.refl (n : Entries) : n.Le n where
  tint h := h
  mark h := h
  settled _ h := h
  decl h := h
  mentions _ := List.Subset.refl _
  targets := .refl _
  table := .refl _

variable {n n' n'' : Entries}

theorem Le.trans (h : n.Le n') (h' : n'.Le n'') : n.Le n'' where
  tint ht := h'.tint (h.tint ht)
  mark hm := h'.mark (h.mark hm)
  settled hs hx := h'.settled (h.tint hs) (h.settled hs hx)
  decl hx := h'.decl (h.decl hx)
  mentions part := List.Subset.trans (h.mentions part) (h'.mentions part)
  targets := h.targets.trans h'.targets
  table := h.table.trans h'.table

theorem Le.cached (h : n.Le n') {kind : SymbolKind} {desc : DescId} {id : SymbolId}
    (hc : n.cached? kind desc = some id) : n'.cached? kind desc = some id :=
  h.table.cached hc

theorem Le.hasSymbol (h : n.Le n') {id : SymbolId} (hs : (n.symbol? id).isSome) :
    (n'.symbol? id).isSome := by
  obtain ⟨x, hx⟩ := Option.isSome_iff_exists.1 hs
  obtain ⟨y, hy, _⟩ := h.table.symbol hx
  simp [symbol?, hy]

theorem Le.has (h : n.Le n') {holder : Holder} (hh : n.Has holder) : n'.Has holder :=
  h.targets.has hh

theorem Le.owner (h : n.Le n') {holder : Holder} {part : TreePart}
    (ho : n.owner? holder = some part) : n'.owner? holder = some part :=
  h.targets.owner ho

theorem Le.settles (h : n.Le n') {m : Mention} (hm : n.Settles m) : n'.Settles m := by
  cases m with
  | expr _ id => exact h.tint hm
  | note id => exact h.tint hm
  | aside id => exact h.tint hm
  | symbol id => exact h.hasSymbol hm
  | _ => exact hm.elim

theorem Le.code (h : n.Le n') {g : List Holder} {id : ExprId} (hc : n.Code g id) :
    n'.Code g id :=
  let ⟨g', ht, hg⟩ := hc
  ⟨g', h.tint ht, hg⟩

theorem Le.lies (h : n.Le n') {g : List Holder} {id : DeclId} (hl : n.Lies g id) :
    n'.Lies g id :=
  let ⟨m, hm, hg⟩ := hl
  ⟨m, h.mark hm, hg⟩

theorem Le.confines (h : n.Le n') {x : Decl} (hx : n.Confines x) : n'.Confines x := by
  intro c hc
  refine ⟨fun d hd => h.lies ((hx c hc).1 d hd), fun d hd => ?_⟩
  rcases (hx c hc).2 d hd with hl | ⟨ho, id, y, hy, hk, hd⟩
  · exact .inl (h.lies hl)
  · obtain ⟨z, hz, hyz⟩ := h.table.symbol hy
    exact .inr ⟨ho, id, z, hz, hyz.kind.trans hk, hyz.owner d hd⟩

theorem Le.fits (h : n.Le n') {g : List Holder} {part : TreePart} {m : Mention}
    (hm : n.Fits g part m) : n'.Fits g part m := by
  cases m with
  | expr inside id => exact Or.imp h.tint h.code hm
  | decl id => exact h.lies hm
  | note id => exact h.tint hm
  | aside id =>
    obtain ⟨t, ht⟩ := Option.isSome_iff_exists.1 hm
    exact Option.isSome_iff_exists.2 ⟨t, h.tint ht⟩
  | symbol id => exact h.hasSymbol hm
  | holds holder => exact h.owner hm
  | uses holder => exact ⟨h.has hm.1, hm.2⟩

theorem Le.allows (h : n.Le n') {part : TreePart} {m : Mention} (hm : n.Allows part m) :
    n'.Allows part m := by
  unfold Allows at hm ⊢
  cases part with
  | expr id =>
    cases ht : n.tint? id with
    | none => simp [ht] at hm
    | some t =>
      simp only [ht] at hm
      simp only [h.tint ht]
      cases t with
      | settled => exact h.settles hm
      | code g => exact h.fits hm
  | decl id =>
    cases ht : n.mark? id with
    | none => simp [ht] at hm
    | some mark =>
      simp only [ht] at hm
      simp only [h.mark ht]
      exact h.fits hm
  | _ => exact hm.elim

end Entries

end TypedTree
