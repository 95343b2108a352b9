import TypedTree.Proofs.Plain.Reference
import TypedTree.Proofs.Trace.Step

namespace TypedTree

theorem mapM_eq_some_iff {α β : Type} {f : α → Option β} {xs : List α} {ys : List β} :
    xs.mapM f = some ys ↔ List.Forall₂ (fun x y => f x = some y) xs ys := by
  induction xs generalizing ys with
  | nil => cases ys <;> simp
  | cons x xs ih =>
    rw [List.mapM_cons]
    simp only [Option.bind_eq_bind, Option.pure_def, Option.bind_eq_some_iff]
    constructor
    · rintro ⟨y, hy, zs, hzs, ⟨⟩⟩
      exact .cons hy (ih.1 hzs)
    · rintro (_ | ⟨hy, hys⟩)
      exact ⟨_, hy, _, ih.2 hys, rfl⟩

mutual

/-- No annotation stands at any depth of the type. -/
def PlainType.isBare : PlainType → Bool
  | ⟨_, _, arguments, annotations⟩ => annotations.isEmpty && PlainProjection.allBare arguments

def PlainProjection.isBare : PlainProjection → Bool
  | .star => true
  | .projection _ type => type.isBare

def PlainProjection.allBare : List PlainProjection → Bool
  | [] => true
  | argument :: rest => argument.isBare && PlainProjection.allBare rest

end

namespace State

def keyOf? (s : State) (id : SymbolId) : Option Key := do
  let x ← s.table.get? id
  return (x.kind, ← s.table.descriptorOf? id)

def calleeKey? (s : State) (id : ExprId) : Option Key := do
  let x ← s.store.expr? id
  match x.kind with
  | .call access _ => s.keyOf? access.callee
  | _ => none

mutual

/-- A type with the keys of its symbols in their place. -/
def plain? (s : State) : TreeType → Option PlainType
  | ⟨classifier, nullable, arguments, annotations⟩ => do
    return ⟨← s.keyOf? classifier, nullable, ← plainAll? s arguments,
      ← annotations.mapM s.calleeKey?⟩

def plainProjection? (s : State) : TypeProjection → Option PlainProjection
  | .star => some .star
  | .projection variance type => do return .projection variance (← plain? s type)

def plainAll? (s : State) : List TypeProjection → Option (List PlainProjection)
  | [] => some []
  | argument :: rest => do return (← plainProjection? s argument) :: (← plainAll? s rest)

end

variable {σ : Setting} {s s' : State}

theorem plainAll?_eq_mapM (s : State) (arguments : List TypeProjection) :
    s.plainAll? arguments = arguments.mapM s.plainProjection? := by
  induction arguments with
  | nil => rfl
  | cons argument rest ih =>
    rw [plainAll?, List.mapM_cons, ih]

section eq

theorem keyOf?_eq_some {id : SymbolId} : s.keyOf? id = some key ↔
    ∃ x, s.table.get? id = some x ∧ x.kind = key.1 ∧ s.table.descriptorOf? id = some key.2 := by
  obtain ⟨kind, desc⟩ := key
  simp only [keyOf?, Option.bind_eq_bind, Option.pure_def, Option.bind_eq_some_iff,
    Option.some.injEq, Prod.mk.injEq]
  constructor
  · rintro ⟨x, hx, _, hdesc, rfl, rfl⟩
    exact ⟨x, hx, rfl, hdesc⟩
  · rintro ⟨x, hx, rfl, hdesc⟩
    exact ⟨x, hx, desc, hdesc, rfl, rfl⟩

theorem calleeKey?_eq_some {id : ExprId} : s.calleeKey? id = some key ↔
    ∃ x access slots, s.store.expr? id = some x ∧ x.kind = .call access slots ∧
      s.keyOf? access.callee = some key := by
  simp only [calleeKey?, Option.bind_eq_bind, Option.bind_eq_some_iff]
  constructor
  · rintro ⟨x, hx, hkey⟩
    split at hkey
    next access slots hk => exact ⟨x, access, slots, hx, hk, hkey⟩
    next => cases hkey
  · rintro ⟨x, access, slots, hx, hk, hkey⟩
    exact ⟨x, hx, by rw [hk]; exact hkey⟩

theorem plain?_eq_some :
    s.plain? ⟨classifier, nullable, arguments, annotations⟩ = some T ↔
      s.keyOf? classifier = some T.classifier ∧ nullable = T.nullable ∧
      s.plainAll? arguments = some T.arguments ∧
      List.Forall₂ (fun e key => s.calleeKey? e = some key) annotations T.annotations := by
  obtain ⟨key, nullable', plains, keys⟩ := T
  simp only [plain?, Option.bind_eq_bind, Option.pure_def, Option.bind_eq_some_iff,
    Option.some.injEq, PlainType.mk.injEq, ← mapM_eq_some_iff]
  constructor
  · rintro ⟨_, hkey, _, hplains, _, hkeys, rfl, rfl, rfl, rfl⟩
    exact ⟨hkey, rfl, hplains, hkeys⟩
  · rintro ⟨hkey, rfl, hplains, hkeys⟩
    exact ⟨_, hkey, _, hplains, _, hkeys, rfl, rfl, rfl, rfl⟩

theorem plainProjection?_eq_some :
    s.plainProjection? (.projection variance τ) = some P ↔
      ∃ T, s.plain? τ = some T ∧ .projection variance T = P := by
  simp [plainProjection?, Option.bind_eq_some_iff]

theorem plainAll?_eq_some : s.plainAll? (argument :: rest) = some Ps ↔
      ∃ P Ps', s.plainProjection? argument = some P ∧ s.plainAll? rest = some Ps' ∧
        P :: Ps' = Ps := by
  simp [plainAll?, Option.bind_eq_some_iff]

end eq

section mono

theorem Le.keyOf? (h : s.Le s') {id : SymbolId} {key : Key} (hkey : s.keyOf? id = some key) :
    s'.keyOf? id = some key := by
  obtain ⟨x, hx, hk, hdesc⟩ := keyOf?_eq_some.1 hkey
  obtain ⟨y, hy, hxy⟩ := h.table.symbol hx
  exact keyOf?_eq_some.2 ⟨y, hy, hxy.kind.trans hk,
    (h.table.origin (Option.isSome_of_mem hx)).trans hdesc⟩

theorem Le.calleeKey? (h : s.Le s') {id : ExprId} {key : Key} (hkey : s.calleeKey? id = some key) :
    s'.calleeKey? id = some key := by
  obtain ⟨x, access, slots, hx, hk, hkey⟩ := calleeKey?_eq_some.1 hkey
  obtain ⟨y, hy, hxy⟩ := h.expr hx
  exact calleeKey?_eq_some.2 ⟨y, access, slots, hy, hxy.kind.trans hk, h.keyOf? hkey⟩

mutual

theorem Le.plain? (h : s.Le s') : {τ : TreeType} → {T : PlainType} → s.plain? τ = some T →
    s'.plain? τ = some T
  | ⟨_, _, arguments, _⟩, _, hτ => by
    obtain ⟨hkey, hn, hargs, hcalls⟩ := plain?_eq_some.1 hτ
    exact plain?_eq_some.2 ⟨h.keyOf? hkey, hn, Le.plainAll? h hargs,
      hcalls.imp fun _ _ => h.calleeKey?⟩

theorem Le.plainProjection? (h : s.Le s') : {p : TypeProjection} → {P : PlainProjection} →
    s.plainProjection? p = some P → s'.plainProjection? p = some P
  | .star, _, hp => hp
  | .projection _ _, _, hp => by
    obtain ⟨T, hT, hP⟩ := plainProjection?_eq_some.1 hp
    exact plainProjection?_eq_some.2 ⟨T, Le.plain? h hT, hP⟩

theorem Le.plainAll? (h : s.Le s') : {ps : List TypeProjection} → {Ps : List PlainProjection} →
    s.plainAll? ps = some Ps → s'.plainAll? ps = some Ps
  | [], _, hps => hps
  | _ :: _, _, hps => by
    obtain ⟨P, Ps, hP, hPs, heq⟩ := plainAll?_eq_some.1 hps
    exact plainAll?_eq_some.2 ⟨P, Ps, Le.plainProjection? h hP, Le.plainAll? h hPs, heq⟩

end

end mono

section sound

variable {w : World} {strict : Bool}

theorem keyOf?_eq_some_iff (hs : s.table.Sound w strict) {id : SymbolId} {key : Key} :
    s.keyOf? id = some key ↔ s.table.cached? key.1 key.2 = some id := by
  rw [keyOf?_eq_some]
  constructor
  · rintro ⟨x, hx, hk, hdesc⟩
    obtain ⟨y, hy, hc⟩ := hs.origin hdesc
    cases hx.symm.trans hy
    rwa [← hk]
  · intro hc
    obtain ⟨x, _, hx, hk, _, _, hdesc⟩ := hs.cached hc
    exact ⟨x, hx, hk, hdesc⟩

theorem keyOf?_injective (hs : s.table.Sound w strict) {id id' : SymbolId} {key : Key}
    (h : s.keyOf? id = some key)
    (h' : s.keyOf? id' = some key) : id = id' :=
  Option.some.inj (((keyOf?_eq_some_iff hs).1 h).symm.trans ((keyOf?_eq_some_iff hs).1 h'))

mutual

theorem plain?_injective (hs : s.table.Sound w strict) : {τ τ' : TreeType} → {T : PlainType} →
    T.isBare → s.plain? τ = some T → s.plain? τ' = some T → τ = τ'
  | ⟨_, _, _, _⟩, ⟨_, _, _, _⟩, ⟨_, _, _, _⟩, hbare, h, h' => by
    obtain ⟨hkey, rfl, hargs, hcalls⟩ := plain?_eq_some.1 h
    obtain ⟨hkey', rfl, hargs', hcalls'⟩ := plain?_eq_some.1 h'
    obtain ⟨hempty, hall⟩ := Bool.and_eq_true_iff.1 hbare
    cases List.isEmpty_iff.1 hempty
    cases hcalls
    cases hcalls'
    rw [keyOf?_injective hs hkey hkey', plainAll?_injective hs hall hargs hargs']

theorem plainProjection?_injective (hs : s.table.Sound w strict) : {p p' : TypeProjection} →
    {P : PlainProjection} → P.isBare → s.plainProjection? p = some P →
    s.plainProjection? p' = some P → p = p'
  | .star, .star, _, _, _, _ => rfl
  | .star, .projection _ _, _, _, h, h' => by
    obtain ⟨T, _, rfl⟩ := plainProjection?_eq_some.1 h'
    cases h
  | .projection _ _, .star, _, _, h, h' => by
    obtain ⟨T, _, rfl⟩ := plainProjection?_eq_some.1 h
    cases h'
  | .projection _ _, .projection _ _, _, hbare, h, h' => by
    obtain ⟨T, hT, rfl⟩ := plainProjection?_eq_some.1 h
    obtain ⟨T', hT', heq⟩ := plainProjection?_eq_some.1 h'
    cases heq
    rw [plain?_injective hs hbare hT hT']

theorem plainAll?_injective (hs : s.table.Sound w strict) : {ps ps' : List TypeProjection} →
    {Ps : List PlainProjection} → PlainProjection.allBare Ps → s.plainAll? ps = some Ps →
    s.plainAll? ps' = some Ps → ps = ps'
  | [], [], _, _, _, _ => rfl
  | [], _ :: _, _, _, h, h' => by
    obtain ⟨_, _, _, _, rfl⟩ := plainAll?_eq_some.1 h'
    cases h
  | _ :: _, [], _, _, h, h' => by
    obtain ⟨_, _, _, _, rfl⟩ := plainAll?_eq_some.1 h
    cases h'
  | _ :: _, _ :: _, _, hbare, h, h' => by
    obtain ⟨P, Ps, hP, hPs, rfl⟩ := plainAll?_eq_some.1 h
    obtain ⟨P', Ps', hP', hPs', heq⟩ := plainAll?_eq_some.1 h'
    cases heq
    obtain ⟨hfirst, hrest⟩ := Bool.and_eq_true_iff.1 hbare
    rw [plainProjection?_injective hs hfirst hP hP', plainAll?_injective hs hrest hPs hPs']

end

end sound

end State

end TypedTree
