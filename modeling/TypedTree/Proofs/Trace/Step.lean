import Mathlib.Algebra.Order.Group.Multiset
import Mathlib.Data.List.Chain
import TypedTree.Lowering.Template
import TypedTree.Proofs.Kinds
import TypedTree.Proofs.Ledger.Holders
import TypedTree.Proofs.Ledger.Table
import TypedTree.Proofs.Trace.Needs
import TypedTree.Proofs.Trace.Operand

namespace TypedTree

/-- An expression that may have got further annotations, and is else the same. -/
structure Expr.Le (x y : Expr) : Prop where
  type : y.type = x.type
  kind : y.kind = x.kind
  annotations : x.annotations <+: y.annotations

theorem Expr.Le.refl (x : Expr) : x.Le x := ⟨rfl, rfl, List.prefix_refl _⟩

/-- A later state: all that was there stays as it was, but for owners and annotations that are
new. -/
structure State.Le (s s' : State) : Prop where
  table : s.table.Le s'.table
  decl : ∀ {id x}, s.store.decl? id = some x → s'.store.decl? id = some x
  expr : ∀ {id x}, s.store.expr? id = some x → ∃ y, s'.store.expr? id = some y ∧ x.Le y
  targets : s.store.TargetsLe s'.store
  types : ∀ {id τ}, s.types.lookup id = some τ → s'.types.lookup id = some τ

namespace State

theorem Le.refl (s : State) : s.Le s where
  table := .refl _
  decl h := h
  expr {_ x} h := ⟨x, h, .refl x⟩
  targets := .refl _
  types h := h

theorem Le.trans {s s' : State} (h : s.Le s') (h' : s'.Le s'') : s.Le s'' where
  table := h.table.trans h'.table
  decl hx := h'.decl (h.decl hx)
  expr hx := by
    obtain ⟨y, hy, hxy⟩ := h.expr hx
    obtain ⟨z, hz, hyz⟩ := h'.expr hy
    exact ⟨z, hz, hyz.type.trans hxy.type, hyz.kind.trans hxy.kind,
      hxy.annotations.trans hyz.annotations⟩
  targets := h.targets.trans h'.targets
  types hτ := h'.types (h.types hτ)

/-- An expression that is a call without receivers. -/
def IsCall (s : State) (e : ExprId) : Prop :=
  ∃ x callee xs, s.store.expr? e = some x ∧ x.kind = .call (.plain callee) xs

/-- A type whose annotations are calls. -/
def Fits (s : State) (τ : TreeType) : Prop := ∀ e, .expr e ∈ τ.parts → s.IsCall e

/-- A symbol of the given kind. -/
def HasSymbol (s : State) (id : SymbolId) (kind : SymbolKind) : Prop :=
  ∃ x, s.table.get? id = some x ∧ x.kind = kind

variable {s s' : State} (h : s.Le s')

include h

theorem Le.isCall (he : s.IsCall e) : s'.IsCall e := by
  obtain ⟨x, callee, xs, hx, hk⟩ := he
  obtain ⟨y, hy, hxy⟩ := h.expr hx
  exact ⟨y, callee, xs, hy, hxy.kind.trans hk⟩

theorem Le.fits (hτ : s.Fits τ) : s'.Fits τ := fun e he => h.isCall (hτ e he)

theorem Le.hasSymbol {id : SymbolId} (hs : s.HasSymbol id kind) : s'.HasSymbol id kind := by
  obtain ⟨x, hx, hk⟩ := hs
  obtain ⟨y, hy, hxy⟩ := h.table.symbol hx
  exact ⟨y, hy, hxy.kind.trans hk⟩

theorem Le.kind? (hk : s.store.kind? e = some kind) : s'.store.kind? e = some kind := by
  obtain ⟨x, hx, rfl⟩ := Option.map_eq_some_iff.1 hk
  obtain ⟨y, hy, hxy⟩ := h.expr hx
  exact Option.map_eq_some_iff.2 ⟨y, hy, hxy.kind⟩

theorem Le.expr?_eq_none (he : s'.store.expr? e = none) : s.store.expr? e = none := by
  refine Option.eq_none_iff_forall_ne_some.2 fun x hx => ?_
  obtain ⟨y, hy, _⟩ := h.expr hx
  cases he.symm.trans hy

omit h

theorem Fits.nonNull (h : s.Fits τ) : s.Fits τ.nonNull := by
  obtain ⟨c, n, as, xs⟩ := τ
  simpa [Fits, TreeType.nonNull, TreeType.parts] using h

/-- What holds of all states of a session: keys and symbols belong together, symbols are of the kind
that their descriptor has if the facts agree about kinds, remembered types are made without a
circle, and the annotations of all types are calls. -/
structure Sane (σ : Setting) (s : State) : Prop where
  table : s.table.Sound σ.world false
  kinds : σ.world.KindConsistent → ∀ {kind desc id}, s.table.cached? kind desc = some id →
    σ.world.Names (kind, desc)
  grounds : ∀ {id τ}, s.types.lookup id = some τ → σ.Grounds id
  types : ∀ {id τ}, s.types.lookup id = some τ → s.Fits τ
  exprs : ∀ {e x}, s.store.expr? e = some x → s.Fits x.type ∧ ∀ t ∈ x.kind.types, s.Fits t
  decls : ∀ {d x}, s.store.decl? d = some x → ∀ t ∈ x.kind.types, s.Fits t

end State

namespace Store

/-- The expression comes to another one at last. -/
def EndsIn (s : Store) (e last : ExprId) : Prop :=
  e = last ∨ ∃ statements, s.kind? e = some (.block (statements ++ [.expression last]))

/-- The selector ends in an access that has the subject as a receiver. -/
def RunsOn (s : Store) (selector subject : ExprId) : Prop :=
  ∃ last k a, s.EndsIn selector last ∧ s.kind? last = some k ∧ k.access? = some a ∧
    a.Through subject

/-- The text of a string literal. -/
def text? (s : Store) (e : ExprId) : Option String := (s.kind? e).bind Lower.literalText?

/-- Texts and values in turn: no text is empty or next to another one, and there is a value. -/
structure Joined (s : Store) (parts : List ExprId) : Prop where
  present : ∀ part ∈ parts, (s.kind? part).isSome
  nonempty : some "" ∉ parts.map s.text?
  apart : (parts.map s.text?).IsChain fun a b => a = none ∨ b = none
  value : none ∈ parts.map s.text?

end Store

namespace State

variable {s s' : State} (h : s.Le s')

include h

theorem Le.endsIn (he : s.store.EndsIn e last) : s'.store.EndsIn e last :=
  he.imp_right fun ⟨statements, hk⟩ => ⟨statements, h.kind? hk⟩

theorem Le.runsOn (hs : s.store.RunsOn selector subject) : s'.store.RunsOn selector subject := by
  obtain ⟨last, k, a, hlast, hk, ha⟩ := hs
  exact ⟨last, k, a, h.endsIn hlast, h.kind? hk, ha⟩

theorem Le.text?_eq (he : (s.store.kind? e).isSome) : s'.store.text? e = s.store.text? e := by
  obtain ⟨k, hk⟩ := Option.isSome_iff_exists.1 he
  simp only [Store.text?, hk, h.kind? hk]

theorem Le.kind?_isSome (he : (s.store.kind? e).isSome) : (s'.store.kind? e).isSome := by
  obtain ⟨k, hk⟩ := Option.isSome_iff_exists.1 he
  simp [h.kind? hk]

theorem Le.map_text? {parts : List ExprId} (hp : ∀ part ∈ parts, (s.store.kind? part).isSome) :
    parts.map s'.store.text? = parts.map s.store.text? :=
  List.map_congr_left fun part hpart => h.text?_eq (hp part hpart)

theorem Le.joined (hp : s.store.Joined parts) : s'.store.Joined parts where
  present part hpart := h.kind?_isSome (hp.present part hpart)
  nonempty := by rw [h.map_text? hp.present]; exact hp.nonempty
  apart := by rw [h.map_text? hp.present]; exact hp.apart
  value := by rw [h.map_text? hp.present]; exact hp.value

omit h

/-- What an expression must be like to be added. A subject has the type of its receiver without
null, the selector of a safe call ends in an access to the subject, and the parts of a
concatenation are joined. -/
def Admits (s : State) (τ : TreeType) : ExprKind → Prop
  | .safeCallSubject receiver => ∃ x, s.store.expr? receiver = some x ∧ τ = x.type.nonNull
  | .safeCall _ subject selector => s.store.RunsOn selector subject
  | .concatenation parts => s.store.Joined parts
  | _ => True

theorem Le.admits (h : s.Le s') {τ : TreeType} {k : ExprKind} (hk : s.Admits τ k) :
    s'.Admits τ k := by
  cases k with
  | safeCallSubject receiver =>
    obtain ⟨x, hx, hτ⟩ := hk
    obtain ⟨y, hy, hxy⟩ := h.expr hx
    exact ⟨y, hy, hxy.type ▸ hτ⟩
  | safeCall _ _ _ => exact h.runsOn hk
  | concatenation _ => exact h.joined hk
  | _ => trivial

end State

/-- Expressions that may be added as they are. -/
@[reducible] def ExprKind.isIndependent : ExprKind → Bool
  | .safeCallSubject _ | .safeCall _ _ _ | .concatenation _ => false
  | _ => true

/-- A test that comes out true where it is evaluated. -/
class Holds (b : Bool) : Prop where
  eq_true : b = true

instance : Holds true := ⟨rfl⟩

theorem State.admits_of_isIndependent {s : State} {k : ExprKind} [h : Holds k.isIndependent] :
    s.Admits τ k := by
  cases k with
  | safeCallSubject | safeCall | concatenation => cases h.eq_true
  | _ => trivial

/-- What a piece of code has in hand. -/
inductive Token where
  /-- An expression that may still get one place. -/
  | free (id : ExprId)
  /-- A subject that may still get the safe call with the given receiver. -/
  | subject (id receiver : ExprId)
deriving DecidableEq

def Token.isSubject : Token → Bool
  | .free _ => false
  | .subject _ _ => true

def Token.frees (ids : List ExprId) : Multiset Token := ↑(ids.map Token.free)

/-- The subjects that wait for their safe calls. -/
def Token.waiting (h : Multiset Token) : Multiset Token := h.filter (·.isSubject)

open Token (frees waiting)

@[simp] theorem Token.waiting_zero : waiting 0 = 0 := rfl

@[simp] theorem Token.waiting_free (e : ExprId) : waiting {.free e} = 0 := rfl

@[simp] theorem Token.waiting_add (h h' : Multiset Token) :
    waiting (h + h') = waiting h + waiting h' := Multiset.filter_add _ _ _

theorem Token.mem_waiting : .subject e r ∈ waiting h ↔ .subject e r ∈ h :=
  Multiset.mem_filter.trans (and_iff_left rfl)

/-- No subject waits among the tokens. -/
class Token.Quiet (h : Multiset Token) : Prop where
  waiting_eq : waiting h = 0

/-- What waits among the first tokens waits among the others. -/
class Token.Keeps (h h' : Multiset Token) : Prop where
  waiting_le : waiting h ≤ waiting h'

namespace Token

instance : Quiet 0 := ⟨rfl⟩

instance (e : ExprId) : Quiet {.free e} := ⟨rfl⟩

instance (h h' : Multiset Token) [Quiet h] [Quiet h'] : Quiet (h + h') :=
  ⟨by rw [waiting_add, Quiet.waiting_eq, Quiet.waiting_eq, add_zero]⟩

instance (h : Multiset Token) : Keeps h h := ⟨le_rfl⟩

instance (h h' : Multiset Token) [Quiet h] : Keeps h h' :=
  ⟨by rw [Quiet.waiting_eq]; exact Multiset.zero_le _⟩

end Token

/-- What an expression takes up. -/
def ExprKind.takes (k : ExprKind) : Multiset Token :=
  frees k.operands + match k with
    | .safeCall receiver subject _ => {.subject subject receiver}
    | _ => 0

/-- What a new expression gives. -/
def ExprKind.gives (k : ExprKind) (id : ExprId) : Multiset Token :=
  {.free id} + match k with
    | .safeCallSubject receiver => {.subject id receiver}
    | _ => 0

/-- A state, with what the code that works on it has in hand. -/
structure Desk where
  hand : Multiset Token
  state : State

/-- The single changes that lowering is made of. Unless it is clean, a declaration may be left
without its symbol. -/
inductive Desk.Step (σ : Setting) (clean : Bool) : Desk → Desk → Prop
  | drop {h h' s} : h' ≤ h → waiting h ≤ waiting h' → Step σ clean ⟨h, s⟩ ⟨h', s⟩
  | symbol {h s kind desc d} : σ.world.descriptor? desc = some d →
      s.table.cached? kind desc = none → (σ.world.KindConsistent → σ.world.Names (kind, desc)) →
      Step σ clean ⟨h, s⟩ ⟨h, { s with table := s.table.create kind desc (σ.world.identity d) }⟩
  | fresh {h s kind identity} :
      Step σ clean ⟨h, s⟩ ⟨h, { s with table := (s.table.fresh kind identity).2 }⟩
  | remember {h s id τ} : s.types.lookup id = none → σ.Grounds id → s.Fits τ →
      Step σ clean ⟨h, s⟩ ⟨h, { s with types := (id, τ) :: s.types }⟩
  | expr {h s τ k} : s.Fits τ → (∀ t ∈ k.types, s.Fits t) → s.Admits τ k →
      Step σ clean ⟨k.takes + h, s⟩
        ⟨k.gives ⟨s.store.exprs.size⟩ + h, { s with store := (s.store.addExpr ⟨τ, [], k⟩).2 }⟩
  | annotate {h s e calls} : Step σ clean ⟨frees calls + h, s⟩
      ⟨h, { s with store := s.store.annotateExpr e calls }⟩
  | declare {h s id x origin calls k} : s.table.get? id = some x → x.owner = none →
      (σ.world.KindConsistent → k.Suits x.kind) → (∀ t ∈ k.types, s.Fits t) →
      Step σ clean ⟨frees calls + frees k.operands + h, s⟩
        ⟨h, { s with
          store := (s.store.addDecl ⟨id, origin, calls, k⟩).2
          table := s.table.own id x ⟨s.store.decls.size⟩
          stats := s.stats.count origin }⟩
  | orphan {h s d} : clean = false → (∀ t ∈ d.kind.types, s.Fits t) →
      Step σ clean ⟨frees d.annotations + frees d.kind.operands + h, s⟩
        ⟨h, { s with store := (s.store.addDecl d).2 }⟩
  | functionTarget {h s label isLambda} : Step σ clean ⟨h, s⟩
      ⟨h, { s with store := (s.store.addFunctionTarget label isLambda).2 }⟩
  | loopTarget {h s label} : Step σ clean ⟨h, s⟩
      ⟨h, { s with store := (s.store.addLoopTarget label).2 }⟩
  | whenRef {h s} : Step σ clean ⟨h, s⟩ ⟨h, { s with store := s.store.addWhenRef.2 }⟩
  | own {h s holder part} : s.store.owner? holder = none →
      Step σ clean ⟨h, s⟩ ⟨h, { s with store := s.store.own holder part }⟩
  | splice {h s e τ ss} : s.store.expr? e = some ⟨τ, [], .block ss⟩ →
      Step σ clean ⟨{.free e} + h, s⟩ ⟨frees (ss.flatMap (·.operands)) + h, s⟩
  | pass {h s} : Step σ clean ⟨h, s⟩ ⟨h, { s with stats.passes := s.stats.passes + 1 }⟩

/-- Any number of changes. -/
abbrev Desk.Steps (σ : Setting) (clean : Bool) : Desk → Desk → Prop :=
  Relation.ReflTransGen (Desk.Step σ clean)

namespace Desk

variable {σ : Setting} {clean : Bool} {d d' : Desk}

theorem Step.soil (h : Step σ clean d d') : Step σ false d d' := by
  cases h with
  | drop h hw => exact .drop h hw
  | symbol hd hc hk => exact .symbol hd hc hk
  | fresh => exact .fresh
  | remember hn hg hτ => exact .remember hn hg hτ
  | expr hτ hk ha => exact .expr hτ hk ha
  | annotate => exact .annotate
  | declare hx ho hk ht => exact .declare hx ho hk ht
  | orphan _ ht => exact .orphan rfl ht
  | functionTarget => exact .functionTarget
  | loopTarget => exact .loopTarget
  | whenRef => exact .whenRef
  | own ho => exact .own ho
  | splice he => exact .splice he
  | pass => exact .pass

theorem Steps.soil (h : Steps σ clean d d') : Steps σ false d d' := by
  induction h with
  | refl => exact .refl
  | tail _ hs ih => exact ih.tail hs.soil

theorem le_sameStore {s s' : State} (htable : s.table.Le s'.table) (hstore : s'.store = s.store)
    (htypes : s'.types = s.types) : s.Le s' where
  table := htable
  decl h := by rwa [hstore]
  expr {_ x} h := ⟨x, by rwa [hstore], .refl x⟩
  targets := by rw [hstore]; exact .refl _
  types h := by rwa [htypes]

theorem le_sameNodes {s s' : State} (htable : s'.table = s.table) (htypes : s'.types = s.types)
    (hdecls : s'.store.decls = s.store.decls) (hexprs : s'.store.exprs = s.store.exprs)
    (htargets : s.store.TargetsLe s'.store) : s.Le s' where
  table := by rw [htable]; exact .refl _
  decl h := by rwa [Store.decl?, hdecls]
  expr {_ x} h := ⟨x, by rwa [Store.expr?, hexprs], .refl x⟩
  targets := htargets
  types h := by rwa [htypes]

theorem le_addDecl {s : State} (x : Decl) {t : SymbolTable} (ht : s.table.Le t) (stats : Stats) :
    s.Le { s with store := (s.store.addDecl x).2, table := t, stats := stats } where
  table := ht
  decl h := getElem?_push_of_some h
  expr {_ x} h := ⟨x, h, .refl x⟩
  targets := .of_same rfl rfl rfl
  types h := h

theorem le_addExpr (s : State) (x : Expr) : s.Le { s with store := (s.store.addExpr x).2 } where
  table := .refl _
  decl h := h
  expr {_ y} h := ⟨y, getElem?_push_of_some h, .refl y⟩
  targets := .of_same rfl rfl rfl
  types h := h

theorem le_annotate (s : State) (id : ExprId) (calls : List ExprId) :
    s.Le { s with store := s.store.annotateExpr id calls } where
  table := .refl _
  decl h := h
  expr {e x} h := by
    rw [Store.expr?_annotateExpr, h]
    split
    · exact ⟨_, rfl, rfl, rfl, List.prefix_append _ _⟩
    · exact ⟨x, rfl, .refl x⟩
  targets := .of_same rfl rfl rfl
  types h := h

theorem getElem?_push_cases {α : Type} {xs : Array α} {i : Nat} {a b : α}
    (h : (xs.push b)[i]? = some a) : xs[i]? = some a ∨ a = b := by
  rw [Array.getElem?_push] at h
  split at h
  · exact .inr (Option.some.inj h).symm
  · exact .inl h

theorem exists_of_annotateExpr {s : Store} {id : ExprId}
    (h : (s.annotateExpr id calls).expr? e = some x) : ∃ y, s.expr? e = some y ∧ y.Le x := by
  rw [Store.expr?_annotateExpr] at h
  split at h
  · obtain ⟨y, hy, rfl⟩ := Option.map_eq_some_iff.1 h
    exact ⟨y, hy, rfl, rfl, List.prefix_append _ _⟩
  · exact ⟨x, h, .refl x⟩

theorem Step.le (h : Step σ clean d d') : d.state.Le d'.state := by
  cases h with
  | drop | splice => exact .refl _
  | symbol _ hc _ => exact le_sameStore (SymbolTable.le_create hc _) rfl rfl
  | fresh => exact le_sameStore (SymbolTable.le_fresh _ _ _) rfl rfl
  | @remember _ s id τ hn =>
    refine ⟨.refl _, fun h => h, fun {_ x} h => ⟨x, h, .refl x⟩, .refl _, fun {id' τ'} h => ?_⟩
    have hne : id' ≠ id := fun he => by cases hn.symm.trans (he ▸ h)
    rwa [lookup_cons_of_ne hne]
  | expr => exact le_addExpr _ _
  | annotate => exact le_annotate _ _ _
  | declare hx ho => exact le_addDecl _ (SymbolTable.le_own hx ho _) _
  | orphan => exact le_addDecl _ (.refl _) _
  | functionTarget =>
    exact le_sameNodes rfl rfl rfl rfl (Entries.le_beginFunction ⟨_, #[], #[], []⟩ _ _).targets
  | loopTarget =>
    exact le_sameNodes rfl rfl rfl rfl (Entries.le_beginLoop ⟨_, #[], #[], []⟩ _).targets
  | whenRef => exact le_sameNodes rfl rfl rfl rfl (Entries.le_beginChoice ⟨_, #[], #[], []⟩).targets
  | own ho =>
    exact le_sameNodes rfl rfl (Store.decls_own ..) (Store.exprs_own ..) (Store.targetsLe_own ho _)
  | pass => exact le_sameStore (.refl _) rfl rfl

theorem Steps.le (h : Steps σ clean d d') : d.state.Le d'.state := by
  induction h with
  | refl => exact .refl _
  | tail _ hs ih => exact ih.trans hs.le

theorem Step.sane (h : Step σ clean d d') (hs : d.state.Sane σ) : d'.state.Sane σ := by
  have hle := h.le
  obtain ⟨htable, hkinds, hgrounds, htypes, hexprs, hdecls⟩ := hs
  have htypes' {id τ} (h : d.state.types.lookup id = some τ) := hle.fits (htypes h)
  have hexprs' {e x} (h : d.state.store.expr? e = some x) :
      d'.state.Fits x.type ∧ ∀ t ∈ x.kind.types, d'.state.Fits t :=
    ⟨hle.fits (hexprs h).1, fun t ht => hle.fits ((hexprs h).2 t ht)⟩
  have hdecls' {e x} (h : d.state.store.decl? e = some x) :
      ∀ t ∈ x.kind.types, d'.state.Fits t := fun t ht => hle.fits (hdecls h t ht)
  cases h with
  | symbol hd hc hk =>
    refine ⟨htable.create hd hc (by simp), fun hw {kind' desc' id} h => ?_, hgrounds, htypes',
      hexprs', hdecls'⟩
    rw [SymbolTable.cached?_create] at h
    split at h
    next he =>
      obtain ⟨rfl, rfl⟩ := he
      exact hk hw
    next => exact hkinds hw h
  | fresh => exact ⟨htable.fresh _ _, hkinds, hgrounds, htypes', hexprs', hdecls'⟩
  | @remember _ s id τ hn hg hτ =>
    refine ⟨htable, hkinds, fun {id' τ'} h => ?_, fun {id' τ'} h => ?_, hexprs', hdecls'⟩
    · by_cases he : id' = id
      · exact he ▸ hg
      · rw [lookup_cons_of_ne he] at h
        exact hgrounds h
    · by_cases he : id' = id
      · subst he
        rw [List.lookup_cons_self, Option.some.injEq] at h
        exact h ▸ hle.fits hτ
      · rw [lookup_cons_of_ne he] at h
        exact htypes' h
  | @expr _ s τ k hτ hk =>
    refine ⟨htable, hkinds, hgrounds, htypes', fun {e x} h => ?_, hdecls'⟩
    rcases getElem?_push_cases h with h | rfl
    · exact hexprs' h
    · exact ⟨hle.fits hτ, fun t ht => hle.fits (hk t ht)⟩
  | @annotate _ s e calls =>
    refine ⟨htable, hkinds, hgrounds, htypes', fun {e' x} h => ?_, hdecls'⟩
    obtain ⟨y, hy, hyx⟩ := exists_of_annotateExpr h
    rw [hyx.type, hyx.kind]
    exact hexprs' hy
  | declare hx _ _ ht =>
    refine ⟨htable.own hx _, hkinds, hgrounds, htypes', hexprs', fun {e x} h => ?_⟩
    rcases getElem?_push_cases h with h | rfl
    · exact hdecls' h
    · exact fun t ht' => hle.fits (ht t ht')
  | orphan _ ht =>
    refine ⟨htable, hkinds, hgrounds, htypes', hexprs', fun {e x} h => ?_⟩
    rcases getElem?_push_cases h with h | rfl
    · exact hdecls' h
    · exact fun t ht' => hle.fits (ht t ht')
  | own ho =>
    refine ⟨htable, hkinds, hgrounds, htypes', fun {e x} h => ?_, fun {e x} h => ?_⟩
    · exact hexprs' (by rwa [Store.expr?, Store.exprs_own] at h)
    · exact hdecls' (by rwa [Store.decl?, Store.decls_own] at h)
  | _ => exact ⟨htable, hkinds, hgrounds, htypes', hexprs', hdecls'⟩

theorem Steps.sane (h : Steps σ clean d d') (hs : d.state.Sane σ) : d'.state.Sane σ := by
  induction h with
  | refl => exact hs
  | tail _ hstep ih => exact hstep.sane ih

end Desk

end TypedTree
