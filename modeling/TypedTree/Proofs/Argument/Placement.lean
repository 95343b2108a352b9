import TypedTree.Proofs.Argument.Evaluation
import TypedTree.Proofs.Argument.Named

namespace TypedTree

open Lower

namespace Lower

variable {σ : Setting} {s : State}

theorem runFrom_expr (hx : s.store.expr? e = some x) : (expr e).runFrom σ s = (.ok x, s) := by
  simp [expr, present, runFrom_bind, hx]

theorem runFrom_hold (hx : s.store.expr? value = some x) (name : Name) :
    (Temporary.hold name value).runFrom σ s =
      let symbol : SymbolId := ⟨s.table.symbols.size⟩
      let decl : DeclId := ⟨s.store.decls.size⟩
      (.ok ⟨decl, symbol, x.type⟩,
        { s with
          table := (s.table.fresh .property (.unqualified name)).2.own symbol
            ⟨.property, .unqualified name, none⟩ decl
          store := (s.store.addDecl
            ⟨symbol, .synthetic, [], .property (.localValue x.type value)⟩).2
          stats := s.stats.count .synthetic }) := by
  let s1 : State := { s with table := (s.table.fresh .property (.unqualified name)).2 }
  have hfresh : (freshLocal .property name).runFrom σ s = (.ok ⟨s.table.symbols.size⟩, s1) := rfl
  have hx1 : s1.store.expr? value = some x := hx
  have htype : (exprType value).runFrom σ s1 = (.ok x.type, s1) := by
    rw [exprType, runFrom_bind_ok _ _ (runFrom_expr hx1)]
    rfl
  have hsymbol : s1.table.get? ⟨s.table.symbols.size⟩ =
      some ⟨.property, .unqualified name, none⟩ := by simp [s1, SymbolTable.get?, SymbolTable.fresh]
  rw [Temporary.hold, runFrom_bind_ok _ _ hfresh, runFrom_bind_ok _ _ htype, runFrom_bind,
    runFrom_declare hsymbol]
  rfl

theorem exists_ok {α : Type} {r : Except LowerError α × State} (hok : r.1.toOption.isSome) :
    ∃ a, r = (.ok a, r.2) := by
  obtain ⟨e | a, s⟩ := r
  · cases hok
  · exact ⟨a, rfl⟩

end Lower

namespace State

theorem Apt.start (σ : Setting) : State.Apt σ {} :=
  ⟨(Reachable.start σ).coherent, (Reachable.start σ).faithful⟩

variable {σ : Setting} {s s' : State} {e r : ExprId} {id : SymbolId} {t : Temporary}

/-- The symbol is there and stands for no descriptor. -/
def Anonymous (s : State) (id : SymbolId) : Prop :=
  (s.table.get? id).isSome ∧ s.table.descriptorOf? id = none

theorem Anonymous.mono (h : s.Anonymous id) (hle : s.Le s') : s'.Anonymous id := by
  obtain ⟨hid, hnone⟩ := h
  obtain ⟨x, hx⟩ := Option.isSome_iff_exists.1 hid
  obtain ⟨y, hy, _⟩ := hle.table.symbol hx
  exact ⟨by simp [hy], (hle.table.origin hid).trans hnone⟩

/-- The expression is there, and if it reads something, that is there too. -/
def Built (s : State) (e : ExprId) : Prop :=
  ∃ x, s.store.expr? e = some x ∧
    ∀ access, x.kind = .read access → (s.table.get? access.callee).isSome

theorem Named.built (h : s.Named e) : s.Built e := by
  obtain ⟨x, hx, hkey⟩ := h
  refine ⟨x, hx, fun access hread => ?_⟩
  obtain ⟨key, hkey⟩ := hkey access hread
  obtain ⟨y, hy, _⟩ := keyOf?_eq_some.1 hkey
  exact Option.isSome_iff_exists.2 ⟨y, hy⟩

theorem Built.mono (h : s.Built e) (hle : s.Le s') : s'.Built e := by
  obtain ⟨x, hx, hread⟩ := h
  obtain ⟨y, hy, hxy⟩ := hle.expr hx
  refine ⟨y, hy, fun access h => ?_⟩
  obtain ⟨z, hz⟩ := Option.isSome_iff_exists.1 (hread access (hxy.kind.symm.trans h))
  obtain ⟨z', hz', _⟩ := hle.table.symbol hz
  exact Option.isSome_iff_exists.2 ⟨z', hz'⟩

theorem Named.moves (h : s.Named e) (hle : s.Le s') : s'.store.moves e = s.store.moves e := by
  obtain ⟨x, hx, _⟩ := h
  have hkind : s.store.kind? e = some x.kind := by simp [Store.kind?, hx]
  simp only [Store.moves, hle.kind? hkind, hkind]

/-- The temporary is a variable of the given name that is declared with the value. -/
structure Introduces (s : State) (name : Name) (t : Temporary) (value : ExprId) : Prop where
  decl : s.store.decl? t.decl =
    some ⟨t.symbol, .synthetic, [], .property (.localValue t.type value)⟩
  anonymous : s.Anonymous t.symbol
  identity : ∃ x, s.table.get? t.symbol = some x ∧ x.identity = .unqualified name

theorem Introduces.mono (h : s.Introduces name t e) (hle : s.Le s') : s'.Introduces name t e := by
  refine ⟨hle.decl h.decl, h.anonymous.mono hle, ?_⟩
  obtain ⟨x, hx, hname⟩ := h.identity
  obtain ⟨y, hy, hxy⟩ := hle.table.symbol hx
  exact ⟨y, hy, hxy.identity.trans hname⟩

theorem Le.get?_eq_none (hle : s.Le s') (h : s'.table.get? id = none) : s.table.get? id = none := by
  refine Option.eq_none_iff_forall_ne_some.2 fun x hx => ?_
  obtain ⟨y, hy, _⟩ := hle.table.symbol hx
  cases h.symm.trans hy

/-- The expression is new, and reads the temporary. -/
def ReadsNew (s s' : State) (t : Temporary) (e : ExprId) : Prop :=
  s.store.expr? e = none ∧ s'.store.kind? e = some (.read (.plain t.symbol))

theorem ReadsNew.within {s0 s'' : State} (h : ReadsNew s s' t e) (h0 : s0.Le s) (h' : s'.Le s'') :
    ReadsNew s0 s'' t e :=
  ⟨h0.expr?_eq_none h.1, h'.kind? h.2⟩

/-- The value of an argument is held by a new temporary, which a new expression reads. -/
structure Holds (s s' : State) (t : Temporary) (value read : ExprId) : Prop where
  held : s'.Introduces "<tmp>" t value
  fresh : s.table.get? t.symbol = none
  read : ReadsNew s s' t read

theorem Holds.within {s0 s'' : State} (h : Holds s s' t e r) (h0 : s0.Le s) (h' : s'.Le s'') :
    Holds s0 s'' t e r :=
  ⟨h.held.mono h', h0.get?_eq_none h.fresh, h.read.within h0 h'⟩

def Gives (σ : Setting) (d : Descent) (scope : Scope) (s s' : State) (node : NodeId)
    (e : ExprId) : Prop :=
  ∃ s1 s2, s.Le s1 ∧ s1.Apt σ ∧ (d.expr scope node).runFrom σ s1 = (.ok e, s2) ∧ s2.Le s'

theorem Gives.within {d : Descent} {scope : Scope} {s0 s'' : State} {node : NodeId}
    (h : Gives σ d scope s s' node e) (h0 : s0.Le s) (h' : s'.Le s'') :
    Gives σ d scope s0 s'' node e := by
  obtain ⟨s1, s2, h1, hs1, hrun, h2⟩ := h
  exact ⟨s1, s2, h0.trans h1, hs1, hrun, h2.trans h'⟩

end State

section lowered

variable (σ : Setting) (d : Descent) (scope : Scope) (s s' : State)

/-- An element of a vararg is the lowered node, or the spread of it. -/
def VarargElement.Lowered (element : VarargElement) (e : ExprId) : Prop :=
  ∃ value, State.Gives σ d scope s s' element.node value ∧
    if element.spread then s'.store.kind? e = some (.spread value) else e = value

/-- What becomes of an argument between two states. Nothing does of one that is left out, and of a
vararg without elements. -/
inductive ValueArgument.Lowered : ValueArgument → Option ExprId → Prop
  | omitted : Lowered .omitted none
  | expression {node e} : State.Gives σ d scope s s' node e → Lowered (.expression node) (some e)
  | empty : Lowered (.vararg []) none
  | vararg {elements es e} : elements ≠ [] →
      List.Forall₂ (VarargElement.Lowered σ d scope s s') elements es →
      s'.store.kind? e = some (.vararg es) → Lowered (.vararg elements) (some e)

variable {σ d scope s s'}

theorem VarargElement.Lowered.within {element : VarargElement} {s0 : State}
    (h : element.Lowered σ d scope s s' e) (h0 : s0.Le s) (h' : s'.Le s'') :
    element.Lowered σ d scope s0 s'' e := by
  obtain ⟨value, hvalue, he⟩ := h
  refine ⟨value, hvalue.within h0 h', ?_⟩
  split at he
  next hspread => rw [if_pos hspread, h'.kind? he]
  next hspread => rw [if_neg hspread, he]

theorem ValueArgument.Lowered.within {argument : ValueArgument} {s0 : State}
    (h : argument.Lowered σ d scope s s' value) (h0 : s0.Le s) (h' : s'.Le s'') :
    argument.Lowered σ d scope s0 s'' value := by
  cases h with
  | omitted => exact .omitted
  | expression he => exact .expression (he.within h0 h')
  | empty => exact .empty
  | vararg hne hes he =>
    exact .vararg hne (hes.imp fun _ _ helement => helement.within h0 h') (h'.kind? he)

theorem ValueArgument.Lowered.eq_none_iff {argument : ValueArgument}
    (h : argument.Lowered σ d scope s s' value) :
    value = none ↔ argument = .omitted ∨ argument = .vararg [] := by
  cases h with
  | omitted | empty => simp
  | expression _ => simp
  | vararg hne _ _ => simp [hne]

end lowered

/-- What becomes of an argument. One that is kept has a temporary, and a read of it that takes the
place of its value. -/
structure Placed where
  index : Nat
  value : Option ExprId
  kept : Option (Temporary × ExprId)

namespace Placed

def statement? (p : Placed) : Option Statement := p.kept.map (·.1.statement)

def slot (p : Placed) : Option ExprId :=
  match p.kept with
  | some (_, read) => some read
  | none => p.value

def fill (slots : List (Option ExprId)) (p : Placed) : List (Option ExprId) :=
  slots.set p.index p.slot

/-- The argument is lowered between two states. If the arguments are to be reordered, it is kept
where its evaluation matters, in a temporary that is new. -/
structure Fits (σ : Setting) (d : Descent) (scope : Scope) (call : ResolvedCall)
    (parameters : List DescId) (reorder : Bool) (s s' : State) (p : Placed) : Prop where
  lowered : ∃ argument s1 s2, call.arguments[p.index]? = some argument ∧ s.Le s1 ∧
    (lowerArgument d scope argument parameters[p.index]?).runFrom σ s1 = (.ok p.value, s2) ∧
    s2.Le s' ∧ argument.Lowered σ d scope s s' p.value
  named : ∀ e, p.value = some e → s'.Named e
  stays : reorder = true → p.kept = none → p.value.any s'.store.moves = false
  holds : ∀ t read, p.kept = some (t, read) → ∃ e, p.value = some e ∧
    s'.store.moves e = true ∧ State.Holds s s' t e read ∧ reorder = true

variable {σ : Setting} {d : Descent} {scope : Scope} {call : ResolvedCall}
  {parameters : List DescId} {reorder : Bool} {s s0 s' s'' : State} {p : Placed}

theorem Fits.mono (h : p.Fits σ d scope call parameters reorder s s') (hle : s'.Le s'') :
    p.Fits σ d scope call parameters reorder s s'' where
  lowered := by
    obtain ⟨argument, s1, s2, ha, h1, hrun, h2, hvalue⟩ := h.lowered
    exact ⟨argument, s1, s2, ha, h1, hrun, h2.trans hle, hvalue.within (.refl s) hle⟩
  named e he := (h.named e he).mono hle
  stays hreorder hnone := by
    have hstays := h.stays hreorder hnone
    cases hv : p.value with
    | none => rfl
    | some e =>
      rw [hv] at hstays
      exact ((h.named e hv).moves hle).trans hstays
  holds t read hkept := by
    obtain ⟨e, he, hmoves, hholds, hreorder⟩ := h.holds t read hkept
    exact ⟨e, he, ((h.named e he).moves hle).trans hmoves, hholds.within (.refl s) hle, hreorder⟩

theorem Fits.before (h : p.Fits σ d scope call parameters reorder s s') (hle : s0.Le s) :
    p.Fits σ d scope call parameters reorder s0 s' where
  lowered := by
    obtain ⟨argument, s1, s2, ha, h1, hrun, h2, hvalue⟩ := h.lowered
    exact ⟨argument, s1, s2, ha, hle.trans h1, hrun, h2, hvalue.within hle (.refl s')⟩
  named := h.named
  stays := h.stays
  holds t read hkept := by
    obtain ⟨e, he, hmoves, hholds, hreorder⟩ := h.holds t read hkept
    exact ⟨e, he, hmoves, hholds.within hle (.refl s'), hreorder⟩

def Apart (p q : Placed) : Prop :=
  ∀ t read t' read', p.kept = some (t, read) → q.kept = some (t', read') → t.symbol ≠ t'.symbol

end Placed

namespace Yields

variable {σ : Setting} {s : State}

theorem ran {α : Type} {m : Lower α} {P : State → α → Prop} (h : Yields σ I s m P) :
    Yields σ I s m fun s' a => (m.runFrom σ s = (.ok a, s') ∧ s.Le s') ∧ P s' a := fun hs =>
  have ⟨hle, hs', hP⟩ := h hs
  ⟨hle, hs', fun a ha => ⟨⟨Prod.ext ha rfl, hle⟩, hP a ha⟩⟩

theorem imp_le {α : Type} {m : Lower α} {P P' : State → α → Prop} (h : Yields σ I s m P)
    (hP : ∀ s' a, s.Le s' → P s' a → P' s' a) : Yields σ I s m P' :=
  h.ran.imp fun s' a _ hran => hP s' a hran.1.2 hran.2

theorem does {α : Type} {m : Lower α} (h : Tidy σ m) :
    Brings σ s m fun s' a => m.runFrom σ s = (.ok a, s') :=
  (ran (work h)).imp fun _ _ _ hran => hran.1.1

theorem of_ran {α : Type} {m : Lower α} {P : State → α → Prop} {a : α} (h : Yields σ I s m P)
    (hs : I s) (hrun : m.runFrom σ s = (.ok a, s')) : P s' a := by
  have hafter := h hs
  rw [hrun] at hafter
  exact hafter.2.2 a rfl

theorem addExpr_kind :
    Brings σ s (Lower.addExpr type kind) fun s' e =>
      s'.store.kind? e = some kind ∧ s.store.expr? e = none := by
  refine (does Tidy.addExpr).imp fun s' e _ hrun => ?_
  cases hrun
  simp [Store.kind?, Store.expr?]

theorem readsNew {t : Temporary} : Brings σ s t.read fun s' e => State.ReadsNew s s' t e :=
  addExpr_kind.imp fun _ _ _ h => h.symm

theorem and {α : Type} {m : Lower α} {P Q : State → α → Prop} (hP : Yields σ I s m P)
    (hQ : Yields σ I s m Q) : Yields σ I s m fun s' a => P s' a ∧ Q s' a := fun hs =>
  have ⟨hle, hs', ha⟩ := hP hs
  ⟨hle, hs', fun a hok => ⟨ha a hok, (hQ hs).2.2 a hok⟩⟩

theorem hold :
    Brings σ s (Temporary.hold name value) fun s' t =>
      s'.Introduces name t value ∧ s.table.get? t.symbol = none := by
  intro hs
  obtain ⟨hle, hs', _⟩ := work (m := Temporary.hold name value) Tidy.hold hs
  have hnew : s.table.get? ⟨s.table.symbols.size⟩ = none := by simp [SymbolTable.get?]
  have hnone : s.table.descriptorOf? ⟨s.table.symbols.size⟩ = none := by
    refine Option.eq_none_iff_forall_ne_some.2 fun desc hdesc => ?_
    obtain ⟨_, hget, _⟩ := hs.2.table.origin hdesc
    cases hnew.symm.trans hget
  refine ⟨hle, hs', fun t ht => ?_⟩
  cases hx : s.store.expr? value with
  | none =>
    -- The type of the temporary is that of its value.
    simp [Temporary.hold, exprType, expr, present, freshLocal, freshSymbol, runFrom_bind, hx] at ht
  | some x =>
    rw [runFrom_hold hx] at ht ⊢
    cases ht
    refine ⟨⟨?_, ⟨?_, hnone⟩, ?_⟩, hnew⟩
    · simp [Store.addDecl, Store.decl?]
    all_goals simp [SymbolTable.get?, SymbolTable.own, SymbolTable.fresh]

theorem keepArgument (hvalue : s.Named value) :
    Brings σ s (Lower.keepArgument value) fun s' kept =>
      s.store.moves value = false ∧ kept = ([], value) ∨
      s.store.moves value = true ∧ ∃ t, kept.1 = [t.statement] ∧
        State.Holds s s' t value kept.2 := by
  obtain ⟨x, hx, hread⟩ := hvalue
  have hmoves : s.store.moves value = !hasNoEffect x.kind := by simp [Store.moves, Store.kind?, hx]
  refine .of_runFrom ?_ (runFrom_bind_ok _ _ (runFrom_expr hx) _)
  rw [hmoves]
  split
  next hquiet => exact .pure (.inl ⟨by simp [hquiet], rfl⟩)
  next hquiet =>
    refine .bind hold fun t s1 h1 _ hheld => ?_
    refine .bind readsNew fun read s2 h2 _ hread => .pure (.inr ?_)
    exact ⟨by simp [hquiet], t, rfl, hheld.1.mono h2, hheld.2, hread.within h1 (.refl s2)⟩

section descent

variable {d : Descent} (hd : d.Naming σ) {scope : Scope} {call : ResolvedCall}
  {parameters : List DescId}

include hd

/-- The receivers of a call are there before its arguments. -/
theorem receiverExpr (hexplicit : ∀ r, explicit = some r → s.Built r) :
    Brings σ s (Lower.receiverExpr d scope receiver explicit) fun s' built =>
      s'.Built built.1 ∧ ∀ r, built.2 = some r → s'.Built r := by
  cases receiver with
  | expression node =>
    cases explicit with
    | none => exact .bind (hd.expr scope node s) fun _ _ _ _ he => .pure ⟨he.built, nofun⟩
    | some expr => exact .pure ⟨hexplicit expr rfl, nofun⟩
  | implicitThis _ _ | extensionThis _ _ =>
    refine .bind (work Tidy.descriptor) fun _ _ h1 _ _ => ?_
    refine .bind (work Tidy.convert) fun _ s2 h2 _ _ => ?_
    refine .bind (Naming.addExpr (by nofun) s2) fun _ _ h3 _ he => .pure ⟨he.built, fun r hr => ?_⟩
    exact (hexplicit r hr).mono (h1.trans (h2.trans h3))
  | superOf _ =>
    refine .bind (work Tidy.convert) fun _ s1 h1 _ _ => ?_
    refine .bind (Naming.addExpr (by nofun) s1) fun _ _ h2 _ he => .pure ⟨he.built, fun r hr => ?_⟩
    exact (hexplicit r hr).mono (h1.trans h2)
  | classValue object _ =>
    refine .bind (symbolOf State.Apt.lasting (by decide) object) fun symbol _ h1 _ hkey => ?_
    refine .bind (work Tidy.convert) fun _ s2 h2 _ _ => ?_
    have hread (access : Access) (ha : ExprKind.read (.plain symbol) = .read access) :
        ∃ key, s2.keyOf? access.callee = some key := by
      cases ha
      exact ⟨_, h2.keyOf? hkey⟩
    refine .bind (addNamed hread) fun _ _ h3 _ he => .pure ⟨he.built, fun r hr => ?_⟩
    exact (hexplicit r hr).mono (h1.trans (h2.trans h3))

theorem optionalReceiver (hexplicit : ∀ r, explicit = some r → s.Built r) :
    Brings σ s (Lower.optionalReceiver d scope receiver explicit) fun s' built =>
      (∀ r, built.1 = some r → s'.Built r) ∧ ∀ r, built.2 = some r → s'.Built r := by
  cases receiver with
  | none => exact .pure ⟨nofun, hexplicit⟩
  | some receiver =>
    refine .bind (receiverExpr hd hexplicit) fun built _ _ _ ⟨he, hrest⟩ => .pure ⟨?_, hrest⟩
    rintro r hr
    cases hr
    exact he

theorem buildAccess (hexplicit : ∀ r, explicit = some r → s.Built r) :
    Brings σ s (Lower.buildAccess d scope call explicit) fun s' access =>
      ∀ r, access.dispatchReceiver = some r ∨ access.extensionReceiver = some r →
        s'.Built r := by
  refine .bind (work Tidy.symbolFor) fun callee s1 h1 _ _ => ?_
  refine .bind (optionalReceiver hd fun r hr => (hexplicit r hr).mono h1)
    fun ⟨extension, explicit2⟩ s2 h2 _ ⟨hextension, hrest2⟩ => ?_
  refine .bind (optionalReceiver hd hrest2)
    fun ⟨dispatch, explicit3⟩ s3 h3 _ ⟨hdispatch, hrest3⟩ => ?_
  refine .bind (work Tidy.convertAll) fun types s4 h4 _ _ => ?_
  have hextension4 (r : ExprId) (hr : extension = some r) : s4.Built r :=
    (hextension r hr).mono (h3.trans h4)
  have hdispatch4 (r : ExprId) (hr : dispatch = some r) : s4.Built r := (hdispatch r hr).mono h4
  cases explicit3 with
  | none => exact .pure fun r hr => hr.elim (hdispatch4 r) (hextension4 r)
  | some explicit =>
    have hexplicit4 (r : ExprId) (hr : some explicit = some r) : s4.Built r :=
      (hrest3 r hr).mono h4
    dsimp only
    split
    next => exact .pure fun r hr => hr.elim (hdispatch4 r) (hexplicit4 r)
    next => exact .pure fun r hr => hr.elim (hexplicit4 r) (hextension4 r)

theorem gives {node : NodeId} : Brings σ s (d.expr scope node) fun s' e =>
    State.Gives σ d scope s s' node e :=
  .given fun hs => (ran (hd.expr scope node s)).imp fun s' _ _ ⟨⟨hrun, _⟩, _⟩ =>
    ⟨s, s', .refl s, hs, hrun, .refl s'⟩

theorem lowerElement :
    Brings σ s (Lower.lowerElement d scope element) fun s' e =>
      element.Lowered σ d scope s s' e := by
  refine .bind (gives hd) fun value s1 h1 _ hvalue => ?_
  split
  next hspread =>
    refine .bind (work Tidy.exprType) fun _ s2 h2 _ _ => ?_
    refine addExpr_kind.imp_le fun s3 e h3 he => ?_
    exact ⟨value, hvalue.within (.refl s) (h2.trans h3), by simp [hspread, he.1]⟩
  next hspread => exact .pure ⟨value, hvalue, by simp [hspread]⟩

theorem lowerElements {elements : List VarargElement} :
    Brings σ s (elements.mapM (Lower.lowerElement d scope)) fun s' es =>
      List.Forall₂ (VarargElement.Lowered σ d scope s s') elements es :=
  mapM (S := fun s' => VarargElement.Lowered σ d scope s s')
    (fun hle h => h.within (.refl s) hle) fun _ _ _ hle =>
      (lowerElement hd).imp fun s2 _ _ h => h.within hle (.refl s2)

theorem lowerArgument {argument : ValueArgument} :
    Brings σ s (Lower.lowerArgument d scope argument parameter) fun s' value =>
      argument.Lowered σ d scope s s' value := by
  cases argument with
  | omitted => exact .pure .omitted
  | expression node => exact .bind (gives hd) fun _ _ _ _ he => .pure (.expression he)
  | vararg elements =>
    simp only [Lower.lowerArgument, Lower.lowerVararg]
    split
    next hempty =>
      rw [List.isEmpty_iff.1 hempty]
      exact .pure .empty
    next hne =>
      refine .bind (lowerElements hd) fun es s1 _ _ hes => ?_
      refine .bind (work Tidy.varargType) fun _ s2 h2 _ _ => ?_
      refine .bind addExpr_kind fun e s3 h3 _ he => .pure ?_
      exact .vararg (fun h => hne (List.isEmpty_iff.2 h))
        (hes.imp fun _ _ h => h.within (.refl s) (h2.trans h3)) he.1

theorem placeArgument {built : List Statement × List (Option ExprId)}
    (hindex : index < call.arguments.length) (hslots : built.2.length = call.arguments.length) :
    Brings σ s (Lower.placeArgument d scope call parameters reorder built index)
      fun s' built' => ∃ p : Placed, p.index = index ∧
        p.Fits σ d scope call parameters reorder s s' ∧
        built' = (built.1 ++ p.statement?.toList, p.fill built.2) := by
  have hargument := List.getElem?_eq_getElem hindex
  have hfill (value : Option ExprId) :
      fillSlot built.2 index value = Pure.pure (built.2.set index value) :=
    if_pos (hslots ▸ hindex)
  unfold Lower.placeArgument
  simp only [hargument, hfill, pure_bind]
  have hboth : Brings σ s
      (Lower.lowerArgument d scope call.arguments[index] parameters[index]?) _ :=
    (ran (Naming.lowerArgument hd)).and (lowerArgument hd)
  refine .bind hboth fun value s1 h1 _ ⟨⟨⟨hrun, _⟩, hnamed⟩, hvalue⟩ => ?_
  have hlowered (s' : State) (hle : s1.Le s') : ∃ argument s1 s2,
      call.arguments[index]? = some argument ∧ s.Le s1 ∧
        (Lower.lowerArgument d scope argument parameters[index]?).runFrom σ s1 = (.ok value, s2) ∧
        s2.Le s' ∧ argument.Lowered σ d scope s s' value :=
    ⟨_, s, s1, hargument, .refl s, hrun, hle, hvalue.within (.refl s) hle⟩
  cases value with
  | none =>
    have hfits : Placed.Fits σ d scope call parameters reorder s s1 ⟨index, none, none⟩ :=
      ⟨hlowered s1 (.refl s1), nofun, fun _ _ => rfl, nofun⟩
    exact .pure ⟨_, rfl, hfits, by simp [Placed.statement?, Placed.fill, Placed.slot]⟩
  | some value =>
    have hnamed := hnamed value rfl
    have hnamed' (s' : State) (hle : s1.Le s') (e : ExprId) (he : some value = some e) :
        s'.Named e := Option.some.inj he ▸ hnamed.mono hle
    dsimp only
    split
    next hreorder =>
      refine .bind (keepArgument hnamed) fun kept s2 h2 _ hkept => .pure ?_
      rcases hkept with ⟨hstays, rfl⟩ | ⟨hmoves, t, hstatement, hholds⟩
      · refine ⟨⟨index, some value, none⟩, rfl,
          ⟨hlowered s2 h2, hnamed' s2 h2, fun _ _ => (hnamed.moves h2).trans hstays, nofun⟩, ?_⟩
        simp [Placed.statement?, Placed.fill, Placed.slot]
      · refine ⟨⟨index, some value, some (t, kept.2)⟩, rfl,
          ⟨hlowered s2 h2, hnamed' s2 h2, nofun, ?_⟩, ?_⟩
        · rintro _ _ hsome
          cases hsome
          exact ⟨value, rfl, (hnamed.moves h2).trans hmoves, hholds.within h1 (.refl s2), hreorder⟩
        · simp [Placed.statement?, Placed.fill, Placed.slot, hstatement]
    next hreorder =>
      refine .pure ⟨⟨index, some value, none⟩, rfl,
        ⟨hlowered s1 (.refl s1), hnamed' s1 (.refl s1), fun h => (hreorder h).elim, nofun⟩, ?_⟩
      simp [Placed.statement?, Placed.fill, Placed.slot]

theorem placeArguments (horder : ∀ i ∈ order, i < call.arguments.length)
    (hslots : built.2.length = call.arguments.length) :
    Brings σ s
      (order.foldlM (Lower.placeArgument d scope call parameters reorder) built)
      fun s' built' => ∃ ps : List Placed, ps.map (·.index) = order ∧
        (∀ p ∈ ps, p.Fits σ d scope call parameters reorder s s') ∧ ps.Pairwise Placed.Apart ∧
        built' = (built.1 ++ ps.filterMap Placed.statement?, ps.foldl Placed.fill built.2) := by
  induction order generalizing s built with
  | nil => exact .pure ⟨[], rfl, nofun, .nil, by simp⟩
  | cons i order ih =>
    obtain ⟨hi, horder⟩ := List.forall_mem_cons.1 horder
    rw [List.foldlM_cons]
    refine .bind (placeArgument hd hi hslots) fun built1 s1 h1 _ ⟨p, hp, hfits, hbuilt⟩ => ?_
    have hslots1 : built1.2.length = call.arguments.length := by
      rw [hbuilt, Placed.fill, List.length_set, hslots]
    refine (ih horder hslots1).imp_le ?_
    rintro s2 built2 h2 ⟨ps, rfl, hall, hapart, rfl⟩
    refine ⟨p :: ps, by simp [hp], ?_, .cons (fun q hq => ?_) hapart, ?_⟩
    · exact List.forall_mem_cons.2 ⟨hfits.mono h2, fun q hq => (hall q hq).before h1⟩
    · -- The first variable is there already when the others are made.
      intro t read t' read' ht ht' he
      obtain ⟨_, _, _, hholds, _⟩ := hfits.holds t read ht
      obtain ⟨_, _, _, hholds', _⟩ := (hall q hq).holds t' read' ht'
      have hsome := hholds.held.anonymous.1
      rw [he, hholds'.fresh] at hsome
      cases hsome
    · cases hs : p.statement? <;> simp [hbuilt, hs]

end descent

end Yields

end TypedTree
