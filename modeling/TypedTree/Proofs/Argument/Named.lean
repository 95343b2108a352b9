import TypedTree.Proofs.Signature.Source

namespace TypedTree

open Lower

namespace State

variable {σ : Setting} {s s' : State} {e : ExprId}

/-- The expression is there, and if it reads something, then what it reads stands for a
descriptor. -/
def Named (s : State) (e : ExprId) : Prop :=
  ∃ x, s.store.expr? e = some x ∧
    ∀ access, x.kind = .read access → ∃ key, s.keyOf? access.callee = some key

theorem Named.mono (h : s.Named e) (hle : s.Le s') : s'.Named e := by
  obtain ⟨x, hx, hkey⟩ := h
  obtain ⟨y, hy, hxy⟩ := hle.expr hx
  refine ⟨y, hy, fun access hread => ?_⟩
  obtain ⟨key, hkey⟩ := hkey access (hxy.kind.symm.trans hread)
  exact ⟨key, hle.keyOf? hkey⟩

/-- Of the constants, enum entries alone are read, and these are known by their descriptors. -/
theorem Faithful.keyOf?_of_constantWith (hs : s.Faithful σ) {value : Constant}
    {expected : Option TypeId} {type : TreeType} {kind : ExprKind}
    (h : (constantWith convert value expected).runFrom σ s = (.ok (some (type, kind)), s'))
    {access : Access} (hread : kind = .read access) :
    ∃ key, s'.keyOf? access.callee = some key := by
  subst hread
  cases value with
  | scalar _ =>
    obtain ⟨_, _, _, h⟩ := (runFrom_bind_eq_ok _ _).1 h
    cases h
  | array _ _ =>
    obtain ⟨_, _, _, h⟩ := (runFrom_bind_eq_ok _ _).1 h
    obtain ⟨_, _, _, h⟩ := (runFrom_bind_eq_ok _ _).1 h
    cases h
  | enumEntry entry type =>
    rw [constantWith, runFrom_bind_ok _ _ (runFrom_read _ _)] at h
    cases hl : σ.config.literals with
    | unsupported =>
      rw [hl] at h
      cases h
    | complete =>
      rw [hl] at h
      obtain ⟨_, s1, h1, h⟩ := (runFrom_bind_eq_ok _ _).1 h
      obtain ⟨_, s2, h2, h⟩ := (runFrom_bind_eq_ok _ _).1 h
      cases h
      have hs1 := ((Mirrors.convert type s hs).ok h1).1.faithful
      have hsymbol : Mirrors σ 0 s1 (Lower.symbolOf .classLike entry) _ _ := .symbolOf hs1 _ _
      obtain ⟨_, _, _, hkey, _⟩ := hsymbol.ok h2
      exact ⟨_, hkey⟩
  | nested use =>
    obtain ⟨_, _, _, hcalls⟩ := (Mirrors.annotationWith Mirrors.convert use s hs).ok h
    cases hcalls with
    | some hcall =>
      obtain ⟨_, _, hcall, _⟩ := hcall
      cases hcall
  | classLiteral referenced type =>
    rw [constantWith, runFrom_bind_ok _ _ (runFrom_read _ _)] at h
    cases hl : σ.config.literals with
    | unsupported =>
      rw [hl] at h
      cases h
    | complete =>
      rw [hl] at h
      obtain ⟨source, _, _, h⟩ := (runFrom_bind_eq_ok _ _).1 h
      cases source with
      | failed _ => cases h
      | simple _ | flexible _ _ =>
        obtain ⟨_, _, _, h⟩ := (runFrom_bind_eq_ok _ _).1 h
        obtain ⟨_, _, _, h⟩ := (runFrom_bind_eq_ok _ _).1 h
        cases h
  | failed _ => cases h

end State

namespace Yields

variable {σ : Setting} {s : State}

theorem addNamed (h : ∀ access, kind = .read access → ∃ key, s.keyOf? access.callee = some key) :
    Brings σ s (Lower.addExpr type kind) fun s e => s.Named e := fun hs =>
  have ⟨hle, hs', _⟩ := work Tidy.addExpr hs
  ⟨hle, hs', fun e he => by
    cases he
    refine ⟨⟨type, [], kind⟩, Array.getElem?_push_size, fun access hread => ?_⟩
    exact (h access hread).imp fun _ => hle.keyOf?⟩

theorem constant :
    Brings σ s (Lower.constant value expected) fun s e =>
      ∀ e', e = some e' → s.Named e' := by
  intro hs
  have hwork := work (m := Lower.constant value expected) Tidy.constant hs
  rcases hr : (Lower.constant value expected).runFrom σ s with ⟨r, s'⟩
  rw [hr] at hwork
  refine ⟨hwork.1, hwork.2.1, fun e he e' hsome => ?_⟩
  subst he hsome
  obtain ⟨content, s1, h1, h2⟩ := (runFrom_bind_eq_ok _ _).1 hr
  cases content with
  | none => cases h2
  | some content =>
    obtain ⟨e, s2, h2, h3⟩ := (runFrom_bind_eq_ok _ _).1 h2
    cases h2
    cases h3
    exact ⟨⟨content.1, [], content.2⟩, Array.getElem?_push_size,
      fun access hread => hs.2.keyOf?_of_constantWith h1 hread⟩

theorem calleeOf :
    Brings σ s (Lower.symbolFor desc) fun s id => ∃ key, s.keyOf? id = some key := by
  cases hd : σ.world.descriptor? desc with
  | some d => exact (symbolFor hd).imp fun _ _ _ h => ⟨_, h⟩
  | none =>
    refine (throw (e := .dangling)).of_runFrom ?_
    simp [Lower.symbolFor, SymbolTable.symbolFor?, runFrom_bind, hd, present]

end Yields

/-- The step makes an expression that reads nothing but what stands for a descriptor. -/
def Naming (σ : Setting) (m : Lower ExprId) : Prop :=
  ∀ s, Brings σ s m fun s e => s.Named e

/-- A descent into the parts of a node that makes such expressions. -/
structure Descent.Naming (σ : Setting) (d : Descent) : Prop where
  tidy : d.Tidy σ
  expr : ∀ scope id, TypedTree.Naming σ (d.expr scope id)

namespace Naming

variable {σ : Setting}

theorem after {α : Type} {m : Lower α} {k : α → Lower ExprId} (h : Tidy σ m)
    (hk : ∀ a, Naming σ (k a)) : Naming σ (m >>= k) := fun _ =>
  .bind (.work h) fun a s' _ _ _ => hk a s'

theorem addExpr (h : ∀ access, kind ≠ .read access) : Naming σ (Lower.addExpr type kind) := fun _ =>
  .addNamed fun access hread => (h access hread).elim

theorem malformed : Naming σ (Lower.malformed kind message) :=
  after Tidy.convert fun _ => addExpr nofun

theorem block : Naming σ (Lower.block statements) :=
  after Tidy.blockType fun _ => addExpr nofun

/-- A call stays a call, or becomes the last statement of a block. -/
theorem withPrelude (h : ∀ access, kind ≠ .read access) :
    Naming σ (do Lower.withPrelude before (← Lower.addExpr type kind)) := fun s => by
  refine .bind (addExpr h s) fun e s1 _ _ he => ?_
  unfold Lower.withPrelude
  split
  next => exact .pure he
  next => exact block s1

theorem lowerConstant {id : NodeId} : Naming σ (Lower.lowerConstant id) := by
  refine after Tidy.facts fun facts => after Tidy.required fun value s => ?_
  refine .bind .constant fun e s1 _ _ he => ?_
  cases e with
  | none => exact malformed s1
  | some e => exact .pure (he e rfl)

theorem concatenate : Naming σ (Lower.lowerTemplate.concatenate string parts) := by
  refine after (Tidy.symbolOf (by decide)) fun toText => after (Tidy.mapM fun part => ?_) fun _ =>
    addExpr nofun
  refine Tidy.expr.bind fun _ => ?_
  split
  next => exact Tidy.pure
  next => exact Tidy.addExpr

section call

variable {d : Descent} (hd : d.Tidy σ) {scope : Scope}

include hd

/-- The callee of an access stands for the candidate of the call. -/
theorem buildAccess :
    Brings σ s (Lower.buildAccess d scope call explicit) fun s access =>
      ∃ key, s.keyOf? access.callee = some key := by
  refine .bind .calleeOf fun callee s1 _ _ ⟨key, hkey⟩ => ?_
  refine .bind (.work (Tidy.optionalReceiver hd)) fun ⟨_, _⟩ s2 h2 _ _ => ?_
  refine .bind (.work (Tidy.optionalReceiver hd)) fun ⟨_, explicit⟩ s3 h3 _ _ => ?_
  refine .bind (.work Tidy.convertAll) fun _ s4 h4 _ _ => ?_
  have hkey : s4.keyOf? callee = some key := h4.keyOf? (h3.keyOf? (h2.keyOf? hkey))
  cases explicit with
  | none => exact .pure ⟨key, hkey⟩
  | some _ =>
    dsimp only
    split <;> exact .pure ⟨key, hkey⟩

theorem buildCall : Naming σ (Lower.buildCall d scope call type parts) := by
  intro s
  refine .bind (buildAccess hd) fun access s1 _ _ hkey => .descriptor_bind fun descriptor _ => ?_
  split
  next =>
    refine .addNamed fun access' hread => ?_
    cases hread
    exact hkey
  next => exact after (Tidy.callArguments hd) (fun _ => withPrelude (by nofun)) s1

end call

section descent

variable {d : Descent} (hd : d.Naming σ) {scope : Scope}

include hd

/-- A vararg is no read, and all else is the lowered argument. -/
theorem lowerArgument :
    Brings σ s (Lower.lowerArgument d scope argument parameter) fun s value =>
      ∀ e, value = some e → s.Named e := by
  cases argument with
  | omitted => exact .pure nofun
  | expression node =>
    refine .bind (hd.expr scope node s) fun e s1 _ _ he => .pure fun e' hsome => ?_
    cases hsome
    exact he
  | vararg elements =>
    simp only [Lower.lowerArgument, Lower.lowerVararg]
    split
    next => exact .pure nofun
    next =>
      refine .bind (.work (Tidy.mapM fun _ => Tidy.lowerElement hd.tidy)) fun _ _ _ _ _ => ?_
      refine .bind (.work Tidy.varargType) fun _ s2 _ _ _ => ?_
      refine .bind (addExpr (by nofun) s2) fun e _ _ _ he => .pure fun e' hsome => ?_
      cases hsome
      exact he

theorem lowerEntry :
    Brings σ s (Lower.lowerEntry d scope entry) fun s piece =>
      ∀ e, piece = .value e → s.Named e := by
  cases entry with
  | literal _ => exact .pure nofun
  | escape _ => exact .pure nofun
  | expression node =>
    refine .bind (hd.expr scope node s) fun e s1 _ _ he => ?_
    refine .bind (.work Tidy.expr) fun _ s2 h2 _ _ => ?_
    split
    next => exact .pure nofun
    next =>
      refine .pure fun e' hvalue => ?_
      cases hvalue
      exact he.mono h2

omit hd in
theorem pendingLiteral :
    Brings σ s (Lower.pendingLiteral type text) fun s parts =>
      ∀ e ∈ parts, s.Named e := by
  unfold Lower.pendingLiteral
  split
  next => exact .pure nofun
  next => exact .bind (addExpr (by nofun) s) fun e _ _ _ he => .pure (by simpa using he)

theorem lowerEntries (hparts : ∀ e ∈ parts, s.Named e) :
    Brings σ s (Lower.lowerEntries d scope string entries parts text) fun s built =>
      ∀ e ∈ built.1, s.Named e := by
  induction entries generalizing parts text s with
  | nil => exact .pure hparts
  | cons entry rest ih =>
    refine .bind (lowerEntry hd) fun piece s1 h1 _ hpiece => ?_
    cases piece with
    | text _ => exact ih fun e he => (hparts e he).mono h1
    | value value =>
      refine .bind pendingLiteral fun literal s2 h2 _ hliteral => ih fun e he => ?_
      simp only [List.mem_append, List.mem_singleton] at he
      rcases he with (he | he) | rfl
      · exact (hparts e he).mono (h1.trans h2)
      · exact hliteral e he
      · exact (hpiece e rfl).mono h2

theorem lowerTemplate : Naming σ (Lower.lowerTemplate d scope entries) := by
  refine after Tidy.convert fun string s => ?_
  refine .bind (lowerEntries hd nofun) fun ⟨parts, pending⟩ s1 _ _ hparts => ?_
  dsimp only
  split
  next => exact addExpr (by nofun) s1
  next =>
    refine .bind pendingLiteral fun literal s2 h2 _ hliteral => ?_
    split
    next single hsingle =>
      refine .bind (.work Tidy.exprType) fun _ s3 h3 _ _ => ?_
      split
      next =>
        have hmem : single ∈ parts ++ literal := by simp [hsingle]
        refine .pure ?_
        rcases List.mem_append.1 hmem with hmem | hmem
        · exact (hparts single hmem).mono (h2.trans h3)
        · exact (hliteral single hmem).mono h3
      next => exact concatenate s3
    next => exact concatenate s2

end descent

end Naming

/-- What is formed reads nothing but what stands for a descriptor, by induction on how it is
formed. -/
theorem Forms.naming (h : Forms σ m) : Naming σ m := by
  induction h with
  | throw => exact fun _ => .throw
  | addExpr h => exact .addExpr h
  | reads =>
    refine fun s => .bind .calleeOf fun symbol s1 _ _ hkey => .addNamed fun access hread => ?_
    cases hread
    exact hkey
  | buildCall hd => exact .buildCall hd
  | lowerConstant => exact .lowerConstant
  | lowerTemplate hd _ ih => exact .lowerTemplate ⟨hd, ih⟩
  | after h _ ih => exact .after h ih
  | before _ hk ih =>
    exact fun s => .bind (ih s) fun e _ _ _ he => .bind (.work (hk e)) fun _ _ hle _ _ =>
      .pure (he.mono hle)
  | keepUnless _ _ ih ihk =>
    refine fun s => .bind (ih s) fun e s1 _ _ he => ?_
    split
    next => exact ihk e s1
    next => exact .pure he
  | read_bind _ _ ih => exact fun s => .read_bind (ih s)

/-- No expression of the source reads a temporary. -/
theorem Naming.descent (fuel : Nat) : (Lower.descent fuel).Naming σ :=
  ⟨Tidy.descent fuel, fun scope id => ((Forms.descent fuel).expr scope id).naming⟩

end TypedTree
