import TypedTree.Proofs.External
import TypedTree.Proofs.Targets

namespace TypedTree

namespace Frame

def IsFunction (store : Store) (accepts : FunctionTarget → Bool) : Frame → Prop
  | .function t => ∃ x, store.functionTarget? t = some x ∧ accepts x
  | .root | .loop _ | .callee _ => False

def IsLoop (store : Store) (label : Name) : Frame → Prop
  | .loop t => ∃ x, store.loopTarget? t = some x ∧ x.label = some label
  | .root | .function _ | .callee _ => False

/-- A frame whose target, if it has one, is in the store. -/
def Known (store : Store) : Frame → Prop
  | .function t => store.Has (.function t)
  | .loop t => store.Has (.loop t)
  | .root | .callee _ => True

end Frame

namespace Scope

variable {scope : Scope} {store : Store} {wanted hides : Frame → Prop}

/-- A search from the inside out comes to the frame. Of those inside of it, none ends the search. -/
def Meets (scope : Scope) (wanted hides : Frame → Prop) (frame : Frame) : Prop :=
  ∃ inner outer, scope = inner ++ frame :: outer ∧ ∀ f ∈ inner, ¬ wanted f ∧ ¬ hides f

/-- How a search for the innermost frame ends: it fails if there is no such frame, and it cannot go
on at a target that is not there. -/
def Resolves (scope : Scope) (store : Store) (wanted hides : Frame → Prop)
    (missing : LowerError) : Except LowerError Frame → Prop
  | .ok frame => scope.Meets wanted hides frame ∧ wanted frame
  | .error e => (e = missing ∧ ∀ frame, scope.Meets wanted hides frame → ¬ wanted frame) ∨
      e = .dangling ∧ ∃ frame, scope.Meets wanted hides frame ∧ ¬ frame.Known store

theorem meets_cons : Meets (f :: scope) wanted hides frame ↔
    frame = f ∨ (¬ wanted f ∧ ¬ hides f) ∧ scope.Meets wanted hides frame := by
  constructor
  · rintro ⟨inner, outer, he, hinner⟩
    cases inner with
    | nil =>
      cases he
      exact .inl rfl
    | cons g inner =>
      cases he
      obtain ⟨hf, hinner⟩ := List.forall_mem_cons.1 hinner
      exact .inr ⟨hf, inner, outer, rfl, hinner⟩
  · rintro (rfl | ⟨hf, inner, outer, rfl, hinner⟩)
    · exact ⟨[], scope, rfl, by simp⟩
    · exact ⟨f :: inner, outer, rfl, List.forall_mem_cons.2 ⟨hf, hinner⟩⟩

theorem Resolves.nil : Resolves [] store wanted hides missing (.error missing) := by
  refine .inl ⟨rfl, fun frame ⟨inner, outer, he, _⟩ => ?_⟩
  cases inner <;> cases he

theorem Resolves.here (hw : wanted f) : Resolves (f :: scope) store wanted hides missing (.ok f) :=
  ⟨meets_cons.2 (.inl rfl), hw⟩

theorem Resolves.unknown (hk : ¬ f.Known store) :
    Resolves (f :: scope) store wanted hides missing (.error .dangling) :=
  .inr ⟨rfl, f, meets_cons.2 (.inl rfl), hk⟩

theorem Resolves.outer (hw : ¬ wanted f) (hh : ¬ hides f)
    (h : scope.Resolves store wanted hides missing r) :
    Resolves (f :: scope) store wanted hides missing r := by
  have hup {frame} (hm : scope.Meets wanted hides frame) : Meets (f :: scope) wanted hides frame :=
    meets_cons.2 (.inr ⟨⟨hw, hh⟩, hm⟩)
  cases r with
  | ok frame => exact h.imp_left hup
  | error e =>
    refine h.imp (And.imp_right fun hnone frame hm => ?_) (And.imp_right ?_)
    · rcases meets_cons.1 hm with rfl | ⟨_, hm⟩
      · exact hw
      · exact hnone frame hm
    · rintro ⟨frame, hm, hk⟩
      exact ⟨frame, hup hm, hk⟩

theorem Resolves.hidden (hw : ¬ wanted f) (hh : hides f) :
    Resolves (f :: scope) store wanted hides missing (.error missing) := by
  refine .inl ⟨rfl, fun frame hm => ?_⟩
  rcases meets_cons.1 hm with rfl | ⟨⟨_, hnot⟩, _⟩
  · exact hw
  · exact (hnot hh).elim

abbrev outcome {α : Type} (frame : α → Frame) (missing : LowerError)
    (r : Except LowerError (Option α)) : Except LowerError Frame :=
  r.bind fun found => (found.map frame).elim (.error missing) .ok

theorem resolves_findFunction (scope : Scope) (store : Store) (accepts : FunctionTarget → Bool)
    (missing : LowerError) : scope.Resolves store (Frame.IsFunction store accepts) (fun _ => False)
      missing (outcome .function missing (findFunction store accepts scope)) := by
  induction scope with
  | nil => exact .nil
  | cons f scope ih =>
    cases f with
    | function t =>
      rw [findFunction]
      split
      next hnone => exact .unknown (by simp [Frame.Known, Store.Has, hnone])
      next x hx =>
        split
        next ha => exact .here ⟨x, hx, ha⟩
        next ha => exact .outer (by simp [Frame.IsFunction, hx, ha]) id ih
    | root | loop | callee => exact .outer id id ih

theorem resolves_findLoop (scope : Scope) (store : Store) (label : Name) (missing : LowerError) :
    scope.Resolves store (Frame.IsLoop store label) (fun _ => False) missing
      (outcome .loop missing (findLoop store label scope)) := by
  induction scope with
  | nil => exact .nil
  | cons f scope ih =>
    cases f with
    | loop t =>
      rw [findLoop]
      split
      next hnone => exact .unknown (by simp [Frame.Known, Store.Has, hnone])
      next x hx =>
        split
        next ha => exact .here ⟨x, hx, by simpa using ha⟩
        next ha => exact .outer (by simpa [Frame.IsLoop, hx] using ha) id ih
    | root | function | callee => exact .outer id id ih

theorem resolves_innermostLoop (scope : Scope) (store : Store) (missing : LowerError) :
    scope.Resolves store (fun f => ∃ t, f = .loop t) (fun f => ∃ t, f = .function t) missing
      (outcome .loop missing (.ok scope.innermostLoop)) := by
  induction scope with
  | nil => exact .nil
  | cons f scope ih =>
    cases f with
    | loop t => exact .here ⟨t, rfl⟩
    | function t => exact .hidden (by simp) ⟨t, rfl⟩
    | root | callee => exact .outer (by simp) (by simp) ih

end Scope

/-- What a jump leaves or goes on with. -/
def ExprKind.jump? : ExprKind → Option Holder
  | .returnJump t _ => some (.function t)
  | .breakJump t | .continueJump t => some (.loop t)
  | _ => none

/-- What a holder stands for lies in a part of the tree. -/
def Store.Contains (s : Store) (root : TreePart) (h : Holder) : Prop :=
  ∃ part, s.owner? h = some part ∧ s.Reaches root part

theorem ExprKind.uses_jump {k : ExprKind} (h : k.jump? = some holder) :
    .uses holder ∈ k.mentions := by
  cases k <;> cases h <;> simp [ExprKind.mentions]

namespace Ledger

variable {σ : Setting} {strict : Bool} {L : Ledger σ strict} {root part : TreePart}

/-- No code in the part uses a holder that stands for something outside of the root. -/
def Seals (L : Ledger σ strict) (root part : TreePart) : Prop :=
  ∀ e, L.state.store.Reaches part (.expr e) →
    L.Sheltered (fun h _ => L.state.store.Contains root h) (.expr e)

theorem seals_of_sheltered (h : L.Sheltered (fun h _ => L.state.store.Contains root h) part)
    (hr : L.state.store.Reaches root part) : L.Seals root part := by
  intro e he
  suffices hall : ∀ q, L.state.store.Reaches part q →
      L.Sheltered (fun h _ => L.state.store.Contains root h) q from hall _ he
  intro q hq
  induction hq with
  | refl => exact h
  | tail hq hc ih => exact ih.under hc (fun _ hh => hh) fun _ ho _ => ⟨_, ho, hr.trans hq⟩

theorem seals_of_lies (h : L.Lies [] d) (hr : L.state.store.Reaches root (.decl d)) :
    L.Seals root (.decl d) := by
  obtain ⟨m, hm, hsub⟩ := h
  exact seals_of_sheltered ⟨m, hm, fun a ha => by cases hsub ha⟩ hr

/-- A declaration without code of its own leaves it to the declarations in it. -/
theorem seals_decl {d : DeclId} {x : Decl} (hx : L.state.store.decl? d = some x)
    (hr : L.state.store.Reaches root (.decl d)) (hcode : ∀ inside e, .expr inside e ∉ x.mentions)
    (hdecls : ∀ d', .decl d' ∈ x.mentions → L.state.store.Reaches root (.decl d') →
      L.Seals root (.decl d')) : L.Seals root (.decl d) := by
  intro e he
  obtain he | ⟨child, hc, he⟩ := he.cases_head
  · cases he
  have hr' := hr.tail hc
  cases hn : child.node? with
  | none =>
    refine seals_of_sheltered ?_ hr' e he
    cases child with
    | expr | decl => cases hn
    | _ => trivial
  | some c =>
    have hself : child.node? = some child := by
      cases child with
      | expr | decl => rfl
      | _ => cases hn
    obtain ⟨m, hm, hmn⟩ := L.exists_mention hc hself
    have hallows := L.sound.allows _ m hm
    have hmem : m ∈ x.mentions := by simpa [Entries.mentions, Store.mentions, hx] using hm
    cases m with
    | expr inside e' => exact (hcode inside e' hmem).elim
    | decl d' =>
      cases hmn
      exact hdecls d' hmem hr' e he
    | note e' =>
      cases hmn
      have hsettled : L.Settled e' := by
        simp only [Entries.Allows] at hallows
        split at hallows
        next => exact hallows
        next => exact hallows.elim
      refine seals_of_sheltered ?_ hr' e he
      exact .inl hsettled
    | _ => cases hmn

open Mention

theorem seals_typeParameter {d : DeclId} {x : Decl} (hx : L.state.store.decl? d = some x)
    (hk : x.kind = .typeParameter p) (hr : L.state.store.Reaches root (.decl d)) :
    L.Seals root (.decl d) := by
  have hmentions : ∀ m ∈ x.mentions, m.IsOfType := by
    simp only [Decl.mentions, hk, DeclKind.mentions, annotations, List.forall_mem_cons,
      List.forall_mem_append, List.forall_mem_map]
    exact ⟨trivial, fun _ _ => trivial, fun _ => isOfType_of_mem_types⟩
  exact seals_decl hx hr (fun _ _ => hmentions _) fun _ hm => (hmentions _ hm).elim

theorem seals_class {d : DeclId} {x : Decl} (hx : L.state.store.decl? d = some x)
    (hk : x.kind = .classLike c) (hts : ∀ t ∈ c.typeParameters, L.Lies [] t ∨
      ∃ y p, L.state.store.decl? t = some y ∧ y.kind = .typeParameter p) :
    L.Seals (.decl d) (.decl d) := by
  have hdecl : ∀ {d' list}, .decl d' ∉ types list := isOfType_of_mem_types
  refine seals_decl hx .refl (fun inside e => ?_) fun d' hm hr => ?_
  · simp [Decl.mentions, hk, DeclKind.mentions, annotations, decls, expr_notMem_types]
  have hmem : d' ∈ c.typeParameters ∨ d' ∈ c.declarations := by
    simpa [Decl.mentions, hk, DeclKind.mentions, annotations, decls, hdecl] using hm
  rcases hmem with hmem | hmem
  · rcases hts d' hmem with hl | ⟨y, p, hy, hp⟩
    · exact seals_of_lies hl hr
    · exact seals_typeParameter hy hp hr
  · exact seals_of_lies ((L.sound.classes hx c hk).1 d' hmem) hr

end Ledger

/-- In a lowered unit, the code in a class uses nothing from outside. If the class is a stub, it
must be certain that its type parameters are declared as such. -/
theorem lowerModule_seals (h : lowerModule world config = .ok f) :
    ∃ L : Ledger ⟨world, config⟩ false, L.state.store = f.store ∧ ∀ d x c,
      f.store.decl? d = some x → x.kind = .classLike c →
        (x.origin = .stub → world.KindConsistent) → L.Seals (.decl d) (.decl d) := by
  have hrec := Session.lowerModule_recorded world config
  rw [h] at hrec
  obtain ⟨s, L, hrec, rfl, _⟩ := hrec
  obtain ⟨_, _, _, _, hf⟩ := Session.exists_of_lowerModule h
  obtain ⟨hand, hsteps⟩ := Session.steps_ofModule h
  have hstore : L.state.store = s.fragment.store := by rw [hrec.state]; rfl
  have htable : L.state.table.symbols = (Session.ofModule world config).state.table.symbols := by
    rw [hrec.state]
    exact congrArg (·.symbols) hf
  refine ⟨L, hstore, fun d x c hx hk hkinds => ?_⟩
  rw [← hstore] at hx
  refine Ledger.seals_class hx hk fun t ht => ?_
  rcases (L.sound.classes hx c hk).2 t ht with hl | ⟨hstub, id, y, hy, hkind, ho⟩
  · exact .inl hl
  -- The owner of the symbol of a type parameter is a type parameter, if the facts agree.
  have hy' : (Session.ofModule world config).state.table.get? id = some y := by
    rwa [SymbolTable.get?, ← htable]
  obtain ⟨z, hz, hsuits⟩ := hsteps.suited (hkinds hstub) Session.suited_start id y t hy' ho
  rw [hkind] at hsuits
  refine .inr ⟨z, ?_⟩
  cases hzk : z.kind with
  | typeParameter p => exact ⟨p, by rw [hstore, hf]; exact hz, rfl⟩
  | _ =>
    rw [hzk] at hsuits
    exact hsuits.elim

/-- Jumps go to the innermost frame that they may go to, and fail if there is none: a label is
looked for across functions, a return without one passes lambdas, and a function hides the loops
around it from the other jumps without one. As the members of a class see no frame from outside, no
jump in a class leaves the class. The type parameters of a stub are what the facts say they are. -/
theorem jumps_confined (world : World) (config : Config) :
    (∀ (scope : Scope) (store : Store) (span : Span) (label : Name) (keyword : String),
      scope.Resolves store (Frame.IsFunction store (!·.isLambda)) (fun _ => False)
        (.missingTarget "return" "function" span)
        ((scope.returnTarget none store span).map .function) ∧
      scope.Resolves store (Frame.IsFunction store (·.label == some label)) (fun _ => False)
        (.unresolvedLabel label span)
        ((scope.returnTarget (some label) store span).map .function) ∧
      scope.Resolves store (fun f => ∃ t, f = .loop t) (fun f => ∃ t, f = .function t)
        (.missingTarget keyword "loop" span)
        ((scope.loopTarget keyword none store span).map .loop) ∧
      scope.Resolves store (Frame.IsLoop store label) (fun _ => False)
        (.unresolvedLabel label span)
        ((scope.loopTarget keyword (some label) store span).map .loop)) ∧
    ∀ f, lowerModule world config = .ok f → ∀ d x c, f.store.decl? d = some x →
      x.kind = .classLike c → (x.origin = .stub → world.KindConsistent) →
      ∀ e y target, f.store.Reaches (.decl d) (.expr e) → f.store.expr? e = some y →
        y.kind.jump? = some target → f.store.Contains (.decl d) target := by
  refine ⟨fun scope store span label keyword => ?_, fun f hf d x c hx hk hkinds e y target => ?_⟩
  · simp only [Scope.returnTarget, Scope.loopTarget]
    refine ⟨?_, ?_, ?_, ?_⟩
    · have h := scope.resolves_findFunction store (!·.isLambda)
        (.missingTarget "return" "function" span)
      generalize Scope.findFunction store _ scope = r at h ⊢
      rcases r with e | _ | t <;> exact h
    · have h := scope.resolves_findFunction store (·.label == some label)
        (.unresolvedLabel label span)
      generalize Scope.findFunction store _ scope = r at h ⊢
      rcases r with e | _ | t <;> exact h
    · have h := scope.resolves_innermostLoop store (.missingTarget keyword "loop" span)
      generalize scope.innermostLoop = r at h ⊢
      rcases r with _ | t <;> exact h
    · have h := scope.resolves_findLoop store label (.unresolvedLabel label span)
      generalize Scope.findLoop store label scope = r at h ⊢
      rcases r with e | _ | t <;> exact h
  · obtain ⟨L, hstore, hseals⟩ := lowerModule_seals hf
    have hclass := hseals d x c hx hk hkinds
    rw [← hstore]
    exact fun hr hy hj => (hclass e hr).encloses hy (ExprKind.uses_jump hj)

/-- A function `main` that returns a class from elsewhere. The facts list a local function among the
type parameters of the class, and a parameter of that function has a default value that leaves
`main`. -/
def strayParameterWorld : World where
  tree :=
    { nodes := #[
        ⟨.function ⟨some "main", [], [], some ⟨1⟩, []⟩, .detached⟩,
        ⟨.block [⟨2⟩], .detached⟩,
        ⟨.function ⟨some "local", [], [⟨3⟩], none, []⟩, .detached⟩,
        ⟨.parameter ⟨some "p", some ⟨4⟩, none, []⟩, .detached⟩,
        ⟨.returnJump (some "main") none, .detached⟩]
      files := [⟨"main.kt", ["demo"], [], [⟨0⟩]⟩] }
  facts := #[{ declares := some ⟨13⟩ }, {}, { declares := some ⟨14⟩ }, { declares := some ⟨15⟩ }]
  declared := #[
    ⟨"main", ["demo"], none, .everywhere, [], .function { returnType := ⟨14⟩ }⟩,
    ⟨"local", ["demo"], some ⟨13⟩, .inBody, [],
      .function { valueParameters := [⟨15⟩], returnType := Builtin.unitType }⟩,
    ⟨"p", ["demo"], some ⟨14⟩, .everywhere, [],
      .valueParameter ⟨0, Builtin.unitType, true, false, false, false⟩⟩,
    ⟨"C", ["demo"], none, .everywhere, [], .classLike { typeParameters := [⟨14⟩] }⟩]
  types := #[.simple { classifier := ⟨16⟩ }]

theorem Store.mem_of_reaches {s : Store} {parts : List TreePart}
    (hparts : ∀ p ∈ parts, ∀ q ∈ s.below p, q ∈ parts) (hp : p ∈ parts) (h : s.Reaches p q) :
    q ∈ parts := by
  induction h with
  | refl => exact hp
  | tail _ hq ih => exact hparts _ ih _ hq

/-- The stub of that class leads to the local function's parameter, and so to a jump that leaves a
function around neither of them. -/
theorem jumps_leave_stub : ∃ f, lowerModule strayParameterWorld {} = .ok f ∧ ∃ d x c e y target,
    f.store.decl? d = some x ∧ x.kind = .classLike c ∧ f.store.Reaches (.decl d) (.expr e) ∧
    f.store.expr? e = some y ∧ y.kind.jump? = some target ∧
    ¬ f.store.Contains (.decl d) target := by
  let c : ClassDecl := ⟨.plain, .everywhere, .final, false, false, false, [⟨5⟩], [], []⟩
  have hok : (lowerModule strayParameterWorld {}).toOption.any fun f =>
      let parts := f.store.walk (.decl ⟨6⟩)
      (f.store.decl? ⟨6⟩).map (·.kind) = some (.classLike c) ∧ .expr ⟨1⟩ ∈ parts ∧
      (f.store.expr? ⟨1⟩).bind (·.kind.jump?) = some (.function ⟨0⟩) ∧
      f.store.owner? (.function ⟨0⟩) = some (.decl ⟨2⟩) ∧ .decl ⟨2⟩ ∉ parts ∧
      .decl ⟨6⟩ ∈ parts ∧ ∀ p ∈ parts, ∀ q ∈ f.store.below p, q ∈ parts := by decide +kernel
  cases h : lowerModule strayParameterWorld {} with
  | error e =>
    rw [h] at hok
    cases hok
  | ok f =>
    rw [h] at hok
    simp only [Except.toOption, Option.any_some, decide_eq_true_eq] at hok
    obtain ⟨hx, he, hj, ho, hnot, hroot, hparts⟩ := hok
    obtain ⟨x, hx, hk⟩ := Option.map_eq_some_iff.1 hx
    obtain ⟨y, hy, hj⟩ := Option.bind_eq_some_iff.1 hj
    refine ⟨f, rfl, ⟨6⟩, x, c, ⟨1⟩, y, .function ⟨0⟩, hx, hk, Store.reaches_of_mem_walkUpTo he, hy,
      hj, ?_⟩
    rintro ⟨part, hpart, hr⟩
    cases ho.symm.trans hpart
    exact hnot (Store.mem_of_reaches hparts hroot hr)

end TypedTree
