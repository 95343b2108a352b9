import TypedTree.Proofs.Helper.Session
import TypedTree.Proofs.Plain.Agreement

namespace TypedTree

open Lower

namespace Builds

variable {σ : Setting} {ids : List SymbolId} {α β : Type} {m : Lower α}

theorem lenient (h : Builds σ false ids m) : Builds σ stubs ids m := by
  induction h with
  | pure a => exact .pure a
  | throw ids e => exact .throw ids e
  | seq _ _ ih ihk => exact ih.seq ihk
  | pay _ _ ih ihk => exact ih.pay ihk
  | forget _ ih => exact ih.forget
  | read hv _ ih => exact .read hv ih
  | get => exact .get
  | fresh _ ih => exact .fresh ih
  | symbolOf hkind => exact .symbolOf hkind
  | symbolFor => exact .symbolFor
  | newFunctionTarget => exact .newFunctionTarget
  | newLoopTarget => exact .newLoopTarget
  | newWhenRef => exact .newWhenRef
  | addExpr => exact .addExpr
  | annotateExpr => exact .annotateExpr
  | bindFunctionTarget => exact .bindFunctionTarget
  | bindLoopTarget => exact .bindLoopTarget
  | bindWhenRef => exact .bindWhenRef
  | declare ho => exact .declare fun he => by cases ho he
  | convert => exact .convert
  | constant => exact .constant
  | annotationCall => exact .annotationCall
  | countPass => exact .countPass

section stub

/-- A way to declare symbols that is work of lowering. -/
def Declares (σ : Setting) (declaration : SymbolId → DescId → Lower DeclId) : Prop :=
  ∀ id desc, Builds σ true [] (declaration id desc)

theorem symbol {id : SymbolId} : Builds σ true [] (Lower.symbol id) :=
  get.seq fun _ => lenient Tidy.present

theorem annotationCalls : Builds σ stubs [] (Lower.annotationCalls uses) :=
  (mapM fun _ => annotationCall).seq fun _ => .pure _

variable {declaration : SymbolId → DescId → Lower DeclId} (h : Declares σ declaration)

include h

theorem parametersWith (hkind : kind ≠ .initializer) {parameters : List DescId} :
    Builds σ true [] (Lower.parametersWith declaration kind parameters) :=
  mapM fun parameter => (symbolOf hkind).seq fun id => h id parameter

theorem signatureWith (d : Descriptor) : Builds σ true [] (Lower.signatureWith declaration d) := by
  have hparameters {kind : SymbolKind} (hkind : kind ≠ .initializer) {parameters : List DescId} :
      Builds σ true [] (Lower.parametersWith declaration kind parameters) := parametersWith h hkind
  unfold Lower.signatureWith
  cases d.kind with
  | classLike _ =>
    exact (hparameters (by decide)).seq fun _ => (lenient Tidy.convertAll).seq fun _ => .pure _
  | function _ =>
    exact (hparameters (by decide)).seq fun _ => (lenient Tidy.convertOptional).seq fun _ =>
      (lenient Tidy.convertOptional).seq fun _ => (hparameters (by decide)).seq fun _ =>
      convert.seq fun _ => (mapM fun _ => symbolOf (by decide)).seq fun _ => .pure _
  | constructor _ =>
    exact (hparameters (by decide)).seq fun _ => convert.seq fun _ => .pure _
  | property _ =>
    exact convert.seq fun _ => (lenient Tidy.convertOptional).seq fun _ =>
      (lenient Tidy.convertOptional).seq fun _ => (hparameters (by decide)).seq fun _ => .pure _
  | accessor _ =>
    exact (symbolOf (by decide)).seq fun _ => convert.seq fun _ =>
      (hparameters (by decide)).seq fun _ => .pure _
  | typeParameter _ => exact (lenient Tidy.convertAll).seq fun _ => .pure _
  | valueParameter _ =>
    refine seq ?_ fun _ => convert.seq fun _ => .pure _
    unfold Lower.placeholder
    split
    next => exact convert.seq fun _ => addExpr.seq fun _ => .pure _
    next => exact .pure _
  | typeAlias _ => exact (hparameters (by decide)).seq fun _ => convert.seq fun _ => .pure _

theorem declarationWith : Declares σ (Lower.declarationWith declaration) := by
  refine fun id desc => symbol.seq fun x => ?_
  cases x.owner with
  | some owner => exact .pure owner
  | none =>
    refine (lenient Tidy.descriptor).seq fun d => (signatureWith h d).seq fun _ =>
      annotationCalls.seq fun _ => symbol.seq fun y => ?_
    cases y.owner with
    | some owner => exact .pure owner
    | none => exact (declare fun _ => rfl).forget

end stub

theorem declarationUpTo : (fuel : Nat) → Declares σ (Lower.declarationUpTo fuel)
  | 0 => fun _ _ => .throw [] _
  | fuel + 1 => declarationWith (declarationUpTo fuel)

theorem declaration : Declares σ Lower.declaration := fun id desc =>
  .read (fun _ => rfl) (declarationUpTo _ id desc)

theorem stubPending (pending : DescId × SymbolId) :
    Builds σ true [] (Lower.stubPending pending) := by
  refine symbol.seq fun x => ?_
  split
  next => exact .pure none
  next => exact (declaration _ _).seq fun _ => (lenient Tidy.descriptor).seq fun _ => .pure _

theorem stubPasses (fuel : Nat) (visited : List SymbolId) :
    Builds σ true [] (Lower.stubPasses fuel visited) := by
  induction fuel generalizing visited with
  | zero => exact .throw [] _
  | succ fuel ih =>
    refine get.seq fun s => ?_
    dsimp only
    split
    next => exact .pure []
    next => exact countPass.seq fun _ => (mapM stubPending).seq fun _ => (ih _).seq fun _ => .pure _

theorem generateStubs : Builds σ true [] Lower.generateStubs := by
  refine .read (fun _ => rfl) ((stubPasses _ []).seq fun roots => get.seq fun s =>
    (mapM fun _ => symbol.seq fun _ => .pure _).seq fun unbound => ?_)
  split
  next => exact .pure roots
  next => exact .throw [] _

theorem declarationFor (desc : DescId) :
    Builds σ true [] (do Lower.declaration (← Lower.symbolFor desc) desc : Lower DeclId) :=
  symbolFor.seq fun id => declaration id desc

end Builds

theorem SymbolTable.get?_of_fresh {t : SymbolTable} {id : SymbolId} {x : Symbol}
    (hx : (t.fresh kind identity).2.get? id = some x) (ho : x.owner = some d) :
    t.get? id = some x := by
  simp only [get?, fresh] at hx
  rcases Desk.getElem?_push_cases hx with hx | rfl
  · exact hx
  · cases ho

namespace State

/-- A later state that is faithful too, and has stubs that are new only if that is admitted. -/
structure Upholds (σ : Setting) (stubs : Bool) (s s' : State) : Prop where
  le : s.Le s'
  faithful : s'.Faithful σ
  decl : stubs = false → ∀ {id x}, s'.store.decl? id = some x → x.origin = .stub →
    s.store.decl? id = some x

/-- The states that lowering can come to from another one: after any work, whether it succeeds or
not, there may be more. -/
inductive Reaches (σ : Setting) (s : State) : State → Prop
  | refl : Reaches σ s s
  | after {α : Type} {m : Lower α} {s' : State} : Reaches σ s s' → Builds σ true [] m →
      Reaches σ s (m.runFrom σ s').2

/-- The states that lowering can come to. -/
def Reachable (σ : Setting) (s : State) : Prop := State.Reaches σ {} s

variable {σ : Setting} {stubs : Bool} {s s' s'' : State}

namespace Upholds

theorem refl (hs : s.Faithful σ) : s.Upholds σ stubs s := ⟨.refl s, hs, fun _ _ _ h _ => h⟩

theorem trans (h : s.Upholds σ stubs s') (h' : s'.Upholds σ stubs s'') : s.Upholds σ stubs s'' :=
  ⟨h.le.trans h'.le, h'.faithful, fun hno _ _ hx ho => h.decl hno (h'.decl hno hx ho) ho⟩

/-- Everything but declarations, owners and types may change. -/
theorem of_le (hs : s.Faithful σ) (hle : s.Le s') (htable : s'.table.Sound σ.world false)
    (htypes : s'.types = s.types) (hdecls : s'.store.decls = s.store.decls)
    (howner : ∀ {id x d}, s'.table.get? id = some x → x.owner = some d →
      s.table.get? id = some x) : s.Upholds σ stubs s' :=
  ⟨hle, hs.of_le hle htable htypes fun hx ho => .inl (howner hx ho),
    fun _ _ _ hx _ => by rwa [Store.decl?, hdecls] at hx⟩

/-- Everything may change in which no symbol, type or declaration is. -/
theorem of_table_eq (hs : s.Faithful σ) (hle : s.Le s') (htable : s'.table = s.table)
    (htypes : s'.types = s.types) (hdecls : s'.store.decls = s.store.decls) :
    s.Upholds σ stubs s' :=
  of_le hs hle (htable ▸ hs.table) htypes hdecls fun hx _ => htable ▸ hx

theorem addDecl (hs : s.Faithful σ) {d : Decl} (ho : d.origin = .stub → stubs = true)
    {t : SymbolTable} (hle : s.table.Le t) (ht : t.Sound σ.world false) (stats : Stats)
    (howner : ∀ {id x e}, t.get? id = some x → x.owner = some e →
      s.table.get? id = some x ∨ e = ⟨s.store.decls.size⟩ ∧ d.symbol = id) :
    s.Upholds σ stubs { s with store := (s.store.addDecl d).2, table := t, stats := stats } := by
  have hlater := Desk.le_addDecl d hle stats
  refine ⟨hlater, hs.of_le hlater ht rfl fun hx hxo => (howner hx hxo).imp_right ?_,
    fun hno id x hx hstub => ?_⟩
  · rintro ⟨rfl, hid⟩
    exact ⟨d, by simp [Store.decl?, Store.addDecl], hid⟩
  · rcases Desk.getElem?_push_cases hx with hx | rfl
    · exact hx
    · cases hno.symm.trans (ho hstub)

theorem of_mirrors {α β : Type} {m : Lower α} {F : Inquiry β} {R : State → α → β → Prop}
    (hs : s.Coherent σ) (h : Mirrors σ fuel s m F R) (hseeks : Seeks σ C ls m) :
    s.Upholds σ stubs (m.runFrom σ s).2 := by
  have hkept : s.Le (m.runFrom σ s).2 ∧ (m.runFrom σ s).2.Faithful σ ∧
      (m.runFrom σ s).2.store.decls = s.store.decls := by
    rcases hr : m.runFrom σ s with ⟨e | a, s'⟩
    · exact ⟨(h.error hr).1, (h.error hr).2.1, ((hseeks s hs).error hr).2.1.decls⟩
    · exact ⟨(h.ok hr).1.le, (h.ok hr).1.faithful, ((hseeks s hs).ok hr).2.1.decls⟩
  exact ⟨hkept.1, hkept.2.1, fun _ _ _ hx _ => by rwa [Store.decl?, hkept.2.2] at hx⟩

theorem symbolOf (hs : s.Faithful σ) (kind : SymbolKind) (desc : DescId) :
    s.Upholds σ stubs ((Lower.symbolOf kind desc).runFrom σ s).2 := by
  rw [Lower.symbolOf, runFrom_bind_ok _ _ (runFrom_get _ _), runFrom_bind_ok _ _ (runFrom_read _ _)]
  cases hp : s.table.getOrCreate? σ.world kind desc with
  | none => exact refl hs
  | some p =>
    obtain ⟨id, table⟩ := p
    rcases SymbolTable.getOrCreate?_cases hp with ⟨_, rfl⟩ | ⟨hc, rfl, d, hd, rfl⟩
    · exact refl hs
    · exact of_le hs (hs.create hd hc).1 (hs.table.create hd hc (by simp)) rfl rfl
        SymbolTable.get?_of_create

theorem symbolFor (hs : s.Faithful σ) (desc : DescId) :
    s.Upholds σ stubs ((Lower.symbolFor desc).runFrom σ s).2 := by
  cases hd : σ.world.descriptor? desc with
  | none =>
    rw [Lower.symbolFor, runFrom_bind_ok _ _ (runFrom_get _ _),
      runFrom_bind_ok _ _ (runFrom_read _ _), SymbolTable.symbolFor?, hd]
    exact refl hs
  | some d =>
    have hrun : (Lower.symbolFor desc).runFrom σ s =
        (Lower.symbolOf d.symbolKind desc).runFrom σ s := by
      simp only [Lower.symbolFor, Lower.symbolOf, runFrom_bind, runFrom_get, runFrom_read,
        SymbolTable.symbolFor?, hd, Option.bind_some]
    rw [hrun]
    exact symbolOf hs _ _

theorem own (hs : s.Faithful σ) {holder : Holder} {part : TreePart} {m : Lower Unit}
    (h : Owns σ s holder part m) : s.Upholds σ stubs (m.runFrom σ s).2 := by
  rcases h with ⟨e, h⟩ | ⟨ho, h⟩
  · rw [h]
    exact refl hs
  · rw [h]
    exact of_table_eq hs (Desk.le_sameNodes rfl rfl (Store.decls_own ..) (Store.exprs_own ..)
      (Store.targetsLe_own ho _)) rfl rfl (Store.decls_own ..)

theorem declare (hs : s.Faithful σ) {id : SymbolId} {origin : Origin} {calls : List ExprId}
    {kind : DeclKind} (ho : origin = .stub → stubs = true) :
    s.Upholds σ stubs ((Lower.declare id origin calls kind).runFrom σ s).2 := by
  cases hx : s.table.get? id with
  | none =>
    have hrun : ((Lower.declare id origin calls kind).runFrom σ s).2 =
        { s with store := (s.store.addDecl ⟨id, origin, calls, kind⟩).2 } := by
      simp only [SymbolTable.get?] at hx
      simp [Lower.declare, Lower.addDecl, bindSymbol, bound, present, runFrom_bind,
        SymbolTable.bind?, Store.changeAt, hx]
    rw [hrun]
    exact addDecl hs ho (.refl _) hs.table s.stats fun hx _ => .inl hx
  | some x =>
    rw [runFrom_declare hx]
    cases howner : x.owner with
    | some existing => exact addDecl hs ho (.refl _) hs.table s.stats fun hx _ => .inl hx
    | none =>
      refine addDecl hs ho (SymbolTable.le_own hx howner _) (hs.table.own hx _) _ fun hy hyo => ?_
      rw [SymbolTable.get?_own hx] at hy
      split at hy
      next he =>
        cases hy
        cases hyo
        exact .inr ⟨rfl, he.symm⟩
      next => exact .inl hy

theorem annotate (hs : s.Faithful σ) (id : ExprId) (calls : List ExprId) :
    s.Upholds σ stubs ((Lower.annotateExpr id calls).runFrom σ s).2 := by
  cases hx : s.store.expr? id with
  | none =>
    have hrun : ((Lower.annotateExpr id calls).runFrom σ s).2 = s := by
      simp [Lower.annotateExpr, Lower.expr, present, runFrom_bind, hx]
    rw [hrun]
    exact refl hs
  | some x =>
    rw [runFrom_annotateExpr hx]
    exact of_table_eq hs (Desk.le_annotate s id calls) rfl rfl rfl

end Upholds

end State

theorem Builds.coherent {α : Type} {m : Lower α} (h : Builds σ stubs ids m) {s : State}
    (hs : s.Coherent σ) : (m.runFrom σ s).2.Coherent σ := by
  rcases hr : m.runFrom σ s with ⟨e | a, s'⟩
  · exact (h.clears s hs).error hr
  · exact ((h.clears s hs).ok hr).1

/-- Work leads from states that are right to states that are. -/
theorem Builds.upholds {α : Type} {m : Lower α} (h : Builds σ stubs ids m) :
    ∀ {s : State}, s.Coherent σ → s.Faithful σ →
      s.Upholds σ stubs (m.runFrom σ s).2 := by
  have hbind {α β : Type} {ids : List SymbolId} {m : Lower α} {k : α → Lower β}
      (hm : Builds σ stubs ids m)
      (ih : ∀ {s : State}, s.Coherent σ → s.Faithful σ → s.Upholds σ stubs (m.runFrom σ s).2)
      (ihk : ∀ a {s : State}, s.Coherent σ → s.Faithful σ →
        s.Upholds σ stubs ((k a).runFrom σ s).2)
      {s : State} (hs : s.Coherent σ) (hf : s.Faithful σ) :
      s.Upholds σ stubs ((m >>= k).runFrom σ s).2 := by
    have hfirst := ih hs hf
    rw [runFrom_bind]
    rcases hr : m.runFrom σ s with ⟨e | a, s'⟩
    · rw [hr] at hfirst
      exact hfirst
    · rw [hr] at hfirst
      exact hfirst.trans (ihk a ((hm.clears s hs).ok hr).1 hfirst.faithful)
  induction h with
  | pure | throw | get => exact fun _ hf => .refl hf
  | seq hm _ ih ihk => exact hbind hm ih ihk
  | pay hm _ ih ihk => exact hbind hm ih ihk
  | forget _ ih => exact ih
  | read hv _ ih =>
    intro s hs hf
    rw [runFrom_bind_ok _ _ (runFrom_read _ _)]
    exact ih hs hf
  | @fresh _ kind name ids k _ ih =>
    intro s hs hf
    rw [runFrom_bind]
    have hnew : s.Upholds σ stubs
        { s with table := (s.table.fresh kind (.unqualified name)).2 } :=
      .of_le hf (Desk.le_sameStore (SymbolTable.le_fresh _ _ _) rfl rfl) (hf.table.fresh _ _) rfl
        rfl SymbolTable.get?_of_fresh
    exact hnew.trans (ih _ (hs.fresh _ _) hnew.faithful)
  | symbolOf => exact fun _ hf => .symbolOf hf _ _
  | symbolFor => exact fun _ hf => .symbolFor hf _
  | newFunctionTarget =>
    exact fun _ hf => .of_table_eq hf (Desk.le_sameNodes rfl rfl rfl rfl
      (Entries.le_beginFunction ⟨_, #[], #[], []⟩ _ _).targets) rfl rfl rfl
  | newLoopTarget =>
    exact fun _ hf => .of_table_eq hf (Desk.le_sameNodes rfl rfl rfl rfl
      (Entries.le_beginLoop ⟨_, #[], #[], []⟩ _).targets) rfl rfl rfl
  | newWhenRef =>
    exact fun _ hf => .of_table_eq hf (Desk.le_sameNodes rfl rfl rfl rfl
      (Entries.le_beginChoice ⟨_, #[], #[], []⟩).targets) rfl rfl rfl
  | addExpr => exact fun _ hf => .of_table_eq hf (hf.addExpr _).1 rfl rfl rfl
  | annotateExpr => exact fun _ hf => .annotate hf _ _
  | bindFunctionTarget => exact fun _ hf => .own hf (owns_bindFunctionTarget _ _)
  | bindLoopTarget => exact fun _ hf => .own hf (owns_bindLoopTarget _ _)
  | bindWhenRef => exact fun _ hf => .own hf (owns_bindWhenRef _ _)
  | declare ho => exact fun _ hf => .declare hf ho
  | convert => exact fun hs hf => .of_mirrors hs (Mirrors.convert _ _ hf) (Seeks.convert _)
  | constant =>
    exact fun hs hf => .of_mirrors hs (Mirrors.constant hf _ _)
      ((Seeks.constantWith Seeks.convert _ _).bind fun _ => Seeks.addContent)
  | annotationCall =>
    exact fun hs hf => .of_mirrors hs (Mirrors.annotationCall hf _)
      ((Seeks.annotationWith Seeks.convert _).bind fun _ => Seeks.addContent)
  | countPass =>
    exact fun _ hf => .of_table_eq hf (Desk.le_sameStore (.refl _) rfl rfl) rfl rfl rfl


namespace State

variable {σ : Setting} {s : State}

theorem faithful_start (σ : Setting) : State.Faithful σ {} where
  table := (Coherent.empty σ).table
  types h := by cases h
  owner h := by cases h

theorem Reaches.coherent (h : s.Reaches σ s') (hs : s.Coherent σ) : s'.Coherent σ := by
  induction h with
  | refl => exact hs
  | after _ hm ih => exact hm.coherent ih

theorem Reaches.upholds (h : s.Reaches σ s') (hs : s.Coherent σ) (hf : s.Faithful σ) :
    s.Upholds σ true s' := by
  induction h with
  | refl => exact .refl hf
  | after h hm ih => exact ih.trans (hm.upholds (h.coherent hs) ih.faithful)

theorem Reachable.start (σ : Setting) : State.Reachable σ {} := Reaches.refl

theorem Reachable.coherent (h : s.Reachable σ) : s.Coherent σ := Reaches.coherent h (.empty σ)

theorem Reachable.faithful (h : s.Reachable σ) : s.Faithful σ :=
  (Reaches.upholds h (.empty σ) (faithful_start σ)).faithful

end State

namespace Session

variable {s : Session}

theorem reachable_lowerEach (files : List SourceFile) (hs : s.state.Reachable s.setting) :
    (s.lowerEach files).2.state.Reachable s.setting := by
  induction files generalizing s with
  | nil => exact hs
  | cons file rest ih =>
    have hnext := hs.after (Tidy.lowerFile file).lenient
    rcases hr : (lowerFile file).runFrom s.setting s.state with ⟨e | lowered, t⟩
    · rw [hr] at hnext
      simp only [lowerEach, run_eq hr]
      exact hnext
    · rw [hr] at hnext
      simp only [lowerEach, run_eq hr]
      exact ih (s := { s with state := t, files := s.files ++ [lowered] }) hnext

theorem reachable_act (hs : s.state.Reachable s.setting) (a : Action) :
    (s.act a).2.state.Reachable s.setting := by
  cases a with
  | lowerFiles => exact reachable_lowerEach _ hs
  | generateStubs =>
    have hnext := hs.after .generateStubs
    rcases hr : Lower.generateStubs.runFrom s.setting s.state with ⟨e | roots, t⟩
    all_goals
      rw [hr] at hnext
      simp only [act, generateStubs, run_eq hr]
      exact hnext
  | declarationFor desc => exact hs.after (.declarationFor desc)

/-- Whatever is asked of a session, its state is one that lowering can come to. -/
theorem reachable_perform (world : World) (config : Config) (actions : List Action) :
    ((start world config).perform actions).2.state.Reachable ⟨world, config⟩ := by
  have hall (s : Session) (hs : s.state.Reachable s.setting) :
      (s.perform actions).2.state.Reachable s.setting := by
    induction actions generalizing s with
    | nil => exact hs
    | cons a rest ih =>
      have hset := s.setting_act a
      exact hset ▸ ih (s.act a).2 (hset.symm ▸ reachable_act hs a)
  exact hall (start world config) (.start _)

end Session

end TypedTree
