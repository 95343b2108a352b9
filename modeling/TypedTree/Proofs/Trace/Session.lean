import TypedTree.Lowering.Session
import TypedTree.Proofs.Trace.Stub
import TypedTree.Proofs.Trace.Tree

namespace TypedTree

open Desk Token Carries

namespace Session

/-- What may be asked of a session before it is finished. -/
inductive Action where
  | lowerFiles
  | generateStubs
  | declarationFor (desc : DescId)
deriving DecidableEq, Repr

/-- Does what is asked, and says whether it failed. -/
def act (s : Session) : Action → Except LowerError Unit × Session
  | .lowerFiles => s.lowerFiles
  | .generateStubs => s.generateStubs
  | .declarationFor desc => ((s.declarationFor desc).1.map fun _ => (), (s.declarationFor desc).2)

/-- Does one thing after the other, also after one that failed. -/
def perform (s : Session) : List Action → List (Except LowerError Unit) × Session
  | [] => ([], s)
  | action :: rest => ((s.act action).1 :: ((s.act action).2.perform rest).1,
      ((s.act action).2.perform rest).2)

/-- Whether a step left no declaration without its symbol. -/
def isClean {α : Type} : Except LowerError α → Bool
  | .ok _ => true
  | .error e => e.isClean

variable {s : Session}

theorem setting_lowerEach (s : Session) (files : List SourceFile) :
    (s.lowerEach files).2.setting = s.setting := by
  induction files generalizing s with
  | nil => rfl
  | cons file rest ih =>
    unfold lowerEach
    split
    next s' h =>
      rw [ih]
      exact congrArg (·.2.setting) h.symm
    next e s' h => exact congrArg (·.2.setting) h.symm

theorem setting_generateStubs (s : Session) : s.generateStubs.2.setting = s.setting := by
  unfold generateStubs
  split
  next h => exact congrArg (·.2.setting) h.symm
  next h => exact congrArg (·.2.setting) h.symm

theorem files_generateStubs (s : Session) : s.generateStubs.2.files = s.files := by
  unfold generateStubs
  split
  next h => exact congrArg (·.2.files) h.symm
  next h => exact congrArg (·.2.files) h.symm

theorem setting_act (s : Session) (a : Action) : (s.act a).2.setting = s.setting := by
  cases a with
  | lowerFiles => exact s.setting_lowerEach _
  | generateStubs => exact s.setting_generateStubs
  | declarationFor _ => rfl

theorem run_steps {α : Type} {m : Lower α} {Q : State → α → Prop} {G : α → Multiset Token}
    (hm : Does s.setting s.state 0 m Q G) (hs : s.state.Sane s.setting) (h : Multiset Token) :
    match s.run m with
    | (.ok a, s') => Steps s.setting true ⟨h, s.state⟩ ⟨G a + h, s'.state⟩
    | (.error e, s') => ∃ h', Steps s.setting e.isClean ⟨h, s.state⟩ ⟨h', s'.state⟩ := by
  have hrun := hm hs h
  unfold run
  generalize m.runFrom s.setting s.state = r at hrun ⊢
  obtain ⟨e | a, s'⟩ := r
  · obtain ⟨h', hsteps⟩ := hrun
    exact ⟨h', zero_add h ▸ hsteps⟩
  · exact (zero_add h ▸ hrun.1 : Steps s.setting true ⟨h, s.state⟩ _)

/-- Lowering files puts the annotations of the files in hand. -/
theorem lowerEach_steps (files : List SourceFile) (hs : s.state.Sane s.setting)
    (h : Multiset Token) :
    match s.lowerEach files with
    | (.ok _, s') => ∃ new, s'.files = s.files ++ new ∧
        Steps s.setting true ⟨h, s.state⟩ ⟨tokens new + h, s'.state⟩
    | (.error e, s') => ∃ h', Steps s.setting e.isClean ⟨h, s.state⟩ ⟨h', s'.state⟩ := by
  induction files generalizing s h with
  | nil => exact ⟨[], by simp, by rw [tokens_nil, zero_add]⟩
  | cons file rest ih =>
    have hfile := run_steps (m := Lower.lowerFile file) Does.lowerFile hs h
    unfold lowerEach
    rcases hrun : s.run (Lower.lowerFile file) with ⟨e | lowered, s'⟩
    · rw [hrun] at hfile
      exact hfile
    · rw [hrun] at hfile
      change Steps s.setting true ⟨h, s.state⟩ ⟨tokens lowered + h, s'.state⟩ at hfile
      obtain ⟨next, hnext⟩ : ∃ next : Session, next = { s' with files := s'.files ++ [lowered] } :=
        ⟨_, rfl⟩
      have hset : next.setting = s.setting := hnext ▸ congrArg (·.2.setting) hrun.symm
      have hfiles : next.files = s.files ++ [lowered] :=
        hnext ▸ congrArg (·.2.files ++ [lowered]) hrun.symm
      have hstate : next.state = s'.state := by rw [hnext]
      rw [← hstate] at hfile
      have hrest := ih (s := next) (hset ▸ hfile.sane hs) (tokens lowered + h)
      dsimp only
      rw [hset, hfiles] at hrest
      rw [← hnext]
      generalize next.lowerEach rest = r at hrest ⊢
      obtain ⟨e | _, s''⟩ := r
      · obtain ⟨h', hsteps⟩ := hrest
        cases he : e.isClean with
        | true => exact ⟨h', he ▸ hfile.trans (he ▸ hsteps)⟩
        | false => exact ⟨h', he ▸ hfile.soil.trans (he ▸ hsteps)⟩
      · obtain ⟨new, hnew, hsteps⟩ := hrest
        refine ⟨lowered :: new, by simp [hnew], ?_⟩
        have hhand : tokens new + (tokens lowered + h) = tokens (lowered :: new) + h := by
          rw [tokens_cons]
          abel
        exact hhand ▸ hfile.trans hsteps

theorem generateStubs_steps (hs : s.state.Sane s.setting) (h : Multiset Token) :
    match s.generateStubs with
    | (.ok _, s') => Steps s.setting true ⟨h, s.state⟩ ⟨h, s'.state⟩
    | (.error e, s') => ∃ h', Steps s.setting e.isClean ⟨h, s.state⟩ ⟨h', s'.state⟩ := by
  have hrun := run_steps Does.generateStubs hs h
  unfold generateStubs
  generalize s.run Lower.generateStubs = r at hrun ⊢
  obtain ⟨e | roots, s'⟩ := r
  · exact hrun
  · simpa using hrun

theorem act_steps (hs : s.state.Sane s.setting) (a : Action) (h : Multiset Token) :
    ∃ h', Steps s.setting (isClean (s.act a).1) ⟨h, s.state⟩ ⟨h', (s.act a).2.state⟩ := by
  cases a with
  | lowerFiles =>
    have hsteps := lowerEach_steps s.setting.world.tree.files hs h
    simp only [act, lowerFiles]
    generalize s.lowerEach _ = r at hsteps ⊢
    obtain ⟨e | _, s'⟩ := r
    · exact hsteps
    · obtain ⟨new, _, hsteps⟩ := hsteps
      exact ⟨_, hsteps⟩
  | generateStubs =>
    have hsteps := generateStubs_steps hs h
    simp only [act]
    generalize s.generateStubs = r at hsteps ⊢
    obtain ⟨e | _, s'⟩ := r
    · exact hsteps
    · exact ⟨_, hsteps⟩
  | declarationFor desc =>
    have hsteps := run_steps (m := do Lower.declaration (← Lower.symbolFor desc) desc)
      Does.declarationFor
      hs h
    simp only [act, declarationFor]
    generalize s.run _ = r at hsteps ⊢
    obtain ⟨e | _, s'⟩ := r
    · exact hsteps
    · exact ⟨_, hsteps⟩

/-- What a session does is made of single changes. -/
theorem perform_steps (hs : s.state.Sane s.setting) (actions : List Action) (h : Multiset Token) :
    (s.perform actions).2.setting = s.setting ∧ ∃ h',
      Steps s.setting ((s.perform actions).1.all isClean) ⟨h, s.state⟩
        ⟨h', (s.perform actions).2.state⟩ := by
  induction actions generalizing s h with
  | nil => exact ⟨rfl, h, .refl⟩
  | cons a rest ih =>
    obtain ⟨h1, hsteps⟩ := act_steps hs a h
    have hset := s.setting_act a
    obtain ⟨hset', h2, hrest⟩ := ih (s := (s.act a).2) (by rw [hset]; exact hsteps.sane hs) h1
    rw [hset] at hrest hset'
    refine ⟨hset', h2, ?_⟩
    simp only [perform, List.all_cons]
    cases hclean : isClean (s.act a).1 with
    | false => exact hsteps.soil.trans hrest.soil
    | true =>
      rw [hclean] at hsteps
      cases hall : ((s.act a).2.perform rest).1.all isClean with
      | false => exact hsteps.soil.trans hrest.soil
      | true => exact hsteps.trans (hall ▸ hrest)

theorem sane_start (σ : Setting) : ({} : State).Sane σ where
  table := ⟨by simp [SymbolTable.cached?], by simp [SymbolTable.descriptorOf?],
    by simp, by simp, by simp⟩
  kinds := by simp [SymbolTable.cached?]
  grounds := by simp
  types := by simp
  exprs := by simp [Store.expr?]
  decls := by simp [Store.decl?]

/-- The state after any actions, and the way there. -/
theorem steps_of_perform (world : World) (config : Config) (actions : List Action) :
    ∃ h, Steps ⟨world, config⟩ (((start world config).perform actions).1.all isClean) ⟨0, {}⟩
      ⟨h, ((start world config).perform actions).2.state⟩ :=
  (perform_steps (s := start world config) (sane_start _) actions 0).2

end Session

end TypedTree
