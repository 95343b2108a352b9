import TypedTree.Proofs.Helper.Forms

namespace TypedTree

open Lower

namespace State

variable {σ : Setting} {s : State}

/-- What is declared for a descriptor is a stub, if it is new. -/
theorem Coherent.ends_declarationFor (hs : s.Coherent σ) (desc : DescId) :
    (do declaration (← symbolFor desc) desc : Lower DeclId).Ends σ s
      (fun _ s' => s'.Coherent σ ∧ ∀ id, s'.Owes id → s.Owes id)
      fun _ s' => s'.Coherent σ ∧ ∀ id, s'.Owes id → s.Owes id := by
  cases hd : σ.world.descriptor? desc with
  | none =>
    simp only [symbolFor, bind_assoc]
    refine .get_bind (.read_bind (fun _ => rfl) ?_)
    rw [SymbolTable.symbolFor?, hd]
    exact .throw ⟨hs, fun _ h => h⟩
  | some d =>
    -- The symbol comes first, so the stubs are compared with the state that has it.
    refine .bind ((Seeks.ends_symbolFor hs hd).imp (fun _ _ h => h) fun _ _ h =>
      ⟨h.1, fun _ => h.2.1.owes⟩) ?_
    rintro id s1 ⟨hs1, hadds, hc⟩
    exact (Declares.declaration s1 (d.symbolKind, desc) id (.refl hs1) hc).imp
      (fun _ _ h => ⟨h.1.coherent, fun _ ho => hadds.owes (h.1.owes ho)⟩)
      fun _ _ h => ⟨h.1.coherent, fun _ ho => hadds.owes (h.1.owes ho)⟩

end State

namespace Session

/-- The session with the search of the finished tree turned on or off. -/
def withVerify (s : Session) (verify : Bool) : Session :=
  { s with setting := s.setting.withVerify verify }

/-- What a part of a session leaves, whether it succeeds or not. If the condition is met, all the
helpers that it made have their declarations. -/
structure Leaves (s : Session) (work : Session → Except LowerError Unit × Session)
    (condition : Prop) : Prop where
  coherent : (work s).2.state.Coherent s.setting
  verify : ∀ v, work (s.withVerify v) = ((work s).1, (work s).2.withVerify v)
  owes : condition → ∀ id, (work s).2.state.Owes id → s.state.Owes id

variable {s : Session} {α : Type} {m : Lower α} {r : Except LowerError α} {t : State}

theorem run_eq (h : m.runFrom s.setting s.state = (r, t)) :
    s.run m = (r, { s with state := t }) := by
  simp only [run, h]

theorem run_withVerify (hm : m.Ends s.setting s.state Q E)
    (h : m.runFrom s.setting s.state = (r, t)) (v : Bool) :
    (s.withVerify v).run m = (r, { s with state := t }.withVerify v) :=
  run_eq ((hm.verify v).trans h)

theorem leaves_lowerEach (files : List SourceFile) (hs : s.state.Coherent s.setting) :
    s.Leaves (·.lowerEach files) ((s.lowerEach files).1 = .ok ()) := by
  induction files generalizing s with
  | nil => exact ⟨hs, fun _ => rfl, fun _ _ h => h⟩
  | cons file rest ih =>
    have hfile := (Tidy.lowerFile file).clears s.state hs
    rcases hr : (lowerFile file).runFrom s.setting s.state with ⟨e | lowered, t⟩
    · have hrun : s.lowerEach (file :: rest) = (.error e, { s with state := t }) := by
        simp only [lowerEach, run_eq hr]
      refine ⟨?_, fun v => ?_, fun hok => ?_⟩
      · rw [hrun]
        exact hfile.error hr
      · simp only [lowerEach, run_withVerify hfile hr v, run_eq hr]
      · rw [hrun] at hok
        cases hok
    · obtain ⟨ht, howes⟩ := hfile.ok hr
      have hrest := ih (s := { s with state := t, files := s.files ++ [lowered] }) ht
      have hrun : s.lowerEach (file :: rest) =
          lowerEach { s with state := t, files := s.files ++ [lowered] } rest := by
        simp only [lowerEach, run_eq hr]
      refine ⟨?_, fun v => ?_, fun hok id hid => ?_⟩
      · rw [hrun]
        exact hrest.coherent
      · rw [hrun, ← hrest.verify v]
        simp only [lowerEach, run_withVerify hfile hr v]
        rfl
      · rw [hrun] at hok hid
        exact (howes id (hrest.owes hok id hid)).1

/-- What a request for stubs comes to. -/
structure AfterStubs (s : Session) : Prop where
  stubbed : s.state.Stubbed s.setting s.generateStubs.2.state
  verify : ∀ v, (s.withVerify v).generateStubs =
    (s.generateStubs.1, s.generateStubs.2.withVerify v)
  bound : s.generateStubs.1 = .ok () → s.generateStubs.2.state.table.allUnbound = []
  stops : ∀ {e}, s.generateStubs.1 = .error e →
    e.Stops (¬ s.setting.Founded) ∨ ∃ id, s.state.Owes id

theorem afterStubs (hs : s.state.Coherent s.setting) : s.AfterStubs := by
  have hstubs := ends_generateStubs hs
  rcases hr : Lower.generateStubs.runFrom s.setting s.state with ⟨e | roots, t⟩
  · have hrun : s.generateStubs = (.error e, { s with state := t }) := by
      simp only [generateStubs, run_eq hr]
    obtain ⟨ht, he⟩ := hstubs.error hr
    refine ⟨by rw [hrun]; exact ht, fun v => ?_, fun hok => ?_, fun herr => ?_⟩
    · simp only [generateStubs, run_withVerify hstubs hr v, run_eq hr]
    · rw [hrun] at hok
      cases hok
    · rw [hrun] at herr
      cases herr
      exact he
  · have hrun : s.generateStubs =
        (.ok (), { s with state := t, external := s.external ++ roots }) := by
      simp only [generateStubs, run_eq hr]
    obtain ⟨ht, hbound⟩ := hstubs.ok hr
    refine ⟨by rw [hrun]; exact ht, fun v => ?_, fun _ => by rw [hrun]; exact hbound,
      fun herr => ?_⟩
    · simp only [generateStubs, run_withVerify hstubs hr v, run_eq hr]
      rfl
    · rw [hrun] at herr
      cases herr

theorem leaves_act (hs : s.state.Coherent s.setting) (a : Action) :
    s.Leaves (·.act a) (a = .lowerFiles → (s.act a).1 = .ok ()) := by
  cases a with
  | lowerFiles =>
    obtain ⟨hcoherent, hverify, howes⟩ := leaves_lowerEach s.setting.world.tree.files hs
    exact ⟨hcoherent, hverify, fun hok => howes (hok rfl)⟩
  | generateStubs =>
    have hstubs := afterStubs hs
    exact ⟨hstubs.stubbed.coherent, hstubs.verify, fun _ _ => hstubs.stubbed.owes⟩
  | declarationFor desc =>
    have hdecl := hs.ends_declarationFor desc
    rcases hr : (do declaration (← symbolFor desc) desc : Lower DeclId).runFrom s.setting s.state
      with ⟨r, t⟩
    have ht : t.Coherent s.setting ∧ ∀ id, t.Owes id → s.state.Owes id := by
      cases r with
      | ok decl => exact hdecl.ok hr
      | error e => exact hdecl.error hr
    have hrun : s.act (.declarationFor desc) = (r.map fun _ => (), { s with state := t }) := by
      simp only [act, declarationFor, run_eq hr]
    refine ⟨?_, fun v => ?_, fun _ id hid => ?_⟩
    · rw [hrun]
      exact ht.1
    · rw [hrun]
      simp only [act, declarationFor, run_withVerify hdecl hr v]
    · rw [hrun] at hid
      exact ht.2 id hid

def IsWhole (s : Session) : List Action → Prop
  | [] => True
  | a :: rest => (a = .lowerFiles → (s.act a).1 = .ok ()) ∧ (s.act a).2.IsWhole rest

instance decidableIsWhole (s : Session) : (actions : List Action) → Decidable (s.IsWhole actions)
  | [] => isTrue trivial
  | a :: rest =>
    have := decidableIsWhole (s.act a).2 rest
    inferInstanceAs (Decidable ((a = .lowerFiles → (s.act a).1 = .ok ()) ∧
      (s.act a).2.IsWhole rest))

theorem setting_perform (s : Session) (actions : List Action) :
    (s.perform actions).2.setting = s.setting := by
  induction actions generalizing s with
  | nil => rfl
  | cons a rest ih => exact (ih (s.act a).2).trans (s.setting_act a)

theorem perform_keeps (hs : s.state.Coherent s.setting) (actions : List Action) :
    (s.perform actions).2.state.Coherent s.setting ∧
      (∀ v, (s.withVerify v).perform actions =
        ((s.perform actions).1, (s.perform actions).2.withVerify v)) ∧
      (s.IsWhole actions → ∀ id, (s.perform actions).2.state.Owes id → s.state.Owes id) := by
  induction actions generalizing s with
  | nil => exact ⟨hs, fun _ => rfl, fun _ _ h => h⟩
  | cons a rest ih =>
    have hact := leaves_act hs a
    have hset := s.setting_act a
    obtain ⟨hcoherent, hverify, howes⟩ := ih (s := (s.act a).2) (hset ▸ hact.coherent)
    refine ⟨hset ▸ hcoherent, fun v => ?_, fun ⟨hok, hwhole⟩ id hid =>
      hact.owes hok id (howes hwhole id hid)⟩
    have hv := hact.verify v
    simp only [perform] at hv ⊢
    rw [hv, hverify v]

theorem coherent_perform (world : World) (config : Config) (actions : List Action) :
    ((start world config).perform actions).2.state.Coherent ⟨world, config⟩ :=
  (perform_keeps (s := start world config) (.empty _) actions).1

end Session

end TypedTree
