import TypedTree.Proofs.Helper.Session
import TypedTree.Proofs.Sample

namespace TypedTree

open Lower

namespace Session

/-- Every symbol has its declaration. -/
structure Settled (s : Session) : Prop where
  coherent : s.state.Coherent s.setting
  bound : s.state.table.allUnbound = []

/-- The symbol that fits the descriptor is there. -/
def Knows (s : Session) (desc : DescId) : Prop :=
  ∃ d, s.setting.world.descriptor? desc = some d ∧ s.state.Has (d.symbolKind, desc)

instance (s : Session) (desc : DescId) : Decidable (s.Knows desc) :=
  match h : s.setting.world.descriptor? desc with
  | none => isFalse fun ⟨_, hd, _⟩ => by cases h.symm.trans hd
  | some d => decidable_of_iff (s.state.Has (d.symbolKind, desc)) (by simp [Knows, h])

variable {s s' : Session}

theorem settled_of_generateStubs (hs : s.state.Coherent s.setting)
    (h : s.generateStubs = (.ok (), s')) : s'.Settled := by
  have hstubs := afterStubs hs
  have hset := s.setting_generateStubs
  have hcoherent := hstubs.stubbed.coherent
  have hbound := hstubs.bound
  rw [h] at hset hcoherent hbound
  exact ⟨hset ▸ hcoherent, hbound rfl⟩

namespace Settled

theorem generateStubs (h : s.Settled) : s.generateStubs = (.ok (), s) := by
  have hnone : s.state.table.unboundSymbols = [] := by
    rw [SymbolTable.unboundSymbols, h.bound]
    rfl
  have hpasses : (stubPasses (9 * s.setting.world.descriptorCount + 1) []).runFrom s.setting
      s.state = (.ok [], s.state) :=
    (Rounds.done (by rw [State.pending, hnone]; rfl)).runFrom_stubPasses (Nat.succ_pos _)
  have hrun := runFrom_generateStubs s.setting s.state
  rw [hpasses] at hrun
  dsimp only at hrun
  rw [if_pos h.bound] at hrun
  simp only [Session.generateStubs, run_eq hrun, List.append_nil]

theorem declarationFor (h : s.Settled) {desc : DescId} (hk : s.Knows desc) :
    ∃ d decl, s.setting.world.descriptor? desc = some d ∧
      s.state.declared? (d.symbolKind, desc) = some decl ∧
      s.declarationFor desc = (.ok decl, s) := by
  obtain ⟨d, hd, hhas⟩ := hk
  obtain ⟨decl, hdeclared⟩ := h.coherent.exists_declared h.bound hhas
  obtain ⟨id, x, hc, hx, ho⟩ := State.declared?_eq_some.1 hdeclared
  refine ⟨d, decl, hd, hdeclared, ?_⟩
  have hsymbol : (symbolFor desc).runFrom s.setting s.state = (.ok id, s.state) := by
    have hfor : s.state.table.symbolFor? s.setting.world desc = some (id, s.state.table) := by
      rw [SymbolTable.symbolFor?, hd, Option.bind_some, SymbolTable.getOrCreate?, hc]
    refine (runFrom_bind_ok _ _ (runFrom_get _ _) _).trans ?_
    refine (runFrom_bind_ok _ _ (runFrom_read _ _) _).trans ?_
    rw [hfor]
    rfl
  have hdecl : (declaration id desc).runFrom s.setting s.state = (.ok decl, s.state) := by
    refine (runFrom_bind_ok _ _ (runFrom_read _ _) _).trans ?_
    have hsymbol : (symbol id).runFrom s.setting s.state = (.ok x, s.state) := by
      refine (runFrom_bind_ok _ _ (runFrom_get _ _) _).trans ?_
      rw [hx]
      rfl
    refine (runFrom_bind_ok _ _ hsymbol _).trans ?_
    rw [ho]
    rfl
  exact run_eq ((runFrom_bind_ok _ _ hsymbol _).trans hdecl)

theorem finish (h : s.Settled) : s.finish = (.ok s.fragment, s) := by
  simp [Session.finish, h.generateStubs, unboundNames_eq_nil h.bound]

end Settled

/-- Requests that ask for nothing new, each at the point where it is made: for stubs again, or for
the declaration of a symbol that is there. -/
def Repeats (s : Session) : List Action → Prop
  | [] => True
  | .lowerFiles :: _ => False
  | .generateStubs :: rest => (s.act .generateStubs).2.Repeats rest
  | .declarationFor desc :: rest => s.Knows desc ∧ (s.act (.declarationFor desc)).2.Repeats rest

instance decidableRepeats (s : Session) : (actions : List Action) → Decidable (s.Repeats actions)
  | [] => isTrue trivial
  | .lowerFiles :: _ => isFalse id
  | .generateStubs :: rest => decidableRepeats (s.act .generateStubs).2 rest
  | .declarationFor desc :: rest =>
    have := decidableRepeats (s.act (.declarationFor desc)).2 rest
    inferInstanceAs (Decidable (s.Knows desc ∧ (s.act (.declarationFor desc)).2.Repeats rest))

theorem repeats_append :
    s.Repeats (before ++ after) ↔ s.Repeats before ∧ (s.perform before).2.Repeats after := by
  induction before generalizing s with
  | nil => simp [Repeats, perform]
  | cons a rest ih =>
    cases a with
    | lowerFiles => simp [Repeats]
    | generateStubs => exact ih
    | declarationFor desc => exact (and_congr_right fun _ => ih).trans and_assoc.symm

/-- Once every symbol has its declaration, such requests change nothing. -/
theorem Settled.perform (h : s.Settled) {actions : List Action} (hr : s.Repeats actions) :
    s.perform actions = (actions.map fun _ => .ok (), s) := by
  induction actions with
  | nil => rfl
  | cons a rest ih =>
    have hact : s.act a = (.ok (), s) ∧ s.Repeats rest := by
      cases a with
      | lowerFiles => exact hr.elim
      | generateStubs =>
        have hsame : s.act .generateStubs = (.ok (), s) := h.generateStubs
        exact ⟨hsame, by simpa [Repeats, hsame] using hr⟩
      | declarationFor desc =>
        obtain ⟨_, decl, _, _, hdecl⟩ := h.declarationFor hr.1
        have hsame : s.act (.declarationFor desc) = (.ok (), s) := by
          simp only [act, hdecl]
          rfl
        exact ⟨hsame, by simpa [hsame] using hr.2⟩
    simp only [Session.perform, hact.1, ih hact.2, List.map_cons]

theorem finish_eq_of_generateStubs (hs : s.state.Coherent s.setting)
    (h : s.generateStubs = (.ok (), s')) : s.finish = (.ok s'.fragment, s') := by
  simp [finish, h, unboundNames_eq_nil (settled_of_generateStubs hs h).bound]

theorem exists_of_finish (hs : s.state.Coherent s.setting) (h : s.finish.1 = .ok f) :
    ∃ s', s.generateStubs = (.ok (), s') ∧ f = s'.fragment := by
  rcases hr : s.generateStubs with ⟨e | _, s'⟩
  · simp [finish, hr] at h
  · rw [finish_eq_of_generateStubs hs hr] at h
    exact ⟨s', rfl, (Except.ok.inj h).symm⟩

theorem perform_generateStubs (hs : s.state.Coherent s.setting)
    (h : s.generateStubs = (.ok (), s')) {actions : List Action}
    (hr : s.Repeats (.generateStubs :: actions)) :
    s'.Settled ∧ s'.Repeats actions ∧
      s.perform (.generateStubs :: actions) = (.ok () :: actions.map fun _ => .ok (), s') := by
  have hsettled := settled_of_generateStubs hs h
  have hr' : s'.Repeats actions := by simpa only [Repeats, act, h] using hr
  refine ⟨hsettled, hr', ?_⟩
  simp only [perform, act, h, hsettled.perform hr']

/-- A unit that can be lowered at once can be lowered in steps. Stubs may be made any number of
times before the end and, once they have been made, the declarations of all symbols may be asked
for: the typed tree, and the session with its counts, are those of lowering the unit at once, each
request for stubs but the first changes nothing, and each declaration asked for is the owner that
the symbol has. -/
theorem lowerModule_repeated {world : World} {config : Config} {f : Fragment}
    (hok : lowerModule world config = .ok f) {actions : List Action}
    (hrepeats : (start world config).lowerFiles.2.Repeats actions)
    (hfirst : ∀ desc, actions.head? ≠ some (.declarationFor desc)) :
    (∀ r ∈ ((start world config).perform (.lowerFiles :: actions)).1, r = .ok ()) ∧
      ((start world config).perform (.lowerFiles :: actions)).2.finish =
        (.ok f, (start world config).lowerFiles.2.finish.2) ∧
      ∀ before a after, actions = before ++ a :: after → before ≠ [] →
        let s := ((start world config).perform (.lowerFiles :: before)).2
        (a = .generateStubs → s.generateStubs = (.ok (), s)) ∧
        ∀ desc, a = .declarationFor desc → ∃ d decl, world.descriptor? desc = some d ∧
          s.state.declared? (d.symbolKind, desc) = some decl ∧
          s.declarationFor desc = (.ok decl, s) := by
  have hcoherent := coherent_perform world config [.lowerFiles]
  rcases hlower : (start world config).lowerFiles with ⟨e | _, s⟩
  · simp [lowerModule, hlower] at hok
  have hset : s.setting = ⟨world, config⟩ := by
    have h := (start world config).setting_act .lowerFiles
    simp only [act, hlower] at h
    exact h
  simp only [perform, act, hlower] at hcoherent hrepeats ⊢
  rw [← hset] at hcoherent
  simp only [lowerModule, hlower] at hok
  obtain ⟨t, hstubs, rfl⟩ := exists_of_finish hcoherent hok
  have hfinish := finish_eq_of_generateStubs hcoherent hstubs
  have hworld : t.setting.world = world := by
    have ht := s.setting_generateStubs
    rw [hstubs, hset] at ht
    exact congrArg (·.world) ht
  rcases actions with _ | ⟨_ | _ | desc, actions⟩
  · exact ⟨by simp [perform], by simp [perform, hfinish], fun before a after h => by simp at h⟩
  · exact hrepeats.elim
  · obtain ⟨hsettled, _, hperform⟩ := perform_generateStubs hcoherent hstubs hrepeats
    refine ⟨by simp [hperform], by rw [hperform, hsettled.finish, hfinish], ?_⟩
    rintro (_ | ⟨_, before⟩) a after h hbefore
    · exact (hbefore rfl).elim
    obtain ⟨rfl, rfl⟩ := List.cons.inj h
    -- Whatever came before, the session is as the first request for stubs left it.
    obtain ⟨hr, hr'⟩ := repeats_append.1
      (show s.Repeats ((.generateStubs :: before) ++ a :: after) from hrepeats)
    obtain ⟨_, _, hperform⟩ := perform_generateStubs hcoherent hstubs hr
    rw [hperform] at hr' ⊢
    refine ⟨fun _ => hsettled.generateStubs, ?_⟩
    rintro desc rfl
    rw [← hworld]
    exact hsettled.declarationFor hr'.1
  · exact (hfirst desc rfl).elim

theorem lowerModule_repeated_sampleWorld : ∃ f, lowerModule sampleWorld {} = .ok f ∧
    ((start sampleWorld {}).perform [.lowerFiles, .generateStubs, .declarationFor ⟨13⟩,
      .generateStubs, .declarationFor Builtin.anyToString]).2.finish =
        (.ok f, (start sampleWorld {}).lowerFiles.2.finish.2) := by
  have hok : (lowerModule sampleWorld {}).toOption.isSome = true := by decide +kernel
  have hrepeats : (start sampleWorld {}).lowerFiles.2.Repeats [.generateStubs,
    .declarationFor ⟨13⟩, .generateStubs, .declarationFor Builtin.anyToString] := by decide +kernel
  cases hr : lowerModule sampleWorld {} with
  | error e => simp [hr, Except.toOption] at hok
  | ok f => exact ⟨f, rfl, (lowerModule_repeated hr hrepeats (by simp)).2.1⟩

end Session

end TypedTree
