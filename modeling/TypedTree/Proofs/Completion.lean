import TypedTree.Proofs.Repetition

namespace TypedTree

namespace Session

/-- The loop that makes stubs comes to an end, whatever circles there are in the supertypes, bounds
and overrides: each pass takes up some symbols that no pass before it has taken up, and a pass
without error leaves them with their declarations. So there are at most nine passes for each
descriptor, as many as the session counts, and any limit above their number makes no difference. -/
theorem stubPasses_terminate (world : World) (config : Config) (actions : List Action) :
    let s := ((start world config).perform actions).2.state
    ∃ rounds r s', Rounds ⟨world, config⟩ [] s rounds r s' ∧
      rounds.length ≤ 9 * world.descriptorCount ∧
      (∀ round ∈ rounds, round.pending ≠ []) ∧
      (rounds.Pairwise fun round later =>
        (round.pending.map (·.2)).Disjoint (later.pending.map (·.2))) ∧
      (∀ round ∈ rounds, round.isComplete → ∀ p ∈ round.pending, round.after.Bound p.2) ∧
      (∀ roots, r = .ok roots → ∀ round ∈ rounds, round.isComplete) ∧
      s'.stats.passes = s.stats.passes + rounds.length ∧
      (∀ fuel, rounds.length < fuel →
        (Lower.stubPasses fuel []).runFrom ⟨world, config⟩ s = (r, s')) ∧
      (Lower.generateStubs.runFrom ⟨world, config⟩ s).2 = s' ∧
      ((⟨world, config⟩ : Setting).Founded → r ≠ .error .endless) := by
  intro s
  have hs : s.Coherent ⟨world, config⟩ := coherent_perform world config actions
  obtain ⟨rounds, r, s', hlength, hrounds, hspec⟩ := Rounds.exists_of_coherent hs
  have hr : Rounds ⟨world, config⟩ [] s rounds r s' := hrounds config.verifyBound
  have hrun : ∀ fuel, rounds.length < fuel →
      (Lower.stubPasses fuel []).runFrom ⟨world, config⟩ s = (r, s') := fun _ =>
    hr.runFrom_stubPasses
  refine ⟨rounds, r, s', hr, hlength, fun round hmem => (hr.fresh round hmem).1,
    hr.pairwise_disjoint, hspec.bound, fun _ => hr.isComplete_of_ok, hspec.passes, hrun, ?_, ?_⟩
  · have hstubs := Lower.runFrom_generateStubs ⟨world, config⟩ s
    rw [hrun _ (Nat.lt_succ_of_le hlength)] at hstubs
    cases r with
    | error e => exact congrArg (·.2) hstubs
    | ok roots =>
      dsimp only at hstubs
      split at hstubs
      next => exact congrArg (·.2) hstubs
      next =>
        obtain ⟨e, he⟩ := hstubs
        exact congrArg (·.2) he
  · rintro hfounded rfl
    exact hspec.stops _ rfl hfounded

variable {s : Session}

/-- The search of the finished tree finds nothing that stubs have left over. -/
theorem finish_eq (hs : s.state.Coherent s.setting) :
    s.finish.1 = s.generateStubs.1.map fun _ => s.generateStubs.2.fragment := by
  rcases hr : s.generateStubs with ⟨e | _, s'⟩
  · simp only [finish, hr]
    rfl
  · rw [finish_eq_of_generateStubs hs hr]
    rfl

theorem mild_of_generateStubs
    (h : ((start world config).perform actions).2.generateStubs.1 = .error e) : e.Mild world := by
  obtain ⟨L, _, hrec, _⟩ := (recorded_start ⟨world, config⟩).perform actions
  have hrun := hrec.generateStubs
  rcases hr : ((start world config).perform actions).2.generateStubs with ⟨e' | _, s'⟩
  · rw [hr] at h hrun
    cases h
    obtain ⟨_, _, _, he⟩ := hrun
    exact he
  · rw [hr] at h
    cases h

/-- If no lowering of files has failed, stubs can only fail for what the unit itself is like: a type
in error, a classifier or an annotation class that is none, a reference to something that is not
there, or a circle of types or parameters, on which nothing would ever come to an end. Whatever
stubs leave has all its declarations, so that the search of the finished tree finds nothing, and it
makes no difference whether it is made. -/
theorem failures_of_isWhole (world : World) (config : Config) (actions : List Action)
    (h : (start world config).IsWhole actions) :
    let s := ((start world config).perform actions).2
    (∀ e, s.generateStubs.1 = .error e ∨ s.finish.1 = .error e →
      (∃ message, e = .errorType message) ∨ (∃ name kind, e = .unexpectedClassifier name kind) ∨
      (∃ name, e = .noAnnotationConstructor name) ∨ (e = .dangling ∧ ¬ world.InRange) ∨
      (e = .endless ∧ ¬ (⟨world, config⟩ : Setting).Founded)) ∧
    (s.generateStubs.1 = .ok () → s.generateStubs.2.unboundNames = [] ∧
      s.finish.1 = .ok s.generateStubs.2.fragment) ∧
    ∀ v, ((start world { config with verifyBound := v }).perform actions).2.finish.1 =
      s.finish.1 := by
  intro s
  obtain ⟨hcoherent, hverify, howes⟩ := perform_keeps (s := start world config) (.empty _) actions
  have hset : s.setting = ⟨world, config⟩ := (start world config).setting_perform actions
  have hs : s.state.Coherent s.setting := hset ▸ hcoherent
  refine ⟨fun e he => ?_, fun hok => ?_, fun v => ?_⟩
  · have hstubs : s.generateStubs.1 = .error e := by
      rcases he with he | he
      · exact he
      rw [finish_eq hs] at he
      cases hr : s.generateStubs.1 with
      | error e' => simpa [hr, Except.map] using he
      | ok _ => simp [hr, Except.map] at he
    have hnone : ∀ id, ¬ s.state.Owes id := fun id hid => by
      obtain ⟨_, x, hx, _⟩ := howes h id hid
      cases hx
    have hstops := ((afterStubs hs).stops hstubs).resolve_right fun ⟨id, hid⟩ => hnone id hid
    have hmild := mild_of_generateStubs hstubs
    rw [hset] at hstops
    cases e with
    | errorType message => exact .inl ⟨message, rfl⟩
    | unexpectedClassifier name kind => exact .inr (.inl ⟨name, kind, rfl⟩)
    | noAnnotationConstructor name => exact .inr (.inr (.inl ⟨name, rfl⟩))
    | dangling => exact .inr (.inr (.inr (.inl ⟨rfl, fun hw => hmild.inRange hw rfl⟩)))
    | endless => exact .inr (.inr (.inr (.inr ⟨rfl, hstops⟩)))
    | _ => exact hstops.elim
  · rcases hr : s.generateStubs with ⟨e | _, s'⟩
    · simp [hr] at hok
    · exact ⟨unboundNames_eq_nil (settled_of_generateStubs hs hr).bound,
        congrArg (·.1) (finish_eq_of_generateStubs hs hr)⟩
  · have hv : ((start world { config with verifyBound := v }).perform actions).2 =
        s.withVerify v := congrArg (·.2) (hverify v)
    have hcoherent' := coherent_perform world { config with verifyBound := v } actions
    rw [hv] at hcoherent' ⊢
    have hset' : (s.withVerify v).setting = ⟨world, { config with verifyBound := v }⟩ :=
      congrArg (Setting.withVerify · v) hset
    rw [finish_eq hs, finish_eq (hset' ▸ hcoherent'), (afterStubs hs).verify v]
    rfl

theorem failures_of_isWhole_sampleWorld :
    let s := ((start sampleWorld {}).perform [.declarationFor ⟨99⟩, .lowerFiles]).2
    (start sampleWorld {}).IsWhole [.declarationFor ⟨99⟩, .lowerFiles] ∧
      (start sampleWorld {}).act (.declarationFor ⟨99⟩) = (.error .dangling, start sampleWorld {}) ∧
      s.generateStubs.2.unboundNames = [] ∧ s.finish.1 = .ok s.generateStubs.2.fragment := by
  intro s
  have hwhole : (start sampleWorld {}).IsWhole [.declarationFor ⟨99⟩, .lowerFiles] := by
    decide +kernel
  have hok : s.generateStubs.1 = .ok () := by decide +kernel
  exact ⟨hwhole, rfl, (failures_of_isWhole sampleWorld {} _ hwhole).2.1 hok⟩

end Session

end TypedTree
