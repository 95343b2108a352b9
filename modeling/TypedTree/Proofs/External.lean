import TypedTree.Proofs.Completion
import TypedTree.Proofs.Ownership
import TypedTree.Proofs.Reordering
import TypedTree.Proofs.Signature.Stub

namespace TypedTree

open Lower

theorem DescriptorKind.isParameter_of_mem_parameters {kind : DescriptorKind} {key : Key}
    (h : key ∈ kind.parameters) : key.1.isParameter := by
  have hmem {k : SymbolKind} (hk : k.isParameter) {ids : List DescId} (h : key ∈ ids.map (k, ·)) :
      key.1.isParameter := by
    obtain ⟨_, _, rfl⟩ := List.mem_map.1 h
    exact hk
  cases kind with
  | function info => exact (List.mem_append.1 h).elim (hmem rfl) (hmem rfl)
  | typeParameter _ | valueParameter _ => cases h
  | _ => exact hmem rfl h

theorem Lower.isRoot_iff : isRoot d ↔
    d.typeParameter? = none ∧ d.valueParameter? = none ∧ d.visibility ≠ .inBody := by
  unfold isRoot Descriptor.typeParameter? Descriptor.valueParameter?
  cases d.kind <;> simp

theorem Lower.isRoot_of_isParameter (h : d.symbolKind.isParameter) : isRoot d = false := by
  unfold Descriptor.symbolKind at h
  unfold isRoot
  cases hk : d.kind with
  | typeParameter _ | valueParameter _ => rfl
  | function info => cases ha : info.isAnonymous <;> simp [hk, ha, SymbolKind.isParameter] at h
  | _ => simp [hk, SymbolKind.isParameter] at h

/-- None of the descriptors that every unit has lists parameters. -/
theorem World.names_of_listed {w : World}
    (h : ∀ d ∈ w.declared.toList, ∀ key ∈ d.kind.parameters, w.Names key) :
    ∀ key, w.Listed key → w.Names key := by
  have hbuiltin : ∀ d ∈ Builtin.descriptors.toList, d.kind.parameters = [] := by decide
  rintro key ⟨desc, d, hd, hkey⟩
  unfold World.descriptor? at hd
  split at hd
  next =>
    rw [hbuiltin d (Array.mem_toList_iff.2 (Array.mem_of_getElem? hd))] at hkey
    cases hkey
  next => exact h d (Array.mem_toList_iff.2 (Array.mem_of_getElem? hd)) key hkey

namespace State

variable {σ : Setting} {s s' s'' : State} {id : DeclId} {roots roots' : List DeclId}

/-- The declaration is a stub for something that is no part of a callable or a body. -/
def IsRootStub (σ : Setting) (s : State) (id : DeclId) : Prop :=
  ∃ x key d, s.store.decl? id = some x ∧ x.origin = .stub ∧ s.keyOf? x.symbol = some key ∧
    σ.world.descriptor? key.2 = some d ∧ isRoot d

theorem IsRootStub.mono (h : s.IsRootStub σ id) (hle : s.Le s') : s'.IsRootStub σ id := by
  obtain ⟨x, key, d, hx, ho, hkey, hd, hroot⟩ := h
  exact ⟨x, key, d, hle.decl hx, ho, hle.keyOf? hkey, hd, hroot⟩

/-- Stubs have been added, and the roots among them are those of the list, from the oldest to the
newest. -/
structure AddsRoots (σ : Setting) (s s' : State) (roots : List DeclId) : Prop where
  signed : s.Signed σ (fun _ => True) s'
  sorted : roots.Pairwise (·.index < ·.index)
  mem_iff : ∀ {id}, id ∈ roots ↔ s.store.decl? id = none ∧ s'.IsRootStub σ id

namespace AddsRoots

theorem of_decls_eq (h : s.Apt σ) (h' : s'.Apt σ) (hle : s.Le s')
    (hdecls : s'.store.decls = s.store.decls) : s.AddsRoots σ s' [] where
  signed := Signed.lasting.quiet (.refl h.1 h.2) hle h'.1 h'.2 hdecls
  sorted := .nil
  mem_iff {id} := by
    refine iff_of_false List.not_mem_nil fun hid => ?_
    obtain ⟨hnone, x, _, _, hx, _⟩ := hid
    rw [Store.decl?, hdecls] at hx
    cases hnone.symm.trans hx

theorem append (h : s.AddsRoots σ s' roots) (h' : s'.AddsRoots σ s'' roots') :
    s.AddsRoots σ s'' (roots ++ roots') where
  signed := h.signed.trans h'.signed
  sorted := by
    refine List.pairwise_append.2 ⟨h.sorted, h'.sorted, fun a ha b hb => ?_⟩
    obtain ⟨_, x, _, _, hx, _⟩ := h.mem_iff.1 ha
    have hb := Array.getElem?_eq_none_iff.1 (h'.mem_iff.1 hb).1
    exact Nat.lt_of_lt_of_le (Array.getElem?_eq_some_iff.1 hx).1 hb
  mem_iff {id} := by
    rw [List.mem_append, h.mem_iff, h'.mem_iff]
    constructor
    · rintro (⟨hnone, hroot⟩ | ⟨hnone, hroot⟩)
      · exact ⟨hnone, hroot.mono h'.signed.le⟩
      · cases hx : s.store.decl? id with
        | none => exact ⟨rfl, hroot⟩
        | some x => cases hnone.symm.trans (h.signed.le.decl hx)
    · rintro ⟨hnone, x, key, d, hx, ho, hkey, hd, hroot⟩
      cases hx' : s'.store.decl? id with
      | none => exact .inr ⟨rfl, x, key, d, hx, ho, hkey, hd, hroot⟩
      | some y =>
        cases (h'.signed.le.decl hx').symm.trans hx
        obtain ⟨key', _, hstands⟩ := h.signed.new hx' hnone
        cases (h'.signed.le.keyOf? hstands.named).symm.trans hkey
        exact .inl ⟨hnone, x, key, d, hx', ho, hstands.named, hd, hroot⟩

end AddsRoots

/-- With a root, only parameters are added. -/
theorem Declared.addsRoots (hw : ∀ key, σ.world.Listed key → σ.world.Names key) {key : Key}
    {c : DeclId} (h : s.Declared σ s' key c) {d : Descriptor}
    (hd : σ.world.descriptor? key.2 = some d) :
    s.AddsRoots σ s' (if isRoot d then some c else none).toList where
  signed := {
    le := h.signed.le
    coherent := h.signed.coherent
    faithful := h.signed.faithful
    new := fun hx hnone =>
      let ⟨key, _, hstands⟩ := h.signed.new hx hnone
      ⟨key, trivial, hstands⟩ }
  sorted := by split <;> simp
  mem_iff {id} := by
    obtain ⟨x, hx, hstands⟩ := h.stands
    constructor
    · intro hid
      split at hid
      next hroot =>
        cases Option.mem_toList.1 hid
        exact ⟨h.new, x, key, d, hx, hstands.origin, hstands.named, hd, hroot⟩
      next => cases Option.mem_toList.1 hid
    · rintro ⟨hnone, y, key', d', hy, _, hkey', hd', hroot⟩
      obtain ⟨key'', hkey'' | hlisted, hstands'⟩ := h.signed.new hy hnone
      · subst hkey''
        cases hkey'.symm.trans hstands'.named
        cases hd.symm.trans hd'
        rw [if_pos hroot, h.unique hy hnone hkey']
        exact List.mem_singleton_self _
      · cases hkey'.symm.trans hstands'.named
        have hnames := hw key' hlisted d' hd'
        obtain ⟨_, _, _, hmem⟩ := hlisted
        rw [isRoot_of_isParameter (hnames ▸ DescriptorKind.isParameter_of_mem_parameters hmem)]
          at hroot
        cases hroot

end State

namespace Yields

variable {σ : Setting} {s : State}

theorem declared {id : SymbolId} (hid : s.keyOf? id = some (kind, desc))
    (hfree : s.declared? (kind, desc) = none) :
    Brings σ s (Lower.declaration id desc) fun s' c =>
      s.Declared σ s' (kind, desc) c := by
  intro hs
  have hwork : Builds σ true [] (Lower.declaration id desc) := .declaration id desc
  have hup := hwork.upholds hs.1 hs.2
  exact ⟨hup.le, ⟨hwork.coherent hs.1, hup.faithful⟩, fun c hc =>
    hs.declaration hid hfree (Prod.ext hc rfl)⟩

variable (hw : ∀ key, σ.world.Listed key → σ.world.Names key)

include hw

theorem stubPending (hp : s.table.cached? kind p.1 = some p.2) :
    Brings σ s (Lower.stubPending p) fun s' root =>
      s.AddsRoots σ s' root.toList := by
  refine given fun hs => symbol_bind fun x hx => ?_
  split
  next => exact pure (.of_decls_eq hs hs (.refl s) rfl)
  next hunbound =>
    have hid : s.keyOf? p.2 = some (kind, p.1) := (State.keyOf?_eq_some_iff hs.2.table).2 hp
    have hfree : s.declared? (kind, p.1) = none := by
      refine Option.eq_none_iff_forall_ne_some.2 fun c hc => hunbound ?_
      obtain ⟨id, y, hcached, hy, ho⟩ := State.declared?_eq_some.1 hc
      cases hp.symm.trans hcached
      cases hx.symm.trans hy
      exact Option.isSome_of_eq_some ho
    refine bind (declared hid hfree) fun c s1 _ _ hc => ?_
    exact descriptor_bind fun d hd => pure (hc.addsRoots hw hd)

theorem pending {ps : List (DescId × SymbolId)}
    (hps : ∀ p ∈ ps, ∃ kind, s.table.cached? kind p.1 = some p.2) :
    Brings σ s (ps.mapM Lower.stubPending) fun s' roots =>
      s.AddsRoots σ s' (roots.filterMap id) := by
  induction ps generalizing s with
  | nil => exact given fun hs => pure (.of_decls_eq hs hs (.refl s) rfl)
  | cons p ps ih =>
    obtain ⟨⟨kind, hp⟩, hps⟩ := List.forall_mem_cons.1 hps
    rw [List.mapM_cons]
    refine bind (stubPending hw hp) fun root s1 h1 _ hroot => ?_
    have hrest : ∀ q ∈ ps, ∃ kind, s1.table.cached? kind q.1 = some q.2 := fun q hq =>
      (hps q hq).imp fun _ => h1.table.cached
    refine bind (ih hrest) fun roots s2 _ _ hroots => pure ?_
    cases root with
    | none => exact hroot.append hroots
    | some root => exact hroot.append hroots

theorem stubPass (visited : List SymbolId) :
    Brings σ s (Lower.stubPass (s.pending visited)) fun s' roots =>
      s.AddsRoots σ s' (roots.filterMap id) := by
  refine given fun hs => ?_
  have hcount : Brings σ s
      (modify fun s => { s with stats.passes := s.stats.passes + 1 } : Lower Unit)
      fun s' _ => s.AddsRoots σ s' [] ∧ s'.table = s.table := fun _ =>
    have ⟨hle, hs', _⟩ := work .countPass hs
    ⟨hle, hs', fun _ _ => ⟨.of_decls_eq hs hs' hle rfl, rfl⟩⟩
  refine bind hcount fun _ s1 _ _ hcounted => ?_
  have hpending : ∀ p ∈ s.pending visited, ∃ kind, s1.table.cached? kind p.1 = some p.2 :=
    fun p hp => hcounted.2 ▸ hs.1.keyed (State.mem_pending.1 hp).1
  exact (pending hw hpending).imp fun _ _ _ hroots => hcounted.1.append hroots

theorem stubPasses (fuel : Nat) (visited : List SymbolId) :
    Brings σ s (Lower.stubPasses fuel visited) fun s' roots =>
      s.AddsRoots σ s' roots := by
  induction fuel generalizing s visited with
  | zero => exact throw
  | succ fuel ih =>
    refine of_runFrom ?_ (Rounds.runFrom_stubPasses_succ σ s fuel visited)
    split
    next => exact given fun hs => pure (.of_decls_eq hs hs (.refl s) rfl)
    next =>
      refine bind (stubPass hw visited) fun roots s1 _ _ hroots => ?_
      exact bind (ih _) fun later s2 _ _ hlater => pure (hroots.append hlater)

theorem generateStubs :
    Brings σ s Lower.generateStubs fun s' roots => s.AddsRoots σ s' roots := by
  intro hs
  have hpasses := stubPasses hw (9 * σ.world.descriptorCount + 1) [] hs
  have hrun := runFrom_generateStubs σ s
  rcases hr : (Lower.stubPasses (9 * σ.world.descriptorCount + 1) []).runFrom σ s
    with ⟨e | roots, t⟩
  · rw [hr] at hpasses hrun
    rw [hrun]
    exact ⟨hpasses.1, hpasses.2.1, nofun⟩
  · rw [hr] at hpasses hrun
    dsimp only at hrun
    split at hrun
    next =>
      rw [hrun]
      exact hpasses
    next =>
      obtain ⟨e, he⟩ := hrun
      rw [he]
      exact ⟨hpasses.1, hpasses.2.1, nofun⟩

end Yields

namespace Session

/-- Nothing but source has been lowered. -/
structure Untouched (s : Session) : Prop where
  reachable : s.state.Reachable s.setting
  origin : ∀ {id x}, s.state.store.decl? id = some x → x.origin ≠ .stub
  external : s.external = []

theorem untouched_start (world : World) (config : Config) : (start world config).Untouched where
  reachable := .start _
  origin h := by simp [start, Store.decl?] at h
  external := rfl

theorem Untouched.lowerEach {s : Session} (hs : s.Untouched) (files : List SourceFile) :
    (s.lowerEach files).2.Untouched := by
  induction files generalizing s with
  | nil => exact hs
  | cons file rest ih =>
    have hfile := Tidy.lowerFile (σ := s.setting) file
    have hreach := hs.reachable.after hfile.lenient
    have hup := hfile.upholds hs.reachable.coherent hs.reachable.faithful
    rcases hr : (lowerFile file).runFrom s.setting s.state with ⟨e | lowered, t⟩
    all_goals
      rw [hr] at hreach hup
      have horigin {id : DeclId} {x : Decl} (hx : t.store.decl? id = some x) : x.origin ≠ .stub :=
        fun ho => hs.origin (hup.decl rfl hx ho) ho
    · simp only [Session.lowerEach, run_eq hr]
      exact ⟨hreach, horigin, hs.external⟩
    · simp only [Session.lowerEach, run_eq hr]
      exact ih (s := { s with state := t, files := s.files ++ [lowered] })
        ⟨hreach, horigin, hs.external⟩

theorem exists_of_lowerModule (h : lowerModule world config = .ok f) : ∃ s, s.Untouched ∧
      (start world config).lowerFiles = (.ok (), s) ∧
      s.generateStubs = (.ok (), ofModule world config) ∧ f = (ofModule world config).fragment := by
  have huntouched := (untouched_start world config).lowerEach world.tree.files
  unfold lowerModule at h
  rcases hfiles : (start world config).lowerFiles with ⟨e | _, s⟩
  · rw [hfiles] at h
    cases h
  rw [hfiles] at h
  have hs : s.Untouched := by
    change ((start world config).lowerFiles).2.Untouched at huntouched
    rwa [hfiles] at huntouched
  dsimp only at h
  rcases hstubs : s.generateStubs with ⟨e | _, s'⟩
  · rw [finish_eq hs.reachable.coherent, hstubs] at h
    cases h
  have hfinish := finish_eq_of_generateStubs hs.reachable.coherent hstubs
  rw [hfinish] at h
  cases h
  have hmodule : ofModule world config = s' := by rw [ofModule, hfiles, hfinish]
  exact ⟨s, hs, rfl, hmodule ▸ hstubs, hmodule ▸ rfl⟩

theorem steps_ofModule (h : lowerModule world config = .ok f) :
    ∃ hand, Desk.Steps ⟨world, config⟩ true ⟨0, {}⟩ ⟨hand, (ofModule world config).state⟩ := by
  obtain ⟨s, _, hfiles, hstubs, _⟩ := exists_of_lowerModule h
  have hperform : (start world config).perform [.lowerFiles, .generateStubs] =
      ([.ok (), .ok ()], ofModule world config) := by
    simp only [perform, act, hfiles, hstubs]
  obtain ⟨hand, hsteps⟩ := steps_of_perform world config [.lowerFiles, .generateStubs]
  rw [hperform] at hsteps
  exact ⟨hand, hsteps⟩

theorem closed_ofModule (h : lowerModule world config = .ok f) :
    (ofModule world config).state.Closed ∧
      (ofModule world config).state.Sane ⟨world, config⟩ := by
  obtain ⟨_, hsteps⟩ := steps_ofModule h
  exact ⟨hsteps.closed closed_start, hsteps.sane (sane_start _)⟩

theorem addsRoots_ofModule (hw : ∀ key, world.Listed key → world.Names key) {f : Fragment}
    (h : lowerModule world config = .ok f) : ∃ s : Session, s.Untouched ∧
      s.state.AddsRoots ⟨world, config⟩ (ofModule world config).state f.external := by
  obtain ⟨s, hs, hfiles, hstubs, rfl⟩ := exists_of_lowerModule h
  have hsetting : s.setting = ⟨world, config⟩ := by
    have hkept := (start world config).setting_lowerEach world.tree.files
    rwa [show (start world config).lowerEach world.tree.files = (.ok (), s) from hfiles] at hkept
  have hroots := Yields.generateStubs (σ := s.setting) (s := s.state) (hsetting ▸ hw)
    ⟨hs.reachable.coherent, hs.reachable.faithful⟩
  refine ⟨s, hs, ?_⟩
  rcases hr : Lower.generateStubs.runFrom s.setting s.state with ⟨e | roots, t⟩
  · simp [Session.generateStubs, run_eq hr] at hstubs
  · simp only [Session.generateStubs, run_eq hr, Prod.mk.injEq, true_and] at hstubs
    rw [hr] at hroots
    rw [← hstubs, ← hsetting]
    have hadds := hroots.2.2 roots rfl
    rw [← List.nil_append roots, ← hs.external] at hadds
    exact hadds

/-- What is declared outside of a unit: all stubs but those of parameters and of what is local to a
body, from the oldest to the newest. None of them stands for the same symbol as a declaration that
the unit has itself, nor for the same descriptor, if the facts agree about kinds. -/
theorem lowerModule_external (world : World) (config : Config)
    (hw : ∀ key, world.Listed key → world.Names key) (f : Fragment)
    (h : lowerModule world config = .ok f) :
    let s := (ofModule world config).state
    f = (ofModule world config).fragment ∧
    f.external.Pairwise (·.index < ·.index) ∧
    (∀ id, id ∈ f.external ↔ ∃ x key d, f.store.decl? id = some x ∧ x.origin = .stub ∧
      s.keyOf? x.symbol = some key ∧ world.descriptor? key.2 = some d ∧
      d.typeParameter? = none ∧ d.valueParameter? = none ∧ d.visibility ≠ .inBody) ∧
    ∀ id ∈ f.external, ∀ x, f.store.decl? id = some x →
      ∀ id' x', f.store.decl? id' = some x' → x'.origin ≠ .stub →
        s.keyOf? x'.symbol ≠ s.keyOf? x.symbol ∧
        (world.KindConsistent →
          s.table.descriptorOf? x'.symbol ≠ s.table.descriptorOf? x.symbol) := by
  intro s
  obtain ⟨_, _, _, _, hf⟩ := exists_of_lowerModule h
  obtain ⟨b, hb, hadds⟩ := addsRoots_ofModule hw h
  obtain ⟨hclosed, hsane⟩ := closed_ofModule h
  have hmem (id : DeclId) : id ∈ f.external ↔ s.IsRootStub ⟨world, config⟩ id := by
    refine hadds.mem_iff.trans ⟨fun hid => hid.2, fun hid => ⟨?_, hid⟩⟩
    obtain ⟨x, _, _, hx, ho, _⟩ := hid
    refine Option.eq_none_iff_forall_ne_some.2 fun y hy => ?_
    cases (hadds.signed.le.decl hy).symm.trans hx
    exact hb.origin hy ho
  have hstore : f.store = s.store := congrArg (·.store) hf
  rw [hstore]
  refine ⟨hf, hadds.sorted, fun id => ?_, fun id hid x hx id' x' hx' ho' => ?_⟩
  · simp only [hmem, State.IsRootStub, Lower.isRoot_iff]
  · obtain ⟨y, key, _, hy, ho, hkey, _⟩ := (hmem id).1 hid
    cases hx.symm.trans hy
    -- Two declarations of one symbol would both own it.
    have hne : x'.symbol ≠ x.symbol := fun he => by
      obtain ⟨z, hz, hzo⟩ := hclosed.owns hx
      obtain ⟨z', hz', hzo'⟩ := hclosed.owns hx'
      rw [he, hz] at hz'
      cases hz'
      cases hzo.symm.trans hzo'
      cases hx.symm.trans hx'
      exact ho' ho
    refine ⟨fun he => hne ?_, fun hconsistent he => hne ?_⟩
    · exact State.keyOf?_injective hadds.signed.faithful.table (he.trans hkey) hkey
    · obtain ⟨_, _, _, hdesc⟩ := State.keyOf?_eq_some.1 hkey
      exact hsane.unique hconsistent (he.trans hdesc) hdesc

theorem lowerModule_external_sampleWorld :
    (∀ key, sampleWorld.Listed key → sampleWorld.Names key) ∧ sampleWorld.KindConsistent ∧
      ∃ f, lowerModule sampleWorld {} = .ok f ∧ f.external ≠ [] ∧
        f.external.Pairwise (·.index < ·.index) := by
  have hw : ∀ key, sampleWorld.Listed key → sampleWorld.Names key :=
    World.names_of_listed (by decide)
  refine ⟨hw, by decide, ?_⟩
  have hok : (lowerModule sampleWorld {}).toOption.any (!·.external.isEmpty) := by decide +kernel
  cases h : lowerModule sampleWorld {} with
  | error e =>
    rw [h] at hok
    cases hok
  | ok f =>
    rw [h] at hok
    exact ⟨f, rfl, by simpa [Except.toOption] using hok,
      (lowerModule_external sampleWorld {} hw f h).2.1⟩

/-- A function whose body has a lambda for which analysis has recorded another function, and a call
of that function. -/
def sharedLambdaWorld : World where
  tree :=
    { nodes := #[
        ⟨.function ⟨some "main", [], [], some ⟨1⟩, []⟩, .detached⟩,
        ⟨.block [⟨2⟩, ⟨4⟩], .detached⟩,
        ⟨.lambda [] ⟨3⟩, .detached⟩,
        ⟨.block [], .detached⟩,
        ⟨.call ⟨5⟩ [], .detached⟩,
        ⟨.nameReference "f", .detached⟩]
      files := [⟨"main.kt", ["demo"], [], [⟨0⟩]⟩] }
  facts := #[
    { declares := some ⟨14⟩ },
    {},
    { declares := some ⟨13⟩, type := some Builtin.anyType },
    {},
    { type := some Builtin.unitType
      call := some ⟨⟨13⟩, [], none, none, [], [], Builtin.unitType⟩ }]
  declared := #[
    { name := "f", package := ["demo"], kind := .function { returnType := Builtin.unitType } },
    { name := "main", package := ["demo"], kind := .function { returnType := Builtin.unitType } }]
  types := #[]

/-- A lambda and the function that analysis has recorded for it have two symbols for one
descriptor. So the function is declared outside of the unit, and the lambda inside of it. -/
theorem lowerModule_external_sharedLambdaWorld :
    let s := (ofModule sharedLambdaWorld {}).state
    (∀ key, sharedLambdaWorld.Listed key → sharedLambdaWorld.Names key) ∧
      ∃ f, lowerModule sharedLambdaWorld {} = .ok f ∧ ∃ id ∈ f.external, ∃ x id' x',
        f.store.decl? id = some x ∧ f.store.decl? id' = some x' ∧ x'.origin = .source ∧
        s.table.descriptorOf? x.symbol = some ⟨13⟩ ∧
        s.table.descriptorOf? x'.symbol = some ⟨13⟩ := by
  intro s
  refine ⟨World.names_of_listed (by decide), ?_⟩
  let f := (ofModule sharedLambdaWorld {}).fragment
  have hok : (lowerModule sharedLambdaWorld {}).toOption.isSome := by decide +kernel
  have hmem : ⟨4⟩ ∈ f.external := by decide +kernel
  have hstub : ((f.store.decl? ⟨4⟩).bind fun x => s.table.descriptorOf? x.symbol) = some ⟨13⟩ := by
    decide +kernel
  have hsource : ((f.store.decl? ⟨0⟩).bind fun x =>
      (s.table.descriptorOf? x.symbol).map (x.origin, ·)) = some (.source, ⟨13⟩) := by
    decide +kernel
  obtain ⟨x, hx, hdesc⟩ := Option.bind_eq_some_iff.1 hstub
  obtain ⟨x', hx', hdesc'⟩ := Option.bind_eq_some_iff.1 hsource
  obtain ⟨desc, hdesc', he⟩ := Option.map_eq_some_iff.1 hdesc'
  obtain ⟨ho, rfl⟩ := Prod.mk.inj he
  cases h : lowerModule sharedLambdaWorld {} with
  | error e =>
    rw [h] at hok
    cases hok
  | ok _ =>
    obtain ⟨_, _, _, _, rfl⟩ := exists_of_lowerModule h
    exact ⟨f, rfl, ⟨4⟩, hmem, x, ⟨0⟩, x', hx, hx', ho, hdesc, hdesc'⟩

end Session

end TypedTree
