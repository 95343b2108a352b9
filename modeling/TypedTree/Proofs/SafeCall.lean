import TypedTree.Proofs.Acyclic
import TypedTree.Proofs.Assembly

namespace TypedTree

open Desk Token Carries

/-- What holds when all work is done: the tree is linear, its expressions were admitted, and no
subject waits for its safe call. -/
structure Desk.Complete (σ : Setting) (d : Desk) (dead : ExprId → Prop) : Prop where
  placed : d.Placed dead
  subjects : d.Subjects
  sane : d.state.Sane σ
  assembled : d.Assembled {}
  quiet : Quiet d.hand

/-- A safe call with its parts, and the access to the subject that the selector ends in. -/
structure Store.SafeCall (s : Store) (c receiver subject selector last : ExprId) (a : Access) :
    Prop where
  call : s.kind? c = some (.safeCall receiver subject selector)
  ends : s.EndsIn selector last
  access : ∃ k, s.kind? last = some k ∧ k.access? = some a
  through : a.Through subject

theorem ExprKind.operands_sublist {k : ExprKind} {a : Access} (hk : k.access? = some a) :
    a.operands.Sublist k.operands := by
  cases k with
  | read access =>
    cases hk
    exact .refl _
  | call access slots | assignment access value =>
    cases hk
    exact List.sublist_append_left _ _
  | _ => cases hk

theorem Store.mem_operandsAt {s : Store} {k : ExprKind} (hk : s.kind? e = some k) {o : ExprId}
    (ho : o ∈ k.operands) : o ∈ s.operandsAt (.expr e) := by
  obtain ⟨x, hx, rfl⟩ := Option.map_eq_some_iff.1 hk
  rw [operandsAt, hx]
  exact List.mem_append_right _ ho

namespace Store.SafeCall

variable {c r sub sel last : ExprId} {a : Access}

theorem selector_mem {s : Store} (h : s.SafeCall c r sub sel last a) :
    sel ∈ s.operandsAt (.expr c) :=
  mem_operandsAt h.call (by simp [ExprKind.operands])

theorem subject_mem {s : Store} (h : s.SafeCall c r sub sel last a) :
    sub ∈ s.operandsAt (.expr last) := by
  obtain ⟨k, hk, hka⟩ := h.access
  refine mem_operandsAt hk ((ExprKind.operands_sublist hka).subset ?_)
  simpa [Access.operands, Access.Through] using h.through

/-- The access is not an annotation of a type, which has no receivers. -/
theorem not_isCall {s : State} (h : s.store.SafeCall c r sub sel last a) : ¬ s.IsCall last :=
  fun ⟨x, callee, xs, hx, hk⟩ => by
    obtain ⟨k, hlast, hka⟩ := h.access
    obtain ⟨y, hy, rfl⟩ := Option.map_eq_some_iff.1 hlast
    cases hx.symm.trans hy
    rw [hk] at hka
    cases hka
    rcases h.through with h | h <;> cases h

theorem last_ne {s : Store} (h : s.SafeCall c r sub sel last a) {k : ExprKind}
    (hk : k.access? = none) : s.kind? last ≠ some k := by
  obtain ⟨k', hk', hka⟩ := h.access
  intro he
  cases hk'.symm.trans he
  cases hka.symm.trans hk

end Store.SafeCall

namespace Desk.Complete

variable {σ : Setting} {h : Multiset Token} {s : State} {dead : ExprId → Prop}
  {c r sub sel last e : ExprId} {a : Access} {p q : TreePart}

/-- The subject of a safe call stands for its receiver, and has its type without null. -/
theorem subject_of_call (hd : Complete σ ⟨h, s⟩ dead)
    (hc : s.store.kind? c = some (.safeCall r sub sel)) : ∃ x y, s.store.expr? sub = some x ∧
      x.kind = .safeCallSubject r ∧ s.store.expr? r = some y ∧ x.type = y.type.nonNull := by
  obtain ⟨z, hz, hzk⟩ := Option.map_eq_some_iff.1 hc
  obtain ⟨⟨x, hx, hxk⟩, _⟩ := hd.subjects.safeCall hz hzk
  have hadmits := hd.assembled.admits hx (by simp [Store.expr?])
  rw [hxk] at hadmits
  obtain ⟨y, hy, hτ⟩ := hadmits
  exact ⟨x, y, hx, hxk, hy, hτ⟩

theorem safeCall_of_call (hd : Complete σ ⟨h, s⟩ dead)
    (hc : s.store.kind? c = some (.safeCall r sub sel)) :
    ∃ last a, s.store.SafeCall c r sub sel last a := by
  obtain ⟨z, hz, hzk⟩ := Option.map_eq_some_iff.1 hc
  have hadmits := hd.assembled.admits hz (by simp [Store.expr?])
  rw [hzk] at hadmits
  obtain ⟨last, k, a, hends, hk, hka, ha⟩ := hadmits
  exact ⟨last, a, hc, hends, ⟨k, hk, hka⟩, ha⟩

theorem call_of_subject (hd : Complete σ ⟨h, s⟩ dead)
    (he : s.store.kind? e = some (.safeCallSubject r)) :
    ∃ c sel, s.store.kind? c = some (.safeCall r e sel) := by
  obtain ⟨x, hx, hxk⟩ := Option.map_eq_some_iff.1 he
  refine (hd.assembled.subject hx (by simp [Store.expr?]) hxk).resolve_left fun hmem => ?_
  rw [← mem_waiting, hd.quiet.waiting_eq] at hmem
  exact Multiset.notMem_zero _ hmem

/-- An operand that is neither an annotation of types nor a subject stands below one node. -/
theorem eq_of_below (hd : Complete σ ⟨h, s⟩ dead) (hq : q.Alive dead)
    (he : e ∈ s.store.operandsAt q) (hcall : ¬ s.IsCall e)
    (hsubject : ∀ r, s.store.kind? e ≠ some (.safeCallSubject r)) (hp : p.Alive dead)
    (hb : .expr e ∈ s.store.below p) : p = q := by
  rcases hd.sane.expr_mem_below hb with ho | ho | ⟨c, r, sel, _, hc⟩
  · exact hd.placed.disjoint hp hq ho he
  · exact (hcall ho).elim
  · obtain ⟨x, _, hx, hk, _⟩ := hd.subject_of_call hc
    exact (hsubject r (Option.map_eq_some_iff.2 ⟨x, hx, hk⟩)).elim

theorem alive_of_reaches (hd : Complete σ ⟨h, s⟩ dead) (hp : p.Alive dead)
    (hreach : s.store.Reaches p q) : q.Alive dead := by
  induction hreach with
  | refl => exact hp
  | tail _ hb ih => exact hd.placed.alive_below hd.subjects hd.sane ih hb

variable (hd : Complete σ ⟨h, s⟩ dead) (hc : s.store.SafeCall c r sub sel last a)

include hd hc

theorem alive_call : (TreePart.expr c).Alive dead :=
  hd.placed.not_dead hc.call (by simp)

theorem alive_selector : (TreePart.expr sel).Alive dead :=
  (hd.placed.operand (hd.alive_call hc) hc.selector_mem).2

theorem alive_last : (TreePart.expr last).Alive dead := by
  obtain ⟨k, hk, _⟩ := hc.access
  exact hd.placed.not_dead hk fun ss he => hc.last_ne rfl (he ▸ hk)

theorem eq_of_below_selector (hp : p.Alive dead) (hb : .expr sel ∈ s.store.below p) :
    p = .expr c := by
  rcases hc.ends with rfl | ⟨statements, hk⟩
  · exact hd.eq_of_below (hd.alive_call hc) hc.selector_mem hc.not_isCall
      (fun _ => hc.last_ne rfl) hp hb
  · obtain ⟨y, hy, hyk⟩ := Option.map_eq_some_iff.1 hk
    refine hd.eq_of_below (hd.alive_call hc) hc.selector_mem ?_ ?_ hp hb
    · rintro ⟨x, callee, xs, hx, hxk⟩
      cases hx.symm.trans hy
      cases hxk.symm.trans hyk
    · intro r' he
      cases hk.symm.trans he

theorem last_mem : ∃ q, (q = .expr c ∨ q = .expr sel) ∧ last ∈ s.store.operandsAt q ∧
    q.Alive dead := by
  rcases hc.ends with rfl | ⟨statements, hk⟩
  · exact ⟨_, .inl rfl, hc.selector_mem, hd.alive_call hc⟩
  · exact ⟨_, .inr rfl, Store.mem_operandsAt hk (by simp [ExprKind.operands, Statement.operands]),
      hd.alive_selector hc⟩

theorem eq_of_below_last (hp : p.Alive dead) (hb : .expr last ∈ s.store.below p) :
    p = .expr c ∨ p = .expr sel := by
  obtain ⟨q, hq, hmem, hal⟩ := hd.last_mem hc
  rwa [hd.eq_of_below hal hmem hc.not_isCall (fun _ => hc.last_ne rfl) hp hb]

theorem eq_of_below_subject (hp : p.Alive dead) (hb : .expr sub ∈ s.store.below p) :
    p = .expr c ∨ p = .expr last := by
  obtain ⟨x, _, hx, hxk, _⟩ := hd.subject_of_call hc.call
  rcases hd.sane.expr_mem_below hb with ho | ⟨y, callee, xs, hy, hyk⟩ | ⟨c', r', sel', rfl, hc'⟩
  · exact .inr (hd.placed.disjoint hp (hd.alive_last hc) ho hc.subject_mem)
  · cases hx.symm.trans hy
    cases hxk.symm.trans hyk
  · obtain ⟨z, hz, hzk⟩ := Option.map_eq_some_iff.1 hc.call
    obtain ⟨z', hz', hzk'⟩ := Option.map_eq_some_iff.1 hc'
    rw [(hd.subjects.safeCall hz hzk).2 c' z' r' sel' hz' hzk']
    exact .inl rfl

/-- What is above the subject belongs to the safe call or is above that too. -/
theorem reaches_call (hp : p.Alive dead) (hreach : s.store.Reaches p (.expr sub)) :
    p = .expr sub ∨ p = .expr last ∨ p = .expr sel ∨ s.store.Reaches p (.expr c) := by
  have halive {q} (hq : s.store.Reaches p q) : q.Alive dead := hd.alive_of_reaches hp hq
  have hlast (hreach : s.store.Reaches p (.expr last)) : p = .expr last ∨ p = .expr sel ∨
      s.store.Reaches p (.expr c) := by
    rcases hreach.cases_tail with he | ⟨q, hq, hb⟩
    · exact .inl he.symm
    · rcases hd.eq_of_below_last hc (halive hq) hb with rfl | rfl
      · exact .inr (.inr hq)
      · rcases hq.cases_tail with he | ⟨q, hq, hb⟩
        · exact .inr (.inl he.symm)
        · exact .inr (.inr (hd.eq_of_below_selector hc (halive hq) hb ▸ hq))
  rcases hreach.cases_tail with he | ⟨q, hq, hb⟩
  · exact .inl he.symm
  · rcases hd.eq_of_below_subject hc (halive hq) hb with rfl | rfl
    · exact .inr (.inr (.inr hq))
    · exact .inr (hlast hq)

/-- An expression in hand is above the subject only if it is above the safe call. -/
theorem reaches_call_of_free (he : .free e ∈ h) (hreach : s.store.Reaches (.expr e) (.expr sub)) :
    s.store.Reaches (.expr e) (.expr c) := by
  obtain ⟨_, halive, hnone⟩ := hd.placed.free he
  rcases hd.reaches_call (p := .expr e) hc halive hreach with heq | heq | heq | hreach
  · cases heq
    exact (hnone _ (hd.alive_last hc) hc.subject_mem).elim
  · cases heq
    obtain ⟨q, _, hmem, hq⟩ := hd.last_mem hc
    exact (hnone q hq hmem).elim
  · cases heq
    exact (hnone _ (hd.alive_call hc) hc.selector_mem).elim
  · exact hreach

theorem one_receiver : Xor (a.dispatchReceiver = some sub) (a.extensionReceiver = some sub) := by
  obtain ⟨k, hk, hka⟩ := hc.access
  obtain ⟨x, hx, rfl⟩ := Option.map_eq_some_iff.1 hk
  have hoperands : a.operands.Nodup := by
    refine List.Nodup.sublist ?_ (hd.placed.nodup (hd.alive_last hc))
    rw [Store.operandsAt, hx]
    exact (ExprKind.operands_sublist hka).trans (List.sublist_append_right _ _)
  rcases hc.through with ha | ha
  · exact .inl ⟨ha, fun hb => by simp [Access.operands, ha, hb] at hoperands⟩
  · exact .inr ⟨ha, fun hb => by simp [Access.operands, ha, hb] at hoperands⟩

end Desk.Complete

/-- The references have what a walk meets. -/
def References.Lists (refs : References) : TreePart → Prop
  | .symbol id => id.index ∈ refs.symbols
  | .functionTarget id => id.index ∈ refs.functionTargets
  | .loopTarget id => id.index ∈ refs.loopTargets
  | .whenRef id => id.index ∈ refs.whenRefs
  | .decl _ | .expr _ | .type _ => True

theorem mem_ascending : n ∈ ascending ns ↔ n ∈ ns := by
  have hinsert (m : Nat) (ms : List Nat) : n ∈ insertAscending m ms ↔ n = m ∨ n ∈ ms := by
    induction ms with
    | nil => simp [insertAscending]
    | cons k ms ih =>
      unfold insertAscending
      split
      · simp
      · split
        next h => simp [h]
        next => simp [ih, or_left_comm]
  induction ns with
  | nil => simp [ascending]
  | cons m ns ih =>
    exact (hinsert m _).trans ((or_congr_right ih).trans List.mem_cons.symm)

theorem Store.lists_references {s : Store} (hd : d ∈ roots) {q : TreePart}
    (hq : q ∈ s.walk (.decl d)) : (s.references roots).Lists q := by
  have hmem : q ∈ roots.flatMap fun id => s.walk (.decl id) := List.mem_flatMap.2 ⟨d, hd, hq⟩
  cases q with
  | symbol id | functionTarget id | loopTarget id | whenRef id =>
    refine mem_ascending.2 (List.mem_map.2 ⟨id, List.mem_filterMap.2 ⟨_, hmem, rfl⟩, rfl⟩)
  | _ => trivial

namespace Fragment

variable {f : Fragment} {p q : TreePart}

theorem Reaches.trans (hp : f.Reaches p) (h : f.store.Reaches p q) : f.Reaches q := by
  induction h with
  | refl => exact hp
  | tail _ hb ih => exact .under ih hb

/-- What can be reached is below a declaration, or below an annotation of a file. -/
theorem Reaches.root (h : f.Reaches p) :
    (∃ d, f.Reaches (.decl d) ∧ f.store.Reaches (.decl d) p) ∨
      ∃ file ∈ f.files, ∃ e ∈ file.annotations, f.store.Reaches (.expr e) p := by
  induction h with
  | @declaration file d hfile hd => exact .inl ⟨d, .declaration hfile hd, .refl⟩
  | @external d hd => exact .inl ⟨d, .external hd, .refl⟩
  | @note file e hfile he => exact .inr ⟨file, hfile, e, he, .refl⟩
  | under _ hb ih =>
    refine ih.imp ?_ ?_
    · exact fun ⟨d, hd, hreach⟩ => ⟨d, hd, hreach.tail hb⟩
    · exact fun ⟨file, hfile, e, he, hreach⟩ => ⟨file, hfile, e, he, hreach.tail hb⟩

end Fragment

theorem lowerModule_complete (h : lowerModule world config = .ok f) : ∃ s dead,
      Complete ⟨world, config⟩ ⟨tokens f.files, s⟩ dead ∧ f.store = s.store := by
  obtain ⟨s, hsteps, hstore⟩ := lowerModule_steps h
  obtain ⟨dead, hp, hs⟩ := hsteps.linear placed_start subjects_start
  exact ⟨s, dead, ⟨hp, hs, hsteps.sane (Session.sane_start _),
    hsteps.assembled (.start _ (by simp)), quiet f.files⟩, hstore⟩

theorem lowerModule_acyclic (h : lowerModule world config = .ok f) : f.store.Acyclic := by
  obtain ⟨L, _, hrec, _⟩ :=
    (Session.recorded_start ⟨world, config⟩).perform [.lowerFiles, .generateStubs]
  suffices hstore : f.store = L.state.store by
    rw [hstore]
    exact L.acyclic
  rw [hrec.state]
  unfold lowerModule at h
  simp only [Session.perform, Session.act]
  rcases hlower : (Session.start world config).lowerFiles with ⟨e | _, s⟩
  · rw [hlower] at h
    cases h
  rw [hlower] at h
  dsimp only [Session.finish] at h ⊢
  rcases hstubs : s.generateStubs with ⟨e | _, s'⟩
  · rw [hstubs] at h
    cases h
  rw [hstubs] at h
  dsimp only at h ⊢
  split at h
  · cases h
  · cases h
    rfl

/-- The subject of a safe call stands for its receiver, with the type of the receiver without null,
and is one receiver of the access that the selector ends in and nothing else. A subject occurs
nowhere outside of its safe call, so wherever a walk meets one it also meets the receiver, and no
reference below the receiver is missed. -/
theorem safeCall_subject (world : World) (config : Config) (f : Fragment)
    (h : lowerModule world config = .ok f) :
    (∀ c r sub sel, f.Reaches (.expr c) → f.store.kind? c = some (.safeCall r sub sel) →
      (∃ x y, f.store.expr? sub = some x ∧ x.kind = .safeCallSubject r ∧
        f.store.expr? r = some y ∧ x.type = y.type.nonNull) ∧
      ∃ last a, f.store.SafeCall c r sub sel last a ∧
        Xor (a.dispatchReceiver = some sub) (a.extensionReceiver = some sub) ∧
        (f.store.operandsAt (.expr last)).count sub = 1 ∧
        ∀ site, f.Shows site → sub ∈ f.operandsAt site → site = .node (.expr last)) ∧
    ∀ e r, f.Reaches (.expr e) → f.store.kind? e = some (.safeCallSubject r) →
      ∃ c sel last a, f.Reaches (.expr c) ∧ f.store.SafeCall c r e sel last a ∧
        (∀ p, f.Reaches p → f.store.Reaches p (.expr e) →
          p = .expr e ∨ p = .expr last ∨ p = .expr sel ∨ f.store.Reaches p (.expr c)) ∧
        ∀ roots d, d ∈ roots → .expr e ∈ f.store.walk (.decl d) →
          ∀ q ∈ f.store.walk (.expr r), (f.store.references roots).Lists q := by
  obtain ⟨s, dead, hd, hstore⟩ := lowerModule_complete h
  have hacyclic := lowerModule_acyclic h
  have halive {p} (hp : f.Reaches p) : p.Alive dead :=
    hd.placed.alive hd.subjects hd.sane hstore hp
  rw [hstore] at hacyclic ⊢
  refine ⟨fun c r sub sel _ hcall => ?_, fun e r hreach he => ?_⟩
  · obtain ⟨last, a, hc⟩ := hd.safeCall_of_call hcall
    refine ⟨hd.subject_of_call hcall, last, a, hc, hd.one_receiver hc,
      List.count_eq_one_of_mem (hd.placed.nodup (hd.alive_last hc)) hc.subject_mem, ?_⟩
    intro site hshows hmem
    cases site with
    | file i => exact (hd.placed.not_mem_of_file (hd.alive_last hc) hmem hc.subject_mem).elim
    | node p =>
      rw [Fragment.operandsAt, hstore] at hmem
      rw [hd.placed.disjoint (halive hshows) (hd.alive_last hc) hmem hc.subject_mem]
  · obtain ⟨c, sel, hcall⟩ := hd.call_of_subject he
    obtain ⟨last, a, hc⟩ := hd.safeCall_of_call hcall
    have hdecl {d} (hd' : s.store.Reaches (.decl d) (.expr e)) :
        s.store.Reaches (.decl d) (.expr c) := by
      rcases hd.reaches_call (p := .decl d) hc trivial hd' with heq | heq | heq | hreach
      · cases heq
      · cases heq
      · cases heq
      · exact hreach
    refine ⟨c, sel, last, a, ?_, hc, fun p hp hreach => hd.reaches_call hc (halive hp) hreach, ?_⟩
    · rcases hreach.root with ⟨d, hroot, hd'⟩ | ⟨file, hfile, e', he', hnote⟩
      · exact hroot.trans (hstore ▸ hdecl (hstore ▸ hd'))
      · have hfree : Token.free e' ∈ tokens f.files := by
          rw [tokens_files, mem_frees]
          exact List.mem_flatMap.2 ⟨file, hfile, he'⟩
        have hreach := hd.reaches_call_of_free hc hfree (hstore ▸ hnote)
        exact (Fragment.Reaches.note hfile he').trans (hstore ▸ hreach)
    · intro roots d hroot hwalk q hq
      have hcr : .expr r ∈ s.store.below (.expr c) := by
        obtain ⟨z, hz, hzk⟩ := Option.map_eq_some_iff.1 hcall
        simp [Store.below, hz, Expr.parts, hzk, ExprKind.parts]
      have hreach := (hdecl (hacyclic.mem_walk.1 hwalk)).tail hcr
      exact Store.lists_references hroot
        (hacyclic.mem_walk.2 (hreach.trans (hacyclic.mem_walk.1 hq)))

/-- A unit with a safe call, whose subject is used in one place. -/
theorem safeCall_subject_sampleWorld : ∃ f, lowerModule sampleWorld {} = .ok f ∧
    f.Reaches (.expr ⟨3⟩) ∧ f.store.kind? ⟨3⟩ = some (.safeCall ⟨0⟩ ⟨1⟩ ⟨2⟩) ∧
    ∃ last, ∀ site, f.Shows site → ⟨1⟩ ∈ f.operandsAt site → site = .node (.expr last) := by
  have hok : (lowerModule sampleWorld {}).toOption.any (fun f =>
      f.files.flatMap (·.declarations) = [⟨2⟩] ∧ .expr ⟨3⟩ ∈ f.store.walkUpTo 12 (.decl ⟨2⟩) ∧
        f.store.kind? ⟨3⟩ = some (.safeCall ⟨0⟩ ⟨1⟩ ⟨2⟩)) = true := by decide +kernel
  cases h : lowerModule sampleWorld {} with
  | error e => simp [h, Except.toOption] at hok
  | ok f =>
    simp only [h, Except.toOption, Option.any_some, decide_eq_true_eq] at hok
    obtain ⟨hfiles, hwalk, hcall⟩ := hok
    have hroot : ⟨2⟩ ∈ f.files.flatMap (·.declarations) := hfiles ▸ List.mem_singleton_self _
    obtain ⟨file, hfile, hd⟩ := List.mem_flatMap.1 hroot
    have hreach : f.Reaches (.expr ⟨3⟩) :=
      (Fragment.Reaches.declaration hfile hd).trans (Store.reaches_of_mem_walkUpTo hwalk)
    obtain ⟨_, last, _, _, _, _, hsite⟩ :=
      (safeCall_subject sampleWorld {} f h).1 _ _ _ _ hreach hcall
    exact ⟨f, rfl, hreach, hcall, last, hsite⟩

end TypedTree
