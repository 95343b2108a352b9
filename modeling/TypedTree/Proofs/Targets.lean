import TypedTree.Proofs.Follow
import TypedTree.Proofs.Reach

namespace TypedTree

/-- A part that lies inside of what a holder stands for: in the subtree of a callable, in the body
of a loop (or in the condition, if the body comes first), or in a condition of a choice. -/
def Store.Encloses (s : Store) : Holder → TreePart → Prop
  | .function t, part => ∃ d, s.owner? (.function t) = some (.decl d) ∧ s.Reaches (.decl d) part
  | .loop t, part => ∃ e x condition body, s.owner? (.loop t) = some (.expr e) ∧
      s.expr? e = some x ∧ (x.kind = .whileLoop t condition body ∧ s.Reaches (.expr body) part ∨
        x.kind = .doWhile t condition body ∧
          (s.Reaches (.expr body) part ∨ s.Reaches (.expr condition) part))
  | .choice r, part => ∃ e x subject subjectVariable branches branch condition,
      s.owner? (.choice r) = some (.expr e) ∧ s.expr? e = some x ∧
        x.kind = .choice (some r) subject subjectVariable branches ∧ branch ∈ branches ∧
        branch.condition = some condition ∧ s.Reaches (.expr condition) part

/-- What a walk meets that starts at the files. -/
inductive Fragment.InFiles (f : Fragment) : TreePart → Prop where
  | declaration {file d} : file ∈ f.files → d ∈ file.declarations → f.InFiles (.decl d)
  | note {file e} : file ∈ f.files → e ∈ file.annotations → f.InFiles (.expr e)
  | under {p q} : f.InFiles p → q ∈ f.store.below p → f.InFiles q

theorem Store.Encloses.under {s : Store} (he : s.Encloses h part) (hc : child ∈ s.below part) :
    s.Encloses h child := by
  have hnext : ∀ {p}, s.Reaches p part → s.Reaches p child := fun hp => hp.tail hc
  cases h with
  | function t =>
    obtain ⟨d, ho, hr⟩ := he
    exact ⟨d, ho, hnext hr⟩
  | loop t =>
    obtain ⟨e, x, c, b, ho, hx, hk⟩ := he
    exact ⟨e, x, c, b, ho, hx, hk.imp (And.imp_right hnext) (And.imp_right (Or.imp hnext hnext))⟩
  | choice r =>
    obtain ⟨e, x, subject, v, bs, b, c, ho, hx, hk, hb, hbc, hr⟩ := he
    exact ⟨e, x, subject, v, bs, b, c, ho, hx, hk, hb, hbc, hnext hr⟩

section mentions

open Mention

theorem TreeType.expr_notMem (inside : List Holder) (e : ExprId) (type : TreeType) :
    .expr inside e ∉ type.mentions :=
  isOfType_of_mem type

theorem expr_notMem_types (inside : List Holder) (e : ExprId) (list : List TreeType) :
    .expr inside e ∉ types list :=
  isOfType_of_mem_types

theorem Access.inside {a : Access} {inside : List Holder} {e : ExprId}
    (hm : .expr inside e ∈ a.mentions) : inside = [] := by
  simp only [Access.mentions, expr?, exprs, List.mem_cons, List.mem_append, List.mem_map,
    expr_notMem_types, reduceCtorEq, false_or, or_false] at hm
  rcases hm with ⟨_, _, h⟩ | ⟨_, _, h⟩
  · cases h
    rfl
  · cases h
    rfl

/-- Only the owner of a holder lets a part of it use the holder. -/
theorem ExprKind.inside {k : ExprKind} {inside : List Holder} {e : ExprId}
    (hm : .expr inside e ∈ k.mentions) {h : Holder} (hh : h ∈ inside) :
    (∃ t c b, h = .loop t ∧ (k = .whileLoop t c b ∧ e = b ∨
      k = .doWhile t c b ∧ (e = b ∨ e = c))) ∨
    ∃ r subject v bs b, h = .choice r ∧ k = .choice (some r) subject v bs ∧ b ∈ bs ∧
      b.condition = some e := by
  have hempty : inside ≠ [] := List.ne_nil_of_mem hh
  cases k with
  | whileLoop t c b =>
    simp only [mentions, List.mem_cons, reduceCtorEq, Mention.expr.injEq, List.not_mem_nil,
      false_or, or_false] at hm
    rcases hm with ⟨rfl, _⟩ | ⟨rfl, rfl⟩
    · exact (hempty rfl).elim
    · exact .inl ⟨t, c, e, List.mem_singleton.1 hh, .inl ⟨rfl, rfl⟩⟩
  | doWhile t c b =>
    simp only [mentions, List.mem_cons, reduceCtorEq, Mention.expr.injEq, List.not_mem_nil,
      false_or, or_false] at hm
    rcases hm with ⟨rfl, rfl⟩ | ⟨rfl, rfl⟩
    · exact .inl ⟨t, e, b, List.mem_singleton.1 hh, .inr ⟨rfl, .inr rfl⟩⟩
    · exact .inl ⟨t, c, e, List.mem_singleton.1 hh, .inr ⟨rfl, .inl rfl⟩⟩
  | choice ref subject v bs =>
    simp only [mentions, expr?, exprs, decl?, decls, List.mem_append, List.mem_map,
      List.mem_flatMap, WhenBranch.mentions, List.mem_singleton, reduceCtorEq, Mention.expr.injEq,
      and_false, exists_false, false_or, or_false, Option.mem_toList] at hm
    rcases hm with ⟨_, _, rfl, _⟩ | ⟨b, hb, ⟨c, hc, rfl, rfl⟩ | ⟨rfl, _⟩⟩
    · exact (hempty rfl).elim
    · obtain ⟨r, hr, rfl⟩ := List.mem_map.1 hh
      cases Option.mem_toList.1 hr
      exact .inr ⟨r, subject, v, bs, b, rfl, rfl, hb, hc⟩
    · exact (hempty rfl).elim
  | block ss =>
    obtain ⟨st, _, hst⟩ := List.mem_map.1 hm
    cases st with
    | declaration _ => cases hst
    | expression _ =>
      cases hst
      exact (hempty rfl).elim
  | read a | callableReference a => exact (hempty (Access.inside hm)).elim
  | _ =>
    refine (hempty ?_).elim
    simp only [mentions, expr?, exprs, type?, List.mem_append, List.mem_cons, List.mem_map,
      List.mem_flatMap, expr_notMem_types, TreeType.expr_notMem, reduceCtorEq,
      Mention.expr.injEq, false_or, or_false, List.not_mem_nil] at hm <;>
    grind [Access.inside]

theorem Decl.inside {x : Decl} {inside : List Holder} {e : ExprId}
    (hm : .expr inside e ∈ x.mentions) : inside = [] := by
  obtain ⟨symbol, origin, calls, kind⟩ := x
  cases kind <;>
    simp only [Decl.mentions, DeclKind.mentions, Mention.annotations, decls, decl?, exprs, expr?,
      symbols, type?, List.mem_append, List.mem_cons, List.mem_map, expr_notMem_types,
      TreeType.expr_notMem, reduceCtorEq, Mention.expr.injEq, false_or, or_false, and_false,
      exists_false, List.not_mem_nil] at hm <;>
    grind

theorem ExprKind.loop_of_holder? {k : ExprKind} (h : k.holder? = some (.loop t)) :
    ∃ c b, k = .whileLoop t c b ∨ k = .doWhile t c b := by
  unfold ExprKind.holder? at h
  split at h
  next c b =>
    cases h
    exact ⟨c, b, .inl rfl⟩
  next c b =>
    cases h
    exact ⟨c, b, .inr rfl⟩
  next => cases h
  next => cases h

theorem ExprKind.choice_of_holder? {k : ExprKind} (h : k.holder? = some (.choice r)) :
    ∃ subject v bs, k = .choice (some r) subject v bs := by
  unfold ExprKind.holder? at h
  split at h
  next => cases h
  next => cases h
  next subject v bs =>
    cases h
    exact ⟨subject, v, bs, rfl⟩
  next => cases h

end mentions

namespace Ledger

variable {σ : Setting} {strict : Bool} {L : Ledger σ strict} {P : Holder → TreePart → Prop}

/-- A part that stands in some relation to all of its holders. -/
def Sheltered (L : Ledger σ strict) (P : Holder → TreePart → Prop) : TreePart → Prop
  | .expr e => L.Settled e ∨ ∃ g, L.tint? e = some (.code g) ∧ ∀ h ∈ g, P h (.expr e)
  | .decl d => ∃ m, L.mark? d = some m ∧ ∀ h ∈ m.region, P h (.decl d)
  | .type _ | .symbol _ | .functionTarget _ | .loopTarget _ | .whenRef _ => True

theorem exists_mention (hc : child ∈ L.state.store.below part) (hn : child.node? = some child) :
    ∃ m ∈ L.mentions part, m.node? = some child := by
  cases part with
  | expr e =>
    cases hx : L.state.store.expr? e with
    | none => simp [Store.below, hx] at hc
    | some x =>
      have hmem : child ∈ x.parts.filterMap TreePart.node? :=
        List.mem_filterMap.2 ⟨child, by simpa [Store.below, hx] using hc, hn⟩
      rw [Expr.nodes_parts] at hmem
      simpa [Entries.mentions, Store.mentions, hx] using List.mem_filterMap.1 hmem
  | decl d =>
    cases hx : L.state.store.decl? d with
    | none => simp [Store.below, hx] at hc
    | some x =>
      have hmem : child ∈ x.parts.filterMap TreePart.node? :=
        List.mem_filterMap.2 ⟨child, by simpa [Store.below, hx] using hc, hn⟩
      rw [Decl.nodes_parts] at hmem
      simpa [Entries.mentions, Store.mentions, hx] using List.mem_filterMap.1 hmem
  | _ => simp [Store.below] at hc

theorem sheltered_of_fits (hm : L.Fits g part m) (hn : m.node? = some child)
    (hg : ∀ h ∈ g, P h child)
    (hinside : ∀ inside e, m = .expr inside e → ∀ h ∈ inside, P h child) :
    L.Sheltered P child := by
  cases m with
  | expr inside e =>
    cases hn
    rcases hm with hs | ⟨g', ht, hsub⟩
    · exact .inl hs
    · refine .inr ⟨g', ht, fun h hh => ?_⟩
      rcases List.mem_append.1 (hsub hh) with hh | hh
      · exact hinside inside e rfl h hh
      · exact hg h hh
  | note e =>
    cases hn
    exact .inl hm
  | decl d =>
    cases hn
    obtain ⟨mark, hmark, hsub⟩ := hm
    exact ⟨mark, hmark, fun h hh => hg h (hsub hh)⟩
  | _ => cases hn

theorem encloses_inside {e child : ExprId} {x : Expr} {g inside : List Holder}
    (hx : L.state.store.expr? e = some x) (ht : L.tint? e = some (.code g))
    (hm : .expr inside child ∈ x.mentions) {h : Holder} (hh : h ∈ inside) :
    L.owner? h = some (.expr e) ∧ L.state.store.Encloses h (.expr child) := by
  have hkind : .expr inside child ∈ x.kind.mentions := by
    simpa [Expr.mentions, TreeType.expr_notMem, Mention.annotations] using hm
  have howner : ∀ {holder}, x.kind.holder? = some holder → L.owner? holder = some (.expr e) := by
    intro holder hk
    have hallows := L.sound.allows (.expr e) (.holds holder) (by
      simpa [Entries.mentions, Store.mentions, hx] using (Expr.holds_mem holder x).2 hk)
    simp only [Entries.Allows, ht] at hallows
    exact hallows
  rcases ExprKind.inside hkind hh with ⟨t, c, b, rfl, ⟨hk, rfl⟩ | ⟨hk, rfl | rfl⟩⟩ |
    ⟨r, subject, v, bs, b, rfl, hk, hb, hc⟩
  · have ho := howner (show _ = some (.loop t) by rw [hk]; rfl)
    exact ⟨ho, e, x, c, child, ho, hx, .inl ⟨hk, .refl⟩⟩
  · have ho := howner (show _ = some (.loop t) by rw [hk]; rfl)
    exact ⟨ho, e, x, c, child, ho, hx, .inr ⟨hk, .inl .refl⟩⟩
  · have ho := howner (show _ = some (.loop t) by rw [hk]; rfl)
    exact ⟨ho, e, x, child, b, ho, hx, .inr ⟨hk, .inr .refl⟩⟩
  · have ho := howner (show _ = some (.choice r) by rw [hk]; rfl)
    exact ⟨ho, e, x, subject, v, bs, b, child, ho, hx, hk, hb, hc, .refl⟩

/-- What stands below a sheltered part is sheltered, if the part itself may shelter it. -/
theorem Sheltered.under {part child : TreePart} (h : L.Sheltered P part)
    (hc : child ∈ L.state.store.below part) (hdown : ∀ h, P h part → P h child)
    (hown : ∀ h, L.owner? h = some part → L.state.store.Encloses h child → P h child) :
    L.Sheltered P child := by
  cases hn : child.node? with
  | none =>
    cases child with
    | expr | decl => cases hn
    | _ => trivial
  | some c =>
    have hself : child.node? = some child := by
      cases child with
      | expr | decl => rfl
      | _ => cases hn
    obtain ⟨m, hm, hmn⟩ := L.exists_mention hc hself
    have hallows := L.sound.allows part m hm
    cases part with
    | expr e =>
      rcases h with hs | ⟨g, ht, hg⟩
      · obtain ⟨e', rfl, hs'⟩ := L.sound.settled_child hs ⟨m, hm, hmn⟩
        exact .inl hs'
      · simp only [Entries.Allows, ht] at hallows
        refine sheltered_of_fits hallows hmn (fun h hh => hdown h (hg h hh)) ?_
        rintro inside e' rfl h hh
        cases hmn
        cases hx : L.state.store.expr? e with
        | none => simp [Store.below, hx] at hc
        | some x =>
          have hinside := encloses_inside hx ht
            (by simpa [Entries.mentions, Store.mentions, hx] using hm) hh
          exact hown h hinside.1 hinside.2
    | decl d =>
      obtain ⟨mark, hmark, hg⟩ := h
      simp only [Entries.Allows, hmark] at hallows
      refine sheltered_of_fits hallows hmn (fun h hh => ?_) ?_
      · rcases List.mem_append.1 hh with hh | hh
        · obtain ⟨t, ht, rfl⟩ := List.mem_map.1 hh
          have ho := (L.sound.targets hmark (Option.mem_toList.1 ht)).1
          exact hown _ ho ⟨d, ho, .single hc⟩
        · exact hdown h (hg h hh)
      · rintro inside e' rfl h hh
        cases hx : L.state.store.decl? d with
        | none => simp [Store.below, hx] at hc
        | some x =>
          have hnil : inside = [] :=
            Decl.inside (x := x) (by simpa [Entries.mentions, Store.mentions, hx] using hm)
          rw [hnil] at hh
          cases hh
    | _ => simp [Store.below] at hc

theorem sheltered_inFiles {s : Session} {L : Ledger σ false} (h : s.Recorded L) {part : TreePart}
    (hp : s.fragment.InFiles part) : L.Sheltered L.state.store.Encloses part := by
  induction hp with
  | @declaration file d hf hd =>
    obtain ⟨m, hm, hsub⟩ := h.declarations file hf d hd
    exact ⟨m, hm, fun a ha => by cases hsub ha⟩
  | note hf he => exact .inl (h.annotations _ hf _ he)
  | @under p q _ hq ih =>
    have hbelow : q ∈ L.state.store.below p := by
      rw [h.state]
      exact hq
    exact ih.under hbelow (fun _ he => he.under hbelow) fun _ _ he => he

theorem Sheltered.encloses (h : L.Sheltered P (.expr e))
    (hx : L.state.store.expr? e = some x) {holder : Holder}
    (hm : .uses holder ∈ x.kind.mentions) : P holder (.expr e) := by
  have hallows := L.sound.allows (.expr e) (.uses holder) (by
    simpa [Entries.mentions, Store.mentions, hx, Expr.mentions] using .inr (.inr hm))
  rcases h with hs | ⟨g, ht, hg⟩
  · simp only [Entries.Allows, show L.tint? e = _ from hs] at hallows
    exact hallows.elim
  · simp only [Entries.Allows, ht] at hallows
    exact hg holder hallows.2

theorem exists_of_holds (h : L.Holds holder (.expr e)) :
    ∃ x, L.state.store.expr? e = some x ∧ x.kind.holder? = some holder := by
  change _ ∈ ((L.state.store.expr? e).map (·.mentions)).getD [] at h
  cases hx : L.state.store.expr? e with
  | none => simp [hx] at h
  | some x => exact ⟨x, rfl, (Expr.holds_mem holder x).1 (by simpa [hx] using h)⟩

theorem owner_of_has (hopens : L.opens = []) {h : Holder} (hh : L.Has h) :
    ∃ part, L.owner? h = some part ∧ L.Holds h part :=
  L.sound.guarded.closed h hh (by simp [hopens])

end Ledger

namespace Session

theorem lowerModule_recorded (world : World) (config : Config) :
    match lowerModule world config with
    | .ok f => ∃ (s : Session) (L : Ledger ⟨world, config⟩ false), s.Recorded L ∧ f = s.fragment ∧
        L.opens = []
    | .error e => e.Mild world := by
  have hfiles := (recorded_start ⟨world, config⟩).lowerEach (List.Subset.refl world.tree.files)
  unfold lowerModule Session.lowerFiles
  rw [show (start world config).setting.world.tree.files = world.tree.files from rfl]
  rcases hr : (start world config).lowerEach world.tree.files with ⟨e | _, s⟩
  · rw [hr] at hfiles
    obtain ⟨_, _, _, he⟩ := hfiles
    exact he
  · rw [hr] at hfiles
    obtain ⟨L, _, hrec, hopens⟩ := hfiles
    have hfinish := hrec.finish
    dsimp only
    rcases hf : s.finish with ⟨e | f, s'⟩
    · rw [hf] at hfinish
      exact hfinish
    · rw [hf] at hfinish
      obtain ⟨hfrag, _, L', hrec', hopens'⟩ := hfinish
      exact ⟨s', L', hrec', hfrag, hopens'.trans hopens⟩

end Session

/-- Targets are never bound twice. In a lowered unit each one is bound, to an owner that points back
to it, and jumps and subjects in the files lie inside of what they refer to. -/
theorem targets_bound (world : World) (config : Config) :
    (∀ cause, lowerModule world config = .error (.alreadyBound cause) →
      ∃ name existing attempted, cause = .symbolBound name existing attempted) ∧
    ∀ f, lowerModule world config = .ok f →
      (∀ t x, f.store.functionTarget? t = some x → ∃ d y, x.owner = some d ∧
        f.store.decl? d = some y ∧ y.kind.isCallable) ∧
      (∀ t x, f.store.loopTarget? t = some x → ∃ e y condition body, x.owner = some e ∧
        f.store.expr? e = some y ∧
        (y.kind = .whileLoop t condition body ∨ y.kind = .doWhile t condition body)) ∧
      (∀ r x, f.store.whenRef? r = some x → ∃ e y subject subjectVariable branches,
        x.owner = some e ∧ f.store.expr? e = some y ∧
        y.kind = .choice (some r) subject subjectVariable branches) ∧
      ∀ e x, f.InFiles (.expr e) → f.store.expr? e = some x →
        (∀ t value, x.kind = .returnJump t value → f.store.Encloses (.function t) (.expr e)) ∧
        (∀ t, x.kind = .breakJump t ∨ x.kind = .continueJump t →
          f.store.Encloses (.loop t) (.expr e)) ∧
        ∀ r, x.kind = .whenSubject r → f.store.Encloses (.choice r) (.expr e) := by
  have hrec := Session.lowerModule_recorded world config
  refine ⟨fun cause hc => ?_, fun f hf => ?_⟩
  · rw [hc] at hrec
    exact hrec.bound cause rfl
  rw [hf] at hrec
  obtain ⟨s, L, hrec, rfl, hopens⟩ := hrec
  have hstore : s.fragment.store = L.state.store := by rw [hrec.state]; rfl
  rw [hstore]
  refine ⟨fun t x hx => ?_, fun t x hx => ?_, fun r x hx => ?_, fun e x hp hx => ?_⟩
  · obtain ⟨part, ho, hh⟩ := L.owner_of_has hopens (h := .function t) (Option.isSome_of_mem hx)
    simp only [Entries.owner?, Store.owner?, hx, Option.bind_some, Option.map_eq_some_iff] at ho
    obtain ⟨d, hd, rfl⟩ := ho
    obtain ⟨m, t', hm, ht, he⟩ := hh
    obtain ⟨_, y, hy, hc⟩ := L.sound.targets hm ht
    exact ⟨d, y, hd, hy, hc⟩
  · obtain ⟨part, ho, hh⟩ := L.owner_of_has hopens (h := .loop t) (Option.isSome_of_mem hx)
    simp only [Entries.owner?, Store.owner?, hx, Option.bind_some, Option.map_eq_some_iff] at ho
    obtain ⟨e, he, rfl⟩ := ho
    obtain ⟨y, hy, hk⟩ := L.exists_of_holds hh
    obtain ⟨c, b, hk⟩ := ExprKind.loop_of_holder? hk
    exact ⟨e, y, c, b, he, hy, hk⟩
  · obtain ⟨part, ho, hh⟩ := L.owner_of_has hopens (h := .choice r) (Option.isSome_of_mem hx)
    simp only [Entries.owner?, Store.owner?, hx, Option.bind_some, Option.map_eq_some_iff] at ho
    obtain ⟨e, he, rfl⟩ := ho
    obtain ⟨y, hy, hk⟩ := L.exists_of_holds hh
    obtain ⟨subject, v, bs, hk⟩ := ExprKind.choice_of_holder? hk
    exact ⟨e, y, subject, v, bs, he, hy, hk⟩
  · have hs := L.sheltered_inFiles hrec hp
    refine ⟨fun t value hk => ?_, fun t hk => ?_, fun r hk => ?_⟩
    · exact hs.encloses hx (by simp [hk, ExprKind.mentions])
    · rcases hk with hk | hk
      · exact hs.encloses hx (by simp [hk, ExprKind.mentions])
      · exact hs.encloses hx (by simp [hk, ExprKind.mentions])
    · exact hs.encloses hx (by simp [hk, ExprKind.mentions])

end TypedTree
