import TypedTree.Proofs.Pass.Operator

namespace TypedTree.Tandem

open Lower

variable {Stage : Type} [Preorder Stage] (T : Tandem Stage)

abbrev branches (inside g : Region) (w : Stage) : WhenBranch → WhenBranch → Prop :=
  WhenBranch.Alike (T.ids w) inside g

structure subjects (g : Region) (w : Stage) (a b : Subject) : Prop where
  value : T.given g w a.value b.value
  declaration : Option.Rel (T.decls g w) a.declaration b.declaration
  type : Option.Rel (T.types w) a.type b.type

variable {T} {w w' : Stage} {g i : Region}

theorem branches_stable : Stable (T.branches i g) := fun _ _ _ _ h hab =>
  hab.mono (T.ids_mono h) (List.Subset.refl g)

theorem subjects_stable : Stable (T.subjects g) := fun _ _ _ _ h hab =>
  ⟨given_later h hab.value, options_stable decls_stable h hab.declaration,
    options_stable types_stable h hab.type⟩

namespace Lawful

variable (hT : T.Lawful) {d : Descent} (hd : T.Descends d) {s1 s2 : Scope}
  (hs : T.scopes g w s1 s2)

include hT hd hs

theorem ifBranches {fuel : Nat} {id : NodeId} (hid : T.Finds id) :
    T.SameIn w s1 s2 (ifBranches d · fuel id) fun w' => List.Forall₂ (T.branches [] g w') := by
  induction fuel generalizing w id with
  | zero => exact hT.throw (by simp) (by simp)
  | succ fuel ih =>
    refine hT.node_bind hid fun n _ hn => ?_
    split
    next condition thenBranch elseBranch hkind =>
      simp only [hkind, NodeKind.refs, World.knows_refs] at hn
      refine Does.bind (hT.lowerOptional hd hs hn.1.1) fun w1 _ _ h1 hc => ?_
      refine Does.bind (hT.lowerBody hd (scopes_later h1 hs) hn.1.2) fun w2 _ _ h2 hr => ?_
      have hs2 := scopes_later (h1.trans h2) hs
      have hbranch : T.branches [] g w2 ⟨some _, _⟩ ⟨some _, _⟩ :=
        ⟨.some (part_later h2 (.inl hc)), .inl hr⟩
      cases elseBranch with
      | none => exact Does.pure (.cons hbranch .nil)
      | some otherwise =>
        refine deparenthesize_bind (hn.2 otherwise rfl) fun ho => hT.node_bind ho fun m _ _ => ?_
        split
        next =>
          exact Does.bind (ih hs2 ho) fun w3 _ _ h3 hrest =>
            Does.pure (.cons (branches_stable h3 hbranch) hrest)
        next =>
          refine Does.bind (hT.lowerBody hd hs2 (by simpa using ho)) fun w3 _ _ h3 hlast => ?_
          exact Does.pure (.cons (branches_stable h3 hbranch)
            (.cons ⟨.none, .inl hlast⟩ .nil))
    next => exact hT.unexpected hid

theorem lowerIf {id : NodeId} (hid : T.Finds id) :
    T.SameIn w s1 s2 (lowerIf d · id) (T.exprs g) := by
  refine Does.read_bind ?_
  refine Does.bind (hT.ifBranches hd hs hid) fun w1 _ _ _ hb => ?_
  exact Does.bind hT.expressionType fun w2 _ _ h2 hτ =>
    hT.addExpr hτ (.plainChoice .none .none (lists_stable branches_stable h2 hb)) rfl

theorem plainCondition {condition : WhenCondition} (hc : T.world.Knows condition.refs) :
    T.SameIn w s1 s2 (plainCondition d · condition) (T.exprs g) := by
  cases condition with
  | expression node =>
    exact hT.lowerOptional hd hs fun n hn =>
      hc _ (by simp [WhenCondition.refs, Reference.node?, Reference.nodes, Option.mem_def.1 hn])
  | inRange range negated | isPattern typeRef negated => exact hT.malformed

/-- A condition may use the subject, so it lies inside of the choice. -/
theorem subjectCondition {r1 r2 : WhenRefId} (hr : (T.ids w).holder (.choice r1) (.choice r2))
    (hmem : (.choice r1, .choice r2) ∈ g) {τ1 τ2 : TreeType} (hτ : T.types w τ1 τ2)
    {condition : WhenCondition} (hc : T.world.Knows condition.refs) :
    T.Does w (subjectCondition d s1 r1 τ1 condition) (subjectCondition d s2 r2 τ2 condition)
      (T.exprs g) := by
  refine Does.bind (hT.addExpr hτ (.whenSubject hr hmem) rfl) fun w1 _ _ h1 hsub => ?_
  refine Does.bind hT.booleanType fun w2 _ _ h2 hb => ?_
  have hs2 := scopes_later (h1.trans h2) hs
  have hsub2 : T.parts g w2 _ _ := part_later h2 (.inl hsub)
  cases condition with
  | expression node =>
    have hnode : ∀ n ∈ node, T.Finds n := fun n hn =>
      hc _ (by simp [WhenCondition.refs, Reference.node?, Reference.nodes, Option.mem_def.1 hn])
    refine Does.bind (hT.lowerOptional hd hs2 hnode) fun w3 _ _ h3 hv => ?_
    exact hT.addExpr (types_stable h3 hb)
      (.intrinsic (.cons (part_later h3 hsub2) (.cons (.inl hv) .nil))) rfl
  | inRange range negated =>
    refine facts_bind fun hf =>
      hT.required_bind (hc _ (by simp [WhenCondition.refs])) fun call hcall => ?_
    have hrefs : T.world.Knows call.refs := fun r hr =>
      hf r (by simp [NodeFacts.refs, hcall, hr])
    refine Does.bind (hT.buildCall hd hs2 hrefs hb ⟨.none, .some (.cons (.some hsub2) .nil)⟩)
      fun w3 _ _ h3 he => ?_
    split
    · exact hT.addExpr (types_stable h3 hb) (.intrinsic (.cons (.inl he) .nil)) rfl
    · exact Does.pure he
  | isPattern typeRef negated =>
    refine Does.bind (hT.writtenType (hc _ (by simp [WhenCondition.refs])))
      fun w3 _ _ h3 ho => ?_
    exact hT.addExpr (types_stable h3 hb) (.typeOperation (part_later h3 hsub2) ho) rfl

theorem lowerSubject {subject : Option WhenSubject} (hn : ∀ x ∈ subject, T.world.Knows x.refs) :
    T.SameIn w s1 s2 (lowerSubject d · subject) (T.subjects g) := by
  match subject, hn with
  | none, _ => exact Does.pure ⟨.none, .none, .none⟩
  | some (.expression node), hn =>
    refine Does.bind (hd.expr hs (hn _ rfl _ (by simp [WhenSubject.refs]))) fun w1 _ _ _ he => ?_
    exact Does.bind (hT.exprType (.inl he)) fun w2 _ _ h2 hτ =>
      Does.pure ⟨.some (part_later h2 (.inl he)), .none, .some hτ⟩
  | some (.declaration property), hn =>
    refine Does.bind (hd.decl hs (hn _ rfl _ (by simp [WhenSubject.refs]))) fun w1 _ _ _ hx => ?_
    exact Does.bind (hT.declaredType hx) fun w2 _ _ h2 hτ =>
      Does.pure ⟨.none, .some (decls_stable h2 hx), hτ⟩

omit hd hs

theorem joinConditions (hl : ∀ c ∈ conditions, ∀ w', w ≤ w' → T.Does w' (l1 c) (l2 c) (T.exprs g))
    {x1 x2 : Option ExprId} (hx : T.given g w x1 x2) :
    T.Does w (joinConditions l1 x1 conditions) (joinConditions l2 x2 conditions) (T.given g) := by
  induction conditions generalizing w x1 x2 with
  | nil =>
    cases hx with
    | none => exact Does.pure .none
    | some hx => exact Does.pure (.some hx)
  | cons c rest ih =>
    have hrest : ∀ {w'}, w ≤ w' → ∀ c ∈ rest, ∀ w'', w' ≤ w'' →
        T.Does w'' (l1 c) (l2 c) (T.exprs g) :=
      fun hle c hc w'' hle' => hl c (by simp [hc]) w'' (hle.trans hle')
    cases hx with
    | none =>
      exact Does.bind (hl c (by simp) w (le_refl w)) fun w1 _ _ h1 he =>
        ih (hrest h1) (.some (.inl he))
    | some hx =>
      refine Does.bind (hl c (by simp) w (le_refl w)) fun w1 _ _ h1 he => ?_
      refine Does.bind hT.booleanType fun w2 _ _ h2 hb => ?_
      refine Does.bind (hT.addExpr hb (.intrinsic (.cons (part_later (h1.trans h2) hx)
        (.cons (part_later h2 (.inl he)) .nil))) rfl) fun w3 _ _ h3 hboth => ?_
      exact ih (hrest ((h1.trans h2).trans h3)) (.some (.inl hboth))

include hd hs

theorem lowerWhenEntry {l1 l2 : WhenCondition → Lower ExprId} {entry : WhenEntry}
    (he : T.world.Knows entry.refs)
    (hl : ∀ c ∈ entry.conditions, ∀ w', w ≤ w' → T.Does w' (l1 c) (l2 c) (T.exprs (i ++ g))) :
    T.Does w (lowerWhenEntry d s1 l1 entry) (lowerWhenEntry d s2 l2 entry) (T.branches i g) := by
  have hbody : ∀ n ∈ entry.body, T.Finds n := fun n hn =>
    he _ (by simp [WhenEntry.refs, Reference.node?, Reference.nodes, Option.mem_def.1 hn])
  refine Does.bind (hT.lowerOptional hd hs hbody) fun w1 _ _ h1 hr => ?_
  split
  · exact Does.pure ⟨.none, .inl hr⟩
  · refine Does.bind (hT.joinConditions (fun c hc w' hle => hl c hc w' (h1.trans hle)) .none)
      fun w2 x1 x2 h2 hx => ?_
    cases hx with
    | some hx => exact Does.pure ⟨.some hx, part_later h2 (.inl hr)⟩
    | none =>
      exact Does.bind (hT.malformed (g := i ++ g)) fun w3 _ _ h3 hm =>
        Does.pure ⟨.some (.inl hm), part_later (h2.trans h3) (.inl hr)⟩

/-- The reference to the subject is open while the branches are lowered, and the choice closes
it. -/
theorem lowerWhen {id : NodeId} {subject : Option WhenSubject}
    (hsub : ∀ x ∈ subject, T.world.Knows x.refs) {entries : List WhenEntry}
    (hn : ∀ e ∈ entries, T.world.Knows e.refs) :
    T.SameIn w s1 s2 (lowerWhen d · id subject entries) (T.exprs g) := by
  have hcond : ∀ e ∈ entries, ∀ c ∈ e.conditions, T.world.Knows c.refs := fun e he c hc r hr =>
    hn e he r (by simp only [WhenEntry.refs, List.mem_append, List.mem_flatMap]; grind)
  refine Does.bind (hT.lowerSubject hd hs hsub) fun w1 x1 x2 h1 hx => ?_
  obtain ⟨v1, d1, type1⟩ := x1
  obtain ⟨v2, d2, type2⟩ := x2
  have hs1 := scopes_later h1 hs
  cases hx.type with
  | none =>
    refine Does.bind (Does.mapM_same (branches_stable (T := T) (g := g) (i := []))
      fun e he w' hle => hT.lowerWhenEntry hd (scopes_later hle hs1) (hn e he)
        fun c hc w'' hle' => hT.plainCondition hd (scopes_later (hle.trans hle') hs1)
          (hcond e he c hc)) fun w2 _ _ h2 hb => ?_
    refine Does.bind hT.expressionType fun w3 _ _ h3 hτ => ?_
    have hx3 := subjects_stable (h2.trans h3) hx
    exact hT.addExpr hτ (.plainChoice hx3.value hx3.declaration
      (lists_stable branches_stable h3 hb)) rfl
  | some htype =>
    refine Runs.bind hT.newWhenRef fun w2 r1 r2 h2 hnew => ?_
    obtain ⟨hopen, hr⟩ := hnew
    have hs2 := scopes_later h2 hs1
    refine Runs.bind (Does.mapM_same
      (branches_stable (T := T) (g := g) (i := [(.choice r1, .choice r2)]))
      fun e he w' hle => hT.lowerWhenEntry hd (scopes_later hle hs2) (hn e he)
        fun c hc w'' hle' => ?_) fun w3 _ _ h3 hb => ?_
    · have hin := (scopes_later (hle.trans hle') hs2).mono (T.ids_mono (le_refl w''))
        (List.subset_cons_self (.choice r1, .choice r2) g)
      exact hT.subjectCondition hd hin ((T.ids_mono (hle.trans hle')).holder hr) (by simp)
        (types_stable ((h2.trans hle).trans hle') htype) (hcond e he c hc)
    · refine Runs.bind hT.expressionType fun w4 _ _ h4 hτ => ?_
      have hx4 := subjects_stable ((h2.trans h3).trans h4) hx
      have hopen4 := hτ.1.trans (hb.1.trans hopen)
      exact hT.addChoice hopen4 hτ.2 (.choice ((T.ids_mono (h3.trans h4)).holder hr) hx4.value
        hx4.declaration (lists_stable branches_stable h4 hb.2)) (by simp [ExprKind.mentions])

end Lawful

end TypedTree.Tandem
