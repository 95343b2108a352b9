import TypedTree.Proofs.Pass.Destructuring

namespace TypedTree.Tandem.Lawful

open Lower

variable {Stage : Type} [Preorder Stage] {T : Tandem Stage} {w : Stage} {g : Region}
  (hT : T.Lawful) {d : Descent} (hd : T.Descends d) {s1 s2 : Scope} (hs : T.scopes g w s1 s2)

include hT hd hs

/-- The condition of a loop that tests first lies outside of it. -/
theorem lowerWhile {condition body : Option NodeId} (hc : ∀ n ∈ condition, T.Finds n)
    (hb : ∀ n ∈ body, T.Finds n) {label : Option Name} :
    T.SameIn w s1 s2 (lowerWhile d · condition body label) (T.exprs g) := by
  refine Does.bind (hT.lowerOptional hd hs hc) fun w1 _ _ h1 hec => ?_
  refine Runs.bind hT.newLoopTarget fun w2 t1 t2 h2 hnew => ?_
  obtain ⟨hopen, ht⟩ := hnew
  have hin := (scopes_later (h1.trans h2) hs).mono (T.ids_mono (le_refl w2))
    (List.subset_cons_self (.loop t1, .loop t2) g)
  refine Runs.bind (hT.lowerBody hd (.cons (.loop ht (by simp)) hin) hb) fun w3 _ _ h3 heb => ?_
  refine Runs.bind hT.unitType fun w4 _ _ h4 hτ => ?_
  have hopen4 := hτ.1.trans (heb.1.trans hopen)
  exact hT.addLoop hopen4 hτ.2 (.whileLoop ((T.ids_mono (h3.trans h4)).holder ht)
    (part_later ((h2.trans h3).trans h4) (.inl hec)) (part_later h4 (.inl heb.2)))
    (by simp [ExprKind.mentions])

theorem lowerDoWhile {body condition : Option NodeId} (hb : ∀ n ∈ body, T.Finds n)
    (hc : ∀ n ∈ condition, T.Finds n) {label : Option Name} :
    T.SameIn w s1 s2 (lowerDoWhile d · body condition label) (T.exprs g) := by
  refine Runs.bind hT.newLoopTarget fun w1 t1 t2 h1 hnew => ?_
  obtain ⟨hopen, ht⟩ := hnew
  have hin : T.scopes ((.loop t1, .loop t2) :: g) w1 (.loop t1 :: s1) (.loop t2 :: s2) :=
    .cons (.loop ht (by simp)) (hs.mono (T.ids_mono h1) (List.subset_cons_self _ g))
  refine Runs.bind (hT.lowerBody hd hin hb) fun w2 _ _ h2 heb => ?_
  refine Runs.bind (hT.lowerOptional hd (scopes_later h2 hin) hc) fun w3 _ _ h3 hec => ?_
  refine Runs.bind hT.unitType fun w4 _ _ h4 hτ => ?_
  have hopen4 := hτ.1.trans (hec.1.trans (heb.1.trans hopen))
  exact hT.addLoop hopen4 hτ.2 (.doWhile ((T.ids_mono ((h2.trans h3).trans h4)).holder ht)
    (part_later h4 (.inl hec.2)) (part_later (h3.trans h4) (.inl heb.2)))
    (by simp [ExprKind.mentions])

theorem lowerLoopParameter {parameter : NodeId} (hp : T.Finds parameter) {e1 e2 : ExprId}
    (he : T.parts g w e1 e2) :
    T.Does w (lowerLoopParameter d s1 parameter e1) (lowerLoopParameter d s2 parameter e2)
      (T.statements g) := by
  refine hT.node_bind hp fun n _ hn => ?_
  split
  next destructuring _ hkind =>
    have hentries : T.Finds destructuring :=
      hn _ (by simp [hkind, NodeKind.refs, Reference.node?, Reference.nodes])
    refine hT.destructuredEntries_bind hentries fun entries hall => ?_
    refine Does.bind (hT.hold he) fun w1 _ _ h1 ht => ?_
    exact Does.bind (hT.lowerComponents hd (scopes_later h1 hs) ht hall) fun w2 _ _ h2 hss =>
      Does.pure (.cons (temporaries_stable h2 ht).statement hss)
  next annotations hkind =>
    have hnotes : ∀ m ∈ annotations, T.Finds m := fun m hm =>
      hn _ (by simp [hkind, NodeKind.refs, Reference.node?, Reference.nodes, hm])
    refine hT.declared_bind hp fun desc _ hdesc => ?_
    refine Does.bind (hT.symbolFor hdesc) fun w1 _ _ h1 hsym => ?_
    refine Does.bind (hT.elementType hdesc (part_later h1 he)) fun w2 _ _ h2 hτ => ?_
    refine Does.bind (hT.annotationEntries hnotes) fun w3 _ _ h3 hcalls => ?_
    exact Does.bind (hT.declare (symbols_stable (h2.trans h3) hsym) hcalls
      (.property (types_stable h3 hτ) .none .none .nil
        (.some (part_later ((h1.trans h2).trans h3) he)) .none .none .none))
      fun _ _ _ _ hx => Does.pure (.cons (.declaration hx) .nil)
  next => exact hT.unexpected hp

/-- The iterator and the test lie outside of the loop; what takes the next element lies inside. -/
theorem lowerFor {id parameter range : NodeId} (hid : T.Finds id) (hp : T.Finds parameter)
    (hr : T.Finds range) {body : Option NodeId} (hb : ∀ n ∈ body, T.Finds n) {label : Option Name} :
    T.SameIn w s1 s2 (lowerFor d · id parameter range body label) (T.exprs g) := by
  refine facts_bind fun hf => hT.required_bind hid fun calls hcalls => ?_
  have hknown : T.world.Knows calls.refs := fun r hr => hf r (by simp [NodeFacts.refs, hcalls, hr])
  simp only [LoopCalls.refs, List.forall_mem_append] at hknown
  obtain ⟨⟨hiterator, htest⟩, hnext⟩ := hknown
  refine Does.bind (hd.expr hs hr) fun w1 _ _ h1 her => ?_
  refine Does.bind (hT.convert (hiterator _ (by simp [ResolvedCall.refs]))) fun w2 _ _ h2 hτi => ?_
  refine Does.bind (hT.callOn hd (scopes_later (h1.trans h2) hs) hiterator hτi
    (part_later h2 (.inl her)) .nil) fun w3 _ _ h3 hei => ?_
  refine Does.bind (hT.hold (.inl hei)) fun w4 i1 i2 h4 hi => ?_
  refine Does.bind (hT.readTemporary (k := g) hi) fun w5 _ _ h5 hread => ?_
  refine Does.bind hT.booleanType fun w6 _ _ h6 hτb => ?_
  have hs6 := scopes_later (((((h1.trans h2).trans h3).trans h4).trans h5).trans h6) hs
  refine Does.bind (hT.callOn hd hs6 htest hτb (part_later h6 (.inl hread)) .nil)
    fun w7 _ _ h7 hcond => ?_
  refine Runs.bind hT.newLoopTarget fun w8 t1 t2 h8 hnew => ?_
  obtain ⟨hopen, ht⟩ := hnew
  have hi8 := temporaries_stable (((h5.trans h6).trans h7).trans h8) hi
  have hin : T.scopes ((.loop t1, .loop t2) :: g) w8 (.loop t1 :: s1) (.loop t2 :: s2) :=
    .cons (.loop ht (by simp))
      (hs6.mono (T.ids_mono (h7.trans h8)) (List.subset_cons_self _ g))
  refine Runs.bind (hT.readTemporary (k := (.loop t1, .loop t2) :: g) hi8)
    fun w9 _ _ h9 hread' => ?_
  refine Runs.bind (hT.convert (hnext _ (by simp [ResolvedCall.refs]))) fun v1 _ _ k1 hτn => ?_
  refine Runs.bind (hT.callOn hd (scopes_later (h9.trans k1) hin) hnext hτn.2
    (part_later k1 (.inl hread'.2)) .nil) fun v2 _ _ k2 hen => ?_
  have hin2 := scopes_later ((h9.trans k1).trans k2) hin
  refine Runs.bind (hT.lowerLoopParameter hd hin2 hp (.inl hen.2)) fun v3 _ _ k3 hels => ?_
  refine Runs.bind (hT.lowerBody hd (scopes_later k3 hin2) hb) fun v4 _ _ k4 heb => ?_
  refine Runs.bind (hT.splice (.inl heb.2)) fun v5 _ _ k5 hss => ?_
  refine Runs.bind (hT.block (List.rel_append (statements_later (k4.trans k5) hels.2) hss.2))
    fun v6 _ _ k6 hblock => ?_
  refine Runs.bind hT.unitType fun v7 _ _ k7 hτu => ?_
  have hopen7 := hτu.1.trans (hblock.1.trans (hss.1.trans (heb.1.trans (hels.1.trans
    (hen.1.trans (hτn.1.trans (hread'.1.trans hopen)))))))
  have h87 := (((((h9.trans k1).trans k2).trans k3).trans k4).trans k5).trans (k6.trans k7)
  refine Runs.bind (hT.addLoop hopen7 hτu.2 (.whileLoop ((T.ids_mono h87).holder ht)
    (part_later (h8.trans h87) (.inl hcond)) (part_later k7 (.inl hblock.2)))
    (by simp [ExprKind.mentions])) fun v8 _ _ k8 hloop => ?_
  have hi' := temporaries_stable (h87.trans k8) hi8
  exact Runs.imp (hT.block (.cons hi'.statement (.cons (.expression (.inl hloop.2)) .nil)))
    fun _ _ _ _ h => ⟨h.1.trans hloop.1, h.2⟩

end TypedTree.Tandem.Lawful
