import TypedTree.Proofs.Pass.Place

namespace TypedTree.Tandem.Lawful

open Lower

variable {Stage : Type} [Preorder Stage] {T : Tandem Stage} {w : Stage} {g : Region}
  (hT : T.Lawful) {d : Descent} (hd : T.Descends d) {s1 s2 : Scope} (hs : T.scopes g w s1 s2)

include hT hd hs

theorem lowerIndexedUpdate {id access array : NodeId} {indices : List NodeId}
    {right : Option NodeId} (hid : T.Finds id) (hac : T.Finds access) (har : T.Finds array)
    (hi : ∀ n ∈ indices, T.Finds n) (hr : ∀ n ∈ right, T.Finds n) :
    T.SameIn w s1 s2 (lowerIndexedUpdate d · id access array indices right) (T.exprs g) := by
  refine facts_bind fun hf => hT.required_bind hid fun op hop => ?_
  have hc : T.world.Knows op.refs := fun r hr => hf r (by simp [NodeFacts.refs, hop, hr])
  refine Does.bind (hT.captureIndexed hd hs hac har hi) fun w1 p1 p2 h1 hp => ?_
  have hs1 := scopes_later h1 hs
  refine Does.bind (hT.readPlace hd hs1 hp.1) fun w2 _ _ h2 hel => ?_
  have hs2 := scopes_later h2 hs1
  refine Does.bind (hT.lowerOptional hd hs2 hr) fun w3 _ _ h3 hv => ?_
  refine Does.bind (hT.convert (hc _ (by simp [ResolvedCall.refs]))) fun w4 _ _ h4 hτ => ?_
  have hs4 := scopes_later (h3.trans h4) hs2
  refine Does.bind (hT.callOn hd hs4 hc hτ (part_later (h3.trans h4) (.inl hel))
    (.cons (.some (part_later h4 (.inl hv))) .nil)) fun w5 _ _ h5 hu => ?_
  have h15 := ((h2.trans h3).trans h4).trans h5
  refine Does.bind (hT.storePlace hd (scopes_later h5 hs4) (places_later h15 hp.1) (.inl hu))
    fun w6 _ _ h6 hst => ?_
  exact hT.block (List.rel_append (statements_later (h15.trans h6) hp.2)
    (.cons (.expression (.inl hst)) .nil))

theorem lowerAssignment {id left : NodeId} {op : BinaryOp} {right : Option NodeId}
    (hid : T.Finds id) (hl : T.Finds left) (hr : ∀ n ∈ right, T.Finds n) :
    T.SameIn w s1 s2 (lowerAssignment d · id op left right) (T.exprs g) := by
  refine facts_bind fun hf => ?_
  have hcall : ∀ call, (T.world.factsOf id).call = some call → T.world.Knows call.refs :=
    fun call hcall r hr => hf r (by simp [NodeFacts.refs, hcall, hr])
  split
  · refine hT.required_bind hid fun call hc => ?_
    exact Does.bind hT.unitType fun w1 _ _ h1 hτ =>
      hT.buildCall hd (scopes_later h1 hs) (hcall call hc) hτ callParts_none
  · refine deparenthesize_bind hl fun htarget => hT.node_bind htarget fun n _ hn => ?_
    split
    next =>
      exact Does.bind (hT.lowerOptional hd hs hr) fun w1 _ _ h1 hv =>
        hT.assignTo hd (scopes_later h1 hs) htarget (.inl hv)
    next array indices hkind _ =>
      rw [hkind] at hn
      exact hT.lowerIndexedUpdate hd hs hid htarget (hn _ (by simp [NodeKind.refs]))
        (fun n hmem => hn _ (by simp [NodeKind.refs, Reference.nodes, hmem])) hr
    next =>
      refine hT.required_bind hid fun call hc => ?_
      have hrefs := hcall call hc
      refine Does.bind (hT.convert (hrefs _ (by simp [ResolvedCall.refs])))
        fun w1 _ _ h1 hτ => ?_
      refine Does.bind (hT.buildCall hd (scopes_later h1 hs) hrefs hτ callParts_none)
        fun w2 _ _ h2 hv => ?_
      exact hT.assignTo hd (scopes_later (h1.trans h2) hs) htarget (.inl hv)

omit hT hd hs in
theorem isName_places (h : T.places g w p1 p2) : p1.isName = p2.isName := by
  cases h <;> rfl

theorem lowerIncrement {id operand : NodeId} {prefixed : Bool} (hid : T.Finds id)
    (ho : T.Finds operand) :
    T.SameIn w s1 s2 (lowerIncrement d · id operand prefixed) (T.exprs g) := by
  refine deparenthesize_bind ho fun htarget => ?_
  refine facts_bind fun hf => hT.required_bind hid fun op hop => ?_
  have hc : T.world.Knows op.refs := fun r hr => hf r (by simp [NodeFacts.refs, hop, hr])
  refine Does.bind (hT.capture hd hs htarget) fun w1 p1 p2 h1 hp => ?_
  refine Does.bind (hT.readPlace hd (scopes_later h1 hs) hp.1) fun w2 _ _ h2 hv => ?_
  refine Does.bind (hT.hold (.inl hv)) fun w3 u1 u2 h3 hu => ?_
  refine Does.bind (hT.readTemporary (k := g) hu) fun w4 _ _ h4 hr => ?_
  refine Does.bind (hT.convert (hc _ (by simp [ResolvedCall.refs]))) fun w5 _ _ h5 hτ => ?_
  have h15 := ((h2.trans h3).trans h4).trans h5
  refine Does.bind (hT.callOn hd (scopes_later (h1.trans h15) hs) hc hτ
    (part_later h5 (.inl hr)) .nil) fun w6 v1 v2 h6 hup => ?_
  have h16 := h15.trans h6
  have hs6 := scopes_later (h1.trans h16) hs
  have hp6 := places_later h16 hp.1
  have hu6 := temporaries_stable ((h4.trans h5).trans h6) hu
  have hbefore : T.statements g w6 (p1.2 ++ [u1.statement]) (p2.2 ++ [u2.statement]) :=
    List.rel_append (statements_later h16 hp.2) (.cons hu6.statement .nil)
  rw [isName_places hp.1]
  split
  · refine Does.bind (hT.storePlace hd hs6 hp6 (.inl hup)) fun w7 _ _ h7 hst => ?_
    refine Does.bind (hT.readTemporary (k := g) (temporaries_stable h7 hu6))
      fun w8 _ _ h8 hres => ?_
    exact hT.block (List.rel_append (statements_later (h7.trans h8) hbefore)
      (.cons (.expression (part_later h8 (.inl hst))) (.cons (.expression (.inl hres)) .nil)))
  · split
    · refine Does.bind (hT.storePlace hd hs6 hp6 (.inl hup)) fun w7 _ _ h7 hst => ?_
      refine Does.bind (hT.readPlace hd (scopes_later h7 hs6) (places_later h7 hp6))
        fun w8 _ _ h8 hres => ?_
      exact hT.block (List.rel_append (statements_later (h7.trans h8) hbefore)
        (.cons (.expression (part_later h8 (.inl hst))) (.cons (.expression (.inl hres)) .nil)))
    · refine Does.bind (hT.hold (.inl hup)) fun w7 k1 k2 h7 hk => ?_
      refine Does.bind (hT.readTemporary (k := g) hk) fun w8 _ _ h8 hval => ?_
      have h68 := h7.trans h8
      refine Does.bind (hT.storePlace hd (scopes_later h68 hs6) (places_later h68 hp6)
        (.inl hval)) fun w9 _ _ h9 hst => ?_
      have hk9 := temporaries_stable (h8.trans h9) hk
      refine Does.bind (hT.readTemporary (k := g) hk9) fun w' _ _ h' hres => ?_
      exact hT.block (List.rel_append (statements_later ((h68.trans h9).trans h') hbefore)
        (.cons (temporaries_stable h' hk9).statement
          (.cons (.expression (part_later h' (.inl hst))) (.cons (.expression (.inl hres)) .nil))))

end TypedTree.Tandem.Lawful
