import TypedTree.Proofs.Pass.Call

namespace TypedTree.Tandem

open Lower

variable {Stage : Type} [Preorder Stage] (T : Tandem Stage)

/-- Places of one form whose parts stand for each other. -/
inductive places (g : Region) (w : Stage) : Place → Place → Prop
  | name {node : NodeId} : T.Finds node → places g w (.name node) (.name node)
  | member {selector : NodeId} {a b : Temporary} : T.Finds selector →
      T.temporaries g w a b → places g w (.member selector a) (.member selector b)
  | indexed {node : NodeId} {a b : Temporary} {xs ys : List Temporary} :
      T.Finds node → T.temporaries g w a b →
      List.Forall₂ (T.temporaries g w) xs ys →
      places g w (.indexed node a xs) (.indexed node b ys)
  | other {node : NodeId} : T.Finds node → places g w (.other node) (.other node)

variable {T} {w w' : Stage} {g : Region}

theorem places_later (h : w ≤ w') : T.places g w a b → T.places g w' a b
  | .name hn => .name hn
  | .member hn ht => .member hn (temporaries_stable h ht)
  | .indexed hn ht hts => .indexed hn (temporaries_stable h ht)
      (lists_stable temporaries_stable h hts)
  | .other hn => .other hn

theorem slots_of_exprs (h : List.Forall₂ (T.exprs g w) xs ys) :
    T.slots g w (xs.map some) (ys.map some) :=
  List.rel_map (fun _ _ he => .some (.inl he)) h

namespace Lawful

variable (hT : T.Lawful) {d : Descent} (hd : T.Descends d) {s1 s2 : Scope}
  (hs : T.scopes g w s1 s2)

include hT hd hs

theorem assignedAccess {name : NodeId} (hn : T.Finds name) {x1 x2 : Option ExprId}
    (hx : T.given g w x1 x2) :
    T.Does w (assignedAccess d s1 name x1) (assignedAccess d s2 name x2) (T.accesses g) := by
  refine facts_bind fun hf => ?_
  cases hcall : (T.world.factsOf name).call with
  | some call =>
    exact hT.buildAccess hd hs (fun r hr => hf r (by simp [NodeFacts.refs, hcall, hr])) hx
  | none =>
    refine hT.required_bind hn fun target htarget => ?_
    have hfound : T.world.Finds (.desc target) :=
      hf _ (by simp [NodeFacts.refs, htarget, Reference.desc?, Reference.descs])
    exact Does.bind (hT.symbolFor hfound) fun w1 _ _ h1 hsym =>
      Does.pure ⟨hsym, given_later h1 hx, .none, .nil⟩

theorem assignName {name : NodeId} (hn : T.Finds name) {v1 v2 : ExprId} (hv : T.parts g w v1 v2)
    {x1 x2 : Option ExprId} (hx : T.given g w x1 x2) :
    T.Does w (assignName d s1 name v1 x1) (assignName d s2 name v2 x2) (T.exprs g) := by
  refine Does.bind (hT.assignedAccess hd hs hn hx) fun w1 _ _ h1 ha => ?_
  refine Does.bind hT.unitType fun w2 _ _ h2 hτ => ?_
  exact hT.addExpr hτ (.assignment (accesses_later h2 ha) (part_later (h1.trans h2) hv)) rfl

theorem assignTo {target : NodeId} (ht : T.Finds target) {v1 v2 : ExprId} (hv : T.parts g w v1 v2) :
    T.Does w (assignTo d s1 target v1) (assignTo d s2 target v2) (T.exprs g) := by
  refine hT.node_bind ht fun n _ hn => ?_
  split
  next => exact hT.assignName hd hs ht hv .none
  next receiver selector hkind =>
    rw [hkind] at hn
    exact deparenthesize_bind (hn _ (by simp [NodeKind.refs])) fun hsel =>
      hT.assignName hd hs hsel hv .none
  next receiver selector hkind =>
    rw [hkind] at hn
    refine Does.bind (hT.safeReceiver hd hs (hn _ (by simp [NodeKind.refs])))
      fun w1 a b h1 hab => ?_
    refine deparenthesize_bind (hn _ (by simp [NodeKind.refs])) fun hsel => ?_
    refine Does.bind (hT.assignName hd (scopes_later h1 hs) hsel (part_later h1 hv)
      (.some hab.2)) fun w2 _ _ h2 hx => ?_
    refine Does.bind hT.unitType fun w3 _ _ h3 hτ => ?_
    exact hT.addExpr hτ (.safeCall (part_later (h2.trans h3) hab.1)
      (part_later (h2.trans h3) hab.2) (part_later h3 (.inl hx))) rfl
  next array indices hkind =>
    rw [hkind] at hn
    refine hT.indexedSet_bind ht fun set hset => ?_
    have hindices : T.SameIn w s1 s2 (fun s => indices.mapM (d.expr s)) fun w' =>
        List.Forall₂ (T.exprs g w') :=
      Does.mapM_same exprs_stable fun n hmem w' hle => hd.expr (scopes_later hle hs)
        (hn _ (by simp [NodeKind.refs, Reference.nodes, hmem]))
    refine Does.bind hindices fun w1 xs ys h1 hxy => ?_
    refine Does.bind hT.unitType fun w2 _ _ h2 hτ => ?_
    have hslots := List.rel_append (slots_later h2 (slots_of_exprs hxy))
      (.cons (.some (part_later (h1.trans h2) hv)) .nil)
    exact hT.buildCall hd (scopes_later (h1.trans h2) hs) hset hτ ⟨.none, .some hslots⟩
  next => exact hT.malformed

theorem captureIndexed {node array : NodeId} {indices : List NodeId} (hn : T.Finds node)
    (ha : T.Finds array) (hi : ∀ n ∈ indices, T.Finds n) :
    T.SameIn w s1 s2 (Place.captureIndexed d · node array indices) fun w' a b =>
      T.places g w' a.1 b.1 ∧ T.statements g w' a.2 b.2 := by
  refine Does.bind (hd.expr hs ha) fun w1 e1 e2 h1 he => ?_
  refine Does.bind (hT.hold (.inl he)) fun w2 t1 t2 h2 ht => ?_
  refine Does.bind (Does.mapM_same (temporaries_stable (T := T) (g := g)) fun x hx w' hle => ?_)
    fun w3 xs ys h3 hxy => ?_
  · have hmem : x.1 ∈ indices := List.fst_mem_of_mem_zipIdx hx
    exact Does.bind (hd.expr (scopes_later ((h1.trans h2).trans hle) hs) (hi _ hmem))
      fun _ _ _ _ he => hT.hold (.inl he)
  · have ht3 := temporaries_stable h3 ht
    exact Does.pure ⟨.indexed hn ht3 hxy,
      .cons ht3.statement (List.rel_map (fun _ _ h => h.statement) hxy)⟩

theorem capture {target : NodeId} (ht : T.Finds target) :
    T.SameIn w s1 s2 (Place.capture d · target) fun w' a b =>
      T.places g w' a.1 b.1 ∧ T.statements g w' a.2 b.2 := by
  refine hT.node_bind ht fun n _ hn => ?_
  split
  next => exact Does.pure ⟨.name ht, .nil⟩
  next receiver selector hkind =>
    rw [hkind] at hn
    refine Does.bind (hd.expr hs (hn _ (by simp [NodeKind.refs]))) fun w1 e1 e2 h1 he => ?_
    refine Does.bind (hT.hold (.inl he)) fun w2 t1 t2 h2 ht => ?_
    exact deparenthesize_bind (hn _ (by simp [NodeKind.refs])) fun hsel =>
      Does.pure ⟨.member hsel ht, .cons ht.statement .nil⟩
  next array indices hkind =>
    rw [hkind] at hn
    exact hT.captureIndexed hd hs ht (hn _ (by simp [NodeKind.refs]))
      fun n hmem => hn _ (by simp [NodeKind.refs, Reference.nodes, hmem])
  next => exact Does.pure ⟨.other ht, .nil⟩

omit hd hs

theorem readAll (h : List.Forall₂ (T.temporaries g w) xs ys) :
    T.Does w (xs.mapM (·.read)) (ys.mapM (·.read)) fun w' => List.Forall₂ (T.exprs g w') :=
  Does.mapM exprs_stable (le_refl w) (h.imp fun _ _ ht _ hle =>
    hT.readTemporary (temporaries_stable hle ht))

include hd hs

theorem readPlace {p1 p2 : Place} (hp : T.places g w p1 p2) :
    T.Does w (p1.read d s1) (p2.read d s2) (T.exprs g) := by
  cases hp with
  | name hn | other hn => exact hd.expr hs hn
  | member hn ht =>
    refine Does.bind (hT.readTemporary (k := g) ht) fun w1 _ _ h1 hr => ?_
    exact hT.lowerSelector hd (scopes_later h1 hs) hn ⟨.some (.inl hr), .none⟩
  | indexed hn ht hts =>
    refine hT.indexedGet_bind hn fun get hget => ?_
    refine Does.bind (hT.readTemporary (k := g) ht) fun w1 _ _ h1 hr => ?_
    refine Does.bind (hT.readAll (lists_stable temporaries_stable h1 hts))
      fun w2 _ _ h2 hxs => ?_
    refine Does.bind (hT.convert (hget _ (by simp [ResolvedCall.refs]))) fun w3 _ _ h3 hτ => ?_
    exact hT.callOn hd (scopes_later ((h1.trans h2).trans h3) hs) hget hτ
      (part_later (h2.trans h3) (.inl hr)) (slots_later h3 (slots_of_exprs hxs))

theorem storePlace {p1 p2 : Place} (hp : T.places g w p1 p2) {v1 v2 : ExprId}
    (hv : T.parts g w v1 v2) : T.Does w (p1.store d s1 v1) (p2.store d s2 v2) (T.exprs g) := by
  cases hp with
  | name hn | other hn => exact hT.assignTo hd hs hn hv
  | member hn ht =>
    refine Does.bind (hT.readTemporary (k := g) ht) fun w1 _ _ h1 hr => ?_
    exact hT.assignName hd (scopes_later h1 hs) hn (part_later h1 hv) (.some (.inl hr))
  | indexed hn ht hts =>
    refine hT.indexedSet_bind hn fun set hset => ?_
    refine Does.bind (hT.readTemporary (k := g) ht) fun w1 _ _ h1 hr => ?_
    refine Does.bind (hT.readAll (lists_stable temporaries_stable h1 hts))
      fun w2 _ _ h2 hxs => ?_
    refine Does.bind hT.unitType fun w3 _ _ h3 hτ => ?_
    have hslots := List.rel_append (slots_later h3 (slots_of_exprs hxs))
      (.cons (.some (part_later ((h1.trans h2).trans h3) hv)) .nil)
    exact hT.callOn hd (scopes_later ((h1.trans h2).trans h3) hs) hset hτ
      (part_later (h2.trans h3) (.inl hr)) hslots

end Lawful

end TypedTree.Tandem
