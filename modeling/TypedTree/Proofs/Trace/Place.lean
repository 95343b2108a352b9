import TypedTree.Proofs.Trace.Call

namespace TypedTree

open Desk Token Carries

instance : Carries Lower.Place := ⟨fun _ => 0, inferInstance⟩

@[simp] theorem tokens_place (p : Lower.Place) : tokens p = 0 := rfl

@[simp] theorem tokens_map_statement (ts : List Lower.Temporary) :
    tokens (ts.map (·.statement)) = 0 :=
  tokens_eq_zero fun _ h => by
    obtain ⟨_, _, rfl⟩ := List.mem_map.1 h
    rfl

/-- The variables of a place have types that fit. -/
def State.Placed (s : State) : Lower.Place → Prop
  | .name _ | .other _ => True
  | .member _ receiver => s.Fits receiver.type
  | .indexed _ array indices => s.Fits array.type ∧ ∀ t ∈ indices, s.Fits t.type

theorem State.Le.placed {s s' : State} (h : s.Le s') {p : Lower.Place} (hp : s.Placed p) :
    s'.Placed p := by
  cases p with
  | name _ | other _ => trivial
  | member _ _ => exact h.fits hp
  | indexed _ _ _ => exact ⟨h.fits hp.1, fun t ht => h.fits (hp.2 t ht)⟩

namespace Does

variable {σ : Setting} {s : State} {d : Descent} {scope : Scope} (hd : Descends σ d)

include hd

theorem assignedAccess :
    Does σ s (tokens receiver) (Lower.assignedAccess d scope name receiver)
      (fun s a => (∀ t ∈ a.typeArguments, s.Fits t) ∧ ∀ e ∈ receiver, a.Through e) tokens := by
  refine facts_bind ?_
  split
  next hcall => exact buildAccess hd (agrees_call hcall)
  next =>
    refine required_bind fun _ _ => Does.seq symbolFor fun _ _ _ _ => ?_
    exact pure ⟨by simp, fun _ => .inl⟩ (by simp)

theorem runsOn_assignName :
    Does σ s (tokens value + tokens receiver) (Lower.assignName d scope name value receiver)
      (fun s e => ∀ r ∈ receiver, s.store.RunsOn e r) tokens := by
  refine Does.bind (R := tokens value) (assignedAccess hd) (add_comm _ _) fun s1 a h1 ha => ?_
  refine Does.seq convert fun s2 τ h2 hτ => ?_
  have htypes : ∀ t ∈ a.typeArguments, s2.Fits t := fun t ht => h2.fits (ha.1 t ht)
  refine (addKind hτ (by simpa using htypes) (by simp [add_assoc])).imp (fun _ e _ he r hr => ?_)
    fun _ => le_rfl
  exact ⟨e, _, a, .inl rfl, he, rfl, ha.2 r hr⟩

theorem assignName :
    Does σ s (tokens value + tokens receiver) (Lower.assignName d scope name value receiver)
      anything tokens :=
  (runsOn_assignName hd).imp (fun _ _ _ _ => trivial) fun _ => le_rfl

theorem assignTo :
    Does σ s (tokens value) (Lower.assignTo d scope target value) anything tokens := by
  refine node_bind fun _ _ => ?_
  split
  next => exact (assignName hd).weaken (by simp)
  next => exact deparenthesize_bind ((assignName hd).weaken (by simp))
  next =>
    refine Does.seq (safeReceiver hd) fun s1 p _ _ => ?_
    obtain ⟨receiver, subject⟩ := p
    refine deparenthesize_bind ?_
    refine Does.bind (R := tokens receiver + {.subject subject receiver}) (runsOn_assignName hd)
      (by simp [safeTokens]; abel) fun s2 selector _ hruns => ?_
    exact Does.seq convert fun s3 τ h3 hτ =>
      addSafeCall hτ (h3.runsOn (hruns subject rfl)) (by simp; abel)
  next =>
    refine indexedSet_bind fun set hk => ?_
    refine Does.seq (mapM_each fun _ _ _ _ => hd.expr) fun s1 _ _ _ => ?_
    exact Does.seq convert fun s2 τ _ hτ => (buildCall hd hk hτ).weaken (by simp)
  next => exact malformed.weaken (Multiset.zero_le _)

namespace Place

theorem captureIndexed :
    Does σ s 0 (Lower.Place.captureIndexed d scope node array indices)
      (fun s p => s.Placed p.1) tokens := by
  refine Does.seq hd.expr fun s1 e _ _ => ?_
  refine Does.bind (R := 0) Temporary.hold rfl fun s2 array _ harray => ?_
  refine Does.seq (mapM_all (Q := fun s (t : Lower.Temporary) => s.Fits t.type)
    (fun h ht => h.fits ht) fun _ _ s' _ => ?_) fun s3 ts h3 hts => ?_
  · exact Does.seq hd.expr fun _ _ _ _ => Temporary.hold.weaken (by simp)
  · exact pure ⟨h3.fits harray, hts⟩ (by simp)

theorem capture :
    Does σ s 0 (Lower.Place.capture d scope target) (fun s p => s.Placed p.1) tokens := by
  refine node_bind fun _ _ => ?_
  split
  next => exact pure trivial (by simp)
  next =>
    refine Does.seq hd.expr fun s1 e _ _ => ?_
    refine Does.bind (R := 0) Temporary.hold rfl fun s2 receiver _ ht => ?_
    exact deparenthesize_bind (pure ht (by simp))
  next => exact captureIndexed hd
  next => exact pure trivial (by simp)

theorem read (hp : s.Placed p) : Does σ s 0 (p.read d scope) anything tokens := by
  cases p with
  | name node | other node => exact hd.expr
  | member selector receiver =>
    exact Does.seq (Temporary.read hp) fun _ _ _ _ => (lowerSelector hd).weaken (by simp)
  | indexed node array indices =>
    refine indexedGet_bind fun get hk => ?_
    refine Does.seq (Temporary.read hp.1) fun s1 _ h1 _ => ?_
    refine Does.seq (mapM_each fun t ht s' h' => Temporary.read
      ((h1.trans h').fits (hp.2 t ht))) fun s2 _ h2 _ => ?_
    exact Does.seq convert fun s3 τ _ hτ => (callOn hd hk hτ).weaken (by simp [add_comm])

theorem store (hp : s.Placed p) {value : ExprId} :
    Does σ s (tokens value) (p.store d scope value) anything tokens := by
  cases p with
  | name node | other node => exact assignTo hd
  | member selector receiver =>
    exact Does.seq (Temporary.read hp) fun _ _ _ _ => (assignName hd).weaken (by simp [add_comm])
  | indexed node array indices =>
    refine indexedSet_bind fun set hk => ?_
    refine Does.seq (Temporary.read hp.1) fun s1 _ h1 _ => ?_
    refine Does.seq (mapM_each fun t ht s' h' => Temporary.read
      ((h1.trans h').fits (hp.2 t ht))) fun s2 _ h2 _ => ?_
    exact Does.seq convert fun s3 τ _ hτ => (callOn hd hk hτ).weaken
      (le_of_eq (by simp; abel))

end Place

theorem lowerIndexedUpdate {id : NodeId} :
    Does σ s 0 (Lower.lowerIndexedUpdate d scope id access array indices right) anything
      tokens := by
  refine facts_bind (required_bind fun operator hcall => ?_)
  refine Does.seq (Place.captureIndexed hd) fun s1 p h1 hp => ?_
  obtain ⟨place, captured⟩ := p
  refine Does.seq (Place.read hd hp) fun s2 element h2 _ => ?_
  refine Does.seq (lowerOptional hd) fun s3 value h3 _ => ?_
  refine Does.seq convert fun s4 τ h4 hτ => ?_
  refine Does.bind (R := tokens captured) (callOn hd (agrees_call hcall) hτ) (by simp; abel)
    fun s5 updated h5 _ => ?_
  refine Does.bind (R := tokens captured)
    (Place.store hd ((h2.trans (h3.trans (h4.trans h5))).placed hp)) rfl fun s6 store _ _ => ?_
  exact block.weaken (by simp [add_comm])

theorem lowerAssignment {id : NodeId} :
    Does σ s 0 (Lower.lowerAssignment d scope id op left right) anything tokens := by
  refine facts_bind ?_
  split
  next =>
    refine required_bind fun call hcall => Does.seq convert fun _ _ _ hτ => ?_
    exact (buildCall hd (agrees_call hcall) hτ).weaken (by simp)
  next =>
    refine deparenthesize_bind (node_bind fun _ _ => ?_)
    split
    next => exact Does.seq (lowerOptional hd) fun _ _ _ _ => (assignTo hd).weaken (by simp)
    next => exact lowerIndexedUpdate hd
    next =>
      refine required_bind fun call hcall => Does.seq convert fun _ _ _ hτ => ?_
      refine Does.bind (R := 0) (buildCall hd (agrees_call hcall) hτ) (by simp) fun _ _ _ _ => ?_
      exact (assignTo hd).weaken (by simp)

theorem lowerIncrement {id : NodeId} :
    Does σ s 0 (Lower.lowerIncrement d scope id operand prefixed) anything tokens := by
  refine deparenthesize_bind (facts_bind (required_bind fun operator hcall => ?_))
  refine Does.seq (Place.capture hd) fun s1 p _ hp => ?_
  obtain ⟨place, captured⟩ := p
  refine Does.seq (Place.read hd hp) fun s2 e h2 _ => ?_
  refine Does.bind (R := tokens captured) Temporary.hold (by simp) fun s3 unary h3 hunary => ?_
  refine Does.seq (Temporary.read hunary) fun s4 receiver h4 _ => ?_
  refine Does.seq convert fun s5 τ h5 hτ => ?_
  refine Does.bind (R := tokens captured) (callOn hd (agrees_call hcall) hτ) (by simp)
    fun s6 updated h6 _ => ?_
  have hp6 := (h2.trans (h3.trans (h4.trans (h5.trans h6)))).placed hp
  split
  next =>
    refine Does.bind (R := tokens captured) (Place.store hd hp6) rfl fun s7 store h7 _ => ?_
    refine Does.seq (Temporary.read ((h4.trans (h5.trans (h6.trans h7))).fits hunary))
      fun s8 result _ _ => ?_
    exact block.weaken (le_of_eq (by simp; abel))
  next =>
    split
    next =>
      refine Does.bind (R := tokens captured) (Place.store hd hp6) rfl fun s7 store h7 _ => ?_
      refine Does.seq (Place.read hd (h7.placed hp6)) fun s8 result _ _ => ?_
      exact block.weaken (le_of_eq (by simp; abel))
    next =>
      refine Does.bind (R := tokens captured) Temporary.hold rfl fun s7 kept h7 hkept => ?_
      refine Does.seq (Temporary.read hkept) fun s8 value h8 _ => ?_
      refine Does.bind (R := tokens captured) (Place.store hd ((h7.trans h8).placed hp6)) (by simp)
        fun s9 store h9 _ => ?_
      refine Does.seq (Temporary.read ((h8.trans h9).fits hkept)) fun s10 result _ _ => ?_
      exact block.weaken (le_of_eq (by simp; abel))

end Does

end TypedTree
