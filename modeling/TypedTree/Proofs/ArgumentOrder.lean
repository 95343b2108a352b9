import TypedTree.Proofs.Argument.Block

namespace TypedTree

open Lower

/-- What a call is built from: the callee with its receivers, and an expression for each argument
that is not left out. -/
structure ResolvedCall.Lowered (call : ResolvedCall) (σ : Setting) (d : Descent) (scope : Scope)
    (explicit : Option ExprId) (s s' : State) (access : Access)
    (arguments : Nat → Option ExprId) : Prop where
  access : ∃ s1, (buildAccess d scope call explicit).runFrom σ s = (.ok access, s1) ∧ s1.Le s'
  argument : ∀ i argument, call.arguments[i]? = some argument → ∃ candidate s1 s2,
    σ.world.descriptor? call.candidate = some candidate ∧ s.Le s1 ∧
    (lowerArgument d scope argument candidate.valueParameters[i]?).runFrom σ s1 =
      (.ok (arguments i), s2) ∧ s2.Le s'

namespace Yields

variable {σ : Setting} {s : State} {d : Descent} (hd : d.Naming σ) {scope : Scope}
  {call : ResolvedCall}

include hd in
/-- Out of order, the arguments that are moved come before the call, and the others are in their
slots. -/
theorem lowerArguments (hreorder : σ.config.reorderArguments = true)
    (hcall : call.isReordered = true)
    (hperm : call.order.Perm (List.range call.arguments.length)) {candidate : Descriptor}
    (hcandidate : σ.world.descriptor? call.candidate = some candidate) :
    Brings σ s (Lower.lowerArguments d scope call) fun s' built =>
      ∃ ps arguments, built.1 = ps.filterMap Placed.statement? ∧ ps.map (·.index) = call.order ∧
        Layout σ d scope call candidate.valueParameters s s' ps built.2 arguments := by
  have horder : call.evaluationOrder = call.order := by
    refine if_neg fun hempty => ?_
    rw [ResolvedCall.isReordered, List.isEmpty_iff.1 hempty] at hcall
    cases hcall
  have hindex (i : Nat) (hi : i ∈ call.order) : i < call.arguments.length :=
    List.mem_range.1 (hperm.mem_iff.1 hi)
  refine .descriptor_bind fun c hc => ?_
  cases hcandidate.symm.trans hc
  refine .read_bind ?_
  rw [horder, hreorder, hcall]
  refine (placeArguments hd hindex (by simp)).imp_le ?_
  rintro s' built hle ⟨ps, hps, hfits, hapart, rfl⟩
  have hnodup : (ps.map (·.index)).Nodup := hps ▸ hperm.nodup_iff.2 List.nodup_range
  have hlength : ps.length = call.arguments.length := by
    simpa [← hps] using hperm.length_eq
  obtain ⟨arguments, harguments⟩ := Placed.exists_arguments hnodup
  refine ⟨ps, arguments, by simp, hps, hle, hfits, hapart.and (List.pairwise_map.1 hnodup), ?_, ?_,
    fun p hp => Placed.getElem?_foldl_fill hnodup hp ?_, harguments⟩
  · rwa [hps, hlength]
  · rw [Placed.length_foldl_fill, List.length_replicate, hlength]
  · rw [List.length_replicate]
    exact hindex _ (hps ▸ List.mem_map_of_mem hp)

theorem withPrelude :
    Brings σ s (Lower.withPrelude before c) fun s' e =>
      before = [] ∧ e = c ∨ s'.store.kind? e = some (.block (before ++ [.expression c])) := by
  unfold Lower.withPrelude
  split
  next h => exact .pure (.inl ⟨List.isEmpty_iff.1 h, rfl⟩)
  next =>
    refine .bind (work Tidy.blockType) fun _ s1 _ _ _ => ?_
    refine (ran (work Tidy.addExpr)).imp fun s2 e _ ⟨⟨hrun, _⟩, _⟩ => .inr ?_
    cases hrun
    simp [Store.kind?, Store.expr?]

end Yields

theorem Machine.evaluate_eq_block {m : Type → Type} [Monad m] {Value : Type} (M : Machine m Value)
    {store : Store} {before : List Statement} {c e : ExprId} {access : Access}
    {slots : List (Option ExprId)} (hcall : store.kind? c = some (.call access slots))
    (he : before = [] ∧ e = c ∨ store.kind? e = some (.block (before ++ [.expression c]))) :
    M.evaluate store e = M.block store [] (before ++ [.expression c]) := by
  rcases he with ⟨rfl, rfl⟩ | he
  · simp [evaluate, block, hcall]
  · simp [evaluate, he]

/-- A call whose arguments are moved out of order, and what it does. -/
theorem Yields.buildCall (hd : d.Naming σ) {scope : Scope} {call : ResolvedCall} {type : TreeType}
    {parts : CallParts} (hreorder : σ.config.reorderArguments = true)
    (hcall : call.isReordered = true) (hperm : call.order.Perm (List.range call.arguments.length))
    (hcandidate : ∀ c, σ.world.descriptor? call.candidate = some c → isRead c = false)
    (hreceiver : ∀ r, parts.receiver = some r → s.Built r) (harguments : parts.arguments = none) :
    Brings σ s (Lower.buildCall d scope call type parts) fun s' e =>
      ∃ access arguments, call.Lowered σ d scope parts.receiver s s' access arguments ∧
        ∀ {m : Type → Type} [Monad m] [LawfulMonad m] {Value : Type} (M : Machine m Value),
          M.evaluate s'.store e = M.asBuilt s'.store access call.order arguments := by
  refine .bind (.ran (.buildAccess hd hreceiver))
    fun access s1 h1 _ ⟨⟨haccess, _⟩, hreceivers⟩ => ?_
  refine .descriptor_bind fun candidate hc => ?_
  rw [hcandidate candidate hc, harguments]
  refine .bind (.lowerArguments hd hreorder hcall hperm hc)
    fun ⟨before, slots⟩ s2 h2 _ ⟨ps, arguments, hbefore, hps, hlayout⟩ => ?_
  refine .bind (.ran (.work Tidy.addExpr)) fun c s3 h3 _ ⟨⟨hadd, _⟩, _⟩ => ?_
  refine Yields.withPrelude.imp_le fun s4 e h4 he => ?_
  have hlayout := hlayout.mono (h3.trans h4)
  have hkind : s4.store.kind? c = some (.call access slots) := by
    refine h4.kind? ?_
    cases hadd
    simp [Store.kind?, Store.expr?]
  refine ⟨access, arguments, ⟨⟨s1, haccess, hlayout.le⟩, fun i argument hi => ?_⟩, fun M => ?_⟩
  · have hmem : i ∈ ps.map (·.index) := by
      rw [hps, hperm.mem_iff, List.mem_range]
      exact (List.getElem?_eq_some_iff.1 hi).1
    obtain ⟨p, hp, rfl⟩ := List.mem_map.1 hmem
    obtain ⟨argument', s5, s6, hi', h5, hrun, h6, _⟩ := (hlayout.fits p hp).lowered
    cases hi.symm.trans hi'
    rw [hlayout.argument p hp]
    exact ⟨candidate, s5, s6, hc, h1.trans h5, hrun, h6⟩
  · dsimp only at hbefore
    rw [M.evaluate_eq_block hkind he, hbefore, hlayout.block_eq_asBuilt hkind hreceivers, hps]

/-- A call whose arguments are written out of order evaluates the arguments that are moved as they
are written, then its receivers, and then the arguments that stay. So it has the meaning of the
source if none of this makes a difference to the receivers and to the arguments that stay. -/
theorem State.evaluate_buildCall {σ : Setting} {s s' : State} (hs : s.Apt σ) {fuel : Nat}
    {scope : Scope} {call : ResolvedCall} {type : TreeType} {parts : CallParts} {e : ExprId}
    (hreorder : σ.config.reorderArguments = true) (hcall : call.isReordered = true)
    (hperm : call.order.Perm (List.range call.arguments.length))
    (hcandidate : ∀ c, σ.world.descriptor? call.candidate = some c → isRead c = false)
    (hreceiver : ∀ r, parts.receiver = some r → s.Built r) (harguments : parts.arguments = none)
    (hrun : (buildCall (descent fuel) scope call type parts).runFrom σ s = (.ok e, s')) :
    ∃ access arguments,
      call.Lowered σ (descent fuel) scope parts.receiver s s' access arguments ∧
      ∀ {m : Type → Type} [Monad m] [LawfulMonad m] {Value : Type} (M : Machine m Value),
        M.evaluate s'.store e = M.asBuilt s'.store access call.order arguments ∧
        (M.Orderly s'.store access call.order arguments →
          M.evaluate s'.store e = M.inOrder s'.store access call.order arguments) := by
  have hyields : Brings σ s (buildCall (descent fuel) scope call type parts) _ :=
    .buildCall (Naming.descent fuel) hreorder hcall hperm hcandidate hreceiver harguments
  have hbuilds := hyields hs
  rw [hrun] at hbuilds
  obtain ⟨access, arguments, hlowered, hbuilt⟩ := hbuilds.2.2 e rfl
  refine ⟨access, arguments, hlowered, fun M => ⟨hbuilt M, fun horderly => ?_⟩⟩
  have hlength : call.order.length = call.arguments.length := by simpa using hperm.length_eq
  rw [hbuilt M]
  exact Machine.asBuilt_eq_inOrder (by rwa [hlength]) horderly

/-- The call `f(b = x, a = bump())` of a function with the parameters `a` and `b`. -/
def reorderedCall : ResolvedCall :=
  ⟨⟨13⟩, [], none, none, [.expression ⟨3⟩, .expression ⟨2⟩], [1, 0], Builtin.unitType⟩

def reorderedWorld : World where
  tree :=
    { nodes := #[
        ⟨.call ⟨1⟩ [⟨2⟩, ⟨3⟩], .detached⟩,
        ⟨.nameReference "f", .detached⟩,
        ⟨.nameReference "x", .detached⟩,
        ⟨.call ⟨4⟩ [], .detached⟩,
        ⟨.nameReference "bump", .detached⟩]
      files := [] }
  facts := #[
    { type := some Builtin.unitType, call := some reorderedCall },
    {},
    { type := some Builtin.intType, target := some ⟨17⟩ },
    { type := some Builtin.intType
      call := some ⟨⟨16⟩, [], none, none, [], [], Builtin.intType⟩ },
    {}]
  declared := #[
    ⟨"f", [], none, .everywhere, [], .function
      { returnType := Builtin.unitType, valueParameters := [⟨14⟩, ⟨15⟩] }⟩,
    ⟨"a", [], some ⟨13⟩, .inBody, [],
      .valueParameter ⟨0, Builtin.intType, false, false, false, false⟩⟩,
    ⟨"b", [], some ⟨13⟩, .inBody, [],
      .valueParameter ⟨1, Builtin.intType, false, false, false, false⟩⟩,
    ⟨"bump", [], none, .everywhere, [], .function { returnType := Builtin.intType }⟩,
    ⟨"x", [], none, .everywhere, [], .property ⟨Builtin.intType, true, false, false, false, .final,
      none, none, [], none, none⟩⟩]
  types := #[]

/-- All that may have an effect counts, the variables hold what the reader gives, and a call writes
its arguments down as digits. -/
def Machine.counter (lookup : StateM Nat Nat) (h : Commutes lookup lookup) :
    Machine (StateM Nat) Nat where
  lookup _ := lookup
  constant _ := 0
  perform _ := modifyGet fun n => (n, n + 1)
  invoke _ _ _ values := pure (values.foldl (fun n v => 10 * n + v.getD 0) 0)
  unit := 0
  lookup_commutes _ _ := h

theorem State.evaluate_buildCall_reorderedWorld :
    let σ : Setting := ⟨reorderedWorld, {}⟩
    let r := (buildCall (descent 8) [] reorderedCall ⟨⟨0⟩, false, [], []⟩ {}).runFrom σ {}
    let M := Machine.counter (pure 7) rfl
    State.Apt σ {} ∧ reorderedCall.isReordered ∧
      reorderedCall.order.Perm (List.range reorderedCall.arguments.length) ∧
      ∃ e access arguments, r.1 = .ok e ∧
        reorderedCall.Lowered σ (descent 8) [] none {} r.2 access arguments ∧
        M.Orderly r.2.store access reorderedCall.order arguments ∧
        M.evaluate r.2.store e = M.inOrder r.2.store access reorderedCall.order arguments := by
  intro σ r M
  have hs : State.Apt σ {} := ⟨(Reachable.start σ).coherent, (Reachable.start σ).faithful⟩
  have hperm : reorderedCall.order.Perm (List.range reorderedCall.arguments.length) := by decide
  have hcandidate (c : Descriptor) (hc : σ.world.descriptor? reorderedCall.candidate = some c) :
      isRead c = false := by
    cases hc
    rfl
  have hreceiver (a : ExprId) (ha : (none : Option ExprId) = some a) : State.Built {} a := by
    cases ha
  have hok : r.1.toOption.isSome := by decide +kernel
  have haccess : ((buildAccess (descent 8) [] reorderedCall none).runFrom σ {}).1.toOption =
      some (.plain ⟨0⟩) := by decide +kernel
  refine ⟨hs, rfl, hperm, ?_⟩
  cases hr : r.1 with
  | error e =>
    rw [hr] at hok
    cases hok
  | ok e =>
    have hrun : r = (.ok e, r.2) := by rw [← hr]
    obtain ⟨access, arguments, hlowered, hevaluate⟩ := @evaluate_buildCall σ {} r.2 hs 8 []
      reorderedCall ⟨⟨0⟩, false, [], []⟩ {} e rfl rfl hperm hcandidate hreceiver rfl hrun
    obtain ⟨s1, hrun1, _⟩ := hlowered.access
    have hplain : access = .plain ⟨0⟩ := by
      rw [hrun1] at haccess
      exact Option.some.inj haccess
    have hstill (i : Nat) (hi : r.2.store.moved arguments i = false) {α : Type} (y : StateM Nat α) :
        Commutes (M.argument r.2.store arguments i) y := by
      refine (Commutes.optionMapM fun a ha => ?_).symm
      rw [Store.moved, ha, Option.any_some] at hi
      obtain ⟨v, hv⟩ | ⟨x, hx⟩ := Machine.operand_of_not_moves (M := M) hi []
      · rw [hv]
        exact .pure
      · rw [hx]
        exact .pure
    have horderly : M.Orderly r.2.store access reorderedCall.order arguments := by
      refine ⟨?_, .cons (fun j _ hi _ => hstill 1 hi _) (List.pairwise_singleton _ _)⟩
      rw [hplain]
      rintro _ (h | h) <;> cases h
    exact ⟨e, access, arguments, rfl, hlowered, horderly, (hevaluate M).2 horderly⟩

/-- A variable that is read in its place has the value that later arguments have given it, and not
the one that it had in its turn. If `bump` counts `x` up from 5 and gives 5, then the call
`f(b = x, a = bump())` passes 6 for `b`. -/
theorem State.evaluate_buildCall_lateRead :
    let r := (buildCall (descent 8) [] reorderedCall ⟨⟨0⟩, false, [], []⟩ {}).runFrom
      ⟨reorderedWorld, {}⟩ {}
    let M := Machine.counter get rfl
    let arguments (i : Nat) : Option ExprId := if i = 0 then some ⟨1⟩ else some ⟨0⟩
    r.2.store.kind? ⟨0⟩ = some (.read (.plain ⟨2⟩)) ∧ r.2.keyOf? ⟨2⟩ = some (.property, ⟨17⟩) ∧
      r.2.store.kind? ⟨1⟩ = some (.call (.plain ⟨3⟩) []) ∧
      r.2.keyOf? ⟨3⟩ = some (.function, ⟨16⟩) ∧ r.2.keyOf? ⟨0⟩ = some (.function, ⟨13⟩) ∧
      ∃ e, r.1 = .ok e ∧ ((M.evaluate r.2.store e).run 5).run = (56, 6) ∧
        ((M.inOrder r.2.store (.plain ⟨0⟩) reorderedCall.order arguments).run 5).run = (55, 6) := by
  intro r M arguments
  have hok : r.1.toOption = some ⟨4⟩ := by decide +kernel
  refine ⟨by decide +kernel, by decide +kernel, by decide +kernel, by decide +kernel,
    by decide +kernel, ⟨4⟩, ?_, by decide +kernel, by decide +kernel⟩
  cases hr : r.1 with
  | error e =>
    rw [hr] at hok
    cases hok
  | ok e =>
    rw [hr] at hok
    cases hok
    rfl

end TypedTree
