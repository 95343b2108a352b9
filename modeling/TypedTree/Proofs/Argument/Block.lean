import TypedTree.Proofs.Argument.Placement

namespace TypedTree

open Lower

namespace Machine

variable {m : Type → Type} [Monad m] {Value : Type} {M : Machine m Value} {store : Store}
  {φ : Locals Value} {e : ExprId}

theorem operand_eq
    (h : ∀ access, store.kind? e = some (.read access) → φ.lookup access.callee = none) :
    M.operand store φ e = M.operand store [] e := by
  unfold operand
  split
  next hkind => rw [h _ hkind, List.lookup_nil]
  all_goals rfl

theorem operand_read {t : Temporary} (hkind : store.kind? e = some (.read (.plain t.symbol)))
    (hvalue : φ.lookup t.symbol = some value) : M.operand store φ e = pure value := by
  simp [operand, hkind, Access.plain, hvalue]

theorem optionMapM_operand_eq (h : ∀ e, o = some e → M.operand store φ e = M.operand store [] e) :
    o.mapM (M.operand store φ) = o.mapM (M.operand store []) := by
  cases o with
  | none => rfl
  | some e => simp only [Option.mapM_some, h e rfl]

theorem receivers_eq
    (h : ∀ r, access.dispatchReceiver = some r ∨ access.extensionReceiver = some r →
      M.operand store φ r = M.operand store [] r) :
    M.receivers store φ access = M.receivers store [] access := by
  unfold receivers
  rw [optionMapM_operand_eq fun r hr => h r (.inl hr),
    optionMapM_operand_eq fun r hr => h r (.inr hr)]

end Machine

/-- The slots of a call, and the arguments that they stand for. -/
structure Layout (σ : Setting) (d : Descent) (scope : Scope) (call : ResolvedCall)
    (parameters : List DescId) (s s' : State) (ps : List Placed) (slots : List (Option ExprId))
    (arguments : Nat → Option ExprId) : Prop where
  le : s.Le s'
  fits : ∀ p ∈ ps, p.Fits σ d scope call parameters true s s'
  apart : ps.Pairwise fun p q => p.Apart q ∧ p.index ≠ q.index
  perm : (ps.map (·.index)).Perm (List.range ps.length)
  length : slots.length = ps.length
  slot : ∀ p ∈ ps, slots[p.index]? = some p.slot
  argument : ∀ p ∈ ps, arguments p.index = p.value

namespace Placed

variable {ps : List Placed} {slots : List (Option ExprId)}

theorem length_foldl_fill : (ps.foldl fill slots).length = slots.length := by
  induction ps generalizing slots with
  | nil => rfl
  | cons p ps ih => rw [List.foldl_cons, ih, fill, List.length_set]

theorem getElem?_foldl_fill_of_notMem (hi : i ∉ ps.map (·.index)) :
    (ps.foldl fill slots)[i]? = slots[i]? := by
  induction ps generalizing slots with
  | nil => rfl
  | cons p ps ih =>
    obtain ⟨hne, hi⟩ := List.ne_and_not_mem_of_not_mem_cons hi
    rw [List.foldl_cons, ih hi, fill, List.getElem?_set_ne hne.symm]

theorem getElem?_foldl_fill (hnodup : (ps.map (·.index)).Nodup) {p : Placed} (hp : p ∈ ps)
    (hlt : p.index < slots.length) : (ps.foldl fill slots)[p.index]? = some p.slot := by
  induction ps generalizing slots with
  | nil => cases hp
  | cons q ps ih =>
    obtain ⟨hq, hnodup⟩ := List.nodup_cons.1 hnodup
    rw [List.foldl_cons]
    rcases List.mem_cons.1 hp with rfl | hp
    · rw [getElem?_foldl_fill_of_notMem hq, fill, List.getElem?_set_self hlt]
    · exact ih hnodup hp (by rwa [fill, List.length_set])

theorem exists_arguments (hnodup : (ps.map (·.index)).Nodup) :
    ∃ arguments : Nat → Option ExprId, ∀ p ∈ ps, arguments p.index = p.value := by
  induction ps with
  | nil => exact ⟨fun _ => none, nofun⟩
  | cons q ps ih =>
    obtain ⟨hq, hnodup⟩ := List.nodup_cons.1 hnodup
    obtain ⟨arguments, h⟩ := ih hnodup
    refine ⟨Function.update arguments q.index q.value, List.forall_mem_cons.2 ⟨?_, fun p hp => ?_⟩⟩
    · exact Function.update_self ..
    · have hne : p.index ≠ q.index := fun he => hq (List.mem_map.2 ⟨p, hp, he⟩)
      rw [Function.update_of_ne hne, h p hp]

end Placed

namespace Layout

variable {σ : Setting} {d : Descent} {scope : Scope} {call : ResolvedCall}
  {parameters : List DescId} {s s' : State} {ps : List Placed} {slots : List (Option ExprId)}
  {arguments : Nat → Option ExprId} {m : Type → Type} [Monad m] {Value : Type}
  {M : Machine m Value} {φ : Locals Value}

theorem mono (h : Layout σ d scope call parameters s s' ps slots arguments) {s'' : State}
    (hle : s'.Le s'') : Layout σ d scope call parameters s s'' ps slots arguments where
  le := h.le.trans hle
  fits p hp := (h.fits p hp).mono hle
  apart := h.apart
  perm := h.perm
  length := h.length
  slot := h.slot
  argument := h.argument

/-- The block has temporaries for these arguments, with the values that they had. -/
structure Keeps (s s' : State) (ps : List Placed) (φ : Locals Value)
    (held : Nat → Option Value) : Prop where
  new : ∀ x ∈ φ, s'.Anonymous x.1 ∧ s.table.get? x.1 = none
  value : ∀ p ∈ ps, ∀ t read, p.kept = some (t, read) →
    ∃ v, φ.lookup t.symbol = some v ∧ held p.index = some v

/-- What the source reads stands for a descriptor, and so is no temporary. -/
theorem operand_of_named (hnew : ∀ x ∈ φ, s'.Anonymous x.1 ∧ s.table.get? x.1 = none) {e : ExprId}
    (he : s'.Named e) : M.operand s'.store φ e = M.operand s'.store [] e := by
  refine Machine.operand_eq fun access hread => List.lookup_eq_none_iff.2 fun x hx => ?_
  obtain ⟨y, hy, hkey⟩ := he
  obtain ⟨key, hkey⟩ := hkey access (by simpa [Store.kind?, hy] using hread)
  obtain ⟨_, _, _, hdesc⟩ := State.keyOf?_eq_some.1 hkey
  refine bne_iff_ne.2 fun hcallee => ?_
  rw [hcallee, (hnew x hx).1.2] at hdesc
  cases hdesc

/-- What is there before the temporaries does not read them. -/
theorem operand_of_built (hnew : ∀ x ∈ φ, s'.Anonymous x.1 ∧ s.table.get? x.1 = none) {e : ExprId}
    (hle : s.Le s') (he : s.Built e) : M.operand s'.store φ e = M.operand s'.store [] e := by
  refine Machine.operand_eq fun access hread => List.lookup_eq_none_iff.2 fun x hx => ?_
  obtain ⟨y, hy, hbuilt⟩ := he
  have hkind : s.store.kind? e = some y.kind := by simp [Store.kind?, hy]
  have hsome := hbuilt access (Option.some.inj ((hle.kind? hkind).symm.trans hread))
  refine bne_iff_ne.2 fun hcallee => ?_
  rw [hcallee, (hnew x hx).2] at hsome
  cases hsome

variable (h : Layout σ d scope call parameters s s' ps slots arguments)

include h

theorem moved_eq (hp : p ∈ ps) : s'.store.moved arguments p.index = p.kept.isSome := by
  rw [Store.moved, h.argument p hp]
  cases hkept : p.kept with
  | none => exact (h.fits p hp).stays rfl hkept
  | some kept =>
    obtain ⟨e, he, hmoves, _⟩ := (h.fits p hp).holds kept.1 kept.2 hkept
    simp [he, hmoves]

theorem exists_index (hi : i ∈ List.range ps.length) : ∃ p ∈ ps, p.index = i :=
  List.mem_map.1 (h.perm.mem_iff.2 hi)

variable [LawfulMonad m]

theorem slot_eq {held : Nat → Option Value} (hkeeps : Keeps s s' ps φ held) {p : Placed}
    (hp : p ∈ ps) : p.slot.mapM (M.operand s'.store φ) =
      settle (M.argument s'.store arguments) (s'.store.moved arguments) held p.index := by
  unfold settle Placed.slot
  rw [h.moved_eq hp]
  cases hkept : p.kept with
  | none =>
    rw [Machine.argument, h.argument p hp]
    exact Machine.optionMapM_operand_eq fun e he =>
      operand_of_named hkeeps.new ((h.fits p hp).named e he)
  | some kept =>
    obtain ⟨e, he, _, hholds, _⟩ := (h.fits p hp).holds kept.1 kept.2 hkept
    obtain ⟨v, hv, hheld⟩ := hkeeps.value p hp kept.1 kept.2 hkept
    simp [Machine.operand_read hholds.read.2 hv, hheld]

theorem call_eq (hkeeps : Keeps s s' ps φ held) {access : Access}
    (hreceivers : ∀ r, access.dispatchReceiver = some r ∨ access.extensionReceiver = some r →
      s.Built r) :
    M.call s'.store φ access slots = (do
      let receivers ← M.receivers s'.store [] access
      let values ← (List.range ps.length).mapM
        (settle (M.argument s'.store arguments) (s'.store.moved arguments) held)
      M.invoke access.callee access.typeArguments receivers values) := by
  have hvalues : slots.map (·.mapM (M.operand s'.store φ)) = (List.range ps.length).map
      (settle (M.argument s'.store arguments) (s'.store.moved arguments) held) := by
    refine List.ext_getElem (by simp [h.length]) fun i hi _ => ?_
    obtain ⟨p, hp, rfl⟩ := h.exists_index (i := i) (by simpa [h.length] using hi)
    have hslot := List.getElem?_eq_some_iff.1 (h.slot p hp)
    simp only [List.getElem_map, List.getElem_range, hslot.2]
    exact h.slot_eq hkeeps hp
  have hslots := congrArg (List.mapM id) hvalues
  simp only [List.mapM_map, Function.id_comp] at hslots
  unfold Machine.call
  rw [Machine.receivers_eq fun r hr => operand_of_built hkeeps.new h.le (hreceivers r hr)]
  exact bind_congr fun _ => congrArg (· >>= _) hslots

/-- The temporaries of a block are its moved arguments. -/
theorem block_eq (hcall : s'.store.kind? c = some (.call access slots))
    (hreceivers : ∀ r, access.dispatchReceiver = some r ∨ access.extensionReceiver = some r →
      s.Built r)
    {done rest : List Placed} (hps : done ++ rest = ps) {held : Nat → Option Value}
    (hkeeps : Keeps s s' done φ held) :
    M.block s'.store φ (rest.filterMap Placed.statement? ++ [.expression c]) = (do
      let held ← ((rest.map (·.index)).filter (s'.store.moved arguments)).foldlM
        (record (M.argument s'.store arguments)) held
      let receivers ← M.receivers s'.store [] access
      let values ← (List.range ps.length).mapM
        (settle (M.argument s'.store arguments) (s'.store.moved arguments) held)
      M.invoke access.callee access.typeArguments receivers values) := by
  induction rest generalizing done φ held with
  | nil =>
    rw [List.append_nil] at hps
    subst hps
    have hlast : M.block s'.store φ [.expression c] = M.call s'.store φ access slots := by
      simp only [Machine.block, Machine.expression, hcall]
    simpa using hlast.trans (h.call_eq hkeeps hreceivers)
  | cons p rest ih =>
    have hp : p ∈ ps := by simp [← hps]
    have hpairs := hps ▸ h.apart
    have hdone (q : Placed) (hq : q ∈ done) : q.Apart p ∧ q.index ≠ p.index :=
      (List.pairwise_append.1 hpairs).2.2 q hq p (by simp)
    have hnext : done ++ [p] ++ rest = ps := by simp [← hps]
    have hmoved := h.moved_eq hp
    cases hkept : p.kept with
    | none =>
      have hstatement : p.statement? = none := by simp [Placed.statement?, hkept]
      rw [hkept] at hmoved
      simp only [List.filterMap_cons, hstatement, List.map_cons, List.filter_cons, hmoved]
      refine ih hnext ⟨hkeeps.new, fun q hq t read hq' => ?_⟩
      rcases List.mem_append.1 hq with hq | hq
      · exact hkeeps.value q hq t read hq'
      · cases List.mem_singleton.1 hq
        cases hkept.symm.trans hq'
    | some kept =>
      obtain ⟨t, read⟩ := kept
      obtain ⟨e, he, _, hholds, _⟩ := (h.fits p hp).holds t read hkept
      have hstatement : p.statement? = some (.declaration t.decl) := by
        simp [Placed.statement?, hkept, Temporary.statement]
      have hvalue : M.argument s'.store arguments p.index = some <$> M.operand s'.store φ e := by
        rw [Machine.argument, h.argument p hp, he,
          operand_of_named hkeeps.new ((h.fits p hp).named e he)]
        rfl
      rw [hkept] at hmoved
      simp only [List.filterMap_cons, hstatement, List.map_cons, List.filter_cons, hmoved,
        Option.isSome_some, if_true, List.cons_append, Machine.block, hholds.held.decl,
        PropertyDecl.localValue, List.foldlM_cons, record, hvalue, bind_assoc, pure_bind,
        bind_map_left]
      refine bind_congr fun v => ih hnext ⟨?_, fun q hq t' read' hq' => ?_⟩
      · exact List.forall_mem_cons.2 ⟨⟨hholds.held.anonymous, hholds.fresh⟩, hkeeps.new⟩
      rcases List.mem_append.1 hq with hq | hq
      · obtain ⟨hapart, hne⟩ := hdone q hq
        obtain ⟨v', hv', hheld⟩ := hkeeps.value q hq t' read' hq'
        have hsymbol := hapart t' read' t read hq' hkept
        exact ⟨v', by rw [lookup_cons_of_ne hsymbol, hv'], by rw [Function.update_of_ne hne, hheld]⟩
      · cases List.mem_singleton.1 hq
        cases hkept.symm.trans hq'
        exact ⟨v, List.lookup_cons_self, Function.update_self ..⟩

theorem block_eq_asBuilt (hcall : s'.store.kind? c = some (.call access slots))
    (hreceivers : ∀ r, access.dispatchReceiver = some r ∨ access.extensionReceiver = some r →
      s.Built r) :
    M.block s'.store [] (ps.filterMap Placed.statement? ++ [.expression c]) =
      M.asBuilt s'.store access (ps.map (·.index)) arguments := by
  have hkeeps : Keeps s s' [] ([] : Locals Value) fun _ => none := ⟨nofun, nofun⟩
  rw [h.block_eq hcall hreceivers (List.nil_append ps) hkeeps, Machine.asBuilt, List.length_map]

end Layout

end TypedTree
