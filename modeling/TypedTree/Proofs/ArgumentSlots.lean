import Mathlib.Data.List.Pairwise
import TypedTree.Proofs.ArgumentOrder
import TypedTree.Proofs.Visits

namespace TypedTree

open Lower

theorem hasDescent_eq_false (h : order.Pairwise (· < ·)) : hasDescent order = false := by
  induction order with
  | nil => rfl
  | cons a order ih =>
    obtain ⟨ha, horder⟩ := List.pairwise_cons.1 h
    cases order with
    | nil => rfl
    | cons b order =>
      have hab : a < b := ha b (by simp)
      simp [hasDescent, ih horder, Nat.le_of_lt hab]

namespace ResolvedCall

/-- The order lists positions of arguments, each of them once, and leaves no argument out but those
that the call leaves out. -/
structure Lists (call : ResolvedCall) (order : List Nat) : Prop where
  nodup : order.Nodup
  lt_length : ∀ i ∈ order, i < call.arguments.length
  covers : ∀ i argument, call.arguments[i]? = some argument → argument ≠ .omitted → i ∈ order

theorem Lists.evaluationOrder {call : ResolvedCall} (h : call.order = [] ∨ call.Lists call.order) :
    call.Lists call.evaluationOrder := by
  unfold ResolvedCall.evaluationOrder
  split
  next =>
    refine ⟨List.nodup_range, fun i hi => List.mem_range.1 hi, fun i argument hi _ => ?_⟩
    exact List.mem_range.2 (List.getElem?_eq_some_iff.1 hi).1
  next hne => exact h.resolve_left fun hempty => hne (List.isEmpty_iff.2 hempty)

/-- What becomes of the arguments of a call between two states: the values that they are lowered to,
the temporaries that some of the values are kept in, and the reads of those. -/
structure Places (σ : Setting) (d : Descent) (scope : Scope) (call : ResolvedCall) (s s' : State)
    (before : List Statement) (slots : List (Option ExprId)) (values : Nat → Option ExprId)
    (kept : Nat → Option (Temporary × ExprId)) : Prop where
  length : slots.length = call.arguments.length
  lowered : ∀ i (argument : ValueArgument), call.arguments[i]? = some argument →
    argument.Lowered σ d scope s s' (values i)
  slot : ∀ i < call.arguments.length, slots[i]? = some ((kept i).elim (values i) (some ·.2))
  holds : ∀ i t read, kept i = some (t, read) → ∃ e, values i = some e ∧
    State.Holds s s' t e read
  apart : ∀ i j t t' read read', kept i = some (t, read) → kept j = some (t', read') →
    t.symbol = t'.symbol → i = j
  before : before = call.evaluationOrder.filterMap fun i => (kept i).map (·.1.statement)

/-- A slot is empty only where there is nothing to pass. -/
theorem Places.slot_eq_none_iff {σ : Setting} {d : Descent} {scope : Scope} {call : ResolvedCall}
    {s s' : State} {before : List Statement} {slots : List (Option ExprId)}
    {values : Nat → Option ExprId} {kept : Nat → Option (Temporary × ExprId)}
    (h : Places σ d scope call s s' before slots values kept) {i : Nat} {argument : ValueArgument}
    (hi : call.arguments[i]? = some argument) :
    slots[i]? = some none ↔ argument = .omitted ∨ argument = .vararg [] := by
  rw [h.slot i (List.getElem?_eq_some_iff.1 hi).1, ← (h.lowered i argument hi).eq_none_iff]
  cases hkept : kept i with
  | none => simp
  | some k =>
    obtain ⟨e, he, _⟩ := h.holds i k.1 k.2 hkept
    simp [he]

end ResolvedCall

namespace Placed

variable {ps : List Placed}

def at? (ps : List Placed) (i : Nat) : Option Placed := ps.find? (·.index == i)

theorem at?_eq_some (h : at? ps i = some p) : p ∈ ps ∧ p.index = i :=
  ⟨List.mem_of_find?_eq_some h, by simpa using List.find?_some h⟩

theorem at?_index (hnodup : (ps.map (·.index)).Nodup) {p : Placed} (hp : p ∈ ps) :
    at? ps p.index = some p := by
  cases hq : at? ps p.index with
  | none => simpa using List.find?_eq_none.1 hq p hp
  | some q =>
    obtain ⟨hmem, hindex⟩ := at?_eq_some hq
    rw [List.inj_on_of_nodup_map hnodup hmem hp hindex]

end Placed

theorem Yields.placesArguments (hd : d.Naming σ) {scope : Scope} {call : ResolvedCall}
    (hlists : call.Lists call.evaluationOrder) :
    Brings σ s (Lower.lowerArguments d scope call) fun s' built =>
      ∃ values kept, call.Places σ d scope s s' built.1 built.2 values kept ∧
        ∀ i, (kept i).isSome → σ.config.reorderArguments = true ∧ call.isReordered = true := by
  refine .descriptor_bind fun candidate _ => .read_bind ?_
  refine (placeArguments hd hlists.lt_length (by simp)).imp ?_
  rintro s' _ _ ⟨ps, hps, hfits, hapart, rfl⟩
  have hnodup : (ps.map (·.index)).Nodup := hps ▸ hlists.nodup
  have hkept {i : Nat} {t : Temporary} {read : ExprId}
      (h : (Placed.at? ps i).bind (·.kept) = some (t, read)) :
      ∃ p ∈ ps, p.index = i ∧ Placed.at? ps i = some p ∧ p.kept = some (t, read) := by
    obtain ⟨p, hp, hkept⟩ := Option.bind_eq_some_iff.1 h
    exact ⟨p, (Placed.at?_eq_some hp).1, (Placed.at?_eq_some hp).2, hp, hkept⟩
  refine ⟨fun i => (Placed.at? ps i).bind (·.value), fun i => (Placed.at? ps i).bind (·.kept),
    ⟨?_, fun i argument hi => ?_, fun i hi => ?_, fun i t read h => ?_,
      fun i j t t' read read' h h' he => ?_, ?_⟩, fun i h => ?_⟩
  · rw [Placed.length_foldl_fill, List.length_replicate]
  · cases hp : Placed.at? ps i with
    | none =>
      have homitted : argument = .omitted := by
        by_contra hne
        obtain ⟨p, hmem, hindex⟩ := List.mem_map.1 (hps ▸ hlists.covers i argument hi hne)
        cases hp.symm.trans (hindex ▸ Placed.at?_index hnodup hmem)
      rw [homitted]
      exact .omitted
    | some p =>
      obtain ⟨hmem, rfl⟩ := Placed.at?_eq_some hp
      obtain ⟨_, _, _, hi', _, _, _, hlowered⟩ := (hfits p hmem).lowered
      cases hi.symm.trans hi'
      exact hlowered
  · cases hp : Placed.at? ps i with
    | none =>
      have hout : i ∉ ps.map (·.index) := fun hi => by
        obtain ⟨p, hmem, rfl⟩ := List.mem_map.1 hi
        cases hp.symm.trans (Placed.at?_index hnodup hmem)
      rw [Placed.getElem?_foldl_fill_of_notMem hout]
      simp [hi]
    | some p =>
      obtain ⟨hmem, rfl⟩ := Placed.at?_eq_some hp
      rw [Placed.getElem?_foldl_fill hnodup hmem (by simpa using hi), Placed.slot]
      cases hk : p.kept <;> simp [hk]
  · obtain ⟨p, hmem, rfl, hp, hk⟩ := hkept h
    obtain ⟨e, he, _, hholds, _⟩ := (hfits p hmem).holds t read hk
    exact ⟨e, by simp [hp, he], hholds⟩
  · obtain ⟨p, hmem, rfl, _, hk⟩ := hkept h
    obtain ⟨q, hmem', rfl, _, hk'⟩ := hkept h'
    by_contra hne
    have hsymm : Std.Symm Placed.Apart :=
      ⟨fun _ _ h t r t' r' ht ht' he => h t' r' t r ht' ht he.symm⟩
    exact hapart.forall hmem hmem' (fun heq => hne (congrArg _ heq)) t read t' read' hk hk' he
  · rw [List.nil_append, ← hps, List.filterMap_map]
    refine List.filterMap_congr fun p hp => ?_
    simp [Placed.at?_index hnodup hp, Placed.statement?]
  · obtain ⟨⟨t, read⟩, h⟩ := Option.isSome_iff_exists.1 h
    obtain ⟨p, hmem, _, _, hk⟩ := hkept h
    obtain ⟨_, _, _, _, hreorder⟩ := (hfits p hmem).holds t read hk
    exact Bool.and_eq_true_iff.1 hreorder

/-- No argument is lost, doubled or misplaced. The arguments and the elements of varargs are lowered
in the order of their evaluation, each of them once. Each slot has its argument or a read of a
temporary that holds it, and the temporaries come first, in that order. -/
theorem State.places_lowerArguments {σ : Setting} {s s' : State} (hs : s.Apt σ) {fuel : Nat}
    {scope : Scope} {call : ResolvedCall} {before : List Statement} {slots : List (Option ExprId)}
    (horder : call.order = [] ∨ call.Lists call.order)
    (hrun : (lowerArguments (descent fuel) scope call).runFrom σ s = (.ok (before, slots), s')) :
    Visits σ (call.argumentNodes.map (scope, ·)) (fun d => lowerArguments d scope call) ∧
    (∃ values kept, call.Places σ (descent fuel) scope s s' before slots values kept) ∧
    (∀ (i : Nat) (argument : ValueArgument), call.arguments[i]? = some argument →
      (slots[i]? = some none ↔ argument = .omitted ∨ argument = .vararg [])) ∧
    (σ.config.reorderArguments = false ∨ call.order.Pairwise (· < ·) → before = []) := by
  obtain ⟨values, kept, hplaced, hkept⟩ :=
    (Yields.placesArguments (Naming.descent fuel) (.evaluationOrder horder)).of_ran hs hrun
  refine ⟨.lowerArguments, ⟨values, kept, hplaced⟩,
    fun i argument hi => hplaced.slot_eq_none_iff hi, fun hstays => ?_⟩
  refine hplaced.before.trans (List.filterMap_eq_nil_iff.2 fun i _ =>
    Option.map_eq_none_iff.2 ?_)
  refine Option.not_isSome_iff_eq_none.1 fun hsome => ?_
  obtain ⟨hreorder, hreordered⟩ := hkept i hsome
  rcases hstays with hoff | hascending
  · cases hoff.symm.trans hreorder
  · cases (hasDescent_eq_false hascending).symm.trans hreordered

/-- The call `f(a = [*bump(), x])`, whose second argument is left out but has its turn first. -/
def spreadCall : ResolvedCall :=
  ⟨⟨13⟩, [], none, none, [.vararg [⟨⟨3⟩, true⟩, ⟨⟨2⟩, false⟩], .omitted], [1, 0], Builtin.unitType⟩

theorem State.places_lowerArguments_spreadCall :
    let σ : Setting := ⟨reorderedWorld, {}⟩
    let r := (lowerArguments (descent 8) [] spreadCall).runFrom σ {}
    State.Apt σ {} ∧ spreadCall.Lists spreadCall.order ∧
      Visits σ [([], ⟨3⟩), ([], ⟨2⟩)] (fun d => lowerArguments d [] spreadCall) ∧
      ∃ before slots values kept, r.1 = .ok (before, slots) ∧ slots[1]? = some none ∧
        before.length = 1 ∧
        spreadCall.Places σ (descent 8) [] {} r.2 before slots values kept := by
  intro σ r
  have hs : State.Apt σ {} := Apt.start σ
  have hlists : spreadCall.Lists spreadCall.order := by
    refine ⟨by decide, by decide, fun i argument hi hne => ?_⟩
    have hlt := (List.getElem?_eq_some_iff.1 hi).1
    exact (by decide : ∀ i < 2, i ∈ spreadCall.order) i hlt
  have hlength : r.1.toOption.map (·.1.length) = some 1 := by decide +kernel
  cases hr : r.1 with
  | error e =>
    rw [hr] at hlength
    cases hlength
  | ok built =>
    have hrun : r = (.ok (built.1, built.2), r.2) := by rw [← hr]
    rw [hr] at hlength
    obtain ⟨hvisits, ⟨values, kept, hplaces⟩, hnone, _⟩ :=
      @places_lowerArguments σ {} r.2 hs 8 [] spreadCall built.1 built.2 (.inr hlists) hrun
    exact ⟨hs, hlists, hvisits, built.1, built.2, values, kept, rfl, (hnone 1 _ rfl).2 (.inl rfl),
      Option.some.inj hlength, hplaces⟩

end TypedTree
