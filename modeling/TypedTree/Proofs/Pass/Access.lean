import TypedTree.Proofs.Pass.Block

namespace TypedTree.Tandem

open Lower

variable {Stage : Type} [Preorder Stage] (T : Tandem Stage)

abbrev parts (g : Region) (w : Stage) : ExprId → ExprId → Prop := (T.ids w).part g

abbrev given (g : Region) (w : Stage) : Option ExprId → Option ExprId → Prop :=
  Option.Rel (T.parts g w)

abbrev slots (g : Region) (w : Stage) : List (Option ExprId) → List (Option ExprId) → Prop :=
  List.Forall₂ (T.given g w)

abbrev accesses (g : Region) (w : Stage) : Access → Access → Prop := Access.Alike (T.ids w) g

structure callParts (g : Region) (w : Stage) (a b : CallParts) : Prop where
  receiver : T.given g w a.receiver b.receiver
  arguments : Option.Rel (T.slots g w) a.arguments b.arguments

/-- Temporaries, and the arguments that come after them. -/
abbrev preludes (g : Region) (w : Stage) (a b : List Statement × List (Option ExprId)) : Prop :=
  T.statements g w a.1 b.1 ∧ T.slots g w a.2 b.2

variable {T} {w w' : Stage} {g : Region}

theorem parts_stable : Stable (T.parts g) := fun _ _ _ _ h hab => part_later h hab

theorem given_stable : Stable (T.given g) := options_stable parts_stable

theorem given_later (h : w ≤ w') (hab : T.given g w a b) : T.given g w' a b :=
  given_stable h hab

theorem slots_later (h : w ≤ w') (hab : T.slots g w a b) : T.slots g w' a b :=
  lists_stable given_stable h hab

theorem accesses_later (h : w ≤ w') (hab : T.accesses g w a b) : T.accesses g w' a b :=
  hab.mono (T.ids_mono h) (List.Subset.refl g)

theorem callParts_later (h : w ≤ w') (hab : T.callParts g w a b) : T.callParts g w' a b :=
  ⟨given_later h hab.receiver,
    Option.rel_imp (fun _ _ => slots_later h) hab.arguments⟩

theorem callParts_none : T.callParts g w {} {} := ⟨.none, .none⟩

namespace Lawful

variable (hT : T.Lawful) {d : Descent} (hd : T.Descends d) {s1 s2 : Scope}
  (hs : T.scopes g w s1 s2)

include hT hd hs

theorem receiverExpr {r : Receiver} (hr : T.world.Knows r.refs) {x1 x2 : Option ExprId}
    (hx : T.given g w x1 x2) :
    T.Does w (receiverExpr d s1 r x1) (receiverExpr d s2 r x2) fun w' a b =>
      T.parts g w' a.1 b.1 ∧ T.given g w' a.2 b.2 := by
  cases r with
  | expression node =>
    cases hx with
    | none =>
      exact Does.bind (hd.expr hs (hr _ (by simp [Receiver.refs]))) fun _ _ _ _ he =>
        Does.pure ⟨.inl he, .none⟩
    | some he => exact Does.pure ⟨he, .none⟩
  | implicitThis enclosing type =>
    refine hT.descriptor_bind (hr _ (by simp [Receiver.refs])) fun _ _ _ => ?_
    refine Does.bind (hT.convert (hr _ (by simp [Receiver.refs]))) fun w1 _ _ h1 ht => ?_
    exact Does.bind (hT.addExpr ht .thisRef rfl) fun w2 _ _ h2 he =>
      Does.pure ⟨.inl he, given_later (h1.trans h2) hx⟩
  | extensionThis callable type =>
    refine hT.descriptor_bind (hr _ (by simp [Receiver.refs])) fun _ _ _ => ?_
    refine Does.bind (hT.convert (hr _ (by simp [Receiver.refs]))) fun w1 _ _ h1 ht => ?_
    exact Does.bind (hT.addExpr ht .thisRef rfl) fun w2 _ _ h2 he =>
      Does.pure ⟨.inl he, given_later (h1.trans h2) hx⟩
  | superOf type =>
    refine Does.bind (hT.convert (hr _ (by simp [Receiver.refs]))) fun w1 _ _ h1 ht => ?_
    exact Does.bind (hT.addExpr ht (.superRef (.some ht)) rfl) fun w2 _ _ h2 he =>
      Does.pure ⟨.inl he, given_later (h1.trans h2) hx⟩
  | classValue object type =>
    refine Does.bind (hT.symbolOf (hr _ (by simp [Receiver.refs])) ⟨by simp, by simp⟩)
      fun w1 _ _ h1 hsym => ?_
    refine Does.bind (hT.convert (hr _ (by simp [Receiver.refs]))) fun w2 _ _ h2 ht => ?_
    have hread := access_plain (g := g) (symbols_stable h2 hsym)
    exact Does.bind (hT.addExpr ht (.read hread) rfl) fun w3 _ _ h3 he =>
      Does.pure ⟨.inl he, given_later ((h1.trans h2).trans h3) hx⟩

theorem optionalReceiver {r : Option Receiver} (hr : ∀ x ∈ r, T.world.Knows x.refs)
    {x1 x2 : Option ExprId} (hx : T.given g w x1 x2) :
    T.Does w (optionalReceiver d s1 r x1) (optionalReceiver d s2 r x2) fun w' a b =>
      T.given g w' a.1 b.1 ∧ T.given g w' a.2 b.2 := by
  cases r with
  | none => exact Does.pure ⟨.none, hx⟩
  | some r =>
    exact Does.bind (hT.receiverExpr hd hs (hr r rfl) hx) fun _ _ _ _ h =>
      Does.pure ⟨.some h.1, h.2⟩

theorem buildAccess {call : ResolvedCall} (hc : T.world.Knows call.refs) {x1 x2 : Option ExprId}
    (hx : T.given g w x1 x2) :
    T.Does w (buildAccess d s1 call x1) (buildAccess d s2 call x2) (T.accesses g) := by
  have hextension : ∀ x ∈ call.extensionReceiver, T.world.Knows x.refs := fun x hx r hr =>
    hc r (by simp [ResolvedCall.refs, Option.mem_def.1 hx, hr])
  have hdispatch : ∀ x ∈ call.dispatchReceiver, T.world.Knows x.refs := fun x hx r hr =>
    hc r (by simp [ResolvedCall.refs, Option.mem_def.1 hx, hr])
  have htypes : ∀ id ∈ call.typeArguments, T.world.Finds (.type id) := fun id hid =>
    hc _ (by simp [ResolvedCall.refs, Reference.types, hid])
  refine Does.bind (hT.symbolFor (hc _ (by simp [ResolvedCall.refs]))) fun w1 _ _ h1 hsym => ?_
  refine Does.bind (hT.optionalReceiver hd (scopes_later h1 hs) hextension (given_later h1 hx))
    fun w2 a2 b2 h2 hext => ?_
  refine Does.bind (hT.optionalReceiver hd (scopes_later (h1.trans h2) hs) hdispatch hext.2)
    fun w3 a3 b3 h3 hdis => ?_
  refine Does.bind (hT.convertAll htypes) fun w4 ts1 ts2 h4 hts => ?_
  have hsym' := symbols_stable ((h2.trans h3).trans h4) hsym
  have hext' := given_later (h3.trans h4) hext.1
  have hdis' := given_later h4 hdis.1
  have hleft := given_later h4 hdis.2
  generalize a3.2 = left1, b3.2 = left2 at hleft ⊢
  cases hleft with
  | none => exact Does.pure ⟨hsym', hdis', hext', hts⟩
  | some he =>
    by_cases hsome : call.extensionReceiver.isSome
    · simp only [hsome, if_true]
      exact Does.pure ⟨hsym', hdis', .some he, hts⟩
    · simp only [hsome]
      exact Does.pure ⟨hsym', .some he, hext', hts⟩

end Lawful

end TypedTree.Tandem
