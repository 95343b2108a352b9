import TypedTree.Proofs.Pass.Block

namespace TypedTree.Tandem.Lawful

open Lower

variable {Stage : Type} [Preorder Stage] {T : Tandem Stage} {w : Stage} {g : Region}
  (hT : T.Lawful) {d : Descent} (hd : T.Descends d) {s1 s2 : Scope} (hs : T.scopes g w s1 s2)

abbrev functionsIn (T : Tandem Stage) (g : Region) (w : Stage) (a b : FunctionTargetId) : Prop :=
  (T.ids w).holder (.function a) (.function b) ∧ (.function a, .function b) ∈ g

abbrev loopsIn (T : Tandem Stage) (g : Region) (w : Stage) (a b : LoopTargetId) : Prop :=
  (T.ids w).holder (.loop a) (.loop b) ∧ (.loop a, .loop b) ∈ g

include hs

theorem innermostLoop : Option.Rel (loopsIn T g w) s1.innermostLoop s2.innermostLoop := by
  induction hs with
  | nil => exact .none
  | cons hf _ ih =>
    cases hf with
    | root | callee => exact ih
    | function _ _ => exact .none
    | loop ht hm => exact .some ⟨ht, hm⟩

include hT

theorem findFunction {p : FunctionTarget → Bool}
    (ha : ∀ x y : FunctionTarget, x.label = y.label → x.isLambda = y.isLambda → p x = p y) :
    ∃ x1 x2, Scope.findFunction (T.first w).store p s1 = .ok x1 ∧
      Scope.findFunction (T.second w).store p s2 = .ok x2 ∧
      Option.Rel (functionsIn T g w) x1 x2 := by
  induction hs with
  | nil => exact ⟨none, none, rfl, rfl, .none⟩
  | cons hf _ ih =>
    cases hf with
    | root | loop _ _ | callee => exact ih
    | @function t1 t2 ht hm =>
      obtain ⟨x1, x2, h1, h2, hlabel, hlambda⟩ := hT.functionTarget ht
      simp only [Scope.findFunction, h1, h2, ha x1 x2 hlabel hlambda]
      split
      · exact ⟨some t1, some t2, rfl, rfl, .some ⟨ht, hm⟩⟩
      · exact ih

theorem findLoop {n : Name} :
    ∃ x1 x2, Scope.findLoop (T.first w).store n s1 = .ok x1 ∧
      Scope.findLoop (T.second w).store n s2 = .ok x2 ∧
      Option.Rel (loopsIn T g w) x1 x2 := by
  induction hs with
  | nil => exact ⟨none, none, rfl, rfl, .none⟩
  | cons hf _ ih =>
    cases hf with
    | root | function _ _ | callee => exact ih
    | @loop t1 t2 ht hm =>
      obtain ⟨x1, x2, h1, h2, hlabel⟩ := hT.loopTarget ht
      simp only [Scope.findLoop, h1, h2, hlabel]
      split
      · exact ⟨some t1, some t2, rfl, rfl, .some ⟨ht, hm⟩⟩
      · exact ih

variable {α β : Type} {Q : Stage → α → β → Prop}

/-- A loop that a jump finds lies around it. -/
theorem loopTarget_bind {keyword : String} {label : Option Name} {span : Span}
    {k1 : LoopTargetId → Lower α} {k2 : LoopTargetId → Lower β}
    (hk : ∀ t1 t2, loopsIn T g w t1 t2 → T.Does w (k1 t1) (k2 t2) Q) :
    T.Does w (found (s1.loopTarget keyword label (T.first w).store span) >>= k1)
      (found (s2.loopTarget keyword label (T.second w).store span) >>= k2) Q := by
  unfold Scope.loopTarget
  cases label with
  | some label =>
    obtain ⟨x1, x2, h1, h2, hx⟩ := hT.findLoop hs (n := label)
    simp only [h1, h2]
    cases hx with
    | none => exact hT.throw (by simp) (by simp)
    | some ht => exact hk _ _ ht
  | none =>
    have hx := innermostLoop hs
    generalize s1.innermostLoop = x1, s2.innermostLoop = x2 at hx ⊢
    cases hx with
    | none => exact hT.throw (by simp) (by simp)
    | some ht => exact hk _ _ ht

theorem returnTarget_bind {label : Option Name} {span : Span} {k1 : FunctionTargetId → Lower α}
    {k2 : FunctionTargetId → Lower β}
    (hk : ∀ t1 t2, functionsIn T g w t1 t2 → T.Does w (k1 t1) (k2 t2) Q) :
    T.Does w (found (s1.returnTarget label (T.first w).store span) >>= k1)
      (found (s2.returnTarget label (T.second w).store span) >>= k2) Q := by
  unfold Scope.returnTarget
  cases label with
  | some label =>
    obtain ⟨x1, x2, h1, h2, hx⟩ := hT.findFunction hs
      (p := (·.label == some label)) fun x y hl _ => by simp [hl]
    simp only [h1, h2]
    cases hx with
    | none => exact hT.throw (by simp) (by simp)
    | some ht => exact hk _ _ ht
  | none =>
    obtain ⟨x1, x2, h1, h2, hx⟩ := hT.findFunction hs
      (p := (!·.isLambda)) fun x y _ hl => by simp [hl]
    simp only [h1, h2]
    cases hx with
    | none => exact hT.throw (by simp) (by simp)
    | some ht => exact hk _ _ ht

theorem lowerBreak {id : NodeId} (hid : T.Finds id) {label : Option Name} :
    T.SameIn w s1 s2 (lowerBreak · id label) (T.exprs g) := by
  refine hT.node_bind hid fun n _ _ => Does.get_bind ?_
  refine hT.loopTarget_bind hs fun t1 t2 ht => ?_
  exact Does.bind hT.nothingType fun w1 _ _ h1 hτ =>
    hT.addExpr hτ (.breakJump ((T.ids_mono h1).holder ht.1) ht.2) rfl

theorem lowerContinue {id : NodeId} (hid : T.Finds id) {label : Option Name} :
    T.SameIn w s1 s2 (lowerContinue · id label) (T.exprs g) := by
  refine hT.node_bind hid fun n _ _ => Does.get_bind ?_
  refine hT.loopTarget_bind hs fun t1 t2 ht => ?_
  exact Does.bind hT.nothingType fun w1 _ _ h1 hτ =>
    hT.addExpr hτ (.continueJump ((T.ids_mono h1).holder ht.1) ht.2) rfl

include hd

theorem returnedValue {value : Option NodeId} (hv : ∀ n ∈ value, T.Finds n) :
    T.SameIn w s1 s2 (returnedValue d · value) (T.exprs g) := by
  cases value with
  | none => exact hT.unitValue
  | some value => exact hd.expr hs (hv value rfl)

theorem lowerReturn {id : NodeId} (hid : T.Finds id) {label : Option Name} {value : Option NodeId}
    (hv : ∀ n ∈ value, T.Finds n) :
    T.SameIn w s1 s2 (lowerReturn d · id label value) (T.exprs g) := by
  refine hT.node_bind hid fun n _ _ => Does.get_bind ?_
  refine hT.returnTarget_bind hs fun t1 t2 ht => ?_
  refine Does.bind (hT.returnedValue hd hs hv) fun w1 _ _ h1 he => ?_
  exact Does.bind hT.nothingType fun w2 _ _ h2 hτ =>
    hT.addExpr hτ (.returnJump ((T.ids_mono (h1.trans h2)).holder ht.1) ht.2
      (part_later h2 (.inl he))) rfl

theorem lowerThrow {exception : Option NodeId} (he : ∀ n ∈ exception, T.Finds n) :
    T.SameIn w s1 s2 (lowerThrow d · exception) (T.exprs g) := by
  refine Does.bind (hT.lowerOptional hd hs he) fun w1 _ _ _ hx => ?_
  exact Does.bind hT.nothingType fun w2 _ _ h2 hτ =>
    hT.addExpr hτ (.throwing (part_later h2 (.inl hx))) rfl

end TypedTree.Tandem.Lawful
