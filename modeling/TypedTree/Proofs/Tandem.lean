import Mathlib.Order.Basic
import TypedTree.Proofs.AlikeDecl
import TypedTree.Proofs.Run

namespace TypedTree

/-- Two runs over one unit that go side by side; only the order of the files may differ. A stage is
what both have made so far, and what is known of it. -/
structure Tandem (Stage : Type) [Preorder Stage] where
  world : World
  config : Config
  firstFiles : List SourceFile
  secondFiles : List SourceFile
  first : Stage → State
  second : Stage → State
  /-- Which ids of the first run stand for which ids of the second one. -/
  ids : Stage → Correspondence
  /-- The holders that have no owner yet, innermost first. -/
  opens : Stage → Region
  /-- What a failure of the first run says. -/
  fails : Stage → LowerError → State → Prop
  /-- Failures that the second run may have alone. The stage shows it as if it had gone on. -/
  excused : Stage → LowerError → Prop
  ids_mono : ∀ {w w'}, w ≤ w' → (ids w).Le (ids w')
  fails_anti : ∀ {w w' e s}, w ≤ w' → fails w' e s → fails w e s
  excused_mono : ∀ {w w' e}, w ≤ w' → excused w e → excused w' e

namespace Tandem

variable {Stage : Type} [Preorder Stage] (T : Tandem Stage)

def firstSetting : Setting := ⟨{ T.world with tree.files := T.firstFiles }, T.config⟩

def secondSetting : Setting := ⟨{ T.world with tree.files := T.secondFiles }, T.config⟩

/-- What two runs that start at a stage lead to. -/
def Outcome {α β : Type} (w : Stage) (Q : Stage → α → β → Prop)
    (r1 : Except LowerError α × State) (r2 : Except LowerError β × State) : Prop :=
  match r1 with
  | (.error e, s) => T.fails w e s
  | (.ok a, s) => ∃ w' b, w ≤ w' ∧ T.first w' = s ∧ Q w' a b ∧
      (r2 = (.ok b, T.second w') ∨ ∃ e s', r2 = (.error e, s') ∧ T.excused w' e)

/-- Both steps run from a stage to one where their results are related. -/
def Runs {α β : Type} (w : Stage) (m1 : Lower α) (m2 : Lower β) (Q : Stage → α → β → Prop) :
    Prop :=
  T.Outcome w Q (m1.runFrom T.firstSetting (T.first w)) (m2.runFrom T.secondSetting (T.second w))

/-- Both steps run and leave the same holders without an owner. -/
def Does {α β : Type} (w : Stage) (m1 : Lower α) (m2 : Lower β) (Q : Stage → α → β → Prop) :
    Prop :=
  T.Runs w m1 m2 fun w' a b => T.opens w' = T.opens w ∧ Q w' a b

abbrev Same {α : Type} (w : Stage) (m : Lower α) (Q : Stage → α → α → Prop) : Prop :=
  T.Does w m m Q

/-- Both runs take the same step, each in a scope of its own. -/
abbrev SameIn {α : Type} (w : Stage) (s1 s2 : Scope) (m : Scope → Lower α)
    (Q : Stage → α → α → Prop) : Prop :=
  T.Does w (m s1) (m s2) Q

variable {T} {α β γ δ : Type} {w : Stage} {Q : Stage → α → β → Prop} {R : Stage → γ → δ → Prop}

theorem Runs.pure (h : Q w a b) : T.Runs w (pure a) (pure b) Q :=
  ⟨w, b, le_refl w, rfl, h, .inl rfl⟩

theorem Runs.imp (h : T.Runs w m1 m2 Q) (hQ : ∀ w' a b, w ≤ w' → Q w' a b → Q' w' a b) :
    T.Runs w m1 m2 Q' := by
  unfold Runs Outcome at h ⊢
  generalize m1.runFrom T.firstSetting (T.first w) = r1 at h ⊢
  obtain ⟨e | a, s⟩ := r1
  · exact h
  · obtain ⟨w', b, hle, hs, hab, hr⟩ := h
    exact ⟨w', b, hle, hs, hQ w' a b hle hab, hr⟩

/-- Runs follow each other. A second run that failed alone is followed as if it had gone on. -/
theorem Runs.bind (h : T.Runs w m1 m2 Q)
    (hk : ∀ w' a b, w ≤ w' → Q w' a b → T.Runs w' (k1 a) (k2 b) R) :
    T.Runs w (m1 >>= k1) (m2 >>= k2) R := by
  unfold Runs Outcome at h
  rcases hm : m1.runFrom T.firstSetting (T.first w) with ⟨e | a, s⟩
  · rw [hm] at h
    unfold Runs
    rw [Lower.runFrom_bind_error _ _ hm]
    exact h
  · rw [hm] at h
    obtain ⟨w', b, hle, hs, hab, hr⟩ := h
    have hk' := hk w' a b hle hab
    unfold Runs Outcome at hk'
    subst hs
    unfold Runs
    rw [Lower.runFrom_bind_ok _ _ hm]
    unfold Outcome
    rcases hn : (k1 a).runFrom T.firstSetting (T.first w') with ⟨e | c, t⟩
    · rw [hn] at hk'
      exact T.fails_anti hle hk'
    · rw [hn] at hk'
      obtain ⟨w'', d, hle', ht, hcd, hr'⟩ := hk'
      refine ⟨w'', d, hle.trans hle', ht, hcd, ?_⟩
      rcases hr with hr | ⟨e, s', hr, he⟩
      · rw [Lower.runFrom_bind_ok _ _ hr]
        exact hr'
      · rw [Lower.runFrom_bind_error _ _ hr]
        exact .inr ⟨e, s', rfl, T.excused_mono hle' he⟩

theorem Does.pure (h : Q w a b) : T.Does w (pure a) (pure b) Q :=
  Runs.pure ⟨rfl, h⟩

theorem Does.imp (h : T.Does w m1 m2 Q) (hQ : ∀ w' a b, w ≤ w' → Q w' a b → Q' w' a b) :
    T.Does w m1 m2 Q' :=
  Runs.imp h fun w' a b hle hab => ⟨hab.1, hQ w' a b hle hab.2⟩

theorem Does.bind (h : T.Does w m1 m2 Q)
    (hk : ∀ w' a b, w ≤ w' → Q w' a b → T.Does w' (k1 a) (k2 b) R) :
    T.Does w (m1 >>= k1) (m2 >>= k2) R := by
  refine Runs.bind h fun w' a b hle hab => ?_
  exact Runs.imp (hk w' a b hle hab.2) fun w'' c d _ hcd => ⟨hcd.1.trans hab.1, hcd.2⟩

theorem Does.get_bind (h : T.Does w (k1 (T.first w)) (k2 (T.second w)) R) :
    T.Does w (get >>= k1) (get >>= k2) R := by
  unfold Does Runs at h ⊢
  rwa [Lower.runFrom_bind_ok _ _ (Lower.runFrom_get _ _),
    Lower.runFrom_bind_ok _ _ (Lower.runFrom_get _ _)]

theorem Does.read_bind (h : T.Does w (k1 T.firstSetting) (k2 T.secondSetting) R) :
    T.Does w (read >>= k1) (read >>= k2) R := by
  unfold Does Runs at h ⊢
  rwa [Lower.runFrom_bind_ok _ _ (Lower.runFrom_read _ _),
    Lower.runFrom_bind_ok _ _ (Lower.runFrom_read _ _)]

def Stable (Q : Stage → α → β → Prop) : Prop := ∀ ⦃w w' a b⦄, w ≤ w' → Q w a b → Q w' a b

theorem Does.mapM (hR : Stable R) {xs : List α} {ys : List β} {f1 : α → Lower γ}
    {f2 : β → Lower δ} {w0 : Stage} (hw : w0 ≤ w)
    (h : List.Forall₂ (fun x y => ∀ w', w0 ≤ w' → T.Does w' (f1 x) (f2 y) R) xs ys) :
    T.Does w (xs.mapM f1) (ys.mapM f2) fun w' => List.Forall₂ (R w') := by
  induction h generalizing w with
  | nil => exact Does.pure .nil
  | cons hxy _ ih =>
    rw [List.mapM_cons, List.mapM_cons]
    refine Does.bind (hxy w hw) fun w1 c d hle hcd => ?_
    refine Does.bind (ih (hw.trans hle)) fun w2 cs ds hle' hcds => ?_
    exact Does.pure (.cons (hR hle' hcd) hcds)

theorem Does.mapM_same (hR : Stable R) {xs : List α} {f1 : α → Lower γ} {f2 : α → Lower δ}
    (h : ∀ x ∈ xs, ∀ w', w ≤ w' → T.Does w' (f1 x) (f2 x) R) :
    T.Does w (xs.mapM f1) (xs.mapM f2) fun w' => List.Forall₂ (R w') := by
  refine Does.mapM hR (le_refl w) ?_
  induction xs with
  | nil => exact .nil
  | cons x xs ih => exact .cons (h x (by simp)) (ih fun y hy => h y (by simp [hy]))

theorem Does.mapM_each (hR : Stable R) {P : α → Prop} {xs : List α} {f1 : α → Lower γ}
    {f2 : α → Lower δ}
    (h : ∀ x ∈ xs, ∀ w', w ≤ w' → T.Does w' (f1 x) (f2 x) fun w'' c d => R w'' c d ∧ P x) :
    T.Does w (xs.mapM f1) (xs.mapM f2) fun w' cs ds =>
      List.Forall₂ (R w') cs ds ∧ ∀ x ∈ xs, P x := by
  induction xs generalizing w with
  | nil => exact Does.pure ⟨.nil, by simp⟩
  | cons x xs ih =>
    rw [List.mapM_cons, List.mapM_cons]
    refine Does.bind (h x (by simp) w (le_refl w)) fun w1 c d hle hcd => ?_
    have hrest := ih fun y hy w' hle' => h y (by simp [hy]) w' (hle.trans hle')
    refine Does.bind hrest fun w2 cs ds hle' hcds => Does.pure ⟨?_, ?_⟩
    · exact .cons (hR hle' hcd.1) hcds.1
    · exact List.forall_mem_cons.2 ⟨hcd.2, hcds.2⟩

theorem Does.optionMapM {x : Option α} {f1 : α → Lower γ} {f2 : α → Lower δ}
    (h : ∀ a ∈ x, T.Does w (f1 a) (f2 a) R) :
    T.Does w (x.mapM f1) (x.mapM f2) fun w' => Option.Rel (R w') := by
  cases x with
  | none => exact Does.pure .none
  | some a =>
    change T.Does w (some <$> f1 a) (some <$> f2 a) _
    rw [map_eq_pure_bind, map_eq_pure_bind]
    exact Does.bind (h a rfl) fun w' c d _ hcd => Does.pure (.some hcd)

theorem Does.foldlM {P : Stage → γ → δ → Prop} {xs : List α} {f1 : γ → α → Lower γ}
    {f2 : δ → α → Lower δ} (hcd : P w c d)
    (h : ∀ x ∈ xs, ∀ w' c d, w ≤ w' → P w' c d → T.Does w' (f1 c x) (f2 d x) P) :
    T.Does w (xs.foldlM f1 c) (xs.foldlM f2 d) P := by
  induction xs generalizing w c d with
  | nil => exact Does.pure hcd
  | cons x xs ih =>
    rw [List.foldlM_cons, List.foldlM_cons]
    refine Does.bind (h x (by simp) w c d (le_refl w) hcd) fun w1 c' d' hle hcd' => ?_
    exact ih hcd' fun y hy w' c d hle' => h y (by simp [hy]) w' c d (hle.trans hle')

end Tandem

end TypedTree
