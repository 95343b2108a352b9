import TypedTree.Proofs.Linearity

namespace TypedTree

open Desk Token Carries

/-- What holds of the expressions that are new since an earlier state: they were admitted, what they
are made of and what is in hand is new too, and their subjects are in safe calls or wait for one. -/
structure Desk.Assembled (s0 : State) (d : Desk) : Prop where
  le : s0.Le d.state
  free : ∀ {e}, .free e ∈ d.hand → s0.store.expr? e = none
  admits : ∀ {e x}, d.state.store.expr? e = some x → s0.store.expr? e = none →
    d.state.Admits x.type x.kind
  operand : ∀ {e x o}, d.state.store.expr? e = some x → s0.store.expr? e = none →
    o ∈ x.kind.operands → s0.store.expr? o = none
  subject : ∀ {e x r}, d.state.store.expr? e = some x → s0.store.expr? e = none →
    x.kind = .safeCallSubject r → .subject e r ∈ d.hand ∨
      ∃ c sel, d.state.store.kind? c = some (.safeCall r e sel)

theorem Token.subject_mem_frees_add : .subject e r ∈ frees ids + h ↔ .subject e r ∈ h := by
  rw [Multiset.mem_add, or_iff_right]
  simp [frees]

theorem ExprKind.subject_mem_takes {k : ExprKind} (h : .subject e r ∈ k.takes) :
    ∃ sel, k = .safeCall r e sel := by
  unfold takes at h
  rw [subject_mem_frees_add] at h
  split at h <;> simp_all

namespace Desk

namespace Assembled

variable {s0 s s' : State} {h h' : Multiset Token}

theorem start (s : State) (hnew : ∀ e, .free e ∉ h) : Assembled s ⟨h, s⟩ where
  le := .refl s
  free he := (hnew _ he).elim
  admits hx hn := by cases hn.symm.trans hx
  operand hx hn := by cases hn.symm.trans hx
  subject hx hn := by cases hn.symm.trans hx

theorem keep (ha : Assembled s0 ⟨h, s⟩) (hle : s.Le s')
    (hback : ∀ {e y}, s'.store.expr? e = some y → ∃ x, s.store.expr? e = some x ∧ x.Le y)
    (hfree : ∀ {e}, .free e ∈ h' → s0.store.expr? e = none)
    (hsubject : ∀ {e r}, .subject e r ∈ h → .subject e r ∈ h') : Assembled s0 ⟨h', s'⟩ where
  le := ha.le.trans hle
  free := hfree
  admits hy hn := by
    obtain ⟨x, hx, hxy⟩ := hback hy
    rw [hxy.type, hxy.kind]
    exact hle.admits (ha.admits hx hn)
  operand hy hn ho := by
    obtain ⟨x, hx, hxy⟩ := hback hy
    exact ha.operand hx hn (hxy.kind ▸ ho)
  subject hy hn hk := by
    obtain ⟨x, hx, hxy⟩ := hback hy
    refine (ha.subject hx hn (hxy.kind.symm.trans hk)).imp hsubject ?_
    exact fun ⟨c, sel, hc⟩ => ⟨c, sel, hle.kind? hc⟩

theorem same (ha : Assembled s0 ⟨h, s⟩) (hle : s.Le s')
    (hexprs : s'.store.exprs = s.store.exprs) : Assembled s0 ⟨h, s'⟩ :=
  ha.keep hle (fun {_ y} hy => ⟨y, by rwa [Store.expr?, hexprs] at hy, .refl y⟩) ha.free id

theorem spend (ha : Assembled s0 ⟨frees ids + h, s⟩) : Assembled s0 ⟨h, s⟩ :=
  ha.keep (.refl s) (fun {_ y} hy => ⟨y, hy, .refl y⟩)
    (fun he => ha.free (Multiset.mem_add.2 (.inr he))) subject_mem_frees_add.1

theorem splice (ha : Assembled s0 ⟨{.free e} + h, s⟩)
    (he : s.store.expr? e = some ⟨τ, [], .block ss⟩) :
    Assembled s0 ⟨frees (ss.flatMap (·.operands)) + h, s⟩ := by
  refine ha.keep (.refl s) (fun {_ y} hy => ⟨y, hy, .refl y⟩) (fun {o} ho => ?_) fun hs => ?_
  · rcases Multiset.mem_add.1 ho with ho | ho
    · exact ha.operand he (ha.free (by simp)) (mem_frees.1 ho)
    · exact ha.free (Multiset.mem_add.2 (.inr ho))
  · exact subject_mem_frees_add.2 ((Multiset.mem_add.1 hs).resolve_left (by simp))

theorem addExpr {k : ExprKind} (ha : Assembled s0 ⟨k.takes + h, s⟩) (hk : s.Admits τ k) :
    Assembled s0 ⟨k.gives ⟨s.store.exprs.size⟩ + h,
      { s with store := (s.store.addExpr ⟨τ, [], k⟩).2 }⟩ := by
  have hle := le_addExpr s ⟨τ, [], k⟩
  have hnew : s0.store.expr? ⟨s.store.exprs.size⟩ = none :=
    ha.le.expr?_eq_none (by simp [Store.expr?])
  have hsize : (s.store.addExpr ⟨τ, [], k⟩).2.kind? ⟨s.store.exprs.size⟩ = some k := by
    simp [Store.kind?, Store.expr?, Store.addExpr]
  have hcases : ∀ {e x}, (s.store.addExpr ⟨τ, [], k⟩).2.expr? e = some x →
      s.store.expr? e = some x ∨ e = ⟨s.store.exprs.size⟩ ∧ x = ⟨τ, [], k⟩ := fun {e x} hx => by
    obtain ⟨i⟩ := e
    by_cases hi : i = s.store.exprs.size
    · subst hi
      simp only [Store.expr?, Store.addExpr, Array.getElem?_push_size, Option.some.injEq] at hx
      exact .inr ⟨rfl, hx.symm⟩
    · simp only [Store.expr?, Store.addExpr, Array.getElem?_push, hi, if_false] at hx
      exact .inl hx
  refine ⟨ha.le.trans hle, fun {e} he => ?_, fun hx hn => ?_, fun {e x o} hx hn ho => ?_,
    fun {e x r} hx hn hkind => ?_⟩
  · rcases Multiset.mem_add.1 he with he | he
    · obtain rfl : e = ⟨s.store.exprs.size⟩ := by
        unfold ExprKind.gives at he
        split at he <;> simpa using he
      exact hnew
    · exact ha.free (Multiset.mem_add.2 (.inr he))
  · rcases hcases hx with hx | ⟨_, rfl⟩
    · exact hle.admits (ha.admits hx hn)
    · exact hle.admits hk
  · rcases hcases hx with hx | ⟨_, rfl⟩
    · exact ha.operand hx hn ho
    · refine ha.free (Multiset.mem_add.2 (.inl (Multiset.mem_add.2 (.inl ?_))))
      exact mem_frees.2 ho
  · rcases hcases hx with hx | ⟨rfl, rfl⟩
    · rcases ha.subject hx hn hkind with he | ⟨c, sel, hc⟩
      · rcases Multiset.mem_add.1 he with he | he
        · obtain ⟨sel, rfl⟩ := ExprKind.subject_mem_takes he
          exact .inr ⟨_, sel, hsize⟩
        · exact .inl (Multiset.mem_add.2 (.inr he))
      · exact .inr ⟨c, sel, hle.kind? hc⟩
    · refine .inl (Multiset.mem_add.2 (.inl ?_))
      cases hkind
      simp [ExprKind.gives]

end Assembled

variable {σ : Setting} {clean : Bool} {d d' : Desk} {s0 : State}

theorem Step.assembled (h : Step σ clean d d') (ha : d.Assembled s0) : d'.Assembled s0 := by
  have hle := h.le
  cases h with
  | drop hsub hw =>
    exact ha.keep hle (fun {_ y} hy => ⟨y, hy, .refl y⟩)
      (fun he => ha.free (Multiset.mem_of_le hsub he))
      fun he => mem_waiting.1 (Multiset.mem_of_le hw (mem_waiting.2 he))
  | symbol | fresh | remember | functionTarget | loopTarget | whenRef | pass =>
    exact ha.same hle rfl
  | own => exact ha.same hle (Store.exprs_own ..)
  | expr _ _ hk => exact ha.addExpr hk
  | annotate => exact ha.spend.keep hle exists_of_annotateExpr ha.spend.free id
  | declare | orphan =>
    rw [add_assoc] at ha
    exact ha.spend.spend.same hle rfl
  | splice he => exact ha.splice he

theorem Steps.assembled (h : Steps σ clean d d') (ha : d.Assembled s0) : d'.Assembled s0 := by
  induction h with
  | refl => exact ha
  | tail _ hstep ih => exact hstep.assembled ih

end Desk

end TypedTree
