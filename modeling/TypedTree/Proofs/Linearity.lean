import TypedTree.Proofs.Sample
import TypedTree.Proofs.Trace.Session

namespace TypedTree

open Desk Token Carries

/-- The operands that stand directly below a declaration or an expression. -/
def Store.operandsAt (s : Store) : TreePart → List ExprId
  | .decl id => (s.decl? id).elim [] (·.operands)
  | .expr id => (s.expr? id).elim [] (·.operands)
  | .type _ | .symbol _ | .functionTarget _ | .loopTarget _ | .whenRef _ => []

/-- A part that is no block that was taken apart. -/
def TreePart.Alive (dead : ExprId → Prop) : TreePart → Prop
  | .expr id => ¬ dead id
  | _ => True

/-- What the code has in hand stands nowhere in the tree, and what stands in the tree stands there
once. Blocks that were taken apart are no longer part of it. -/
structure Desk.Placed (d : Desk) (dead : ExprId → Prop) : Prop where
  dead_block : ∀ {e}, dead e → ∃ x ss, d.state.store.expr? e = some x ∧ x.kind = .block ss
  operand : ∀ {p e}, p.Alive dead → e ∈ d.state.store.operandsAt p →
    (d.state.store.expr? e).isSome ∧ ¬ dead e
  nodup : ∀ {p}, p.Alive dead → (d.state.store.operandsAt p).Nodup
  disjoint : ∀ {p q e}, p.Alive dead → q.Alive dead → e ∈ d.state.store.operandsAt p →
    e ∈ d.state.store.operandsAt q → p = q
  hand : d.hand.Nodup
  free : ∀ {e}, .free e ∈ d.hand → (d.state.store.expr? e).isSome ∧ ¬ dead e ∧
    ∀ p, p.Alive dead → e ∉ d.state.store.operandsAt p

/-- Each safe call has its subject for itself, and the subjects in hand are in no safe call. -/
structure Desk.Subjects (d : Desk) : Prop where
  subject : ∀ {e r}, .subject e r ∈ d.hand →
    (∃ x, d.state.store.expr? e = some x ∧ x.kind = .safeCallSubject r) ∧
      ∀ e' x r' sel, d.state.store.expr? e' = some x → x.kind ≠ .safeCall r' e sel
  safeCall : ∀ {e x r sub sel}, d.state.store.expr? e = some x → x.kind = .safeCall r sub sel →
    (∃ y, d.state.store.expr? sub = some y ∧ y.kind = .safeCallSubject r) ∧
      ∀ e' x' r' sel', d.state.store.expr? e' = some x' → x'.kind = .safeCall r' sub sel' → e = e'

theorem Token.mem_frees : .free e ∈ frees ids ↔ e ∈ ids := by
  simp [frees]

theorem Token.nodup_frees (h : (frees ids).Nodup) : ids.Nodup :=
  List.Nodup.of_map _ (Multiset.coe_nodup.1 h)

namespace Desk.Placed

variable {h : Multiset Token} {s s' : State} {dead : ExprId → Prop}

theorem drop (hl : Placed ⟨h, s⟩ dead) {h' : Multiset Token} (hle : h' ≤ h) :
    Placed ⟨h', s⟩ dead where
  dead_block := hl.dead_block
  operand := hl.operand
  nodup := hl.nodup
  disjoint := hl.disjoint
  hand := Multiset.nodup_of_le hle hl.hand
  free he := hl.free (Multiset.mem_of_le hle he)

theorem extend (hl : Placed ⟨frees more + h, s⟩ dead) (p0 : TreePart)
    (hexpr : ∀ {e x}, s.store.expr? e = some x → ∃ y, s'.store.expr? e = some y ∧ y.kind = x.kind)
    (hat : ∀ p, p ≠ p0 → s'.store.operandsAt p = s.store.operandsAt p)
    (hp0 : p0.Alive dead → (s'.store.operandsAt p0).Perm (s.store.operandsAt p0 ++ more)) :
    Placed ⟨h, s'⟩ dead := by
  have hsome : ∀ {e}, (s.store.expr? e).isSome → (s'.store.expr? e).isSome := fun he => by
    obtain ⟨x, hx⟩ := Option.isSome_iff_exists.1 he
    obtain ⟨y, hy, _⟩ := hexpr hx
    simp [hy]
  have hmem : ∀ {p e}, p.Alive dead → e ∈ s'.store.operandsAt p →
      e ∈ s.store.operandsAt p ∨ p = p0 ∧ e ∈ more := fun {p e} hp he => by
    by_cases hpp : p = p0
    · subst hpp
      exact (List.mem_append.1 ((hp0 hp).mem_iff.1 he)).imp_right fun h => ⟨rfl, h⟩
    · exact .inl (hat p hpp ▸ he)
  have hmore : ∀ {e}, e ∈ more → (s.store.expr? e).isSome ∧ ¬ dead e ∧
      ∀ p, p.Alive dead → e ∉ s.store.operandsAt p := fun he =>
    hl.free (Multiset.mem_add.2 (.inl (mem_frees.2 he)))
  obtain ⟨hnodup, hhand, hdisjoint⟩ := Multiset.nodup_add.1 hl.hand
  refine ⟨fun he => ?_, fun hp he => ?_, fun {p} hp => ?_, fun {p q e} hp hq hep heq => ?_,
    hhand, fun {e} he => ?_⟩
  · obtain ⟨x, ss, hx, hk⟩ := hl.dead_block he
    obtain ⟨y, hy, hyk⟩ := hexpr hx
    exact ⟨y, ss, hy, hyk.trans hk⟩
  · rcases hmem hp he with he | ⟨_, he⟩
    · exact (hl.operand hp he).imp_left hsome
    · exact ⟨hsome (hmore he).1, (hmore he).2.1⟩
  · by_cases hpp : p = p0
    · subst hpp
      rw [(hp0 hp).nodup_iff, List.nodup_append]
      exact ⟨hl.nodup hp, nodup_frees hnodup, fun a ha b hb he =>
        (hmore hb).2.2 p hp (he ▸ ha)⟩
    · exact hat p hpp ▸ hl.nodup hp
  · rcases hmem hp hep with hep | ⟨rfl, hep⟩
    · rcases hmem hq heq with heq | ⟨rfl, heq⟩
      · exact hl.disjoint hp hq hep heq
      · exact ((hmore heq).2.2 p hp hep).elim
    · rcases hmem hq heq with heq | ⟨rfl, heq⟩
      · exact ((hmore hep).2.2 q hq heq).elim
      · rfl
  · obtain ⟨hsome', hdead, hnone⟩ := hl.free (Multiset.mem_add.2 (.inr he))
    refine ⟨hsome hsome', hdead, fun p hp hep => ?_⟩
    rcases hmem hp hep with hep | ⟨_, hep⟩
    · exact hnone p hp hep
    · exact Multiset.disjoint_left.1 hdisjoint (mem_frees.2 hep) he

theorem gain (hl : Placed ⟨h, s⟩ dead) (he : (s.store.expr? e).isSome) (hd : ¬ dead e)
    (hnone : ∀ p, p.Alive dead → e ∉ s.store.operandsAt p) (hnew : .free e ∉ h) :
    Placed ⟨{.free e} + h, s⟩ dead where
  dead_block := hl.dead_block
  operand := hl.operand
  nodup := hl.nodup
  disjoint := hl.disjoint
  hand := by
    rw [Multiset.singleton_add]
    exact Multiset.nodup_cons.2 ⟨hnew, hl.hand⟩
  free {e'} he' := by
    rcases Multiset.mem_add.1 he' with he' | he'
    · cases Multiset.mem_singleton.1 he'
      exact ⟨he, hd, hnone⟩
    · exact hl.free he'

theorem gainSubject (hl : Placed ⟨h, s⟩ dead) (hnew : .subject e r ∉ h) :
    Placed ⟨{.subject e r} + h, s⟩ dead where
  dead_block := hl.dead_block
  operand := hl.operand
  nodup := hl.nodup
  disjoint := hl.disjoint
  hand := by
    rw [Multiset.singleton_add]
    exact Multiset.nodup_cons.2 ⟨hnew, hl.hand⟩
  free {e'} he' := by
    rcases Multiset.mem_add.1 he' with he' | he'
    · cases Multiset.mem_singleton.1 he'
    · exact hl.free he'

/-- A block that is taken apart gives its operands back. -/
theorem splice (hl : Placed ⟨{.free e} + h, s⟩ dead)
    (he : s.store.expr? e = some ⟨τ, [], .block ss⟩) :
    Placed ⟨frees (ss.flatMap (·.operands)) + h, s⟩ fun e' => dead e' ∨ e' = e := by
  have hat : s.store.operandsAt (.expr e) = ss.flatMap (·.operands) := by
    simp [Store.operandsAt, he, Expr.operands, ExprKind.operands]
  obtain ⟨_, hdead, hnone⟩ := hl.free (e := e) (by simp)
  have halive : (TreePart.expr e).Alive dead := hdead
  have hbefore : ∀ {p : TreePart}, p.Alive (fun e' => dead e' ∨ e' = e) →
      p.Alive dead ∧ p ≠ .expr e := fun {p} hp => by
    cases p with
    | expr id => exact ⟨fun hd => hp (.inl hd), fun h => hp (.inr (TreePart.expr.inj h))⟩
    | _ => exact ⟨trivial, by simp⟩
  obtain ⟨_, hhand, hdisjoint⟩ := Multiset.nodup_add.1 hl.hand
  refine ⟨fun he' => ?_, fun {p e'} hp he' => ?_, fun hp => hl.nodup (hbefore hp).1,
    fun hp hq => hl.disjoint (hbefore hp).1 (hbefore hq).1, ?_, fun {e'} he' => ?_⟩
  · rcases he' with he' | rfl
    · exact hl.dead_block he'
    · exact ⟨_, ss, he, rfl⟩
  · obtain ⟨hsome, hd⟩ := hl.operand (hbefore hp).1 he'
    refine ⟨hsome, fun h => h.elim hd fun h => ?_⟩
    exact hnone p (hbefore hp).1 (h ▸ he')
  · refine Multiset.nodup_add.2 ⟨?_, hhand, Multiset.disjoint_left.2 fun {t} ht hth => ?_⟩
    · refine Multiset.coe_nodup.2 (List.Nodup.map (fun a b h => Token.free.inj h) ?_)
      exact hat ▸ hl.nodup halive
    · obtain ⟨e', he', rfl⟩ := List.mem_map.1 (Multiset.mem_coe.1 ht)
      exact (hl.free (Multiset.mem_add.2 (.inr hth))).2.2 _ halive (hat ▸ he')
  · rcases Multiset.mem_add.1 he' with he' | he'
    · rw [mem_frees, ← hat] at he'
      obtain ⟨hsome, hd⟩ := hl.operand halive he'
      refine ⟨hsome, fun h => h.elim hd fun h => hnone _ halive (h ▸ he'), fun p hp hep => ?_⟩
      exact (hbefore hp).2 (hl.disjoint (hbefore hp).1 halive hep he')
    · obtain ⟨hsome, hd, hnone'⟩ := hl.free (Multiset.mem_add.2 (.inr he'))
      refine ⟨hsome, fun h => h.elim hd fun h => ?_, fun p hp => hnone' p (hbefore hp).1⟩
      exact Multiset.disjoint_left.1 hdisjoint (by simp [h]) he'

theorem operandsAt_addExpr (s : Store) (τ : TreeType) (k : ExprKind) (p : TreePart) :
    (s.addExpr ⟨τ, [], k⟩).2.operandsAt p =
      if p = .expr ⟨s.exprs.size⟩ then k.operands else s.operandsAt p := by
  cases p with
  | expr id =>
    obtain ⟨i⟩ := id
    by_cases hi : i = s.exprs.size <;>
      simp [Store.operandsAt, Store.expr?, Store.addExpr, Expr.operands, Array.getElem?_push, hi]
  | _ => rfl

theorem addExpr (hl : Placed ⟨frees k.operands + h, s⟩ dead) :
    Placed ⟨h, { s with store := (s.store.addExpr ⟨τ, [], k⟩).2 }⟩ dead := by
  refine hl.extend (.expr ⟨s.store.exprs.size⟩) (fun {e x} hx => ⟨x, getElem?_push_of_some hx, rfl⟩)
    (fun p hp => ?_) fun _ => ?_
  · rw [operandsAt_addExpr, if_neg hp]
  · have hnone : s.store.operandsAt (.expr ⟨s.store.exprs.size⟩) = [] := by
      simp [Store.operandsAt, Store.expr?]
    rw [operandsAt_addExpr, if_pos rfl, hnone, List.nil_append]

theorem addDecl (hl : Placed ⟨frees x.annotations + frees x.kind.operands + h, s⟩ dead) :
    Placed ⟨h, { s with store := (s.store.addDecl x).2 }⟩ dead := by
  have hsum : frees x.annotations + frees x.kind.operands = frees x.operands := by
    simp only [frees_eq_tokens, Decl.operands, tokens_append]
  rw [hsum] at hl
  refine hl.extend (.decl ⟨s.store.decls.size⟩) (fun {e x} hx => ⟨x, hx, rfl⟩)
    (fun p hp => ?_) fun _ => ?_
  · cases p with
    | decl id =>
      obtain ⟨i⟩ := id
      have hi : i ≠ s.store.decls.size := fun he => hp (by rw [he])
      simp [Store.operandsAt, Store.decl?, Store.addDecl, Array.getElem?_push, hi]
    | _ => rfl
  · simp [Store.operandsAt, Store.decl?, Store.addDecl]

theorem annotate (hl : Placed ⟨frees calls + h, s⟩ dead) :
    Placed ⟨h, { s with store := s.store.annotateExpr e calls }⟩ dead := by
  cases hx : s.store.expr? e with
  | none =>
    have hsame : s.store.annotateExpr e calls = s.store := by
      have hi : s.store.exprs.size ≤ e.index := by simpa [Store.expr?] using hx
      have : s.store.exprs.modify e.index
          (fun x => { x with annotations := x.annotations ++ calls }) = s.store.exprs := by
        refine Array.ext_getElem? fun i => ?_
        rw [Array.getElem?_modify]
        split
        next he => simp [← he, hi]
        next => rfl
      simp [Store.annotateExpr, this]
    rw [hsame]
    exact hl.drop (Multiset.le_add_left _ _)
  | some x =>
    refine hl.extend (.expr e) (fun {e' y} hy => ?_) (fun p hp => ?_) fun _ => ?_
    · obtain ⟨z, hz, hyz⟩ := (le_annotate s e calls).expr hy
      exact ⟨z, hz, hyz.kind⟩
    · cases p with
      | expr id =>
        have hne : id ≠ e := fun he => hp (by rw [he])
        simp [Store.operandsAt, Store.expr?_annotateExpr, hne]
      | _ => rfl
    · simp only [Store.operandsAt, Store.expr?_annotateExpr, if_pos, hx, Option.map_some,
        Option.elim_some, Expr.operands, List.append_assoc]
      exact List.Perm.append_left _ List.perm_append_comm

end Desk.Placed

namespace Desk.Subjects

variable {h : Multiset Token} {s s' : State}

theorem drop (hl : Subjects ⟨h, s⟩) {h' : Multiset Token}
    (hle : ∀ e r, .subject e r ∈ h' → .subject e r ∈ h) : Subjects ⟨h', s⟩ :=
  ⟨fun he => hl.subject (hle _ _ he), hl.safeCall⟩

theorem sameKinds (hl : Subjects ⟨h, s⟩)
    (hkind : ∀ e, (s'.store.expr? e).map (·.kind) = (s.store.expr? e).map (·.kind)) :
    Subjects ⟨h, s'⟩ := by
  have hback : ∀ {e x}, s'.store.expr? e = some x →
      ∃ y, s.store.expr? e = some y ∧ y.kind = x.kind := fun {e x} hx => by
    have he := hkind e
    rw [hx, Option.map_some] at he
    exact Option.map_eq_some_iff.1 he.symm
  have hforth : ∀ {e x}, s.store.expr? e = some x →
      ∃ y, s'.store.expr? e = some y ∧ y.kind = x.kind := fun {e x} hx => by
    have he := hkind e
    rw [hx, Option.map_some] at he
    exact Option.map_eq_some_iff.1 he
  refine ⟨fun he => ?_, fun hx hk => ?_⟩
  · obtain ⟨⟨x, hx, hxk⟩, hnone⟩ := hl.subject he
    obtain ⟨y, hy, hyk⟩ := hforth hx
    refine ⟨⟨y, hy, hyk.trans hxk⟩, fun e' z r' sel hz => ?_⟩
    obtain ⟨z', hz', hzk⟩ := hback hz
    exact hzk ▸ hnone e' z' r' sel hz'
  · obtain ⟨x', hx', hxk⟩ := hback hx
    obtain ⟨⟨y, hy, hyk⟩, hunique⟩ := hl.safeCall hx' (hxk.trans hk)
    obtain ⟨z, hz, hzk⟩ := hforth hy
    refine ⟨⟨z, hz, hzk.trans hyk⟩, fun e' w r' sel' hw hwk => ?_⟩
    obtain ⟨w', hw', hwk'⟩ := hback hw
    exact hunique e' w' r' sel' hw' (hwk'.trans hwk)

theorem mem_takes {k : ExprKind} (hk : k = .safeCall r sub sel) : .subject sub r ∈ k.takes := by
  simp [hk, ExprKind.takes]

theorem subject_mem_gives {k : ExprKind} {id : ExprId} (h : .subject e r ∈ k.gives id) :
    e = id ∧ k = .safeCallSubject r := by
  unfold ExprKind.gives at h
  split at h <;> simp_all

theorem addExpr {k : ExprKind} (hl : Subjects ⟨k.takes + h, s⟩) (hhand : (k.takes + h).Nodup) :
    Subjects ⟨k.gives ⟨s.store.exprs.size⟩ + h,
      { s with store := (s.store.addExpr ⟨τ, [], k⟩).2 }⟩ := by
  have hold : ∀ {e x}, s.store.expr? e = some x →
      (s.store.addExpr ⟨τ, [], k⟩).2.expr? e = some x := fun hx => getElem?_push_of_some hx
  have hcases : ∀ {e x}, (s.store.addExpr ⟨τ, [], k⟩).2.expr? e = some x →
      s.store.expr? e = some x ∨ e = ⟨s.store.exprs.size⟩ ∧ x.kind = k := fun {e x} hx => by
    obtain ⟨i⟩ := e
    by_cases hi : i = s.store.exprs.size
    · simp only [Store.expr?, Store.addExpr, hi, Array.getElem?_push_size,
        Option.some.injEq] at hx
      exact .inr ⟨by rw [hi], by rw [← hx]⟩
    · simp only [Store.expr?, Store.addExpr, Array.getElem?_push, hi, if_false] at hx
      exact .inl hx
  have hsubject : ∀ {r sub sel}, k = .safeCall r sub sel →
      (∃ x, s.store.expr? sub = some x ∧ x.kind = .safeCallSubject r) ∧
        ∀ e' x r' sel, s.store.expr? e' = some x → x.kind ≠ .safeCall r' sub sel := fun hk =>
    hl.subject (Multiset.mem_add.2 (.inl (mem_takes hk)))
  refine ⟨fun {e r} he => ?_, fun {e x r sub sel} hx hk => ?_⟩
  · rcases Multiset.mem_add.1 he with he | he
    · obtain ⟨rfl, hk⟩ := subject_mem_gives he
      refine ⟨⟨⟨τ, [], k⟩, by simp [Store.expr?, Store.addExpr], hk⟩, fun e' x r' sel hx hxk => ?_⟩
      rcases hcases hx with hx | ⟨_, hkind⟩
      · obtain ⟨⟨y, hy, _⟩, _⟩ := hl.safeCall hx hxk
        simp [Store.expr?] at hy
      · cases hk.symm.trans (hkind.symm.trans hxk)
    · obtain ⟨⟨x, hx, hxk⟩, hnone⟩ := hl.subject (Multiset.mem_add.2 (.inr he))
      refine ⟨⟨x, hold hx, hxk⟩, fun e' y r' sel hy hyk => ?_⟩
      rcases hcases hy with hy | ⟨_, hkind⟩
      · exact hnone e' y r' sel hy hyk
      · have hk := hkind.symm.trans hyk
        obtain ⟨⟨x', hx', hxk'⟩, _⟩ := hsubject hk
        cases hx.symm.trans hx'
        cases hxk.symm.trans hxk'
        exact Multiset.disjoint_left.1 (Multiset.nodup_add.1 hhand).2.2 (mem_takes hk) he
  · rcases hcases hx with hx | ⟨rfl, hkind⟩
    · obtain ⟨⟨y, hy, hyk⟩, hunique⟩ := hl.safeCall hx hk
      refine ⟨⟨y, hold hy, hyk⟩, fun e' x' r' sel' hx' hk' => ?_⟩
      rcases hcases hx' with hx' | ⟨_, hkind'⟩
      · exact hunique e' x' r' sel' hx' hk'
      · exact ((hsubject (hkind'.symm.trans hk')).2 e x r sel hx hk).elim
    · obtain ⟨⟨y, hy, hyk⟩, hnone⟩ := hsubject (hkind.symm.trans hk)
      refine ⟨⟨y, hold hy, hyk⟩, fun e' x' r' sel' hx' hk' => ?_⟩
      rcases hcases hx' with hx' | ⟨rfl, _⟩
      · exact (hnone e' x' r' sel' hx' hk').elim
      · rfl

end Desk.Subjects

namespace Desk

variable {σ : Setting} {clean : Bool} {d d' : Desk}

theorem Placed.gives (hp : Placed ⟨k.takes + h, s⟩ dead) (hs : Subjects ⟨k.takes + h, s⟩) :
    Placed ⟨k.gives ⟨s.store.exprs.size⟩ + h,
      { s with store := (s.store.addExpr ⟨τ, [], k⟩).2 }⟩ dead := by
  have hnew : s.store.expr? ⟨s.store.exprs.size⟩ = none := by simp [Store.expr?]
  have hadd : Placed ⟨h, { s with store := (s.store.addExpr ⟨τ, [], k⟩).2 }⟩ dead :=
    (hp.drop (add_le_add_left (Multiset.le_add_right _ _) h)).addExpr
  have hdead : ¬ dead ⟨s.store.exprs.size⟩ := fun he => by
    obtain ⟨x, _, hx, _⟩ := hp.dead_block he
    cases hnew.symm.trans hx
  have hfree : .free ⟨s.store.exprs.size⟩ ∉ h := fun he => by
    have hsome := (hp.free (Multiset.mem_add.2 (.inr he))).1
    rw [hnew] at hsome
    cases hsome
  have hgain : Placed ⟨{.free ⟨s.store.exprs.size⟩} + h,
      { s with store := (s.store.addExpr ⟨τ, [], k⟩).2 }⟩ dead := by
    refine hadd.gain (by simp [Store.expr?, Store.addExpr]) hdead (fun p hpa he => ?_) hfree
    have hsome : (s.store.expr? ⟨s.store.exprs.size⟩).isSome := by
      rw [Placed.operandsAt_addExpr] at he
      split at he
      next =>
        have hmem : .free ⟨s.store.exprs.size⟩ ∈ k.takes :=
          Multiset.mem_add.2 (.inl (mem_frees.2 he))
        exact (hp.free (Multiset.mem_add.2 (.inl hmem))).1
      next => exact (hp.operand hpa he).1
    rw [hnew] at hsome
    cases hsome
  unfold ExprKind.gives
  split
  next receiver =>
    have hsubject : .subject ⟨s.store.exprs.size⟩ receiver ∉ h := fun he => by
      obtain ⟨⟨x, hx, _⟩, _⟩ := hs.subject (Multiset.mem_add.2 (.inr he))
      cases hnew.symm.trans hx
    have hboth := hgain.gainSubject (e := ⟨s.store.exprs.size⟩) (r := receiver)
      (by simpa using hsubject)
    rwa [add_left_comm, ← add_assoc] at hboth
  next => simpa using hgain

theorem Step.linear (h : Step σ clean d d') {dead : ExprId → Prop} (hp : d.Placed dead)
    (hs : d.Subjects) : ∃ dead', d'.Placed dead' ∧ d'.Subjects := by
  cases h with
  | drop hle _ => exact ⟨dead, hp.drop hle, hs.drop fun _ _ => Multiset.mem_of_le hle⟩
  | symbol | fresh | remember | functionTarget | loopTarget | whenRef | pass =>
    exact ⟨dead, ⟨hp.1, hp.2, hp.3, hp.4, hp.5, hp.6⟩, ⟨hs.1, hs.2⟩⟩
  | @own h s holder part _ =>
    refine ⟨dead, ?_, hs.sameKinds fun e => by rw [Store.expr?, Store.exprs_own, Store.expr?]⟩
    have hnil : Placed ⟨frees [] + h, s⟩ dead := by simpa [frees] using hp
    refine hnil.extend (.type ⟨0⟩)
      (fun {e x} hx => ⟨x, by rwa [Store.expr?, Store.exprs_own], rfl⟩) (fun p _ => ?_) fun _ => ?_
    · cases p <;> simp [Store.operandsAt, Store.expr?, Store.decl?]
    · simp [Store.operandsAt]
  | expr => exact ⟨dead, hp.gives hs, hs.addExpr hp.hand⟩
  | @annotate h s e calls =>
    refine ⟨dead, hp.annotate, ?_⟩
    refine (hs.drop fun _ _ he => Multiset.mem_add.2 (.inr he)).sameKinds fun e' => ?_
    rw [Store.expr?_annotateExpr]
    split
    next => simp [Function.comp_def]
    next => rfl
  | @declare h s id x origin calls k hx ho =>
    have hd := hp.addDecl (x := ⟨id, origin, calls, k⟩)
    have hsub : Subjects ⟨h, s⟩ := hs.drop fun _ _ he => Multiset.mem_add.2 (.inr he)
    exact ⟨dead, ⟨hd.1, hd.2, hd.3, hd.4, hd.5, hd.6⟩, ⟨hsub.1, hsub.2⟩⟩
  | @orphan h s x =>
    have hsub : Subjects ⟨h, s⟩ := hs.drop fun _ _ he => Multiset.mem_add.2 (.inr he)
    exact ⟨dead, hp.addDecl, ⟨hsub.1, hsub.2⟩⟩
  | splice he =>
    refine ⟨_, hp.splice he, hs.drop fun e' r h => Multiset.mem_add.2 ?_⟩
    rcases Multiset.mem_add.1 h with h | h
    · simp [frees] at h
    · exact .inr h

theorem Steps.linear (h : Steps σ clean d d') {dead : ExprId → Prop} (hp : d.Placed dead)
    (hs : d.Subjects) : ∃ dead', d'.Placed dead' ∧ d'.Subjects := by
  induction h with
  | refl => exact ⟨dead, hp, hs⟩
  | tail _ hstep ih =>
    obtain ⟨dead', hp', hs'⟩ := ih
    exact hstep.linear hp' hs'

theorem placed_start : (⟨0, {}⟩ : Desk).Placed fun _ => False where
  dead_block h := h.elim
  operand {p _} _ h := by cases p <;> simp [Store.operandsAt, Store.decl?, Store.expr?] at h
  nodup {p} _ := by cases p <;> simp [Store.operandsAt, Store.decl?, Store.expr?]
  disjoint {p _ _} _ _ h := by cases p <;> simp [Store.operandsAt, Store.decl?, Store.expr?] at h
  hand := Multiset.nodup_zero
  free h := by simp at h

theorem subjects_start : (⟨0, {}⟩ : Desk).Subjects :=
  ⟨fun h => by simp at h, fun h => by simp [Store.expr?] at h⟩

end Desk

section parts

open TreePart

theorem Statement.part_eq_expr {st : Statement} : st.part = .expr e ↔ e ∈ st.operands := by
  cases st <;> simp [Statement.part, Statement.operands, eq_comm]

theorem WhenBranch.expr_mem_parts {b : WhenBranch} : .expr e ∈ b.parts ↔ e ∈ b.operands := by
  simp [WhenBranch.parts, WhenBranch.operands, expr?]

theorem expr_mem_arguments : .expr e ∈ arguments slots ↔ e ∈ slots.reduceOption := by
  change .expr e ∈ (slots.filterMap id).map TreePart.expr ↔ e ∈ slots.filterMap id
  simp

/-- The expressions below a declaration are its operands, and the annotations of its types. -/
theorem Decl.expr_mem_parts {x : Decl} (h : .expr e ∈ x.parts) :
    e ∈ x.operands ∨ ∃ t ∈ x.kind.types, .expr e ∈ t.parts := by
  obtain ⟨_, _, annotations, kind⟩ := x
  cases kind <;>
    simp only [Decl.parts, DeclKind.parts, Decl.operands, DeclKind.operands, DeclKind.types, decls,
      exprs, decl?, expr?, type?, types, List.mem_append, List.mem_map, List.mem_flatMap,
      List.mem_cons, reduceCtorEq, TreePart.expr.injEq, and_false, exists_false, false_or, or_false,
      exists_eq_right, List.not_mem_nil] at h ⊢ <;>
    grind

/-- The expressions below an expression are its operands, the annotations of its types, and the
subject of a safe call. -/
theorem Expr.expr_mem_parts {x : Expr} (h : .expr e ∈ x.parts) :
    e ∈ x.operands ∨ (∃ t ∈ x.type :: x.kind.types, .expr e ∈ t.parts) ∨
      ∃ r sel, x.kind = .safeCall r e sel := by
  obtain ⟨_, annotations, kind⟩ := x
  cases kind <;>
    simp only [Expr.parts, ExprKind.parts, Expr.operands, ExprKind.operands, ExprKind.types, exprs,
      decl?, expr?, type?, types, Access.parts, Access.operands, expr_mem_arguments,
      Statement.part_eq_expr, WhenBranch.expr_mem_parts, List.mem_append, List.mem_map,
      List.mem_flatMap, List.mem_cons, reduceCtorEq, TreePart.expr.injEq, ExprKind.safeCall.injEq,
      and_false, exists_false, false_or, or_false, exists_eq_right, List.not_mem_nil] at h ⊢ <;>
    grind

end parts

/-- Where an operand may stand: in the annotations of a file, or below a node. -/
inductive Site where
  | file (index : Nat)
  | node (part : TreePart)
deriving DecidableEq, Repr

namespace Fragment

/-- What a walk meets that starts at the files and at the declarations outside of them. -/
inductive Reaches (f : Fragment) : TreePart → Prop where
  | declaration {file d} : file ∈ f.files → d ∈ file.declarations → f.Reaches (.decl d)
  | note {file e} : file ∈ f.files → e ∈ file.annotations → f.Reaches (.expr e)
  | external {d} : d ∈ f.external → f.Reaches (.decl d)
  | under {p q} : f.Reaches p → q ∈ f.store.below p → f.Reaches q

/-- The sites that count: the files, and the nodes that can be reached. -/
def Shows (f : Fragment) : Site → Prop
  | .file _ => True
  | .node part => f.Reaches part

def operandsAt (f : Fragment) : Site → List ExprId
  | .file index => (f.files[index]?).elim [] (·.annotations)
  | .node part => f.store.operandsAt part

end Fragment

theorem lowerModule_steps (h : lowerModule world config = .ok f) :
    ∃ s, Steps ⟨world, config⟩ true ⟨0, {}⟩ ⟨tokens f.files, s⟩ ∧ f.store = s.store := by
  have hfiles := Session.lowerEach_steps (s := Session.start world config) world.tree.files
    (Session.sane_start _) 0
  have hsetting := (Session.start world config).setting_lowerEach world.tree.files
  unfold lowerModule Session.lowerFiles at h
  rcases hrun : (Session.start world config).lowerEach world.tree.files with ⟨e | _, s⟩
  · rw [show (Session.start world config).setting.world.tree.files = world.tree.files from rfl,
      hrun] at h
    cases h
  rw [show (Session.start world config).setting.world.tree.files = world.tree.files from rfl,
    hrun] at h
  rw [hrun] at hfiles hsetting
  obtain ⟨new, hnew, hsteps⟩ := hfiles
  have hs : s.files = new := by simpa [Session.start] using hnew
  rw [add_zero, ← hs] at hsteps
  have hsane : s.state.Sane s.setting := hsetting ▸ hsteps.sane (Session.sane_start _)
  have hstubs := Session.generateStubs_steps hsane (tokens s.files)
  have hkept := s.files_generateStubs
  dsimp only [Session.finish] at h
  rcases hgen : s.generateStubs with ⟨e | _, s'⟩
  · rw [hgen] at h
    cases h
  rw [hgen] at h hstubs hkept
  dsimp only at h hkept
  split at h
  · cases h
  cases h
  rw [hsetting] at hstubs
  exact ⟨s'.state, by rw [← hkept] at hsteps hstubs; exact hsteps.trans hstubs, rfl⟩

theorem tokens_files (files : List TreeFile) :
    tokens files = frees (files.flatMap (·.annotations)) := by
  rw [frees_eq_tokens]
  exact (tokens_flatMap (f := TreeFile.annotations) (fun _ => rfl) files).symm

/-- What stands below a node is one of its operands, an annotation of a type, or the subject of a
safe call. -/
theorem State.Sane.expr_mem_below {s : State} (hs : s.Sane σ) {p : TreePart} {e : ExprId}
    (h : .expr e ∈ s.store.below p) : e ∈ s.store.operandsAt p ∨ s.IsCall e ∨
      ∃ c r sel, p = .expr c ∧ s.store.kind? c = some (.safeCall r e sel) := by
  cases p with
  | decl d =>
    cases hx : s.store.decl? d with
    | none => simp [Store.below, hx] at h
    | some x =>
      rcases Decl.expr_mem_parts (x := x) (by simpa [Store.below, hx] using h) with he | he
      · exact .inl (by simpa [Store.operandsAt, hx] using he)
      · obtain ⟨t, ht, he⟩ := he
        exact .inr (.inl (hs.decls hx t ht e he))
  | expr c =>
    cases hx : s.store.expr? c with
    | none => simp [Store.below, hx] at h
    | some x =>
      rcases Expr.expr_mem_parts (x := x) (by simpa [Store.below, hx] using h) with
        he | ⟨t, ht, he⟩ | ⟨r, sel, hk⟩
      · exact .inl (by simpa [Store.operandsAt, hx] using he)
      · rcases List.mem_cons.1 ht with rfl | ht
        · exact .inr (.inl ((hs.exprs hx).1 e he))
        · exact .inr (.inl ((hs.exprs hx).2 t ht e he))
      · exact .inr (.inr ⟨c, r, sel, rfl, by simp [Store.kind?, hx, hk]⟩)
  | _ => simp [Store.below] at h

namespace Desk.Placed

variable {σ : Setting} {s : State} {dead : ExprId → Prop} {f : Fragment}

theorem not_dead (hp : Placed ⟨h, s⟩ dead) {e : ExprId} {k : ExprKind}
    (hk : s.store.kind? e = some k) (hb : ∀ ss, k ≠ .block ss) : ¬ dead e := fun hdead => by
  obtain ⟨y, ss, hy, hk'⟩ := hp.dead_block hdead
  simp only [Store.kind?, hy, Option.map_some, Option.some.injEq] at hk
  exact hb ss (hk.symm.trans hk')

/-- What stands below a part that was not taken apart was not taken apart either. -/
theorem alive_below (hp : Placed ⟨h, s⟩ dead) (hs : Subjects ⟨h, s⟩) (hsane : s.Sane σ)
    {p q : TreePart} (hal : p.Alive dead) (hq : q ∈ s.store.below p) : q.Alive dead := by
  cases q with
  | expr e =>
    rcases hsane.expr_mem_below hq with he | ⟨x, callee, xs, hx, hk⟩ | ⟨c, r, sel, _, hc⟩
    · exact (hp.operand hal he).2
    · exact hp.not_dead (Option.map_eq_some_iff.2 ⟨x, hx, hk⟩) (by simp)
    · obtain ⟨x, hx, hk⟩ := Option.map_eq_some_iff.1 hc
      obtain ⟨hsubject, _⟩ := hs.safeCall hx hk
      exact hp.not_dead (Option.map_eq_some_iff.2 hsubject) (by simp)
  | _ => trivial

/-- What can be reached was not taken apart. -/
theorem alive (hp : Placed ⟨tokens f.files, s⟩ dead) (hs : Subjects ⟨tokens f.files, s⟩)
    (hsane : s.Sane σ) (hstore : f.store = s.store) {p : TreePart} (h : f.Reaches p) :
    p.Alive dead := by
  induction h with
  | declaration => trivial
  | external => trivial
  | @note file e hfile he =>
    refine (hp.free ?_).2.1
    rw [tokens_files, mem_frees]
    exact List.mem_flatMap.2 ⟨file, hfile, he⟩
  | under _ hq ih => exact hp.alive_below hs hsane ih (hstore ▸ hq)

theorem not_mem_of_file (hp : Placed ⟨tokens f.files, s⟩ dead) {i : Nat} {p : TreePart}
    (hal : p.Alive dead) {e : ExprId} (he : e ∈ f.operandsAt (.file i)) :
    e ∉ s.store.operandsAt p := by
  refine (hp.free ?_).2.2 p hal
  rw [tokens_files, mem_frees]
  cases hf : f.files[i]? with
  | none => simp [Fragment.operandsAt, hf] at he
  | some file =>
    exact List.mem_flatMap.2
      ⟨file, List.mem_of_getElem? hf, by simpa [Fragment.operandsAt, hf] using he⟩

theorem file_unique (hp : Placed ⟨tokens f.files, s⟩ dead) {i j : Nat} {e : ExprId}
    (hi : e ∈ f.operandsAt (.file i)) (hj : e ∈ f.operandsAt (.file j)) : i = j := by
  have hnodup : (f.files.flatMap (·.annotations)).Nodup :=
    nodup_frees (tokens_files f.files ▸ hp.hand)
  have hpair := (List.nodup_flatMap.1 hnodup).2
  cases hfi : f.files[i]? with
  | none => simp [Fragment.operandsAt, hfi] at hi
  | some x =>
    cases hfj : f.files[j]? with
    | none => simp [Fragment.operandsAt, hfj] at hj
    | some y =>
      simp only [Fragment.operandsAt, hfi, hfj, Option.elim_some] at hi hj
      obtain ⟨hil, rfl⟩ := List.getElem?_eq_some_iff.1 hfi
      obtain ⟨hjl, rfl⟩ := List.getElem?_eq_some_iff.1 hfj
      rw [List.pairwise_iff_getElem] at hpair
      rcases Nat.lt_trichotomy i j with hij | hij | hij
      · exact (hpair i j hil hjl hij hi hj).elim
      · exact hij
      · exact (hpair j i hjl hil hij hj hi).elim

theorem nodup_operandsAt (hp : Placed ⟨tokens f.files, s⟩ dead) (hstore : f.store = s.store)
    {p : Site} (hal : ∀ part, p = .node part → part.Alive dead) : (f.operandsAt p).Nodup := by
  cases p with
  | node part =>
    rw [Fragment.operandsAt, hstore]
    exact hp.nodup (hal part rfl)
  | file i =>
    have hnodup : (f.files.flatMap (·.annotations)).Nodup :=
      nodup_frees (tokens_files f.files ▸ hp.hand)
    cases hf : f.files[i]? with
    | none => simp [Fragment.operandsAt, hf]
    | some file =>
      simpa [Fragment.operandsAt, hf] using
        (List.nodup_flatMap.1 hnodup).1 file (List.mem_of_getElem? hf)

end Desk.Placed

/-- In a lowered unit each expression that can be reached stands in one place, and each safe call
has a subject of its own that stands for its receiver. -/
theorem operands_unshared (world : World) (config : Config) (f : Fragment)
    (h : lowerModule world config = .ok f) :
    (∀ (p q : Site) (i j : Nat) (e : ExprId), f.Shows p → f.Shows q →
      (f.operandsAt p)[i]? = some e → (f.operandsAt q)[j]? = some e → p = q ∧ i = j) ∧
    ∀ (c : ExprId) (x : Expr) (r sub sel : ExprId), f.Reaches (.expr c) →
      f.store.expr? c = some x → x.kind = .safeCall r sub sel →
      (∃ y, f.store.expr? sub = some y ∧ y.kind = .safeCallSubject r) ∧
      ∀ c' x' r' sel', f.Reaches (.expr c') → f.store.expr? c' = some x' →
        x'.kind = .safeCall r' sub sel' → c' = c := by
  obtain ⟨s, hsteps, hstore⟩ := lowerModule_steps h
  obtain ⟨dead, hp, hs⟩ := hsteps.linear placed_start subjects_start
  have hsane : s.Sane ⟨world, config⟩ := hsteps.sane (Session.sane_start _)
  have halive : ∀ {p part}, f.Shows p → p = .node part → part.Alive dead := fun hshow heq => by
    subst heq
    exact hp.alive hs hsane hstore hshow
  refine ⟨fun p q i j e hsp hsq hi hj => ?_, fun c x r sub sel _ hx hk => ?_⟩
  · have hep := List.mem_of_getElem? hi
    have heq := List.mem_of_getElem? hj
    have hnode : ∀ {part}, e ∈ f.operandsAt (.node part) → e ∈ s.store.operandsAt part :=
      fun he => by rwa [Fragment.operandsAt, hstore] at he
    have hpq : p = q := by
      cases p with
      | file a =>
        cases q with
        | file b => rw [hp.file_unique hep heq]
        | node q => exact (hp.not_mem_of_file (halive hsq rfl) hep (hnode heq)).elim
      | node p =>
        cases q with
        | file b => exact (hp.not_mem_of_file (halive hsp rfl) heq (hnode hep)).elim
        | node q => rw [hp.disjoint (halive hsp rfl) (halive hsq rfl) (hnode hep) (hnode heq)]
    subst hpq
    refine ⟨rfl, ?_⟩
    have hnodup := hp.nodup_operandsAt hstore fun part => halive hsp
    obtain ⟨hlt, hi⟩ := List.getElem?_eq_some_iff.1 hi
    obtain ⟨hlt', hj⟩ := List.getElem?_eq_some_iff.1 hj
    exact (List.Nodup.getElem_inj_iff hnodup).1 (hi.trans hj.symm)
  · rw [hstore] at hx ⊢
    obtain ⟨hsub, honly⟩ := hs.safeCall hx hk
    exact ⟨hsub, fun c' x' r' sel' _ hx' hk' => (honly c' x' r' sel' hx' hk').symm⟩

/-- A unit with a safe call. -/
theorem operands_unshared_sampleWorld : ∃ f, lowerModule sampleWorld {} = .ok f ∧
    ∀ (p q : Site) (i j : Nat) (e : ExprId), f.Shows p → f.Shows q →
      (f.operandsAt p)[i]? = some e → (f.operandsAt q)[j]? = some e → p = q ∧ i = j := by
  have hok : (lowerModule sampleWorld {}).toOption.isSome = true := by decide +kernel
  cases h : lowerModule sampleWorld {} with
  | error e => simp [h, Except.toOption] at hok
  | ok f => exact ⟨f, rfl, (operands_unshared sampleWorld {} f h).1⟩

end TypedTree
