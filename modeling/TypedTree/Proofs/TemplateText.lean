import TypedTree.Proofs.Assembly
import TypedTree.Proofs.Argument.Placement

namespace TypedTree

open Lower (Piece)
open Lower.Piece (spell letters)

namespace Lower.Piece

/-- The only piece that is no text, between texts that are empty. -/
def Lone (v : ExprId) (pieces : List Piece) : Prop :=
  pieces.filter (·.text?.isNone) = [.value v] ∧ ∀ t, .text t ∈ pieces → t = ""

theorem spell_eq_nil_iff : spell pieces = [] ↔ ∀ piece ∈ pieces, piece = .text "" := by
  rw [spell, List.flatMap_eq_nil_iff]
  refine forall₂_congr fun piece _ => ?_
  cases piece <;> simp [letters]

theorem lone_iff : Lone v pieces ↔ spell pieces = [.inr v] := by
  induction pieces with
  | nil => simp [Lone, spell]
  | cons piece pieces ih =>
    cases piece with
    | text t =>
      have hspell : spell (.text t :: pieces) = [.inr v] ↔ t = "" ∧ spell pieces = [.inr v] := by
        rw [spell, List.flatMap_cons, ← spell]
        cases ht : t.toList with
        | nil =>
          obtain rfl := String.toList_eq_nil_iff.1 ht
          simp [letters]
        | cons c cs =>
          have hne : t ≠ "" := fun h => by simp [h] at ht
          simp [letters, ht, hne]
      rw [hspell, ← ih]
      simp [Lone, text?, and_left_comm]
    | value w =>
      have hspell : spell (.value w :: pieces) = [.inr v] ↔ w = v ∧ spell pieces = [] := by
        simp [spell, letters]
      rw [hspell, spell_eq_nil_iff]
      constructor
      · rintro ⟨hfilter, htexts⟩
        obtain ⟨⟨⟩, hnone⟩ := List.cons_eq_cons.1 hfilter
        refine ⟨rfl, fun piece hpiece => ?_⟩
        cases piece with
        | text t => rw [htexts t (by simp [hpiece])]
        | value u => exact (List.filter_eq_nil_iff.1 hnone _ hpiece rfl).elim
      · rintro ⟨rfl, hall⟩
        refine ⟨List.cons_eq_cons.2 ⟨rfl, List.filter_eq_nil_iff.2 fun piece hpiece => ?_⟩, ?_⟩
        · simp [hall piece hpiece, text?]
        · intro t ht
          cases hall _ ((List.mem_cons.1 ht).resolve_left (by simp))
          rfl

end Lower.Piece

namespace State

/-- What an expression says where some values are given: the letters of a literal, those of the
parts of a concatenation, in which the values are turned into text, or itself. Only a given value
says itself, and a concatenation that is given says nothing else. -/
inductive Says (s : State) (given : List Piece) (e : ExprId) : List (Char ⊕ ExprId) → Prop
  | literal {text} : s.store.kind? e = some (.literal .string (.text text)) →
      s.Says given e (letters (.text text))
  | concatenation {toText parts pieces} : .value e ∉ given →
      s.keyOf? toText = some (.function, Builtin.anyToString) →
      s.store.kind? e = some (.concatenation parts) →
      List.Forall₂ (s.Part toText) parts pieces → s.Says given e (spell pieces)
  | value : .value e ∈ given → s.store.text? e = none → s.Says given e [.inr e]

theorem exists_value {s : State} (hparts : List.Forall₂ (s.Part toText) parts pieces)
    (hjoined : s.store.Joined parts) : ∃ v, .value v ∈ pieces := by
  obtain ⟨part, hpart, hnone⟩ := List.mem_map.1 hjoined.value
  obtain ⟨piece, hpiece, h⟩ := Ledger.exists_of_mem_forall₂ hparts hpart
  rw [h.text?_eq] at hnone
  cases piece with
  | text text => cases hnone
  | value v => exact ⟨v, hpiece⟩

/-- A template says what its entries come to. A concatenation has no text that is empty or next to
another one, and a value in it. Without values the template is a literal. A value stands for the
template exactly if it is the only one, all text is empty, and its type is that of strings. -/
theorem says_lowerTemplate (σ : Setting) (s s' : State) (hs : s.Sane σ) (fuel : Nat) (scope : Scope)
    (entries : List TemplateEntry) (e : ExprId)
    (hrun : (Lower.lowerTemplate (Lower.descent fuel) scope entries).runFrom σ s = (.ok e, s')) :
    ∃ string s0 pieces, Lower.stringType.runFrom σ s = (.ok string, s0) ∧
      List.Forall₂ (TemplateEntry.Comes σ (Lower.descent fuel) scope s s') entries pieces ∧
      s'.Says pieces e (spell pieces) ∧
      (∀ parts, s'.store.kind? e = some (.concatenation parts) → s'.store.Joined parts) ∧
      ((∀ v, .value v ∉ pieces) →
        ∃ text, s'.store.kind? e = some (.literal .string (.text text))) ∧
      ∀ v x, .value v ∈ pieces → s'.store.expr? v = some x →
        (e = v ↔ Piece.Lone v pieces ∧ x.type = string) := by
  have hdoes := @Does.spells_lowerTemplate σ s _ scope (Does.descends fuel) entries hs 0
  rw [hrun] at hdoes
  obtain ⟨hsteps, string, pieces, s0, hstring, hcomes, hspells⟩ := hdoes
  have hsane : s'.Sane σ := hsteps.sane hs
  have hassembled := hsteps.assembled (.start s (by simp))
  have hnew : s.store.expr? e = none := hassembled.free (by simp [Carries.tokens_expr])
  have hjoined : ∀ parts, s'.store.kind? e = some (.concatenation parts) →
      s'.store.Joined parts := fun parts hkind => by
    obtain ⟨x, hx, hk⟩ := Option.map_eq_some_iff.1 hkind
    have hadmits := hassembled.admits hx hnew
    rw [hk] at hadmits
    exact hadmits
  refine ⟨string, s0, pieces, hstring, hcomes, ?_, hjoined, fun hnone => ?_, fun v x hv hx => ?_⟩
  · cases hspells with
    | literal hkind hletters => exact hletters ▸ .literal hkind
    | value _ _ hlone =>
      have hvalue : .value e ∈ pieces := Piece.inr_mem_spell.1 (by simp [hlone])
      obtain ⟨entry, _, hentry⟩ := Ledger.exists_of_mem_forall₂ hcomes.flip hvalue
      rw [hlone]
      exact .value hvalue (TemplateEntry.Comes.value hentry).2
    | concatenation hcached hkind hparts hletters hother =>
      rw [← hletters]
      exact .concatenation hother ((keyOf?_eq_some_iff hsane.table).2 hcached) hkind hparts
  · cases hspells with
    | literal hkind _ => exact ⟨_, hkind⟩
    | value _ _ hlone => exact (hnone e (by simp [← Piece.inr_mem_spell, hlone])).elim
    | concatenation _ hkind hparts hletters =>
      obtain ⟨v, hv⟩ := exists_value hparts (hjoined _ hkind)
      rw [← Piece.inr_mem_spell, hletters, Piece.inr_mem_spell] at hv
      exact (hnone v hv).elim
  · rw [← Piece.inr_mem_spell] at hv
    rw [Piece.lone_iff]
    cases hspells with
    | literal hkind hletters => simp [hletters, letters] at hv
    | value hy hstring hlone =>
      rw [hlone, List.mem_singleton] at hv
      cases hv
      cases hx.symm.trans hy
      exact ⟨fun _ => ⟨hlone, hstring⟩, fun _ => rfl⟩
    | concatenation _ _ _ _ hother hmany =>
      rw [Piece.inr_mem_spell] at hv
      exact ⟨fun h => (hother (h ▸ hv)).elim, fun h => (hmany v x h.1 hx h.2).elim⟩

/-- A value between two texts. -/
theorem says_lowerTemplate_sampleWorld :
    let σ : Setting := ⟨sampleWorld, {}⟩
    let r := (Lower.lowerTemplate (Lower.descent 3) []
      [.literal "a", .expression ⟨4⟩, .literal "", .escape "\n"]).runFrom σ {}
    ({} : State).Sane σ ∧ ∃ e parts piece, r.1 = .ok e ∧
      r.2.store.kind? e = some (.concatenation parts) ∧ parts.length = 3 ∧
      r.2.store.Joined parts ∧ r.2.Says [.text "a", piece, .text "", .text "\n"] e
        (.inl 'a' :: (letters piece ++ [.inl '\n'])) := by
  intro σ r
  have hs : ({} : State).Sane σ := Session.sane_start σ
  have hok : r.1.toOption.isSome := by decide +kernel
  have htest : (r.1.toOption.bind r.2.store.kind?).any
      (fun k => !k.isIndependent && k.operands.length == 3) := by decide +kernel
  have hr : (Lower.lowerTemplate (Lower.descent 3) []
    [.literal "a", .expression ⟨4⟩, .literal "", .escape "\n"]).runFrom σ {} = r := rfl
  clear_value r
  obtain ⟨e, hrun⟩ := Lower.exists_ok hok
  rw [congrArg Prod.fst hrun] at htest
  obtain ⟨kind, hkind, htest⟩ := (Option.any_eq_true _ _).1 htest
  obtain ⟨_, _, pieces, _, hcomes, hsays, hjoined, _, _⟩ :=
    says_lowerTemplate σ {} r.2 hs 3 [] _ e (hr.trans hrun)
  cases kind with
  | concatenation parts =>
    simp only [List.forall₂_cons_left_iff, List.forall₂_nil_left_iff] at hcomes
    obtain ⟨_, _, rfl, ⟨piece, _, _, ⟨_, _, rfl, ⟨_, _, rfl, rfl, rfl⟩, rfl⟩, rfl⟩, rfl⟩ := hcomes
    refine ⟨hs, e, parts, piece, congrArg Prod.fst hrun, hkind, ?_, hjoined parts hkind, ?_⟩
    · simpa [ExprKind.isIndependent] using htest
    · simpa [spell, letters] using hsays
  | _ => simp [ExprKind.isIndependent] at htest

end State

end TypedTree
