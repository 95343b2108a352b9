import TypedTree.Proofs.Ledger.Types

namespace TypedTree

section forms

variable {σ : Setting} {n : Entries} {m : Made}

theorem Realizes.form_type {id : TypeId} (h : Realizes σ n (.type id) m) : ∃ τ, m = .type τ := by
  cases h <;> exact ⟨_, rfl⟩

theorem Realizes.form_projections (h : Realizes σ n (.projections as) m) :
    ∃ ps, m = .projections ps := by
  cases h <;> exact ⟨_, rfl⟩

theorem Realizes.form_constant (h : Realizes σ n (.constant value expected) m) :
    ∃ c, m = .content c := by
  cases h <;> exact ⟨_, rfl⟩

theorem Realizes.form_constants (h : Realizes σ n (.constants values) m) :
    ∃ xs, m = .exprs xs := by
  cases h <;> exact ⟨_, rfl⟩

theorem Realizes.form_annotationUse (h : Realizes σ n (.annotationUse use) m) :
    ∃ c, m = .content c := by
  cases h <;> exact ⟨_, rfl⟩

theorem Realizes.form_annotationUses (h : Realizes σ n (.annotationUses uses) m) :
    ∃ xs, m = .exprs xs := by
  cases h <;> exact ⟨_, rfl⟩

theorem Realizes.form_slots (h : Realizes σ n (.slots ps arguments) m) : ∃ xs, m = .slots xs := by
  cases h <;> exact ⟨_, rfl⟩

end forms

theorem World.fits_classifier {w : World} {d : Descriptor} (hd : w.descriptor? desc = some d)
    (hk : d.classifierKind? = some kind) : w.Fits kind desc := by
  unfold Descriptor.classifierKind? at hk
  split at hk
  next => cases hk; exact ⟨by simp, by simp⟩
  next hkind =>
    cases hk
    exact ⟨fun _ => ⟨d, hd, by simp [Descriptor.typeParameter?, hkind]⟩, by simp⟩
  next => cases hk

namespace Ledger

variable {σ : Setting} {strict : Bool} {x : Wanted} {N : SymbolKind → DescId → Prop}

/-- Some types and annotations can be added so that something is the case. -/
def Reaches (L : Ledger σ strict) (N : SymbolKind → DescId → Prop) (Q : Ledger σ strict → Prop) :
    Prop :=
  ∃ L' : Ledger σ strict, L.Gains N L'.toEntries ∧ Q L'

namespace Reaches

variable {L : Ledger σ strict} {Q R : Ledger σ strict → Prop}

theorem here (h : Q L) : L.Reaches N Q := ⟨L, .refl _, h⟩

theorem bind (h : L.Reaches N Q) (hk : ∀ L', L ≤ L' → Q L' → L'.Reaches N R) : L.Reaches N R := by
  obtain ⟨L1, hg, hq⟩ := h
  obtain ⟨L2, hg', hr⟩ := hk L1 hg.le hq
  exact ⟨L2, hg.trans hg', hr⟩

theorem symbol (kind : SymbolKind) {desc : DescId} {d : Descriptor}
    (hd : σ.world.descriptor? desc = some d) (hN : N kind desc) (hfits : σ.world.Fits kind desc) :
    L.Reaches N fun L' => ∃ c, L'.cached? kind desc = some c := by
  cases hc : L.cached? kind desc with
  | some c => exact here ⟨c, hc⟩
  | none =>
    exact ⟨L.create hd hc fun _ => hfits, L.gains_create hd hc (fun _ => hfits) hN, _,
      (SymbolTable.cached?_create _ _ _ _ _ _).trans (if_pos ⟨rfl, rfl⟩)⟩

theorem content (h : Realizes σ L.toEntries x (.content c)) :
    L.Reaches N fun L' => ∃ e, Option.Rel L'.Stands c e := by
  cases c with
  | none => exact here ⟨none, .none⟩
  | some c => exact ⟨L.settle h, L.gains_settle h, _, .some (L.stands_settle h)⟩

end Reaches

/-- What one tree shows any ledger can be made to show, with symbols that the tree has. -/
theorem extend {n : Entries} (h : Realizes σ n x m) (L : Ledger σ strict) :
    L.Reaches (fun kind desc => (n.cached? kind desc).isSome) fun L' =>
      ∃ m', Realizes σ L'.toEntries x m' := by
  induction h generalizing L with
  | symbol hd hf hc =>
    exact (Reaches.symbol _ hd (by simp [hc]) hf).bind fun L1 _ ⟨c, hc'⟩ =>
      .here ⟨_, .symbol hd hf hc'⟩
  | flexible ht _ ih =>
    refine (ih L).bind fun L1 _ ⟨m, hm⟩ => .here ?_
    obtain ⟨τ, rfl⟩ := hm.form_type
    exact ⟨_, .flexible ht hm⟩
  | simple ht hd hk hc _ _ ihp ihx =>
    refine (Reaches.symbol _ hd (by simp [hc]) (World.fits_classifier hd hk)).bind
      fun L1 _ ⟨c, hc'⟩ => (ihp L1).bind fun L2 h2 ⟨mp, hp⟩ => (ihx L2).bind
        fun L3 h3 ⟨mx, hx⟩ => .here ?_
    obtain ⟨ps, rfl⟩ := hp.form_projections
    obtain ⟨xs, rfl⟩ := hx.form_annotationUses
    exact ⟨_, .simple ht hd hk (Entries.Le.cached (le_trans (a := L1) h2 h3) hc') (hp.mono h3) hx⟩
  | noProjections => exact .here ⟨_, .noProjections⟩
  | star _ ih =>
    refine (ih L).bind fun L1 _ ⟨m, hm⟩ => .here ?_
    obtain ⟨ps, rfl⟩ := hm.form_projections
    exact ⟨_, .star hm⟩
  | projection _ _ iht ihp =>
    refine (iht L).bind fun L1 _ ⟨mt, ht⟩ => (ihp L1).bind fun L2 h2 ⟨mp, hp⟩ => .here ?_
    obtain ⟨τ, rfl⟩ := ht.form_type
    obtain ⟨ps, rfl⟩ := hp.form_projections
    exact ⟨_, .projection (ht.mono h2) hp⟩
  | scalar _ ih =>
    refine (ih L).bind fun L1 _ ⟨m, hm⟩ => .here ?_
    obtain ⟨τ, rfl⟩ := hm.form_type
    exact ⟨_, .scalar hm⟩
  | array _ _ ihx iht =>
    refine (ihx L).bind fun L1 _ ⟨mx, hx⟩ => (iht L1).bind fun L2 h2 ⟨mt, ht⟩ => .here ?_
    obtain ⟨xs, rfl⟩ := hx.form_constants
    obtain ⟨τ, rfl⟩ := ht.form_type
    exact ⟨_, .array (hx.mono h2) ht⟩
  | leftOut hl => exact .here ⟨_, .leftOut hl⟩
  | enumEntry hl _ hd hc iht =>
    refine (iht L).bind fun L1 _ ⟨mt, ht⟩ => (Reaches.symbol .classLike hd (by simp [hc])
      ⟨by simp, by simp⟩).bind fun L2 h2 ⟨c, hc'⟩ => .here ?_
    obtain ⟨τ, rfl⟩ := ht.form_type
    exact ⟨_, .enumEntry hl (ht.mono h2) hd hc'⟩
  | nested _ ih =>
    refine (ih L).bind fun L1 _ ⟨m, hm⟩ => .here ?_
    obtain ⟨c, rfl⟩ := hm.form_annotationUse
    exact ⟨_, .nested hm⟩
  | leftOutLiteral hl => exact .here ⟨_, .leftOutLiteral hl⟩
  | failedLiteral hl ht => exact .here ⟨_, .failedLiteral hl ht⟩
  | classLiteral hl _ _ ihr iht =>
    refine (ihr L).bind fun L1 _ ⟨mr, hr⟩ => (iht L1).bind fun L2 h2 ⟨mt, ht⟩ => .here ?_
    obtain ⟨ρ, rfl⟩ := hr.form_type
    obtain ⟨τ, rfl⟩ := ht.form_type
    exact ⟨_, .classLiteral hl (hr.mono h2) ht⟩
  | failed => exact .here ⟨_, .failed⟩
  | noConstants => exact .here ⟨_, .noConstants⟩
  | constants _ _ _ ihc ihx =>
    refine (ihc L).bind fun L1 _ ⟨mc, hc⟩ => ?_
    obtain ⟨c, rfl⟩ := hc.form_constant
    refine (Reaches.content hc).bind fun L2 h2 ⟨e, he⟩ => (ihx L2).bind
      fun L3 h3 ⟨mx, hx⟩ => .here ?_
    obtain ⟨xs, rfl⟩ := hx.form_constants
    exact ⟨_, .constants (hc.mono (le_trans (a := L1) h2 h3))
      (Option.rel_imp (fun _ _ => Entries.Stands.mono h3) he) hx⟩
  | noCall ht hn => exact .here ⟨_, .noCall ht hn⟩
  | noClass ht hd hn => exact .here ⟨_, .noClass ht hd hn⟩
  | call ht hd hi hm _ hc hp _ iht ihx =>
    refine (iht L).bind fun L1 _ ⟨mt, hτ⟩ => (Reaches.symbol .constructor hp
      (by simp [hc]) ⟨by simp, by simp⟩).bind fun L2 h2 ⟨c, hc'⟩ => (ihx L2).bind
        fun L3 h3 ⟨mx, hx⟩ => .here ?_
    obtain ⟨τ, rfl⟩ := hτ.form_type
    obtain ⟨xs, rfl⟩ := hx.form_slots
    exact ⟨_, .call ht hd hi hm (hτ.mono (le_trans (a := L1) h2 h3)) (Entries.Le.cached h3 hc')
      hp hx⟩
  | noAnnotations => exact .here ⟨_, .noAnnotations⟩
  | annotations _ _ _ ihu ihx =>
    refine (ihu L).bind fun L1 _ ⟨mc, hc⟩ => ?_
    obtain ⟨c, rfl⟩ := hc.form_annotationUse
    refine (Reaches.content hc).bind fun L2 h2 ⟨e, he⟩ => (ihx L2).bind
      fun L3 h3 ⟨mx, hx⟩ => .here ?_
    obtain ⟨xs, rfl⟩ := hx.form_annotationUses
    exact ⟨_, .annotations (hc.mono (le_trans (a := L1) h2 h3))
      (Option.rel_imp (fun _ _ => Entries.Stands.mono h3) he) hx⟩
  | noSlots => exact .here ⟨_, .noSlots⟩
  | emptySlot hd hn _ ih =>
    refine (ih L).bind fun L1 _ ⟨mx, hx⟩ => .here ?_
    obtain ⟨xs, rfl⟩ := hx.form_slots
    exact ⟨_, .emptySlot hd hn hx⟩
  | slot hd hv _ _ _ ihc ihx =>
    refine (ihc L).bind fun L1 _ ⟨mc, hc⟩ => ?_
    obtain ⟨c, rfl⟩ := hc.form_constant
    refine (Reaches.content hc).bind fun L2 h2 ⟨e, he⟩ => (ihx L2).bind
      fun L3 h3 ⟨mx, hx⟩ => .here ?_
    obtain ⟨xs, rfl⟩ := hx.form_slots
    exact ⟨_, .slot hd hv (hc.mono (le_trans (a := L1) h2 h3))
      (Option.rel_imp (fun _ _ => Entries.Stands.mono h3) he) hx⟩

end Ledger

end TypedTree
