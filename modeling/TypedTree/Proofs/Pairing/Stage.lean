import TypedTree.Proofs.Pairing.Keys

namespace TypedTree

/-- Two sound ledgers side by side, with what was linked since they were `b` and `b'`. -/
structure Pairing {σ : Setting} {strict : Bool} (b b' : Ledger σ strict) where
  left : Ledger σ strict
  right : Ledger σ strict
  links : Links
  /-- The holders that have no owner yet, innermost first. -/
  opens : Region
  opens_left : left.opens = opens.map (·.1) ++ b.opens
  opens_right : right.opens = opens.map (·.2) ++ b'.opens
  opens_linked : ∀ p ∈ opens, links.holder p.1 p.2
  nodes : links.Nodes σ b.toEntries b'.toEntries left.toEntries right.toEntries
  keys : links.Keys b.toEntries b'.toEntries left.toEntries right.toEntries

/-- Failures other than those of a run that is out of step with itself: only symbols are ever bound
twice, and no lookup leads out of a unit whose references are in range. -/
structure LowerError.Mild (w : World) (e : LowerError) : Prop where
  inRange : w.InRange → e ≠ .dangling
  bound : ∀ cause, e = .alreadyBound cause → ∃ name existing attempted,
    cause = .symbolBound name existing attempted

theorem Wanted.Errs.mild {σ : Setting} {x : Wanted} {e : LowerError} (h : x.Errs σ e) :
    e.Mild σ.world :=
  ⟨h.inRange, fun cause hc => (h.notBound cause hc).elim⟩

namespace Pairing

variable {σ : Setting} {strict : Bool} {b b' : Ledger σ strict}

instance : Preorder (Pairing b b') where
  le w w' := w.left ≤ w'.left ∧ w.right ≤ w'.right ∧ w.links.Le w'.links
  le_refl w := ⟨le_refl _, le_refl _, .refl _⟩
  le_trans _ _ _ h h' := ⟨h.1.trans h'.1, h.2.1.trans h'.2.1, h.2.2.trans h'.2.2⟩

def start (b b' : Ledger σ strict) : Pairing b b' where
  left := b
  right := b'
  links := ⟨fun _ _ => False, fun _ _ _ => False, fun _ _ _ => False, fun _ _ => False⟩
  opens := []
  opens_left := rfl
  opens_right := rfl
  opens_linked := by simp
  nodes := {
    expr := False.elim
    tint := False.elim
    expr_new := False.elim
    expr_unique := False.elim
    decl := False.elim
    mark := False.elim
    holder := False.elim
    holder_unique := False.elim
    symbol := False.elim
    old := id
    old' := id }
  keys := {
    le := .refl _
    le' := .refl _
    cached := .inl
    cached' := .inl
    declared := fun h h' => by cases h.symm.trans h'
    declared' := fun h h' => by simp [h'] at h
    symbol := False.elim
    symbol_loose := False.elim
    symbol_new := False.elim
    symbol_unique := False.elim
    old := fun h _ => h
    new' := fun h _ => .inl h
    even := fun _ => ⟨Nat.add_comm _ _, Nat.add_comm _ _, Nat.add_comm _ _⟩
    passes := rfl
    passes' := rfl }

def ids (w : Pairing b b') : Correspondence :=
  w.links.ids σ w.left.toEntries w.right.toEntries

/-- Where the second run may fail alone: it may never end, or have declared before what the first
one declares now. -/
def Excused (w : Pairing b b') (e : LowerError) : Prop :=
  e = .endless ∨ Links.Parted b.toEntries b'.toEntries w.left.toEntries

/-- Two runs over one unit whose files come in two orders. -/
def tandem (b b' : Ledger σ strict) (files files' : List SourceFile) : Tandem (Pairing b b') where
  world := σ.world
  config := σ.config
  firstFiles := files
  secondFiles := files'
  first w := w.left.state
  second w := w.right.state
  ids := ids
  opens := opens
  fails w e s := (∃ L : Ledger σ strict, w.left ≤ L ∧ L.state = s) ∧ e.Mild σ.world
  excused := Excused
  ids_mono h := Links.ids_mono h.2.2 h.1 h.2.1
  fails_anti h := fun ⟨⟨L, hle, hs⟩, he⟩ => ⟨⟨L, h.1.trans hle, hs⟩, he⟩
  excused_mono := fun {w w' e} h he => he.imp_right fun ⟨kind, desc, hd, hr⟩ => by
    obtain ⟨d, hd⟩ := Option.isSome_iff_exists.1 hd
    exact ⟨kind, desc, Option.isSome_of_mem (Entries.Le.declared h.1 hd), hr⟩

variable (w : Pairing b b') {N N' : SymbolKind → DescId → Prop}

/-- Both ledgers gain types and annotations of the same facts. -/
def gain {L R : Ledger σ strict} (hg : w.left.Gains N L.toEntries)
    (hg' : w.right.Gains N' R.toEntries)
    (hN : ∀ kind desc, N kind desc → (R.cached? kind desc).isSome)
    (hN' : ∀ kind desc, N' kind desc → (L.cached? kind desc).isSome) : Pairing b b' where
  left := L
  right := R
  links := w.links
  opens := w.opens
  opens_left := hg.opens.trans w.opens_left
  opens_right := hg'.opens.trans w.opens_right
  opens_linked := w.opens_linked
  nodes := w.nodes.mono ⟨hg.le, hg.expr⟩ ⟨hg'.le, hg'.expr⟩
  keys := w.keys.gains hg hg' w.left.sound w.right.sound L.sound R.sound hN hN'

theorem le_gain {L R : Ledger σ strict} (hg : w.left.Gains N L.toEntries)
    (hg' : w.right.Gains N' R.toEntries)
    (hN : ∀ kind desc, N kind desc → (R.cached? kind desc).isSome)
    (hN' : ∀ kind desc, N' kind desc → (L.cached? kind desc).isSome) :
    w ≤ w.gain hg hg' hN hN' :=
  ⟨hg.le, hg'.le, .refl _⟩

variable {w} {α : Type} {files files' : List SourceFile} {x : Wanted}

/-- Both runs ask for one fact. If the second one would never end, what it would find can be made
all the same, since the first one has found it. -/
theorem does_makes {F : α → Made}
    (hm : ∀ (files : List SourceFile) (L : Ledger σ strict),
      L.Makes files x m fun L' a => Realizes σ L'.toEntries x (F a))
    (hF : ∀ {n m'}, Realizes σ n x m' → ∃ a, m' = F a) :
    (tandem b b' files files').Does w m m fun w' a a' =>
      Realizes σ w'.left.toEntries x (F a) ∧ Realizes σ w'.right.toEntries x (F a') := by
  have h := hm files w.left
  have h' := hm files' w.right
  unfold Ledger.Makes at h h'
  unfold Tandem.Does Tandem.Runs
  change (tandem b b' files files').Outcome w _ (m.runFrom (σ.withFiles files) w.left.state)
    (m.runFrom (σ.withFiles files') w.right.state)
  unfold Tandem.Outcome
  split
  next e s hr =>
    rw [hr] at h
    obtain ⟨L, hle, hs, he⟩ := h
    exact ⟨⟨L, hle, hs⟩, he.mild⟩
  next a s hr =>
    rw [hr] at h
    obtain ⟨L, hg, hs, ha⟩ := h
    split at h'
    next a' s' hr' =>
      obtain ⟨R, hg', hs', ha'⟩ := h'
      refine ⟨w.gain hg hg' (fun _ _ hN => hN.1 _ _ ha') (fun _ _ hN => hN.1 _ _ ha), a',
        w.le_gain .., hs, ⟨rfl, ha, ha'⟩, .inl ?_⟩
      exact hr'.trans (by rw [← hs']; rfl)
    next e s' hr' =>
      obtain ⟨_, _, _, he⟩ := h'
      obtain ⟨R, hg', m', hm'⟩ := Ledger.extend ha w.right
      obtain ⟨a', rfl⟩ := hF hm'
      exact ⟨w.gain hg hg' (fun _ _ hN => hN.1 _ _ hm') (fun _ _ hN => hN), a', w.le_gain .., hs,
        ⟨rfl, ha, hm'⟩, .inr ⟨e, s', hr', .inl (he.endless ⟨_, _, ha⟩)⟩⟩

end Pairing

end TypedTree
