import Mathlib.Algebra.BigOperators.Group.List.Basic
import Mathlib.Algebra.Ring.Int.Defs
import TypedTree.Proofs.Follow

namespace TypedTree

/-- What one run made of a file. -/
structure Lowered (σ : Setting) where
  file : SourceFile
  before : Ledger σ true
  after : Ledger σ true
  result : TreeFile

namespace Lowered

variable {σ : Setting}

def Declares (q : Lowered σ) (kind : SymbolKind) (desc : DescId) : Prop :=
  q.before.declared? kind desc = none ∧ (q.after.declared? kind desc).isSome

def Apart (q r : Lowered σ) : Prop := ∀ kind desc, q.Declares kind desc → ¬ r.Declares kind desc

theorem Apart.symm {q r : Lowered σ} (h : q.Apart r) : r.Apart q :=
  fun kind desc hr hq => h kind desc hq hr

/-- A run over files in the given order lowers the file. Nothing that was there changes. -/
structure Runs (q : Lowered σ) (files : List SourceFile) : Prop where
  mem : q.file ∈ σ.world.tree.files
  run : (Lower.lowerFile q.file).runFrom (σ.withFiles files) q.before.state =
    (.ok q.result, q.after.state)
  keeps : q.before.Keeps q.after.toEntries
  loose : ∀ {a x}, q.before.symbol? a = some x → q.before.descriptorOf? a = none →
    q.after.symbol? a = some x
  passes : q.after.state.stats.passes = q.before.state.stats.passes

end Lowered

/-- Files that one run lowers after another. -/
inductive Chain {σ : Setting} (files : List SourceFile) :
    Ledger σ true → List (Lowered σ) → Ledger σ true → Prop
  | nil {L} : Chain files L [] L
  | cons {q rest L} : q.Runs files → Chain files q.after rest L → Chain files q.before (q :: rest) L

namespace Chain

variable {σ : Setting} {files : List SourceFile} {L L' : Ledger σ true} {qs : List (Lowered σ)}

theorem keeps (h : Chain files L qs L') : L.Keeps L'.toEntries := by
  induction h with
  | nil => exact ⟨.refl _, id⟩
  | cons hq _ ih => exact ⟨hq.keeps.le.trans ih.le, fun hx => ih.expr (hq.keeps.expr hx)⟩

theorem runs (h : Chain files L qs L') : ∀ q ∈ qs, q.Runs files := by
  induction h with
  | nil => simp
  | cons hq _ ih => exact List.forall_mem_cons.2 ⟨hq, ih⟩

theorem keeps_after (h : Chain files L qs L') : ∀ q ∈ qs, q.after.Keeps L'.toEntries := by
  induction h with
  | nil => simp
  | cons _ hrest ih => exact List.forall_mem_cons.2 ⟨hrest.keeps, ih⟩

/-- A symbol without a key stays as the file has left it. -/
theorem loose (h : Chain files L qs L') {a : SymbolId} {x : Symbol} (hx : L.symbol? a = some x)
    (ho : L.descriptorOf? a = none) : L'.symbol? a = some x := by
  induction h with
  | nil => exact hx
  | cons hq _ ih => exact ih (hq.loose hx ho) ((hq.keeps.le.descriptorOf hx).trans ho)

theorem loose_after (h : Chain files L qs L') : ∀ q ∈ qs, ∀ {a x}, q.after.symbol? a = some x →
    q.after.descriptorOf? a = none → L'.symbol? a = some x := by
  induction h with
  | nil => simp
  | cons _ hrest ih => exact List.forall_mem_cons.2 ⟨hrest.loose, ih⟩

/-- What comes to hold comes to hold in some file. -/
theorem exists_step (h : Chain files L qs L') {P : Ledger σ true → Prop} (hL : ¬ P L) (hL' : P L') :
    ∃ q ∈ qs, ¬ P q.before ∧ P q.after := by
  induction h with
  | nil => exact (hL hL').elim
  | @cons q rest L' _ _ ih =>
    by_cases hq : P q.after
    · exact ⟨q, List.mem_cons_self, hL, hq⟩
    · obtain ⟨r, hr, h⟩ := ih hq hL'
      exact ⟨r, List.mem_cons_of_mem _ hr, h⟩

theorem declared_mono (h : Chain files L qs L') : ∀ q ∈ qs, ∀ {kind desc d},
    L.declared? kind desc = some d → q.before.declared? kind desc = some d := by
  induction h with
  | nil => simp
  | cons hq _ ih =>
    refine List.forall_mem_cons.2 ⟨fun hd => hd, fun r hr _ _ _ hd => ?_⟩
    exact ih r hr (hq.keeps.le.declared hd)

theorem apart (h : Chain files L qs L') : qs.Pairwise Lowered.Apart := by
  induction h with
  | nil => exact .nil
  | cons _ hrest ih =>
    refine .cons (fun r hr kind desc hq hr' => ?_) ih
    obtain ⟨d, hd⟩ := Option.isSome_iff_exists.1 hq.2
    cases hr'.1.symm.trans (hrest.declared_mono r hr hd)

theorem passes (h : Chain files L qs L') : L'.state.stats.passes = L.state.stats.passes := by
  induction h with
  | nil => rfl
  | cons hq _ ih => exact ih.trans hq.passes

theorem count (h : Chain files L qs L') (f : Ledger σ true → ℤ) :
    f L' = f L + (qs.map fun q => f q.after - f q.before).sum := by
  induction h with
  | nil => simp
  | cons _ _ ih =>
    rw [ih, List.map_cons, List.sum_cons]
    omega

end Chain

/-- The other run over the file of a first one, which may have other files behind it. -/
structure Twin {σ : Setting} (q : Lowered σ) where
  before : Ledger σ true
  pairing : Pairing q.before before
  left : pairing.left.state = q.after.state
  opens : pairing.opens = []
  apart : ¬ Links.Parted q.before.toEntries before.toEntries pairing.left.toEntries
  result : TreeFile
  declarations : List.Forall₂ (fun d d' => ∃ g, pairing.links.decl d d' g) q.result.declarations
    result.declarations

namespace Twin

variable {σ : Setting} {q : Lowered σ} (t : Twin q)

def after : Ledger σ true := t.pairing.right

theorem keeps : t.before.Keeps t.after.toEntries := ⟨t.pairing.keys.le', t.pairing.nodes.old'⟩

end Twin

/-- The files that a second run lowers one after another, each with its first run. -/
inductive Twins {σ : Setting} :
    Ledger σ true → List ((q : Lowered σ) × Twin q) → Ledger σ true → Prop
  | nil {R} : Twins R [] R
  | cons {p rest R} : Twins p.2.after rest R → Twins p.2.before (p :: rest) R

namespace Twins

variable {σ : Setting} {R R' : Ledger σ true} {ts : List ((q : Lowered σ) × Twin q)}

theorem keeps (h : Twins R ts R') : R.Keeps R'.toEntries := by
  induction h with
  | nil => exact ⟨.refl _, id⟩
  | @cons p _ _ _ ih =>
    exact ⟨p.2.keeps.le.trans ih.le, fun hx => ih.expr (p.2.keeps.expr hx)⟩

theorem keeps_after (h : Twins R ts R') : ∀ p ∈ ts, p.2.after.Keeps R'.toEntries := by
  induction h with
  | nil => simp
  | cons hrest ih => exact List.forall_mem_cons.2 ⟨hrest.keeps, ih⟩

theorem exists_step (h : Twins R ts R') {P : Ledger σ true → Prop} (hR : ¬ P R) (hR' : P R') :
    ∃ p ∈ ts, ¬ P p.2.before ∧ P p.2.after := by
  induction h with
  | nil => exact (hR hR').elim
  | @cons p rest R' _ ih =>
    by_cases hp : P p.2.after
    · exact ⟨p, List.mem_cons_self, hR, hp⟩
    · obtain ⟨r, hr, h⟩ := ih hp hR'
      exact ⟨r, List.mem_cons_of_mem _ hr, h⟩

theorem passes (h : Twins R ts R') : R'.state.stats.passes = R.state.stats.passes := by
  induction h with
  | nil => rfl
  | @cons p _ _ _ ih => exact ih.trans p.2.pairing.keys.passes'

theorem count (h : Twins R ts R') (f : Ledger σ true → ℤ) :
    f R' = f R + (ts.map fun p => f p.2.after - f p.2.before).sum := by
  induction h with
  | nil => simp
  | cons _ ih =>
    rw [ih, List.map_cons, List.sum_cons]
    omega

end Twins

/-- Two runs over the same files in two orders: a chain of the first one, and the twins of its links
in the order of the second one. -/
structure Reordered {σ : Setting} (files : List SourceFile) (L R : Ledger σ true)
    (qs : List (Lowered σ)) (ts : List ((q : Lowered σ) × Twin q)) : Prop where
  chain : Chain files (.empty σ true) qs L
  twins : Twins (.empty σ true) ts R
  perm : (ts.map (·.1)).Perm qs

namespace Reordered

variable {σ : Setting} {files : List SourceFile} {L R : Ledger σ true} {qs : List (Lowered σ)}
  {ts : List ((q : Lowered σ) × Twin q)} (h : Reordered files L R qs ts)
  {kind : SymbolKind} {desc : DescId}

theorem declared?_of_state {n m : Entries} (h : n.state = m.state) :
    n.declared? kind desc = m.declared? kind desc := by
  simp only [Entries.declared?, Entries.cached?, Entries.symbol?, h]

include h

theorem exists_twin (hq : q ∈ qs) : ∃ t, ⟨q, t⟩ ∈ ts := by
  obtain ⟨p, hp, rfl⟩ := List.mem_map.1 (h.perm.mem_iff.2 hq)
  exact ⟨p.2, hp⟩

theorem mem_first (hp : p ∈ ts) : p.1 ∈ qs :=
  h.perm.mem_iff.1 (List.mem_map_of_mem hp)

/-- What the first run declares the second one declares, too, and both are linked. -/
theorem declared (hd : L.declared? kind desc = some d) : ∃ p ∈ ts, ∃ d' g,
    p.2.pairing.links.decl d d' g ∧ R.declared? kind desc = some d' := by
  obtain ⟨q, hq, hbefore, hafter⟩ := h.chain.exists_step
    (P := fun M => (M.declared? kind desc).isSome) (by simp [Entries.declared?, Entries.cached?,
      Ledger.empty, SymbolTable.cached?]) (Option.isSome_of_mem hd)
  obtain ⟨t, ht⟩ := h.exists_twin hq
  obtain ⟨e, he⟩ := Option.isSome_iff_exists.1 hafter
  cases ((h.chain.keeps_after q hq).le.declared he).symm.trans hd
  have hb : q.before.declared? kind desc = none := by simpa using hbefore
  have hl : t.pairing.left.declared? kind desc = some d := by rwa [declared?_of_state t.left]
  obtain ⟨d', hd', hold | ⟨g, hg⟩⟩ := t.pairing.keys.declared hl hb
  · exact (t.apart ⟨kind, desc, Option.isSome_of_mem hl, hb, hold⟩).elim
  · exact ⟨⟨q, t⟩, ht, d', g, hg, (h.twins.keeps_after _ ht).le.declared hd'⟩

theorem declared_iff : (L.declared? kind desc).isSome ↔ (R.declared? kind desc).isSome := by
  constructor
  · intro hd
    obtain ⟨d, hd⟩ := Option.isSome_iff_exists.1 hd
    obtain ⟨_, _, d', _, _, hd'⟩ := h.declared hd
    exact Option.isSome_of_mem hd'
  · intro hd
    obtain ⟨p, hp, hbefore, hafter⟩ := h.twins.exists_step
      (P := fun M => (M.declared? kind desc).isSome) (by simp [Entries.declared?, Entries.cached?,
        Ledger.empty, SymbolTable.cached?]) hd
    have hkeys := p.2.pairing.keys.declared' hafter (by simpa using hbefore)
    rw [declared?_of_state p.2.left] at hkeys
    obtain ⟨d, hd⟩ := Option.isSome_iff_exists.1 hkeys.2
    exact Option.isSome_of_mem ((h.chain.keeps_after _ (h.mem_first hp)).le.declared hd)

theorem cached_iff : (L.cached? kind desc).isSome ↔ (R.cached? kind desc).isSome := by
  have hempty : ¬ ((Ledger.empty σ true).cached? kind desc).isSome := by
    simp [Entries.cached?, Ledger.empty, SymbolTable.cached?]
  constructor
  · intro hc
    obtain ⟨q, hq, hbefore, hafter⟩ := h.chain.exists_step
      (P := fun M => (M.cached? kind desc).isSome) hempty hc
    obtain ⟨t, ht⟩ := h.exists_twin hq
    have hl : (t.pairing.left.cached? kind desc).isSome := by
      rwa [Entries.cached?, t.left]
    obtain ⟨id, hid⟩ := Option.isSome_iff_exists.1
      ((t.pairing.keys.cached hl).resolve_left hbefore)
    exact Option.isSome_of_mem ((h.twins.keeps_after _ ht).le.cached hid)
  · intro hc
    obtain ⟨p, hp, hbefore, hafter⟩ := h.twins.exists_step
      (P := fun M => (M.cached? kind desc).isSome) hempty hc
    have hl := (p.2.pairing.keys.cached' hafter).resolve_left hbefore
    rw [Entries.cached?, p.2.left] at hl
    obtain ⟨id, hid⟩ := Option.isSome_iff_exists.1 hl
    exact Option.isSome_of_mem ((h.chain.keeps_after _ (h.mem_first hp)).le.cached hid)

/-- Symbols without a key have a declaration in the second run, if they have in the first. -/
theorem loose_owner (hx' : R.symbol? a' = some x') (ho' : R.descriptorOf? a' = none)
    (hnone : x'.owner = none) :
    ∃ a x, L.symbol? a = some x ∧ L.descriptorOf? a = none ∧ x.owner = none := by
  obtain ⟨p, hp, hbefore, hafter⟩ := h.twins.exists_step
    (P := fun M => M.symbol? a' = some x' ∧ M.descriptorOf? a' = none)
    (by simp [Entries.symbol?, Ledger.empty, SymbolTable.get?]) ⟨hx', ho'⟩
  have hkeys := p.2.pairing.keys
  rcases hkeys.new' hafter.1 hafter.2 with hold | ⟨a, ha⟩
  · exact (hbefore ⟨hold, (hkeys.le'.descriptorOf hold).symm.trans hafter.2⟩).elim
  · obtain ⟨x, y, hx, hy, _, _, hrel⟩ := hkeys.symbol ha
    cases hy.symm.trans hafter.1
    have hloose := (hkeys.symbol_loose ha).1
    rw [Entries.symbol?, p.2.left] at hx
    rw [Entries.descriptorOf?, p.2.left] at hloose
    have hq := h.mem_first hp
    refine ⟨a, x, h.chain.loose_after _ hq hx hloose,
      ((h.chain.keeps_after _ hq).le.descriptorOf hx).trans hloose, ?_⟩
    rw [hnone] at hrel
    cases hxo : x.owner with
    | none => rfl
    | some d =>
      rw [hxo] at hrel
      cases hrel

theorem count_eq (hstate : ∀ {n m : Entries}, n.state = m.state → f n = f m)
    (heven : ∀ p ∈ ts, Links.Even p.1.before.toEntries p.2.before.toEntries
      p.2.pairing.left.toEntries p.2.pairing.right.toEntries f) :
    f L.toEntries = f R.toEntries := by
  have hL := h.chain.count fun M => (f M.toEntries : ℤ)
  have hR := h.twins.count fun M => (f M.toEntries : ℤ)
  have hsteps : ts.map (fun p => (f p.2.after.toEntries : ℤ) - f p.2.before.toEntries) =
      (ts.map (·.1)).map fun q => (f q.after.toEntries : ℤ) - f q.before.toEntries := by
    rw [List.map_map]
    refine List.map_congr_left fun p hp => ?_
    have hp := heven p hp
    unfold Links.Even at hp
    rw [hstate p.2.left] at hp
    simp only [Function.comp, Twin.after]
    omega
  rw [hsteps, (h.perm.map _).sum_eq] at hR
  omega

theorem declarations_eq : L.state.stats.declarations = R.state.stats.declarations :=
  h.count_eq (f := Links.declarations) (fun h => by simp only [Links.declarations, h])
    fun p _ => (p.2.pairing.keys.even p.2.apart).1

theorem passes_eq : L.state.stats.passes = R.state.stats.passes :=
  h.chain.passes.trans h.twins.passes.symm

theorem loose_eq : L.state.table.loose = R.state.table.loose :=
  h.count_eq (f := Links.loose) (fun h => by simp only [Links.loose, h])
    fun p _ => (p.2.pairing.keys.even p.2.apart).2.2

end Reordered

namespace Session

variable {σ : Setting} {files : List SourceFile}

theorem lowerEach_cons {s : Session} :
    s.lowerEach (file :: rest) =
      match (Lower.lowerFile file).runFrom s.setting s.state with
      | (.ok lowered, state) =>
        lowerEach { s with state := state, files := s.files ++ [lowered] } rest
      | (.error e, state) => (.error e, { s with state := state }) := by
  simp only [lowerEach, run]
  rcases (Lower.lowerFile file).runFrom s.setting s.state with ⟨e | lowered, state⟩ <;> rfl

theorem exists_chain {s : Session} (L : Ledger σ true) {rest : List SourceFile}
    (hset : s.setting = σ.withFiles files) (hstate : s.state = L.state)
    (hmem : rest ⊆ σ.world.tree.files) {s' : Session} (hok : s.lowerEach rest = (.ok (), s')) :
    ∃ qs L', Chain files L qs L' ∧ qs.map (·.file) = rest ∧
      s' = { s with state := L'.state, files := s.files ++ qs.map (·.result) } := by
  induction rest generalizing s L with
  | nil =>
    cases hok
    exact ⟨[], L, .nil, rfl, by simp [← hstate]⟩
  | cons file rest ih =>
    have hrun : (Pairing.tandem L L files files).Does (.start L L) _ _ _ :=
      (Pairing.lawful L L files files).lowerFile
        (σ.world.knows_file (hmem List.mem_cons_self))
    change Tandem.Outcome _ _ _ ((Lower.lowerFile file).runFrom (σ.withFiles files) L.state) _
      at hrun
    obtain ⟨setting, state, done, external⟩ := s
    obtain rfl : setting = _ := hset
    obtain rfl : state = _ := hstate
    rw [lowerEach_cons] at hok
    dsimp only at hok
    rcases hr : (Lower.lowerFile file).runFrom (σ.withFiles files) L.state with ⟨e | lowered, t⟩
    · rw [hr] at hok
      cases hok
    · rw [hr] at hrun hok
      obtain ⟨w, _, _, hs, _⟩ := hrun
      have hq : (⟨file, L, w.left, lowered⟩ : Lowered σ).Runs files :=
        ⟨hmem List.mem_cons_self, by rw [hr]; exact Prod.ext rfl hs.symm,
          ⟨w.keys.le, w.nodes.old⟩, w.keys.old, w.keys.passes⟩
      obtain ⟨qs, L', hchain, hfiles, rfl⟩ := ih w.left
        (s := ⟨σ.withFiles files, t, done ++ [lowered], external⟩) rfl hs.symm
        (fun f hf => hmem (List.mem_cons_of_mem _ hf)) hok
      refine ⟨_, L', .cons hq hchain, by rw [List.map_cons, hfiles], ?_⟩
      simp

/-- A second run over the files of a first one goes on as the first one did, or never ends. -/
theorem exists_twins (s : Session) (R : Ledger σ true) {files' : List SourceFile}
    {qs : List (Lowered σ)} (hruns : ∀ q ∈ qs, q.Runs files) (hapart : qs.Pairwise Lowered.Apart)
    (hfresh : ∀ q ∈ qs, ∀ kind desc, q.Declares kind desc → R.declared? kind desc = none)
    (hset : s.setting = σ.withFiles files') (hstate : s.state = R.state) :
    match s.lowerEach (qs.map (·.file)) with
    | (.ok _, s') => ∃ ts R', Twins R ts R' ∧ ts.map (·.1) = qs ∧
        s' = { s with state := R'.state, files := s.files ++ ts.map (·.2.result) }
    | (.error e, _) => e = .endless := by
  induction qs generalizing s R with
  | nil => exact ⟨[], R, .nil, rfl, by simp [← hstate]⟩
  | cons q qs ih =>
    obtain ⟨hq, hruns⟩ := List.forall_mem_cons.1 hruns
    obtain ⟨hqs, hapart⟩ := List.pairwise_cons.1 hapart
    obtain ⟨hfreshq, hfresh⟩ := List.forall_mem_cons.1 hfresh
    have hrun : (Pairing.tandem q.before R files files').Does (.start q.before R) _ _ _ :=
      (Pairing.lawful q.before R files files').lowerFile (σ.world.knows_file hq.mem)
    change Tandem.Outcome _ _ _
      ((Lower.lowerFile q.file).runFrom (σ.withFiles files) q.before.state)
      ((Lower.lowerFile q.file).runFrom (σ.withFiles files') R.state) at hrun
    rw [hq.run] at hrun
    obtain ⟨w, lowered, _, hleft, ⟨hopens, halike⟩, hright⟩ := hrun
    have hdeclared : ∀ {kind desc}, w.left.declared? kind desc = q.after.declared? kind desc := by
      intro kind desc
      simp only [Entries.declared?, Entries.cached?, Entries.symbol?,
        show w.left.state = q.after.state from hleft]
    have hparted : ¬ Links.Parted q.before.toEntries R.toEntries w.left.toEntries := by
      rintro ⟨kind, desc, hl, hb, hb'⟩
      rw [hdeclared] at hl
      simp [hfreshq kind desc ⟨hb, hl⟩] at hb'
    obtain ⟨setting, state, done, external⟩ := s
    obtain rfl : setting = _ := hset
    obtain rfl : state = _ := hstate
    rw [List.map_cons, lowerEach_cons]
    dsimp only
    rcases hright with hright | ⟨e, u, hright, rfl | hexcused⟩
    · rw [hright]
      let t : Twin q := ⟨R, w, hleft, hopens, hparted, lowered,
        halike.declarations.imp fun _ _ h => h.imp fun _ => And.left⟩
      have hnext := ih ⟨σ.withFiles files', w.right.state, done ++ [lowered], external⟩ w.right
        hruns hapart ?_ rfl rfl
      · change match lowerEach
            ⟨σ.withFiles files', w.right.state, done ++ [lowered], external⟩ _ with
          | (.ok _, s') => _
          | (.error e, _) => _
        generalize lowerEach _ (qs.map (·.file)) = r at hnext ⊢
        obtain ⟨e | _, s'⟩ := r
        · exact hnext
        · obtain ⟨ts, R', htwins, hts, rfl⟩ := hnext
          refine ⟨⟨q, t⟩ :: ts, R', .cons (p := ⟨q, t⟩) htwins, by rw [List.map_cons, hts], ?_⟩
          simp [t]
      · intro r hr kind desc hd
        refine Option.eq_none_iff_forall_ne_some.2 fun d hright => ?_
        have hkeys := w.keys.declared' (Option.isSome_of_mem hright) (hfresh r hr kind desc hd)
        exact hqs r hr kind desc ⟨hkeys.1, by rw [← hdeclared]; exact hkeys.2⟩ hd
    · rw [hright]
    · exact (hparted hexcused).elim

end Session

end TypedTree
