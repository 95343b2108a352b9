import TypedTree.Proofs.Lookup.Declaration
import TypedTree.Proofs.Reorder.Pending

namespace TypedTree

/-- The kinds of symbols that stand for descriptors. -/
def SymbolKind.described : List SymbolKind :=
  [.classLike, .function, .anonymousFunction, .constructor, .property, .accessor, .typeParameter,
    .valueParameter, .typeAlias]

theorem SymbolKind.mem_described (h : kind ≠ .initializer) : kind ∈ described := by
  cases kind <;> first | exact (h rfl).elim | decide

namespace State

def Bound (s : State) (id : SymbolId) : Prop := ∃ x d, s.table.get? id = some x ∧ x.owner = some d

theorem Bound.mono {s s' : State} (hle : s.table.Le s'.table) {id : SymbolId} (h : s.Bound id) :
    s'.Bound id := by
  obtain ⟨x, d, hx, ho⟩ := h
  obtain ⟨y, hy, hxy⟩ := hle.symbol hx
  exact ⟨y, d, hy, hxy.owner d ho⟩

def Keyed (s : State) (id : SymbolId) : Prop := ∃ key : Key, s.table.cached? key.1 key.2 = some id

theorem Keyed.mono {s s' : State} (hle : s.table.Le s'.table) {id : SymbolId} (h : s.Keyed id) :
    s'.Keyed id :=
  let ⟨key, hc⟩ := h
  ⟨key, hle.cached hc⟩

/-- A descriptor has at most nine symbols. -/
theorem Coherent.length_le {σ : Setting} {s : State} (h : s.Coherent σ) {ids : List SymbolId}
    (hn : ids.Nodup) (hids : ∀ id ∈ ids, s.Keyed id) :
    ids.length ≤ 9 * σ.world.descriptorCount := by
  let keyOf (id : SymbolId) := ((s.table.get? id).map (·.kind), s.table.descriptorOf? id)
  have hkeyOf : ∀ {key : Key} {id}, s.table.cached? key.1 key.2 = some id →
      keyOf id = (some key.1, some key.2) := fun hc => by
    obtain ⟨x, _, hx, hk, _, _, hd⟩ := h.table.cached hc
    simp [keyOf, hx, hk, hd]
  have hinj : (ids.map keyOf).Nodup := by
    refine List.Nodup.map_on (fun id hid id' hid' he => ?_) hn
    obtain ⟨key, hc⟩ := hids id hid
    obtain ⟨key', hc'⟩ := hids id' hid'
    rw [hkeyOf hc, hkeyOf hc'] at he
    obtain ⟨hk, hd⟩ := Prod.mk.inj he
    rw [Option.some.inj hk, Option.some.inj hd] at hc
    exact Option.some.inj (hc.symm.trans hc')
  have hsub : ids.map keyOf ⊆ SymbolKind.described.flatMap fun kind =>
      (List.range σ.world.descriptorCount).map fun i => (some kind, some ⟨i⟩) := by
    intro p hp
    obtain ⟨id, hid, rfl⟩ := List.mem_map.1 hp
    obtain ⟨key, hc⟩ := hids id hid
    obtain ⟨_, d, _, _, hd, _⟩ := h.table.cached hc
    rw [hkeyOf hc]
    exact List.mem_flatMap.2 ⟨key.1,
      SymbolKind.mem_described (h.kind (Option.isSome_of_mem hc)),
      List.mem_map.2 ⟨key.2.index, List.mem_range.2 (World.index_lt_of_descriptor? hd), rfl⟩⟩
  have hle := (List.subperm_of_subset hinj hsub).length_le
  simp only [List.length_map, SymbolKind.described, List.flatMap_cons, List.flatMap_nil,
    List.length_append, List.length_range, List.length_nil] at hle
  omega

/-- What the next pass takes up. -/
def pending (s : State) (visited : List SymbolId) : List (DescId × SymbolId) :=
  s.table.unboundSymbols.filter fun p => !visited.contains p.2

theorem mem_pending {s : State} {p : DescId × SymbolId} :
    p ∈ s.pending visited ↔ p ∈ s.table.unboundSymbols ∧ p.2 ∉ visited := by
  simp [pending]

theorem Coherent.keyed {s : State} (h : s.Coherent σ) {p : DescId × SymbolId}
    (hp : p ∈ s.table.unboundSymbols) : ∃ kind, s.table.cached? kind p.1 = some p.2 :=
  h.table.cached_of_mem hp

theorem Coherent.visit {s : State} (h : s.Coherent σ) {visited : List SymbolId} (hn : visited.Nodup)
    (hv : ∀ id ∈ visited, s.Keyed id) :
    (visited ++ (s.pending visited).map (·.2)).Nodup ∧
      ∀ id ∈ visited ++ (s.pending visited).map (·.2), s.Keyed id := by
  constructor
  · refine List.nodup_append.2 ⟨hn, ?_, ?_⟩
    · exact (List.filter_sublist.map _).nodup s.table.nodup_unboundSymbols
    · rintro id hid _ hid' rfl
      obtain ⟨p, hp, rfl⟩ := List.mem_map.1 hid'
      exact (mem_pending.1 hp).2 hid
  · intro id hid
    rcases List.mem_append.1 hid with hid | hid
    · exact hv id hid
    · obtain ⟨p, hp, rfl⟩ := List.mem_map.1 hid
      obtain ⟨kind, hc⟩ := h.keyed (mem_pending.1 hp).1
      exact ⟨(kind, p.1), hc⟩

/-- Once nothing is left to take up, all that stands for a descriptor has its declaration. -/
theorem unboundSymbols_eq_nil {s : State} (hv : ∀ id ∈ visited, s.Bound id)
    (hp : s.pending visited = []) : s.table.unboundSymbols = [] := by
  refine List.eq_nil_iff_forall_not_mem.2 fun p hmem => ?_
  have hnot : p ∉ s.pending visited := by rw [hp]; exact List.not_mem_nil
  have hvisited : p.2 ∈ visited := by
    by_contra hfresh
    exact hnot (mem_pending.2 ⟨hmem, hfresh⟩)
  obtain ⟨x, d, hx, ho⟩ := hv _ hvisited
  obtain ⟨id, hid, he⟩ := List.mem_filterMap.1 hmem
  obtain ⟨_, _, rfl⟩ := Option.map_eq_some_iff.1 he
  obtain ⟨y, hy, hnone⟩ := SymbolTable.mem_allUnbound.1 hid
  cases hx.symm.trans hy
  cases hnone.symm.trans ho

theorem Coherent.exists_declared {s : State} (h : s.Coherent σ) (hbound : s.table.allUnbound = [])
    {key : Key} (hk : s.Has key) : ∃ decl, s.declared? key = some decl := by
  obtain ⟨id, hc⟩ := Option.isSome_iff_exists.1 hk
  obtain ⟨x, _, hx, _⟩ := h.table.cached hc
  cases ho : x.owner with
  | some decl => exact ⟨decl, declared?_eq_some.2 ⟨id, x, hc, hx, ho⟩⟩
  | none =>
    have hmem := SymbolTable.mem_allUnbound.2 ⟨x, hx, ho⟩
    rw [hbound] at hmem
    cases hmem

end State

namespace Lower

def stubPass (pending : List (DescId × SymbolId)) : Lower (List (Option DeclId)) := do
  modify fun s => { s with stats.passes := s.stats.passes + 1 }
  pending.mapM stubPending

variable {σ : Setting} {b s : State}

theorem ends_stubPending (hs : b.Stubbed σ s) {p : DescId × SymbolId} {kind : SymbolKind}
    (hc : s.table.cached? kind p.1 = some p.2) : (stubPending p).Ends σ s
      (fun _ s' => b.Stubbed σ s' ∧ s.Keeps s' ∧ s'.Bound p.2)
      fun e s' => b.Stubbed σ s' ∧ s.Keeps s' ∧ e.Stops (¬ σ.Founded) := by
  obtain ⟨x, d, hx, _, hd, _⟩ := hs.coherent.table.cached hc
  refine .symbol_bind hx ?_
  split
  next hbound =>
    obtain ⟨e, he⟩ := Option.isSome_iff_exists.1 (show x.owner.isSome from hbound)
    exact .pure ⟨hs, .refl s, x, e, hx, he⟩
  next =>
    refine .bind (Declares.declaration s (kind, p.1) p.2 hs hc) fun e s1 ⟨hs1, hle1, he⟩ => ?_
    refine .descriptor_bind ⟨hs1, hle1, trivial⟩ fun _ _ => .pure ⟨hs1, hle1, ?_⟩
    obtain ⟨id, y, hc', hy, ho⟩ := State.declared?_eq_some.1 he
    cases (hle1.table.cached hc).symm.trans hc'
    exact ⟨y, e, hy, ho⟩

theorem ends_pending (hs : b.Stubbed σ s) {ps : List (DescId × SymbolId)}
    (hps : ∀ p ∈ ps, ∃ kind, s.table.cached? kind p.1 = some p.2) : (ps.mapM stubPending).Ends σ s
      (fun _ s' => b.Stubbed σ s' ∧ s.Keeps s' ∧ ∀ p ∈ ps, s'.Bound p.2)
      fun e s' => b.Stubbed σ s' ∧ s.Keeps s' ∧ e.Stops (¬ σ.Founded) := by
  induction ps generalizing s with
  | nil => exact .pure ⟨hs, .refl s, by simp⟩
  | cons p ps ih =>
    obtain ⟨⟨kind, hc⟩, hps⟩ := List.forall_mem_cons.1 hps
    rw [List.mapM_cons]
    refine .bind (ends_stubPending hs hc) fun _ s1 ⟨hs1, hle1, hbound⟩ => ?_
    have hrest : ∀ q ∈ ps, ∃ kind, s1.table.cached? kind q.1 = some q.2 := fun q hq =>
      let ⟨kind, hc⟩ := hps q hq
      ⟨kind, hle1.table.cached hc⟩
    refine .bind ((ih hs1 hrest).imp (fun _ _ h => h) fun _ _ ⟨hs2, hle2, he⟩ =>
      ⟨hs2, hle1.trans hle2, he⟩) fun _ s2 ⟨hs2, hle2, hbounds⟩ => .pure ?_
    exact ⟨hs2, hle1.trans hle2, List.forall_mem_cons.2 ⟨hbound.mono hle2.table, hbounds⟩⟩

/-- A pass without error declares all that it takes up. -/
theorem ends_stubPass (hs : b.Stubbed σ s) (visited : List SymbolId) :
    (stubPass (s.pending visited)).Ends σ s
      (fun _ s' => b.Stubbed σ s' ∧ s.table.Le s'.table ∧
        s'.stats.passes = s.stats.passes + 1 ∧ ∀ p ∈ s.pending visited, s'.Bound p.2)
      fun e s' => b.Stubbed σ s' ∧ s'.stats.passes = s.stats.passes + 1 ∧
        e.Stops (¬ σ.Founded) := by
  have hs' : b.Stubbed σ { s with stats.passes := s.stats.passes + 1 } := hs.withStats _
  refine .bind (Q := fun _ s' => s' = { s with stats.passes := s.stats.passes + 1 })
    (.modify rfl) ?_
  rintro _ _ rfl
  refine (ends_pending hs' fun p hmem => ?_).imp (fun _ _ ⟨hs1, hle, hbounds⟩ =>
    ⟨hs1, hle.table, hle.passes, hbounds⟩) fun _ _ ⟨hs1, hle, he⟩ => ⟨hs1, hle.passes, he⟩
  exact hs.coherent.keyed (State.mem_pending.1 hmem).1

end Lower

/-- A pass that was made. -/
structure Round where
  pending : List (DescId × SymbolId)
  isComplete : Bool
  after : State

/-- The passes of a run that has no limit on their number, and how it ends: with the roots among
the new declarations once nothing is left to take up, or with the error of its last pass. -/
inductive Rounds (σ : Setting) : List SymbolId → State → List Round →
    Except LowerError (List DeclId) → State → Prop
  | done {visited s} : s.pending visited = [] → Rounds σ visited s [] (.ok []) s
  | failed {visited s e s'} : s.pending visited ≠ [] →
      (Lower.stubPass (s.pending visited)).runFrom σ s = (.error e, s') →
      Rounds σ visited s [⟨s.pending visited, false, s'⟩] (.error e) s'
  | next {visited s roots s1 rounds r s'} : s.pending visited ≠ [] →
      (Lower.stubPass (s.pending visited)).runFrom σ s = (.ok roots, s1) →
      Rounds σ (visited ++ (s.pending visited).map (·.2)) s1 rounds r s' →
      Rounds σ visited s (⟨s.pending visited, true, s1⟩ :: rounds)
        (r.map (roots.filterMap id ++ ·)) s'

namespace Rounds

open Lower

variable {σ : Setting} {b s s' : State} {visited : List SymbolId} {rounds : List Round}
  {r : Except LowerError (List DeclId)}

theorem runFrom_stubPasses_succ (σ : Setting) (s : State) (fuel : Nat) (visited : List SymbolId) :
    (stubPasses (fuel + 1) visited).runFrom σ s =
      Lower.runFrom (if (s.pending visited).isEmpty then return []
        else do
          let roots ← stubPass (s.pending visited)
          return roots.filterMap id ++
            (← stubPasses fuel (visited ++ (s.pending visited).map (·.2)))) σ s := by
  refine (runFrom_bind_ok _ _ (runFrom_get _ _) _).trans ?_
  simp only [stubPass, bind_assoc]
  rfl

/-- A limit above the number of the passes makes no difference. -/
theorem runFrom_stubPasses (h : Rounds σ visited s rounds r s') {fuel : Nat}
    (hfuel : rounds.length < fuel) : (stubPasses fuel visited).runFrom σ s = (r, s') := by
  induction h generalizing fuel with
  | done hp =>
    obtain ⟨fuel, rfl⟩ := Nat.exists_eq_succ_of_ne_zero (Nat.ne_zero_of_lt hfuel)
    rw [runFrom_stubPasses_succ, hp]
    rfl
  | failed hp hrun =>
    obtain ⟨fuel, rfl⟩ := Nat.exists_eq_succ_of_ne_zero (Nat.ne_zero_of_lt hfuel)
    rw [runFrom_stubPasses_succ, if_neg (by simpa using hp)]
    exact runFrom_bind_error _ _ hrun _
  | @next _ _ _ s1 _ r s' hp hrun _ ih =>
    obtain ⟨fuel, rfl⟩ := Nat.exists_eq_succ_of_ne_zero (Nat.ne_zero_of_lt hfuel)
    have hrest := ih (Nat.lt_of_succ_lt_succ hfuel)
    rw [runFrom_stubPasses_succ, if_neg (by simpa using hp), runFrom_bind_ok _ _ hrun]
    cases r with
    | ok roots => exact runFrom_bind_ok _ _ hrest _
    | error e => exact runFrom_bind_error _ _ hrest _

theorem fresh (h : Rounds σ visited s rounds r s') :
    ∀ round ∈ rounds, round.pending ≠ [] ∧ ∀ p ∈ round.pending, p.2 ∉ visited := by
  induction h with
  | done _ => simp
  | failed hp _ =>
    exact List.forall_mem_singleton.2 ⟨hp, fun p hmem => (State.mem_pending.1 hmem).2⟩
  | next hp _ _ ih =>
    refine List.forall_mem_cons.2 ⟨⟨hp, fun p hmem => (State.mem_pending.1 hmem).2⟩, ?_⟩
    intro round hround
    obtain ⟨hne, hfresh⟩ := ih round hround
    exact ⟨hne, fun p hmem hvisited => hfresh p hmem (List.mem_append_left _ hvisited)⟩

theorem pairwise_disjoint (h : Rounds σ visited s rounds r s') : rounds.Pairwise fun round later =>
    (round.pending.map (·.2)).Disjoint (later.pending.map (·.2)) := by
  induction h with
  | done _ => exact .nil
  | failed _ _ => exact List.pairwise_singleton _ _
  | next _ _ hrest ih =>
    refine List.pairwise_cons.2 ⟨fun later hlater id hid hid' => ?_, ih⟩
    obtain ⟨p, hp, rfl⟩ := List.mem_map.1 hid'
    exact (hrest.fresh later hlater).2 p hp (List.mem_append_right _ hid)

theorem isComplete_of_ok (h : Rounds σ visited s rounds r s') {roots : List DeclId}
    (hr : r = .ok roots) : ∀ round ∈ rounds, round.isComplete := by
  induction h generalizing roots with
  | done _ => simp
  | failed _ _ => cases hr
  | @next _ _ _ _ _ r _ _ _ _ ih =>
    cases r with
    | error e => cases hr
    | ok roots' => exact List.forall_mem_cons.2 ⟨rfl, ih rfl⟩

/-- What the passes of a run have come to. -/
structure Spec (σ : Setting) (b s : State) (rounds : List Round)
    (r : Except LowerError (List DeclId)) (s' : State) : Prop where
  stubbed : b.Stubbed σ s'
  passes : s'.stats.passes = s.stats.passes + rounds.length
  bound : ∀ round ∈ rounds, round.isComplete → ∀ p ∈ round.pending, round.after.Bound p.2
  settled : ∀ roots, r = .ok roots → s'.table.unboundSymbols = []
  stops : ∀ e, r = .error e → e.Stops (¬ σ.Founded)

theorem spec (h : Rounds σ visited s rounds r s') (hs : b.Stubbed σ s)
    (hv : ∀ id ∈ visited, s.Bound id) : Spec σ b s rounds r s' := by
  induction h with
  | done hp =>
    exact ⟨hs, rfl, by simp, fun _ _ => State.unboundSymbols_eq_nil hv hp, by simp⟩
  | @failed visited s e s' hp hrun =>
    have hpass := ends_stubPass hs visited
    obtain ⟨hs', hpasses, he⟩ := hpass.error hrun
    refine ⟨hs', hpasses, by simp, by simp, ?_⟩
    rintro _ ⟨⟩
    exact he
  | @next visited s roots s1 rounds r s' hp hrun _ ih =>
    have hpass := ends_stubPass hs visited
    obtain ⟨hs1, hle, hpasses, hbounds⟩ := hpass.ok hrun
    -- What earlier passes have declared stays declared, so the next pass may rely on all of it.
    have hrest := ih hs1 fun id hid => by
      rcases List.mem_append.1 hid with hid | hid
      · exact (hv id hid).mono hle
      · obtain ⟨p, hmem, rfl⟩ := List.mem_map.1 hid
        exact hbounds p hmem
    refine ⟨hrest.stubbed, ?_, ?_, fun ds hok => ?_, fun e herr => ?_⟩
    · rw [hrest.passes, hpasses, List.length_cons]
      omega
    · exact List.forall_mem_cons.2 ⟨fun _ => hbounds, hrest.bound⟩
    · cases r with
      | ok ds' => exact hrest.settled ds' rfl
      | error e => cases hok
    · cases r with
      | ok ds' => cases herr
      | error _ =>
        cases herr
        exact hrest.stops e rfl

/-- The passes come to an end, since each of them takes up a new symbol. -/
theorem exists_rounds (hs : b.Stubbed σ s) (hn : visited.Nodup) (hv : ∀ id ∈ visited, s.Keyed id)
    {n : Nat} (hcount : 9 * σ.world.descriptorCount ≤ visited.length + n) :
    ∃ rounds r s', rounds.length ≤ n ∧ ∀ v, Rounds (σ.withVerify v) visited s rounds r s' := by
  -- By how many symbols can still be taken up: each pass but the last takes up at least one.
  induction n generalizing s visited with
  | zero =>
    obtain ⟨hnodup, hkeyed⟩ := hs.coherent.visit hn hv
    have hle := hs.coherent.length_le hnodup hkeyed
    simp only [List.length_append, List.length_map] at hle
    have hp : s.pending visited = [] := List.eq_nil_of_length_eq_zero (by omega)
    exact ⟨[], .ok [], s, Nat.le_refl _, fun _ => .done hp⟩
  | succ n ih =>
    by_cases hp : s.pending visited = []
    · exact ⟨[], .ok [], s, Nat.zero_le _, fun _ => .done hp⟩
    have hpass := ends_stubPass hs visited
    rcases hrun : (stubPass (s.pending visited)).runFrom σ s with ⟨e | roots, s1⟩
    · exact ⟨[⟨s.pending visited, false, s1⟩], .error e, s1, Nat.le_add_left 1 n, fun v =>
        .failed hp ((hpass.verify v).trans hrun)⟩
    · obtain ⟨hs1, hle, _⟩ := hpass.ok hrun
      obtain ⟨hnodup, hkeyed⟩ := hs.coherent.visit hn hv
      have hpos := List.length_pos_iff.2 hp
      obtain ⟨rounds, r, s', hlength, hrounds⟩ := ih hs1 hnodup
        (fun id hid => (hkeyed id hid).mono hle)
        (by simp only [List.length_append, List.length_map]; omega)
      exact ⟨⟨s.pending visited, true, s1⟩ :: rounds, _, s', Nat.succ_le_succ hlength, fun v =>
        .next hp ((hpass.verify v).trans hrun) (hrounds v)⟩

/-- All passes of the loop, which is never cut short. -/
theorem exists_of_coherent (hb : b.Coherent σ) : ∃ rounds r s',
    rounds.length ≤ 9 * σ.world.descriptorCount ∧ (∀ v, Rounds (σ.withVerify v) [] b rounds r s') ∧
      Spec σ b b rounds r s' := by
  obtain ⟨rounds, r, s', hlength, hrounds⟩ := exists_rounds (.refl hb) List.nodup_nil
    (by simp) (n := 9 * σ.world.descriptorCount) (by simp)
  exact ⟨rounds, r, s', hlength, hrounds,
    (hrounds σ.config.verifyBound).spec (.refl hb) (by simp)⟩

end Rounds

namespace Lower

open Rounds

variable {σ : Setting} {b : State}

theorem ends_stubPasses (hb : b.Coherent σ) :
    (stubPasses (9 * σ.world.descriptorCount + 1) []).Ends σ b
      (fun _ s' => b.Stubbed σ s' ∧ s'.table.unboundSymbols = [])
      fun e s' => b.Stubbed σ s' ∧ e.Stops (¬ σ.Founded) := by
  obtain ⟨rounds, r, s', hlength, hrounds, hspec⟩ := exists_of_coherent hb
  have hrun : ∀ v, (stubPasses (9 * σ.world.descriptorCount + 1) []).runFrom (σ.withVerify v) b =
      (r, s') := fun v => (hrounds v).runFrom_stubPasses (Nat.lt_succ_of_le hlength)
  have hself := hrun σ.config.verifyBound
  refine ⟨fun v => (hrun v).trans hself.symm, fun hok => ?_, fun herr => ?_⟩
  · cases hself.symm.trans hok
    exact ⟨hspec.stubbed, hspec.settled _ rfl⟩
  · cases hself.symm.trans herr
    exact ⟨hspec.stubbed, hspec.stops _ rfl⟩

theorem ends_names {s : State} {ids : List SymbolId} (h : ∀ id ∈ ids, (s.table.get? id).isSome)
    (E : LowerError → State → Prop) :
    (ids.mapM fun id => do return (← symbol id).name : Lower _).Ends σ s
      (fun names s' => s' = s ∧ names.length = ids.length) E := by
  induction ids with
  | nil => exact .pure ⟨rfl, rfl⟩
  | cons id ids ih =>
    obtain ⟨hid, hids⟩ := List.forall_mem_cons.1 h
    obtain ⟨x, hx⟩ := Option.isSome_iff_exists.1 hid
    rw [List.mapM_cons]
    refine .bind (Q := fun _ s' => s' = s) (.symbol_bind hx (.pure rfl)) ?_
    rintro name _ rfl
    refine .bind (ih hids) ?_
    rintro names _ ⟨rfl, hlength⟩
    exact .pure ⟨rfl, by simp [hlength]⟩

/-- Stubs give everything its declaration, unless a helper lacks one. -/
theorem ends_generateStubs (hb : b.Coherent σ) : generateStubs.Ends σ b
    (fun _ s' => b.Stubbed σ s' ∧ s'.table.allUnbound = [])
    fun e s' => b.Stubbed σ s' ∧ (e.Stops (¬ σ.Founded) ∨ ∃ id, b.Owes id) := by
  refine .read_bind (fun _ => rfl) (.bind ((ends_stubPasses hb).imp (fun _ _ h => h)
    fun _ _ ⟨hs', he⟩ => ⟨hs', .inl he⟩) fun roots s1 ⟨hs1, hnone⟩ => .get_bind ?_)
  refine .bind (ends_names (fun id hid => ?_) _) ?_
  · obtain ⟨x, hx, _⟩ := SymbolTable.mem_allUnbound.1 hid
    exact Option.isSome_of_mem hx
  rintro names _ ⟨rfl, hlength⟩
  split
  next hempty =>
    rw [List.isEmpty_iff.1 hempty] at hlength
    exact .pure ⟨hs1, List.eq_nil_of_length_eq_zero hlength.symm⟩
  next hne =>
    refine .throw ⟨hs1, .inr ?_⟩
    have hpos : 0 < names.length := List.length_pos_iff.2 (by simpa using hne)
    obtain ⟨id, hid⟩ := List.exists_mem_of_length_pos (hlength ▸ hpos)
    -- What is left stands for no descriptor, so it was there before.
    have hloose := List.filterMap_eq_nil_iff.1 hnone id hid
    exact ⟨id, hs1.owes ⟨Option.map_eq_none_iff.1 hloose, SymbolTable.mem_allUnbound.1 hid⟩⟩

end Lower

end TypedTree
