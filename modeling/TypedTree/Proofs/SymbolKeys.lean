import TypedTree.Proofs.Lookup.Traversal
import TypedTree.Proofs.Reorder.Pending

namespace TypedTree

/-- The declarations around another one from the inside out, where they come to an end. -/
inductive World.Around (w : World) : Option DescId → List Descriptor → Prop
  | outermost : w.Around none []
  | inside {id d around} : w.descriptor? id = some d → w.Around d.container around →
      w.Around (some id) (d :: around)

namespace World.Around

variable {w : World} {id : Option DescId}

theorem unique (h : w.Around id around) (h' : w.Around id around') : around = around' := by
  induction h generalizing around' with
  | outermost => cases h'; rfl
  | inside hd _ ih =>
    cases h' with
    | inside hd' h' =>
      cases hd.symm.trans hd'
      rw [ih h']

/-- No declaration stands around itself, so the way out passes each at most once. -/
theorem exists_ids (h : w.Around id around) : ∃ ids : List DescId, ids.Nodup ∧
    ids.length = around.length ∧ ∀ i ∈ ids, i.index < w.descriptorCount ∧
      ∃ further, w.Around (some i) further ∧ further.length ≤ around.length := by
  induction h with
  | outermost => exact ⟨[], by simp⟩
  | @inside i d around hd h ih =>
    obtain ⟨ids, hnodup, hlength, hids⟩ := ih
    have hself : w.Around (some i) (d :: around) := .inside hd h
    refine ⟨i :: ids, List.nodup_cons.2 ⟨fun hi => ?_, hnodup⟩, by simp [hlength], ?_⟩
    · obtain ⟨_, further, hfurther, hle⟩ := hids i hi
      rw [← hself.unique hfurther] at hle
      simp only [List.length_cons] at hle
      omega
    · refine List.forall_mem_cons.2 ⟨⟨index_lt_of_descriptor? hd, _, hself, le_refl _⟩, ?_⟩
      intro j hj
      obtain ⟨hlt, further, hfurther, hle⟩ := hids j hj
      exact ⟨hlt, further, hfurther, hle.trans (Nat.le_succ _)⟩

theorem length_le (h : w.Around id around) : around.length ≤ w.descriptorCount := by
  obtain ⟨ids, hnodup, hlength, hids⟩ := h.exists_ids
  have hsub : ids ⊆ (List.range w.descriptorCount).map .mk := fun i hi =>
    List.mem_map.2 ⟨i.index, List.mem_range.2 (hids i hi).1, rfl⟩
  simpa [hlength] using (List.subperm_of_subset hnodup hsub).length_le

theorem containersUpTo_eq (h : w.Around id around) {fuel : Nat} (hle : around.length ≤ fuel) :
    w.containersUpTo fuel id = around := by
  induction h generalizing fuel with
  | outermost => cases fuel <;> rfl
  | inside hd _ ih =>
    cases fuel with
    | zero => cases hle
    | succ fuel => simp only [containersUpTo, hd, ih (Nat.le_of_succ_le_succ hle)]

theorem containers_eq {d : Descriptor} (h : w.Around d.container around) :
    w.containers d = around :=
  h.containersUpTo_eq h.length_le

end World.Around

namespace SymbolTable

/-- What can be asked of a table. -/
inductive Call where
  | getOrCreate (kind : SymbolKind) (desc : DescId)
  | symbolFor (desc : DescId)
  | fresh (kind : SymbolKind) (identity : SymbolIdentity)
  | freshLocal (kind : SymbolKind) (name : Name)
  | bind (id : SymbolId) (decl : DeclId)

/-- The table after a call. A call that fails leaves it as it is. -/
def call (w : World) (t : SymbolTable) : Call → SymbolTable
  | .getOrCreate kind desc => ((t.getOrCreate? w kind desc).map (·.2)).getD t
  | .symbolFor desc => ((t.symbolFor? w desc).map (·.2)).getD t
  | .fresh kind identity => (t.fresh kind identity).2
  | .freshLocal kind name => (t.fresh kind (.unqualified name)).2
  | .bind id decl => ((t.bind? id decl).bind (·.toOption)).getD t

def calls (w : World) (t : SymbolTable) (cs : List Call) : SymbolTable := cs.foldl (call w) t

variable {w : World} {t : SymbolTable}

theorem Sound.getOrCreate (h : t.Sound w false) (kind : SymbolKind) (desc : DescId) :
    (t.call w (.getOrCreate kind desc)).Sound w false ∧
      t.Le (t.call w (.getOrCreate kind desc)) := by
  simp only [SymbolTable.call]
  rcases hp : t.getOrCreate? w kind desc with _ | ⟨id, t'⟩
  · exact ⟨h, .refl t⟩
  · rcases getOrCreate?_cases hp with ⟨_, rfl⟩ | ⟨hc, _, d, hd, rfl⟩
    · exact ⟨h, .refl _⟩
    · exact ⟨h.create hd hc (by simp), le_create hc _⟩

/-- Keys and symbols stay together in every call, and nothing is forgotten. -/
theorem Sound.call (h : t.Sound w false) (c : Call) :
    (t.call w c).Sound w false ∧ t.Le (t.call w c) := by
  cases c with
  | getOrCreate kind desc => exact h.getOrCreate kind desc
  | symbolFor desc =>
    cases hd : w.descriptor? desc with
    | none =>
      have hsame : t.call w (.symbolFor desc) = t := by
        simp [SymbolTable.call, symbolFor?, hd]
      exact hsame.symm ▸ ⟨h, .refl t⟩
    | some d =>
      have hsame : t.call w (.symbolFor desc) = t.call w (.getOrCreate d.symbolKind desc) := by
        simp only [SymbolTable.call, symbolFor?, hd, Option.bind_some]
      exact hsame.symm ▸ h.getOrCreate _ _
  | fresh kind identity => exact ⟨h.fresh kind identity, t.le_fresh kind identity⟩
  | freshLocal kind name => exact ⟨h.fresh kind _, t.le_fresh kind _⟩
  | bind id decl =>
    cases hx : t.get? id with
    | none =>
      have hsame : t.call w (.bind id decl) = t := by
        simp only [get?] at hx
        simp [SymbolTable.call, bind?, Store.changeAt, hx]
      exact hsame.symm ▸ ⟨h, .refl t⟩
    | some x =>
      simp only [SymbolTable.call, bind?_eq hx]
      cases ho : x.owner with
      | some existing => exact ⟨h, .refl t⟩
      | none => exact ⟨h.own hx decl, le_own hx ho decl⟩

theorem Sound.calls (h : t.Sound w false) (cs : List Call) :
    (t.calls w cs).Sound w false ∧ t.Le (t.calls w cs) := by
  induction cs generalizing t with
  | nil => exact ⟨h, .refl t⟩
  | cons c cs ih =>
    obtain ⟨hnext, hle⟩ := h.call c
    exact ⟨(ih hnext).1, hle.trans (ih hnext).2⟩

theorem Sound.cached_iff (h : t.Sound w false) {kind : SymbolKind} {desc : DescId} {id : SymbolId} :
    t.cached? kind desc = some id ↔
      (∃ x, t.get? id = some x ∧ x.kind = kind) ∧ t.descriptorOf? id = some desc := by
  refine ⟨fun hc => ?_, fun ⟨⟨x, hx, hkind⟩, ho⟩ => ?_⟩
  · obtain ⟨x, _, hx, hkind, _, _, ho⟩ := h.cached hc
    exact ⟨⟨x, hx, hkind⟩, ho⟩
  · obtain ⟨y, hy, hc⟩ := h.origin ho
    cases hx.symm.trans hy
    exact hkind ▸ hc

theorem mem_unboundSymbols {desc : DescId} {id : SymbolId} : (desc, id) ∈ t.unboundSymbols ↔
    t.descriptorOf? id = some desc ∧ ∃ x, t.get? id = some x ∧ x.owner = none := by
  simp [unboundSymbols, mem_allUnbound, and_comm]

theorem pairwise_unboundSymbols (t : SymbolTable) :
    t.unboundSymbols.Pairwise (·.2.index < ·.2.index) := by
  refine t.pairwise_allUnbound.filterMap _ fun a a' hlt b hb b' hb' => ?_
  obtain ⟨_, _, rfl⟩ := Option.map_eq_some_iff.1 hb
  obtain ⟨_, _, rfl⟩ := Option.map_eq_some_iff.1 hb'
  exact hlt

/-- Whatever has been asked of a table: keys and the symbols that record them belong together one to
one and for good, the name of a symbol is made of the declarations around its descriptor, symbols
without a descriptor stay so, and what is listed as unbound is exactly that, in order. -/
theorem calls_keyed (w : World) (cs : List Call) :
    let t := SymbolTable.calls w {} cs
    (∀ kind desc id, t.cached? kind desc = some id ↔
      (∃ x, t.get? id = some x ∧ x.kind = kind) ∧ t.descriptorOf? id = some desc) ∧
    (∀ kind kind' desc desc' id, t.cached? kind desc = some id →
      t.cached? kind' desc' = some id → kind = kind' ∧ desc = desc') ∧
    (∀ kind desc id, t.cached? kind desc = some id → ∀ more,
      (t.calls w more).getOrCreate? w kind desc = some (id, t.calls w more)) ∧
    (∀ kind desc id, t.cached? kind desc = some id → ∃ x d, t.get? id = some x ∧
      w.descriptor? desc = some d ∧ ∀ around, w.Around d.container around → x.identity =
        { package := d.package
          enclosing := ((around.filter (·.class?.isSome)).map (·.name)).reverse
          name := d.name
          isLocal := d.isLocalProperty || around.any (·.isCallable) }) ∧
    (∀ kind identity more,
      let later := (t.fresh kind identity).2.calls w more
      later.descriptorOf? (t.fresh kind identity).1 = none ∧
        ∀ kind' desc, later.cached? kind' desc ≠ some (t.fresh kind identity).1) ∧
    (t.unboundSymbols.Pairwise (·.2.index < ·.2.index) ∧ ∀ desc id, (desc, id) ∈ t.unboundSymbols ↔
      t.descriptorOf? id = some desc ∧ ∃ x, t.get? id = some x ∧ x.owner = none) ∧
    t.allUnbound.Pairwise (·.index < ·.index) ∧
      ∀ id, id ∈ t.allUnbound ↔ ∃ x, t.get? id = some x ∧ x.owner = none := by
  intro t
  have ht : t.Sound w false := ((sound_empty w false).calls cs).1
  refine ⟨fun _ _ _ => ht.cached_iff, fun _ _ _ _ _ hc hc' => ?_, fun _ _ _ hc more => ?_,
    fun _ _ _ hc => ?_, fun kind identity more => ?_,
    ⟨t.pairwise_unboundSymbols, fun _ _ => mem_unboundSymbols⟩, t.pairwise_allUnbound,
    fun _ => mem_allUnbound⟩
  · obtain ⟨⟨x, hx, rfl⟩, ho⟩ := ht.cached_iff.1 hc
    obtain ⟨⟨y, hy, rfl⟩, ho'⟩ := ht.cached_iff.1 hc'
    cases hx.symm.trans hy
    exact ⟨rfl, Option.some.inj (ho.symm.trans ho')⟩
  · simp [getOrCreate?, (ht.calls more).2.cached hc]
  · obtain ⟨x, d, hx, _, hd, hidentity, _⟩ := ht.cached hc
    refine ⟨x, d, hx, hd, fun around haround => ?_⟩
    rw [hidentity, World.identity, haround.containers_eq, List.map_reverse]
  · have hnew := ht.fresh kind identity
    obtain ⟨hlater, hle⟩ := hnew.calls more
    have hnone : t.descriptorOf? ⟨t.symbols.size⟩ = none := by
      cases ho : t.descriptorOf? ⟨t.symbols.size⟩ with
      | none => rfl
      | some desc =>
        obtain ⟨x, hx, _⟩ := ht.origin ho
        simp [get?] at hx
    have hmade : ((t.fresh kind identity).2.get? ⟨t.symbols.size⟩).isSome := by
      simp [get?, SymbolTable.fresh]
    have hloose := (hle.origin hmade).trans hnone
    refine ⟨hloose, fun kind' desc hc => ?_⟩
    cases hloose.symm.trans (hlater.cached_iff.1 hc).2

end SymbolTable

end TypedTree
