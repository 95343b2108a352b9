import TypedTree.Proofs.Effect
import TypedTree.Proofs.Lookup.Traversal

namespace TypedTree

/-- The setting with the search of the finished tree turned on or off. -/
def Setting.withVerify (σ : Setting) (verify : Bool) : Setting :=
  { σ with config.verifyBound := verify }

namespace Lower

/-- How a step ends: in a result of which the first assertion holds, or in an error of which the
second one does. The search of the finished tree is no concern of the step. -/
structure Ends {α : Type} (σ : Setting) (s : State) (m : Lower α) (Q : α → State → Prop)
    (E : LowerError → State → Prop) : Prop where
  verify : ∀ v, m.runFrom (σ.withVerify v) s = m.runFrom σ s
  ok : ∀ {a s'}, m.runFrom σ s = (.ok a, s') → Q a s'
  error : ∀ {e s'}, m.runFrom σ s = (.error e, s') → E e s'

namespace Ends

variable {σ : Setting} {s : State} {α β : Type} {m : Lower α} {k : α → Lower β}
  {Q Q' : α → State → Prop} {R : β → State → Prop} {E E' : LowerError → State → Prop}

theorem pure (h : Q a s) : (Pure.pure a : Lower α).Ends σ s Q E where
  verify _ := rfl
  ok hr := by cases hr; exact h
  error hr := by cases hr

theorem throw (h : E e s) : (throw e : Lower α).Ends σ s Q E where
  verify _ := rfl
  ok hr := by cases hr
  error hr := by cases hr; exact h

theorem bind (h : m.Ends σ s Q E) (hk : ∀ a s', Q a s' → (k a).Ends σ s' R E) :
    (m >>= k).Ends σ s R E := by
  rcases hr : m.runFrom σ s with ⟨e | a, s'⟩
  · have hrun := runFrom_bind_error _ _ hr k
    refine ⟨fun v => ?_, fun hok => ?_, fun herr => ?_⟩
    · rw [hrun, runFrom_bind_error _ _ ((h.verify v).trans hr)]
    · cases hrun.symm.trans hok
    · cases hrun.symm.trans herr
      exact h.error hr
  · have hrun := runFrom_bind_ok _ _ hr k
    have hnext := hk a s' (h.ok hr)
    refine ⟨fun v => ?_, fun hok => hnext.ok (hrun.symm.trans hok),
      fun herr => hnext.error (hrun.symm.trans herr)⟩
    rw [hrun, runFrom_bind_ok _ _ ((h.verify v).trans hr), hnext.verify]

theorem imp (h : m.Ends σ s Q E) (hQ : ∀ a s', Q a s' → Q' a s')
    (hE : ∀ e s', E e s' → E' e s') : m.Ends σ s Q' E' where
  verify := h.verify
  ok hr := hQ _ _ (h.ok hr)
  error hr := hE _ _ (h.error hr)

theorem read_bind {k : Setting → Lower β} (hv : ∀ v, k (σ.withVerify v) = k σ)
    (h : (k σ).Ends σ s R E) : (read >>= k).Ends σ s R E := by
  have hrun := runFrom_bind_ok σ s (runFrom_read σ s) k
  refine ⟨fun v => ?_, fun hok => h.ok (hrun.symm.trans hok),
    fun herr => h.error (hrun.symm.trans herr)⟩
  rw [hrun, runFrom_bind_ok _ _ (runFrom_read _ _), hv, h.verify]

theorem get_bind {k : State → Lower β} (h : (k s).Ends σ s R E) : (get >>= k).Ends σ s R E := by
  have hrun := runFrom_bind_ok σ s (runFrom_get σ s) k
  refine ⟨fun v => ?_, fun hok => h.ok (hrun.symm.trans hok),
    fun herr => h.error (hrun.symm.trans herr)⟩
  rw [hrun, runFrom_bind_ok _ _ (runFrom_get _ _), h.verify]

theorem modify {f : State → State} {Q : Unit → State → Prop} (h : Q () (f s)) :
    (modify f : Lower Unit).Ends σ s Q E where
  verify _ := rfl
  ok hr := by cases hr; exact h
  error hr := by cases hr

theorem modifyGet (h : Q (f s).1 (f s).2) :
    (modifyGet f : Lower α).Ends σ s Q E where
  verify _ := rfl
  ok hr := by cases hr; exact h
  error hr := by cases hr

theorem of_runFrom (h : ∀ σ', m.runFrom σ' s = (.ok a, s')) (hQ : Q a s') :
    m.Ends σ s Q E where
  verify v := (h _).trans (h σ).symm
  ok hr := by cases (h σ).symm.trans hr; exact hQ
  error hr := by cases (h σ).symm.trans hr

theorem of_eq {m' : Lower α} (h : m.Ends σ s Q E)
    (hm : ∀ σ' : Setting, σ'.world = σ.world → m'.runFrom σ' s = m.runFrom σ' s) :
    m'.Ends σ s Q E where
  verify v := by rw [hm σ rfl, hm (σ.withVerify v) rfl, h.verify]
  ok hr := h.ok ((hm σ rfl).symm.trans hr)
  error hr := h.error ((hm σ rfl).symm.trans hr)

theorem present_bind (hx : x = none → E .dangling s) (h : ∀ a, x = some a → (k a).Ends σ s R E) :
    (present x >>= k).Ends σ s R E := by
  cases x with
  | none => exact throw (hx rfl)
  | some a => simpa [present] using h a rfl

theorem descriptor_bind {id : DescId} {k : Descriptor → Lower β}
    (hx : E .dangling s)
    (h : ∀ d, σ.world.descriptor? id = some d → (k d).Ends σ s R E) :
    (descriptor id >>= k).Ends σ s R E := by
  simp only [descriptor, bind_assoc]
  exact read_bind (fun _ => rfl) (present_bind (fun _ => hx) h)

theorem sourceType_bind {id : TypeId} {k : SourceType → Lower β} (hx : E .dangling s)
    (h : ∀ t, σ.world.type? id = some t → (k t).Ends σ s R E) :
    (sourceType id >>= k).Ends σ s R E := by
  simp only [sourceType, bind_assoc]
  exact read_bind (fun _ => rfl) (present_bind (fun _ => hx) h)

theorem symbol_bind {id : SymbolId} (hx : s.table.get? id = some x) {k : Symbol → Lower β}
    (h : (k x).Ends σ s R E) : (symbol id >>= k).Ends σ s R E := by
  simp only [symbol, bind_assoc]
  refine get_bind ?_
  rw [hx]
  exact h

end Ends

end Lower

namespace State

def Has (s : State) (key : Key) : Prop := (s.table.cached? key.1 key.2).isSome

instance (s : State) (key : Key) : Decidable (s.Has key) :=
  inferInstanceAs (Decidable ((s.table.cached? key.1 key.2).isSome = true))

def declared? (s : State) (key : Key) : Option DeclId :=
  (s.table.cached? key.1 key.2).bind fun id => (s.table.get? id).bind (·.owner)

/-- The symbol is a helper without a declaration. -/
def Owes (s : State) (id : SymbolId) : Prop :=
  s.table.descriptorOf? id = none ∧ ∃ x, s.table.get? id = some x ∧ x.owner = none

/-- A state whose parts agree: symbols and keys belong together, keys are of the nine kinds that
descriptors have symbols of, and what a remembered type looks up has its symbols. -/
structure Coherent (σ : Setting) (s : State) : Prop where
  table : s.table.Sound σ.world false
  kind : ∀ {key}, s.Has key → key.1 ≠ .initializer
  types : ∀ {id τ}, s.types.lookup id = some τ → ∀ {key}, (Lookup.type id).Leads σ key → s.Has key

variable {σ : Setting} {s s' : State} {key : Key}

theorem declared?_eq_some : s.declared? key = some d ↔
    ∃ id x, s.table.cached? key.1 key.2 = some id ∧ s.table.get? id = some x ∧
      x.owner = some d := by
  simp [declared?, Option.bind_eq_some_iff]

theorem Has.mono (hle : s.table.Le s'.table) (h : s.Has key) : s'.Has key := by
  obtain ⟨id, hc⟩ := Option.isSome_iff_exists.1 h
  exact Option.isSome_of_mem (hle.cached hc)

theorem declared?_mono (hle : s.table.Le s'.table) {d : DeclId} (h : s.declared? key = some d) :
    s'.declared? key = some d := by
  rw [declared?_eq_some] at h ⊢
  obtain ⟨id, x, hc, hx, ho⟩ := h
  obtain ⟨y, hy, hxy⟩ := hle.symbol hx
  exact ⟨id, y, hle.cached hc, hy, hxy.owner d ho⟩

theorem undeclared_mono (hle : s.table.Le s'.table) (h : s'.declared? key = none) :
    s.declared? key = none := by
  cases hd : s.declared? key with
  | none => rfl
  | some d => cases h.symm.trans (declared?_mono hle hd)

theorem has_of_declared? (h : s.declared? key = some d) : s.Has key := by
  obtain ⟨id, _, hc, _⟩ := declared?_eq_some.1 h
  exact Option.isSome_of_mem hc

namespace Coherent

theorem empty (σ : Setting) : State.Coherent σ {} where
  table := SymbolTable.sound_empty σ.world false
  kind h := by cases h
  types h := by cases h

theorem of_eq (h : s.Coherent σ) (ht : s'.table = s.table) (hτ : s'.types = s.types) :
    s'.Coherent σ where
  table := ht ▸ h.table
  kind hk := h.kind (by unfold Has at hk ⊢; rwa [ht] at hk)
  types hl _ hk := by
    have hhas := h.types (hτ ▸ hl) hk
    unfold Has at hhas ⊢
    rwa [ht]

theorem withTable (h : s.Coherent σ) {t : SymbolTable} (ht : t.Sound σ.world false)
    (hc : ∀ kind desc, t.cached? kind desc = s.table.cached? kind desc) :
    State.Coherent σ { s with table := t } where
  table := ht
  kind hk := h.kind (by simpa only [Has, hc] using hk)
  types hl _ hk := by simpa only [Has, hc] using h.types hl hk

theorem fresh (h : s.Coherent σ) (kind : SymbolKind) (identity : SymbolIdentity) :
    State.Coherent σ { s with table := (s.table.fresh kind identity).2 } :=
  h.withTable (h.table.fresh kind identity) fun _ _ => rfl

theorem own (h : s.Coherent σ) {id : SymbolId} {x : Symbol} (hx : s.table.get? id = some x)
    (d : DeclId) : State.Coherent σ { s with table := s.table.own id x d } :=
  h.withTable (h.table.own hx d) fun _ _ => rfl

theorem create (h : s.Coherent σ) {kind : SymbolKind} {desc : DescId} {d : Descriptor}
    (hd : σ.world.descriptor? desc = some d) (hc : s.table.cached? kind desc = none)
    (hk : kind ≠ .initializer) :
    State.Coherent σ { s with table := s.table.create kind desc (σ.world.identity d) } where
  table := h.table.create hd hc (by simp)
  kind {key} hkey := by
    unfold Has at hkey
    rw [SymbolTable.cached?_create] at hkey
    split at hkey
    next he => exact he.1 ▸ hk
    next => exact h.kind hkey
  types hl _ hkey := (h.types hl hkey).mono (SymbolTable.le_create hc _)

theorem remember (h : s.Coherent σ) {id : TypeId} {τ : TreeType}
    (hid : ∀ {key}, (Lookup.type id).Leads σ key → s.Has key) :
    State.Coherent σ { s with types := (id, τ) :: s.types } where
  table := h.table
  kind := h.kind
  types {id' _} hl _ hkey := by
    by_cases he : id' = id
    · exact hid (he ▸ hkey)
    · rw [lookup_cons_of_ne he] at hl
      exact h.types hl hkey

theorem key_unique (h : s.Coherent σ) {key' : Key} {id : SymbolId}
    (hc : s.table.cached? key.1 key.2 = some id) (hc' : s.table.cached? key'.1 key'.2 = some id) :
    key = key' := by
  obtain ⟨x, _, hx, hk, _, _, ho⟩ := h.table.cached hc
  obtain ⟨y, _, hy, hk', _, _, ho'⟩ := h.table.cached hc'
  cases hx.symm.trans hy
  exact Prod.ext (hk.symm.trans hk') (Option.some.inj (ho.symm.trans ho'))

end Coherent

end State

end TypedTree
