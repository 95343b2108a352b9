import Mathlib.Order.WellFounded
import TypedTree.Proofs.Ledger.Realized

namespace TypedTree

def SymbolTable.boundCount (t : SymbolTable) : Nat := t.symbols.toList.countP (·.isBound)

/-- How many symbols stand for no descriptor. -/
def SymbolTable.loose (t : SymbolTable) : Nat := t.symbols.size - t.cache.length

/-- Keys and symbols belong together. A strict table has symbols of parameters for parameters
only. -/
structure SymbolTable.Sound (w : World) (strict : Bool) (t : SymbolTable) : Prop where
  cached : ∀ {kind desc id}, t.cached? kind desc = some id → ∃ x d, t.get? id = some x ∧
    x.kind = kind ∧ w.descriptor? desc = some d ∧ x.identity = w.identity d ∧
    t.descriptorOf? id = some desc
  origin : ∀ {id desc}, t.descriptorOf? id = some desc →
    ∃ x, t.get? id = some x ∧ t.cached? x.kind desc = some id
  fits : strict = true → ∀ {kind desc id}, t.cached? kind desc = some id → w.Fits kind desc
  nodup : (t.cache.map (·.1)).Nodup
  cache_le : t.cache.length ≤ t.symbols.size

namespace Entries

def Owns (n : Entries) (child part : TreePart) : Prop :=
  ∃ m ∈ n.mentions part, m.node? = some child

def Present (n : Entries) : TreePart → Prop
  | .expr id => (n.tint? id).isSome
  | .decl id => (n.mark? id).isSome
  | .type _ | .symbol _ | .functionTarget _ | .loopTarget _ | .whenRef _ => False

def Holds (n : Entries) (h : Holder) : TreePart → Prop
  | .expr id => .holds h ∈ n.mentions (.expr id)
  | .decl id => ∃ m t, n.mark? id = some m ∧ m.target = some t ∧ h = .function t
  | .type _ | .symbol _ | .functionTarget _ | .loopTarget _ | .whenRef _ => False

/-- Each holder has an owner, or is open. -/
structure Guarded (n : Entries) : Prop where
  nodup : n.opens.Nodup
  opens : ∀ h ∈ n.opens, n.Has h ∧ n.owner? h = none
  closed : ∀ h, n.Has h → h ∉ n.opens → ∃ part, n.owner? h = some part ∧ n.Holds h part

structure Sound (σ : Setting) (strict : Bool) (n : Entries) : Prop where
  tints_size : n.tints.size = n.state.store.exprs.size
  marks_size : n.marks.size = n.state.store.decls.size
  allows : ∀ part, ∀ m ∈ n.mentions part, n.Allows part m
  wellFounded : WellFounded n.Owns
  guarded : n.Guarded
  targets : ∀ {d mark t}, n.mark? d = some mark → mark.target = some t →
    n.owner? (.function t) = some (.decl d) ∧ ∃ x, n.decl? d = some x ∧ x.kind.isCallable
  classes : ∀ {d x}, n.decl? d = some x → n.Confines x
  owners : ∀ {id x d}, n.symbol? id = some x → x.owner = some d → (n.mark? d).isSome
  table : n.state.table.Sound σ.world strict
  types : ∀ {id τ}, n.state.types.lookup id = some τ → Realizes σ n (.type id) (.type τ)
  /-- Each declaration that is counted owns one symbol. -/
  counted : n.state.table.boundCount = n.state.stats.declarations + n.state.stats.stubs

variable {n n' : Entries} {σ : Setting} {strict : Bool}

theorem Settles.present (h : n.Settles m) {child : TreePart} (hc : m.node? = some child) :
    n.Present child := by
  cases m with
  | expr _ id | note id => cases hc; simpa [Present] using Option.isSome_of_mem h
  | decl id => exact h.elim
  | _ => cases hc

theorem Fits.present (h : n.Fits g part m) {child : TreePart} (hc : m.node? = some child) :
    n.Present child := by
  cases m with
  | expr inside id =>
    cases hc
    rcases h with h | ⟨g', h, _⟩ <;> simpa [Present] using Option.isSome_of_mem h
  | decl id =>
    cases hc
    obtain ⟨m, hm, _⟩ := h
    simpa [Present] using Option.isSome_of_mem hm
  | note id => cases hc; simpa [Present] using Option.isSome_of_mem h
  | _ => cases hc

theorem Allows.present (h : n.Allows part m) {child : TreePart} (hc : m.node? = some child) :
    n.Present child := by
  cases part with
  | expr id =>
    simp only [Allows] at h
    split at h
    next => exact Settles.present h hc
    next => exact Fits.present h hc
    next => exact h.elim
  | decl id =>
    simp only [Allows] at h
    split at h
    next => exact Fits.present h hc
    next => exact h.elim
  | _ => exact h.elim

theorem Sound.present (h : n.Sound σ strict) {child part : TreePart} (ho : n.Owns child part) :
    n.Present child :=
  let ⟨m, hm, hc⟩ := ho
  (h.allows part m hm).present hc

theorem Sound.settled_child (h : n.Sound σ strict) {id : ExprId} (hs : n.Settled id)
    {child : TreePart} (ho : n.Owns child (.expr id)) : ∃ e, child = .expr e ∧ n.Settled e := by
  obtain ⟨m, hm, hc⟩ := ho
  have ha := h.allows _ m hm
  simp only [Allows, show n.tint? id = _ from hs] at ha
  cases m with
  | expr _ e | note e => cases hc; exact ⟨e, rfl, ha⟩
  | decl e => exact ha.elim
  | _ => cases hc

theorem Le.holds (h : n.Le n') {holder : Holder} {part : TreePart} (hh : n.Holds holder part) :
    n'.Holds holder part := by
  cases part with
  | expr id => exact h.mentions _ hh
  | decl id =>
    obtain ⟨m, t, hm, ht, rfl⟩ := hh
    exact ⟨m, t, h.mark hm, ht, rfl⟩
  | _ => exact hh.elim

namespace Guarded

variable (h : n.Guarded) (hle : n.Le n')

include h hle

theorem keep (hopens : n'.opens = n.opens) (hhas : ∀ holder, n'.Has holder → n.Has holder)
    (howner : ∀ holder, n'.owner? holder = n.owner? holder) : n'.Guarded where
  nodup := hopens ▸ h.nodup
  opens holder hh := by
    rw [howner]
    exact (h.opens holder (hopens ▸ hh)).imp_left hle.has
  closed holder hh ho := by
    rw [howner]
    obtain ⟨part, hpart, hholds⟩ := h.closed holder (hhas holder hh) (hopens ▸ ho)
    exact ⟨part, hpart, hle.holds hholds⟩

theorem close (ho : n.opens = holder :: rest) (ho' : n'.opens = rest)
    (hhas : ∀ holder, n'.Has holder → n.Has holder)
    (hold : ∀ h, h ≠ holder → n'.owner? h = n.owner? h) (hnew : n'.owner? holder = some part)
    (hholds : n'.Holds holder part) : n'.Guarded := by
  have hnodup := List.nodup_cons.1 (ho ▸ h.nodup)
  refine ⟨ho' ▸ hnodup.2, fun x hx => ?_, fun x hx hopen => ?_⟩
  · rw [ho'] at hx
    rw [hold x fun he => hnodup.1 (he ▸ hx)]
    exact (h.opens x (by simp [ho, hx])).imp_left hle.has
  · by_cases he : x = holder
    · exact ⟨part, he ▸ hnew, he ▸ hholds⟩
    · rw [hold x he]
      obtain ⟨q, hq, hqx⟩ := h.closed x (hhas x hx) (by simpa [ho, he, ho'] using hopen)
      exact ⟨q, hq, hle.holds hqx⟩

theorem begin (ho : n'.opens = holder :: n.opens) (hnot : ¬ n.Has holder) (hhas : n'.Has holder)
    (hhas' : ∀ h, h ≠ holder → n'.Has h → n.Has h) (hnone : n'.owner? holder = none)
    (hold : ∀ h, h ≠ holder → n'.owner? h = n.owner? h) : n'.Guarded := by
  have hfresh : holder ∉ n.opens := fun hm => hnot (h.opens holder hm).1
  refine ⟨ho ▸ List.nodup_cons.2 ⟨hfresh, h.nodup⟩, fun x hx => ?_, fun x hx hopen => ?_⟩
  · by_cases he : x = holder
    · exact he ▸ ⟨hhas, hnone⟩
    · rw [hold x he]
      exact (h.opens x (by simpa [ho, he] using hx)).imp_left hle.has
  · rw [ho, List.mem_cons, not_or] at hopen
    rw [hold x hopen.1]
    obtain ⟨q, hq, hqx⟩ := h.closed x (hhas' x hopen.1 hx) hopen.2
    exact ⟨q, hq, hle.holds hqx⟩

end Guarded

/-- Nodes that go below others must already stand apart from them. -/
theorem wellFounded_of_stable {α : Type} {r r' : α → α → Prop} (hr : WellFounded r)
    {S : α → Prop} (hS : ∀ p c, S p → r' c p → S c ∧ r c p)
    (hrest : ∀ p c, r' c p → r c p ∨ S c) : WellFounded r' := by
  have hacc : ∀ p, S p → Acc r' p := by
    intro p
    induction p using hr.induction with
    | _ p ih => exact fun hp => ⟨_, fun c hc => ih c (hS p c hp hc).2 (hS p c hp hc).1⟩
  refine ⟨fun p => ?_⟩
  induction p using hr.induction with
  | _ p ih =>
    refine ⟨_, fun c hc => ?_⟩
    rcases hrest p c hc with h | h
    · exact ih c h
    · exact hacc c h

end Entries

/-- A state of lowering in which all that is known of the nodes is right. -/
structure Ledger (σ : Setting) (strict : Bool) extends Entries where
  sound : toEntries.Sound σ strict

instance {σ : Setting} {strict : Bool} : Preorder (Ledger σ strict) where
  le a b := a.toEntries.Le b.toEntries
  le_refl a := .refl _
  le_trans _ _ _ h h' := h.trans h'

end TypedTree
