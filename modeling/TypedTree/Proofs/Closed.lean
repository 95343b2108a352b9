import TypedTree.Proofs.Follow
import TypedTree.Proofs.Sample

namespace TypedTree

namespace Fragment

/-- Whether there is something at an id that a node stores. -/
def Has (f : Fragment) : Mention → Prop
  | .expr _ id | .note id | .aside id => (f.store.expr? id).isSome
  | .decl id => (f.store.decl? id).isSome
  | .symbol id => (f.symbol? id).isSome
  | .holds holder | .uses holder => f.store.Has holder

/-- Every id that is stored anywhere leads to something. -/
structure Closed (f : Fragment) : Prop where
  nodes : ∀ part, ∀ m ∈ f.store.mentions part, f.Has m
  symbols : ∀ id x d, f.symbol? id = some x → x.owner = some d → (f.store.decl? d).isSome
  functionTargets : ∀ t x d, f.store.functionTarget? t = some x → x.owner = some d →
    (f.store.decl? d).isSome
  loopTargets : ∀ t x e, f.store.loopTarget? t = some x → x.owner = some e →
    (f.store.expr? e).isSome
  whenRefs : ∀ r x e, f.store.whenRef? r = some x → x.owner = some e → (f.store.expr? e).isSome
  annotations : ∀ file ∈ f.files, ∀ e ∈ file.annotations, (f.store.expr? e).isSome
  declarations : ∀ file ∈ f.files, ∀ d ∈ file.declarations, (f.store.decl? d).isSome
  external : ∀ d ∈ f.external, (f.store.decl? d).isSome

end Fragment

namespace Entries

variable {n : Entries} {σ : Setting} {strict : Bool}

theorem Sound.isSome_expr (h : n.Sound σ strict) {id : ExprId} :
    (n.expr? id).isSome ↔ (n.tint? id).isSome := by
  simp [expr?, Store.expr?, tint?, h.tints_size]

theorem Sound.isSome_decl (h : n.Sound σ strict) {id : DeclId} :
    (n.decl? id).isSome ↔ (n.mark? id).isSome := by
  simp [decl?, Store.decl?, mark?, h.marks_size]

theorem Sound.present_expr (h : n.Sound σ strict) {id : ExprId} (hp : n.Present (.expr id)) :
    (n.state.store.expr? id).isSome :=
  h.isSome_expr.2 hp

theorem Sound.present_decl (h : n.Sound σ strict) {id : DeclId} (hp : n.Present (.decl id)) :
    (n.state.store.decl? id).isSome :=
  h.isSome_decl.2 hp

theorem Sound.owner_present (h : n.Sound σ strict) {holder : Holder} {part : TreePart}
    (ho : n.owner? holder = some part) : n.Present part := by
  have hhas : n.Has holder := by
    cases holder <;>
      simp only [owner?, Store.owner?, Option.map_eq_some_iff, Option.bind_eq_some_iff] at ho <;>
      obtain ⟨_, ⟨x, hx, _⟩, _⟩ := ho <;>
      exact Option.isSome_of_mem hx
  have hclosed : holder ∉ n.opens := fun hm => by
    cases ho.symm.trans (h.guarded.opens holder hm).2
  obtain ⟨part', ho', hholds⟩ := h.guarded.closed holder hhas hclosed
  cases ho.symm.trans ho'
  cases part with
  | expr id =>
    refine h.isSome_expr.1 ?_
    cases hx : n.expr? id with
    | some x => rfl
    | none =>
      change _ ∈ ((n.expr? id).map (·.mentions)).getD [] at hholds
      simp [hx] at hholds
  | decl id =>
    obtain ⟨m, _, hm, _⟩ := hholds
    exact Option.isSome_of_mem hm
  | _ => exact hholds.elim

theorem Sound.closed (h : n.Sound σ strict) {f : Fragment} (hstore : f.store = n.state.store)
    (hsymbols : f.symbols = n.state.table.symbols) {part : TreePart} {m : Mention}
    (hm : n.Allows part m) : f.Has m := by
  have hexpr : ∀ {id}, (n.tint? id).isSome → (f.store.expr? id).isSome := fun ht =>
    hstore ▸ h.present_expr ht
  have hsymbol : ∀ {id}, (n.symbol? id).isSome → (f.symbol? id).isSome := fun hs => by
    rwa [Fragment.symbol?, hsymbols]
  have hsettles : n.Settles m → f.Has m := fun hs => by
    cases m with
    | expr _ id | note id | aside id => exact hexpr (Option.isSome_of_mem hs)
    | symbol id => exact hsymbol hs
    | _ => exact hs.elim
  have hfits : ∀ g, n.Fits g part m → f.Has m := fun g hf => by
    cases m with
    | expr inside id =>
      rcases hf with hf | ⟨g', hf, _⟩
      · exact hexpr (Option.isSome_of_mem hf)
      · exact hexpr (Option.isSome_of_mem hf)
    | decl id =>
      obtain ⟨mark, hmark, _⟩ := hf
      change (f.store.decl? id).isSome
      rw [hstore]
      exact h.present_decl (Option.isSome_of_mem hmark)
    | note id => exact hexpr (Option.isSome_of_mem hf)
    | aside id => exact hexpr hf
    | symbol id => exact hsymbol hf
    | holds holder =>
      change f.store.Has holder
      rw [hstore]
      cases holder <;>
        simp only [Fits, owner?, Store.owner?, Option.map_eq_some_iff,
          Option.bind_eq_some_iff] at hf <;>
        obtain ⟨_, ⟨x, hx, _⟩, _⟩ := hf <;>
        exact Option.isSome_of_mem hx
    | uses holder =>
      change f.store.Has holder
      rw [hstore]
      exact hf.1
  cases part with
  | expr id =>
    simp only [Allows] at hm
    split at hm
    next => exact hsettles hm
    next => exact hfits _ hm
    next => exact hm.elim
  | decl id =>
    simp only [Allows] at hm
    split at hm
    next => exact hfits _ hm
    next => exact hm.elim
  | _ => exact hm.elim

end Entries

namespace Session

variable {σ : Setting} {L : Ledger σ false} {s : Session}

theorem Recorded.closed (h : Recorded L s) : s.fragment.Closed := by
  have hstore : s.fragment.store = L.state.store := by rw [h.state]; rfl
  have hsymbols : s.fragment.symbols = L.state.table.symbols := by rw [h.state]; rfl
  have hpart : ∀ {holder part}, s.fragment.store.owner? holder = some part → L.Present part :=
    fun ho => L.sound.owner_present (hstore ▸ ho)
  refine ⟨fun part m hm => ?_, fun id x d hx ho => ?_, fun t x d hx ho => ?_, fun t x e hx ho => ?_,
    fun r x e hx ho => ?_, fun file hf e he => ?_, fun file hf d hd => ?_, fun d hd => ?_⟩
  · rw [hstore] at hm
    exact L.sound.closed hstore hsymbols (L.sound.allows part m hm)
  · rw [Fragment.symbol?, hsymbols] at hx
    exact hstore ▸ L.sound.present_decl (L.sound.owners hx ho)
  · have howner : s.fragment.store.owner? (.function t) = some (.decl d) := by
      simp [Store.owner?, hx, ho]
    exact hstore ▸ L.sound.present_decl (hpart howner)
  · have howner : s.fragment.store.owner? (.loop t) = some (.expr e) := by
      simp [Store.owner?, hx, ho]
    exact hstore ▸ L.sound.present_expr (hpart howner)
  · have howner : s.fragment.store.owner? (.choice r) = some (.expr e) := by
      simp [Store.owner?, hx, ho]
    exact hstore ▸ L.sound.present_expr (hpart howner)
  · exact hstore ▸ L.sound.present_expr (Option.isSome_of_mem (h.annotations file hf e he))
  · obtain ⟨m, hm, _⟩ := h.declarations file hf d hd
    exact hstore ▸ L.sound.present_decl (Option.isSome_of_mem hm)
  · exact hstore ▸ L.sound.present_decl (h.external d hd)

/-- A finished session hands over a fragment in which every symbol has a declaration and every id
leads to something, and no lookup on the way leads nowhere. -/
theorem finish_closed (world : World) (hw : world.InRange) (config : Config)
    (actions : List Action) :
    let results := ((start world config).perform actions).1
    let s := ((start world config).perform actions).2
    (∀ f, s.finish.1 = .ok f → f.unboundSymbols = [] ∧ f.Closed) ∧
      (∀ p ∈ actions.zip results, p.1.Known world → p.2 ≠ .error .dangling) ∧
      s.finish.1 ≠ .error .dangling := by
  intro results s
  obtain ⟨L, _, hrec, herr⟩ := (recorded_start ⟨world, config⟩).perform actions
  have hfinish := hrec.finish
  refine ⟨fun f hf => ?_, fun p hp hk he => (herr p hp _ he hk).inRange hw rfl, fun he => ?_⟩
  · rcases hr : s.finish with ⟨r, s'⟩
    rw [hr] at hf
    rw [show ((start world config).perform actions).2.finish = _ from hr, show r = _ from hf]
      at hfinish
    obtain ⟨rfl, hbound, L', hrec', _⟩ := hfinish
    exact ⟨hbound, hrec'.closed⟩
  · rcases hr : s.finish with ⟨r, s'⟩
    rw [hr] at he
    rw [show ((start world config).perform actions).2.finish = _ from hr, show r = _ from he]
      at hfinish
    exact hfinish.inRange hw rfl

theorem finish_closed_sampleWorld : sampleWorld.InRange ∧
    ∃ f, ((start sampleWorld {}).perform [.lowerFiles, .declarationFor ⟨13⟩]).2.finish.1 = .ok f ∧
      f.unboundSymbols = [] ∧ f.Closed := by
  have hw : sampleWorld.InRange := by decide
  have hok : ((start sampleWorld {}).perform
    [.lowerFiles, .declarationFor ⟨13⟩]).2.finish.1.toOption.isSome = true := by decide +kernel
  have hclosed := (finish_closed sampleWorld hw {} [.lowerFiles, .declarationFor ⟨13⟩]).1
  refine ⟨hw, ?_⟩
  generalize ((start sampleWorld {}).perform [.lowerFiles, .declarationFor ⟨13⟩]).2.finish.1 = r
    at hok hclosed ⊢
  cases r with
  | error e => simp [Except.toOption] at hok
  | ok f => exact ⟨f, rfl, hclosed f rfl⟩

end Session

end TypedTree
