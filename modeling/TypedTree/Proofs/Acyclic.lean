import TypedTree.Proofs.Depth
import TypedTree.Proofs.Targets

namespace TypedTree

namespace Ledger

variable {σ : Setting} {strict : Bool} (L : Ledger σ strict)

theorem owns_of_mem_below (hc : child ∈ L.state.store.below part)
    (hn : next ∈ L.state.store.below child) : L.Owns child part := by
  have hself : child.node? = some child := by
    cases child with
    | expr | decl => rfl
    | _ => cases hn
  exact L.exists_mention hc hself

theorem acyclic : L.state.store.Acyclic := by
  have hwf : WellFounded (Relation.TransGen L.Owns) := L.sound.wellFounded.transGen
  -- Every part on a cycle has something below it, so each step is one of ownership.
  have hstep : ∀ {p q}, Relation.TransGen (fun part child => child ∈ L.state.store.below part) p q →
      (∃ next, next ∈ L.state.store.below q) → Relation.TransGen L.Owns q p := by
    intro p q h
    induction h with
    | single hc => exact fun ⟨next, hn⟩ => .single (L.owns_of_mem_below hc hn)
    | tail _ hc ih => exact fun ⟨next, hn⟩ => .head (L.owns_of_mem_below hc hn) (ih ⟨_, hc⟩)
  intro part hcycle
  obtain ⟨child, hc, _⟩ := Relation.TransGen.head'_iff.1 hcycle
  exact hwf.irrefl.irrefl part (hstep hcycle ⟨child, hc⟩)

end Ledger

/-- Whatever a session does, no declaration or expression comes to stand below itself. A walk then
goes on at every part it meets and comes to all that stands below, and printing one node goes on
at the nodes inside of it however deep they are nested. -/
theorem Session.ownership_acyclic (world : World) (config : Config) (actions : List Action) :
    let f := ((start world config).perform actions).2.fragment
    f.store.Acyclic ∧
      (∀ part, f.store.walk part = part :: (f.store.below part).flatMap f.store.walk) ∧
      (∀ part q, q ∈ f.store.walk part ↔ f.store.Reaches part q) ∧
      (∀ more, f.inner (f.depth + more) = f.inner f.depth) := by
  intro f
  obtain ⟨L, _, hrec, _⟩ := (recorded_start ⟨world, config⟩).perform actions
  have hacyclic : f.store.Acyclic := by
    have hstore : f.store = L.state.store := by rw [hrec.state]; rfl
    rw [hstore]
    exact L.acyclic
  exact ⟨hacyclic, fun _ => hacyclic.walk_eq, fun _ _ => hacyclic.mem_walk,
    Fragment.inner_eq hacyclic⟩

end TypedTree
