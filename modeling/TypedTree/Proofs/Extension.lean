import TypedTree.Proofs.Trace.Session

namespace TypedTree

namespace Desk

variable {σ : Setting} {clean : Bool} {d d' : Desk}

theorem Step.types (h : Step σ clean d d') : ∃ new, d'.state.types = new ++ d.state.types ∧
    ((d.state.types.map (·.1)).Nodup → (d'.state.types.map (·.1)).Nodup) := by
  cases h with
  | @remember _ s id τ hn =>
    refine ⟨[(id, τ)], rfl, fun hnodup => ?_⟩
    rw [List.map_cons, List.nodup_cons]
    refine ⟨fun hmem => ?_, hnodup⟩
    obtain ⟨p, hp, hid⟩ := List.mem_map.1 hmem
    have hne := List.lookup_eq_none_iff.1 hn p hp
    exact bne_iff_ne.1 hne hid.symm
  | _ => exact ⟨[], rfl, fun h => h⟩

/-- Types are remembered one after the other, each of them once. -/
theorem Steps.types (h : Steps σ clean d d') : ∃ new, d'.state.types = new ++ d.state.types ∧
    ((d.state.types.map (·.1)).Nodup → (d'.state.types.map (·.1)).Nodup) := by
  induction h with
  | refl => exact ⟨[], rfl, fun h => h⟩
  | tail _ hs ih =>
    obtain ⟨new, hnew, hnodup⟩ := ih
    obtain ⟨new', hnew', hnodup'⟩ := hs.types
    exact ⟨new' ++ new, by rw [hnew', hnew, List.append_assoc], fun h => hnodup' (hnodup h)⟩

end Desk

namespace Session

theorem steps_of_act (world : World) (config : Config) (actions : List Action) (action : Action) :
    ∃ h h' clean clean', Desk.Steps ⟨world, config⟩ clean ⟨0, {}⟩
      ⟨h, ((start world config).perform actions).2.state⟩ ∧
      Desk.Steps ⟨world, config⟩ clean' ⟨h, ((start world config).perform actions).2.state⟩
        ⟨h', (((start world config).perform actions).2.act action).2.state⟩ := by
  obtain ⟨hset, h, hsteps⟩ := perform_steps (s := start world config) (sane_start _) actions 0
  have hsane := hsteps.sane (sane_start _)
  rw [← hset] at hsane
  obtain ⟨h', hact⟩ := act_steps hsane action h
  rw [hset] at hact
  exact ⟨h, h', _, _, hsteps, hact⟩

/-- Whether an action succeeds or fails, it only adds to what the session has made. Nothing that was
there is changed, but for owners that were not set and for annotations that come after the others,
and a type that is remembered is not converted again. -/
theorem act_extends (world : World) (config : Config) (actions : List Action) (action : Action) :
    let s := ((start world config).perform actions).2.state
    let s' := (((start world config).perform actions).2.act action).2.state
    s.Le s' ∧
      (∀ id desc, s.table.descriptorOf? id = some desc → s'.table.descriptorOf? id = some desc) ∧
      ∃ new, s'.types = new ++ s.types ∧ (s'.types.map (·.1)).Nodup := by
  obtain ⟨h, h', clean, clean', hbefore, hact⟩ := steps_of_act world config actions action
  have hle := hact.le
  refine ⟨hle, fun id desc horigin => ?_, ?_⟩
  · obtain ⟨x, hx, _⟩ := (hbefore.sane (sane_start _)).table.origin horigin
    rw [hle.table.origin (by simp [hx])]
    exact horigin
  · obtain ⟨new, hnew, hnodup⟩ := hact.types
    obtain ⟨_, _, hstart⟩ := hbefore.types
    exact ⟨new, hnew, hnodup (hstart (by simp))⟩

end Session

end TypedTree
