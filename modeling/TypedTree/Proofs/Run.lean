import TypedTree.Lowering.Tree

namespace TypedTree.Lower

variable {α β : Type} (σ : Setting) (s : State)

@[simp] theorem runFrom_pure (a : α) : (pure a : Lower α).runFrom σ s = (.ok a, s) := rfl

@[simp] theorem runFrom_throw (e : LowerError) :
    (throw e : Lower α).runFrom σ s = (.error e, s) := rfl

/-- The second step starts where the first one ends, unless the first one fails. -/
theorem runFrom_bind (m : Lower α) (k : α → Lower β) :
    (m >>= k).runFrom σ s =
      match m.runFrom σ s with
      | (.ok a, s') => (k a).runFrom σ s'
      | (.error e, s') => (.error e, s') := by
  simp only [runFrom, ReaderT.run_bind, ExceptT.run_bind, StateT.run_bind]
  obtain ⟨a | e, s'⟩ := (ReaderT.run m σ).run.run s <;> rfl

theorem runFrom_map (f : α → β) (m : Lower α) :
    (f <$> m).runFrom σ s = ((m.runFrom σ s).1.map f, (m.runFrom σ s).2) := by
  rw [map_eq_pure_bind, runFrom_bind]
  obtain ⟨e | a, s'⟩ := m.runFrom σ s <;> rfl

@[simp] theorem runFrom_read : (read : Lower Setting).runFrom σ s = (.ok σ, s) := rfl

@[simp] theorem runFrom_get : (get : Lower State).runFrom σ s = (.ok s, s) := rfl

@[simp] theorem runFrom_modify (f : State → State) :
    (modify f : Lower Unit).runFrom σ s = (.ok (), f s) := rfl

@[simp] theorem runFrom_modifyGet (f : State → α × State) :
    (modifyGet f : Lower α).runFrom σ s = (.ok (f s).1, (f s).2) := rfl

theorem runFrom_bind_ok (h : m.runFrom σ s = (.ok a, s')) (k : α → Lower β) :
    (m >>= k).runFrom σ s = (k a).runFrom σ s' := by
  rw [runFrom_bind, h]

theorem runFrom_bind_error (h : m.runFrom σ s = (.error e, s')) (k : α → Lower β) :
    (m >>= k).runFrom σ s = (.error e, s') := by
  rw [runFrom_bind, h]

theorem runFrom_bind_eq_ok {m : Lower α} {k : α → Lower β} :
    (m >>= k).runFrom σ s = (.ok b, s') ↔
      ∃ a s1, m.runFrom σ s = (.ok a, s1) ∧ (k a).runFrom σ s1 = (.ok b, s') := by
  rw [runFrom_bind]
  rcases m.runFrom σ s with ⟨e | a, s1⟩
  · simp
  · exact ⟨fun h => ⟨a, s1, rfl, h⟩, fun ⟨_, _, h, hk⟩ => by cases h; exact hk⟩

end TypedTree.Lower
