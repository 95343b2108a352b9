import TypedTree.Proofs.Reachable
import TypedTree.Proofs.Sample

namespace TypedTree

namespace State

variable {σ : Setting} {s : State}

theorem Faithful.convert_ok (hs : s.Faithful σ) {id : TypeId} {τ : TreeType} {s' : State}
    (h : (Lower.convert id).runFrom σ s = (.ok τ, s')) :
    ∃ T, σ.plain id = .ok T ∧ s'.plain? τ = some T ∧ s'.types.lookup id = some τ :=
  ((Mirrors.convert id s hs).ok h).2

theorem Faithful.convert_error (hs : s.Faithful σ) {id : TypeId} {e : LowerError} {s' : State}
    (h : (Lower.convert id).runFrom σ s = (.error e, s')) : σ.plain id = .error e := by
  obtain ⟨_, _, hp | ⟨rfl, hp⟩⟩ := (Mirrors.convert id s hs).error h
  · exact hp
  · exact hp

theorem runFrom_convert_of_lookup {id : TypeId} (h : s.types.lookup id = some τ) :
    (Lower.convert id).runFrom σ s = (.ok τ, s) := by
  rw [Lower.convert, Lower.runFrom_bind_ok _ _ (Lower.runFrom_read _ _), Lower.convertUpTo,
    Lower.convertWith, Lower.runFrom_bind_ok _ _ (Lower.runFrom_get _ _), h]
  rfl

/-- A type that stands for the same without annotations is converted to the same. -/
theorem Faithful.convert_eq (hs : s.Faithful σ) {id : TypeId} {τ : TreeType} {T : PlainType}
    (hτ : s.plain? τ = some T) (hbare : T.isBare) (hid : σ.plain id = .ok T) :
    ((Lower.convert id).runFrom σ s).1 = .ok τ := by
  have hmirrors := Mirrors.convert id s hs
  rcases hr : (Lower.convert id).runFrom σ s with ⟨e | τ', s'⟩
  · cases (hs.convert_error hr).symm.trans hid
  · obtain ⟨hlearns, T', hT', hτ', _⟩ := hmirrors.ok hr
    cases hid.symm.trans hT'
    rw [plain?_injective hlearns.faithful.table hbare hτ' (hlearns.le.plain? hτ)]

/-- Conversion is the plain recursion over types, whatever has been done before, and whatever of it
has failed: it fails where the recursion does and in the same way, and a type that it gives has the
symbols of the keys in the one that the recursion gives. From then on, the type is what its id is
converted to without any change of the state, and if no annotations are in it, it is also what any
other id that stands for the same is converted to. -/
theorem convert_agrees (σ : Setting) (s : State) (hs : s.Reachable σ) (id : TypeId) :
    let r := (Lower.convert id).runFrom σ s
    σ.plain id = σ.plainWith σ.plain id ∧
    (∀ e, r.1 = .error e ↔ σ.plain id = .error e) ∧
    ∀ τ, r.1 = .ok τ → ∃ T, σ.plain id = .ok T ∧ r.2.plain? τ = some T ∧
      ∀ s', r.2.Reaches σ s' → (Lower.convert id).runFrom σ s' = (.ok τ, s') ∧
        (T.isBare → ∀ id', σ.plain id' = .ok T → ((Lower.convert id').runFrom σ s').1 = .ok τ) := by
  intro r
  have hr : (Lower.convert id).runFrom σ s = (r.1, r.2) := rfl
  have hreach : r.2.Reachable σ := hs.after .convert
  refine ⟨σ.plain_eq id, fun e => ⟨fun he => ?_, fun he => ?_⟩, fun τ hτ => ?_⟩
  · rw [he] at hr
    exact hs.faithful.convert_error hr
  · cases hout : r.1 with
    | error e' =>
      rw [hout] at hr
      cases (hs.faithful.convert_error hr).symm.trans he
      rfl
    | ok τ =>
      rw [hout] at hr
      obtain ⟨T, hT, _⟩ := hs.faithful.convert_ok hr
      cases hT.symm.trans he
  · rw [hτ] at hr
    obtain ⟨T, hT, hplain, hlookup⟩ := hs.faithful.convert_ok hr
    refine ⟨T, hT, hplain, fun s' hs' => ?_⟩
    have hkept := hs'.upholds hreach.coherent hreach.faithful
    exact ⟨runFrom_convert_of_lookup (hkept.le.types hlookup), fun hbare _ hid' =>
      hkept.faithful.convert_eq (hkept.le.plain? hplain) hbare hid'⟩

/-- After a conversion that fails half-way, a flexible type is converted to what its upper bound
is. -/
theorem convert_agrees_genericWorld :
    let σ : Setting := ⟨genericWorld, {}⟩
    let failed := (Lower.convert ⟨20⟩).runFrom σ {}
    let r := (Lower.convert ⟨18⟩).runFrom σ failed.2
    failed.1 = .error (.errorType "unresolved") ∧ failed.2.types ≠ [] ∧ failed.2.Reachable σ ∧
      ∃ τ T, r.1 = .ok τ ∧ σ.plain ⟨18⟩ = .ok T ∧ r.2.plain? τ = some T ∧
        (Lower.convert ⟨18⟩).runFrom σ r.2 = (.ok τ, r.2) ∧
        ((Lower.convert ⟨17⟩).runFrom σ r.2).1 = .ok τ := by
  intro σ failed r
  have hs : failed.2.Reachable σ := (Reachable.start σ).after .convert
  have hok : r.1.toOption.isSome := by decide +kernel
  have hbare : (σ.plain ⟨18⟩).toOption.all (·.isBare) := by decide +kernel
  obtain ⟨_, _, hall⟩ := convert_agrees σ failed.2 hs ⟨18⟩
  refine ⟨by decide +kernel, by decide +kernel, hs, ?_⟩
  cases hτ : r.1 with
  | error e =>
    rw [hτ] at hok
    cases hok
  | ok τ =>
    obtain ⟨T, hT, hplain, hlater⟩ := hall τ hτ
    rw [hT] at hbare
    obtain ⟨hagain, hsame⟩ := hlater r.2 .refl
    have hupper : σ.plain ⟨18⟩ = σ.plain ⟨17⟩ := Setting.plain_of_flexible rfl
    exact ⟨τ, T, rfl, hT, hplain, hagain, hsame hbare ⟨17⟩ (hupper ▸ hT)⟩

end State

end TypedTree
