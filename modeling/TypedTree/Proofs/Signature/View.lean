import TypedTree.Proofs.Plain.Agreement

namespace TypedTree

/-- What a declaration tells to those who use it. Keys stand in the place of symbols, and of the
parameters that the symbols belong to. -/
inductive Signature where
  | classLike (kind : ClassKind) (visibility : Visibility) (modality : Modality)
      (isData isInner isCompanion : Bool) (typeParameters : List Key) (supertypes : List PlainType)
  | function (visibility : Visibility) (modality : Modality) (flags : FunctionFlags)
      (typeParameters : List Key) (dispatchReceiver extensionReceiver : Option PlainType)
      (valueParameters : List Key) (returnType : PlainType) (overridden : List Key)
  | constructor (isPrimary : Bool) (visibility : Visibility) (valueParameters : List Key)
      (returnType : PlainType)
  | property (visibility : Visibility) (modality : Modality)
      (isVar isLocal isConst isLateinit : Bool) (type : PlainType)
      (dispatchReceiver extensionReceiver : Option PlainType) (typeParameters : List Key)
  | accessor (property : Key) (isSetter : Bool) (visibility : Visibility) (returnType : PlainType)
      (valueParameters : List Key)
  | typeParameter (index : Nat) (variance : Variance) (isReified : Bool) (bounds : List PlainType)
  | valueParameter (type : PlainType) (isVararg isCrossinline isNoinline : Bool)
  | typeAlias (visibility : Visibility) (typeParameters : List Key) (expanded : PlainType)

/-- The signature that a descriptor gives, worked out from the facts alone. -/
def Descriptor.signature (σ : Setting) (d : Descriptor) : Except LowerError Signature :=
  match d.kind with
  | .classLike info => do
    return .classLike info.kind d.visibility info.modality info.isData info.isInner info.isCompanion
      (info.typeParameters.map (.typeParameter, ·)) (← info.supertypes.mapM σ.plain)
  | .function info => do
    return .function d.visibility info.modality info.flags
      (info.typeParameters.map (.typeParameter, ·)) (← info.dispatchReceiver.mapM σ.plain)
      (← info.extensionReceiver.mapM σ.plain) (info.valueParameters.map (.valueParameter, ·))
      (← σ.plain info.returnType) (info.overridden.map (.function, ·))
  | .constructor info => do
    return .constructor info.isPrimary d.visibility (info.valueParameters.map (.valueParameter, ·))
      (← σ.plain info.returnType)
  | .property info => do
    return .property d.visibility info.modality info.isVar info.isLocal info.isConst info.isLateinit
      (← σ.plain info.type) (← info.dispatchReceiver.mapM σ.plain)
      (← info.extensionReceiver.mapM σ.plain) (info.typeParameters.map (.typeParameter, ·))
  | .accessor info => do
    return .accessor (.property, info.property) info.isSetter d.visibility
      (← σ.plain info.returnType) (info.valueParameters.map (.valueParameter, ·))
  | .typeParameter info => do
    return .typeParameter info.index info.variance info.isReified (← info.upperBounds.mapM σ.plain)
  | .valueParameter info => do
    return .valueParameter (← σ.plain info.type) info.isVararg info.isCrossinline info.isNoinline
  | .typeAlias info => do
    return .typeAlias d.visibility (info.typeParameters.map (.typeParameter, ·))
      (← σ.plain info.expanded)

namespace State

def declKey? (s : State) (id : DeclId) : Option Key :=
  (s.store.decl? id).bind fun x => s.keyOf? x.symbol

/-- The signature of a declaration; bodies, members, defaults and the like are no part of it. -/
def signature? (s : State) : DeclKind → Option Signature
  | .classLike d => do
    return .classLike d.kind d.visibility d.modality d.isData d.isInner d.isCompanion
      (← d.typeParameters.mapM s.declKey?) (← d.supertypes.mapM s.plain?)
  | .function d => do
    return .function d.visibility d.modality d.flags (← d.typeParameters.mapM s.declKey?)
      (← d.dispatchReceiver.mapM s.plain?) (← d.extensionReceiver.mapM s.plain?)
      (← d.valueParameters.mapM s.declKey?) (← s.plain? d.returnType)
      (← d.overridden.mapM s.keyOf?)
  | .constructor d => do
    return .constructor d.isPrimary d.visibility (← d.valueParameters.mapM s.declKey?)
      (← s.plain? d.returnType)
  | .property d => do
    return .property d.visibility d.modality d.isVar d.isLocal d.isConst d.isLateinit
      (← s.plain? d.returnType) (← d.dispatchReceiver.mapM s.plain?)
      (← d.extensionReceiver.mapM s.plain?) (← d.typeParameters.mapM s.declKey?)
  | .accessor d => do
    return .accessor (← s.keyOf? d.property) d.isSetter d.visibility (← s.plain? d.returnType)
      (← d.valueParameters.mapM s.declKey?)
  | .initializer _ => none
  | .typeParameter d => do
    return .typeParameter d.index d.variance d.isReified (← d.bounds.mapM s.plain?)
  | .valueParameter d => do
    return .valueParameter (← s.plain? d.type) d.isVararg d.isCrossinline d.isNoinline
  | .typeAlias d => do
    return .typeAlias d.visibility (← d.typeParameters.mapM s.declKey?) (← s.plain? d.expanded)

end State

/-- What the facts say, and what a tree shows, are the same. -/
def Agree {β : Type} (p : Except LowerError β) (v : Option β) : Prop := ∃ b, p = .ok b ∧ v = some b

namespace Agree

variable {α β γ : Type} {p : Except LowerError β} {v : Option β}

theorem pure (b : β) : Agree (Pure.pure b) (some b) := ⟨b, rfl, rfl⟩

theorem bind {f : β → Except LowerError γ} {g : β → Option γ} (h : Agree p v)
    (hk : ∀ b, Agree (f b) (g b)) : Agree (p >>= f) (v >>= g) := by
  obtain ⟨b, rfl, rfl⟩ := h
  exact hk b

/-- What only the tree has to look for. -/
theorem known {b : β} {p : Except LowerError γ} {g : β → Option γ} (h : v = some b)
    (hk : Agree p (g b)) : Agree p (v >>= g) := by
  subst h
  exact hk

theorem mapM {f : α → Except LowerError β} {g : γ → Option β} {xs : List α} {ys : List γ}
    (h : List.Forall₂ (fun x y => Agree (f x) (g y)) xs ys) : Agree (xs.mapM f) (ys.mapM g) := by
  induction h with
  | nil => exact pure []
  | cons h _ ih =>
    rw [List.mapM_cons, List.mapM_cons]
    exact h.bind fun _ => ih.bind fun _ => pure _

theorem optionMapM {f : α → Except LowerError β} {g : γ → Option β} {x : Option α} {y : Option γ}
    (h : Option.Rel (fun x y => Agree (f x) (g y)) x y) : Agree (x.mapM f) (y.mapM g) := by
  cases h with
  | none => exact pure none
  | some h =>
    obtain ⟨b, hf, hg⟩ := h
    exact ⟨some b, by simp [hf, Functor.map, Except.map], by simp [hg]⟩

end Agree

/-- What is found first is found later. -/
def Persists {β : Type} (v v' : Option β) : Prop := ∀ b, v = some b → v' = some b

namespace Persists

variable {α β γ : Type} {v v' : Option β}

theorem refl (v : Option β) : Persists v v := fun _ h => h

theorem bind {g g' : β → Option γ} (h : Persists v v') (hk : ∀ b, Persists (g b) (g' b)) :
    Persists (v >>= g) (v' >>= g') := by
  intro c hc
  obtain ⟨b, hb, hc⟩ := Option.bind_eq_some_iff.1 hc
  exact Option.bind_eq_some_iff.2 ⟨b, h b hb, hk b c hc⟩

theorem mapM {f g : α → Option β} (h : ∀ a, Persists (f a) (g a)) (as : List α) :
    Persists (as.mapM f) (as.mapM g) := fun _ hbs =>
  mapM_eq_some_iff.2 ((mapM_eq_some_iff.1 hbs).imp h)

theorem optionMapM {f g : α → Option β} (h : ∀ a, Persists (f a) (g a)) (a : Option α) :
    Persists (a.mapM f) (a.mapM g) := by
  cases a with
  | none => exact refl _
  | some a =>
    intro b hb
    simp only [Option.mapM_some, Option.map_eq_map, Option.map_eq_some_iff] at hb ⊢
    exact hb.imp fun c hc => ⟨h a c hc.1, hc.2⟩

end Persists

theorem Agree.mono {β : Type} {p : Except LowerError β} {v v' : Option β} (h : Agree p v)
    (hv : Persists v v') : Agree p v' := by
  obtain ⟨b, hp, hb⟩ := h
  exact ⟨b, hp, hv b hb⟩

namespace State

/-- The declaration stands for the descriptor and tells what it does. -/
def Shows (σ : Setting) (s : State) (desc : DescId) (c : DeclId) : Prop :=
  ∃ d x, σ.world.descriptor? desc = some d ∧ s.store.decl? c = some x ∧
    (∃ kind, s.keyOf? x.symbol = some (kind, desc)) ∧ Agree (d.signature σ) (s.signature? x.kind)

variable {s s' : State} (h : s.Le s')

include h

theorem Le.declKey? {id : DeclId} {key : Key} (hkey : s.declKey? id = some key) :
    s'.declKey? id = some key := by
  obtain ⟨x, hx, hkey⟩ := Option.bind_eq_some_iff.1 hkey
  exact Option.bind_eq_some_iff.2 ⟨x, h.decl hx, h.keyOf? hkey⟩

theorem Le.declKeys {ids : List DeclId} {keys : List Key}
    (hids : ids.mapM s.declKey? = some keys) : ids.mapM s'.declKey? = some keys :=
  Persists.mapM (fun _ _ => h.declKey?) ids keys hids

theorem Le.agree {p : Except LowerError PlainType} {τ : TreeType} (hτ : Agree p (s.plain? τ)) :
    Agree p (s'.plain? τ) :=
  hτ.mono fun _ => h.plain?

theorem Le.agreeOptional {p : Except LowerError (Option PlainType)} {τ : Option TreeType}
    (hτ : Agree p (τ.mapM s.plain?)) : Agree p (τ.mapM s'.plain?) :=
  hτ.mono (.optionMapM (fun _ _ => h.plain?) τ)

theorem Le.signature? (kind : DeclKind) : Persists (s.signature? kind) (s'.signature? kind) := by
  have hkey (id : SymbolId) : Persists (s.keyOf? id) (s'.keyOf? id) := fun _ => h.keyOf?
  have hdecl (id : DeclId) : Persists (s.declKey? id) (s'.declKey? id) := fun _ => h.declKey?
  have htype (τ : TreeType) : Persists (s.plain? τ) (s'.plain? τ) := fun _ => h.plain?
  have hkeys := Persists.mapM hkey
  have hdecls := Persists.mapM hdecl
  have htypes := Persists.mapM htype
  have hoptional := Persists.optionMapM htype
  cases kind with
  | classLike d => exact (hdecls _).bind fun _ => (htypes _).bind fun _ => .refl _
  | function d =>
    exact (hdecls _).bind fun _ => (hoptional _).bind fun _ => (hoptional _).bind fun _ =>
      (hdecls _).bind fun _ => (htype _).bind fun _ => (hkeys _).bind fun _ => .refl _
  | constructor d => exact (hdecls _).bind fun _ => (htype _).bind fun _ => .refl _
  | property d =>
    exact (htype _).bind fun _ => (hoptional _).bind fun _ => (hoptional _).bind fun _ =>
      (hdecls _).bind fun _ => .refl _
  | accessor d =>
    exact (hkey _).bind fun _ => (htype _).bind fun _ => (hdecls _).bind fun _ => .refl _
  | initializer _ => exact .refl _
  | typeParameter d => exact (htypes _).bind fun _ => .refl _
  | valueParameter d => exact (htype _).bind fun _ => .refl _
  | typeAlias d => exact (hdecls _).bind fun _ => (htype _).bind fun _ => .refl _

end State

end TypedTree
