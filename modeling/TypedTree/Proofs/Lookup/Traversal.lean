import Mathlib.Data.List.Perm.Subperm
import Mathlib.Logic.Relation
import Mathlib.Order.WellFounded
import TypedTree.Proofs.Kinds
import TypedTree.Proofs.Stub.Signature

namespace TypedTree

/-- What is looked up on the way through a signature: a type, or the symbol for a key. -/
inductive Lookup where
  | type (id : TypeId)
  | key (key : Key)
deriving DecidableEq, Repr

variable (σ : Setting)

mutual

def Constant.lookups : Constant → Option TypeId → List Lookup
  | .scalar value, expected => [.type (expected.getD value.type)]
  | .array elements type, _ => Constant.lookupsOfAll elements ++ [.type type]
  | .enumEntry entry type, _ =>
    match σ.config.literals with
    | .unsupported => []
    | .complete => [.type type, .key (.classLike, entry)]
  | .nested use, _ => use.lookups
  | .classLiteral referenced type, _ =>
    match σ.config.literals, σ.world.type? referenced with
    | .complete, some (.simple _) | .complete, some (.flexible _ _) =>
      [.type referenced, .type type]
    | _, _ => []
  | .failed _, _ => []

def Constant.lookupsOfAll : List Constant → List Lookup
  | [] => []
  | element :: rest => element.lookups none ++ Constant.lookupsOfAll rest

def AnnotationUse.lookups : AnnotationUse → List Lookup
  | ⟨type, arguments⟩ =>
    match σ.world.type? type with
    | some (.simple simple) =>
      match (σ.world.descriptor? simple.classifier).bind (·.class?) with
      | none => []
      | some info =>
        match info.mainConstructor? with
        | none => []
        | some constructor => .type type :: .key (.constructor, constructor) ::
          match σ.world.descriptor? constructor with
          | none => []
          | some callee => callee.valueParameters.flatMap fun parameter =>
            match σ.world.descriptor? parameter with
            | none => []
            | some d =>
              match (AnnotationUse.lookupsOfArguments arguments).lookup d.name with
              | some argument => argument (d.valueParameter?.map (·.type))
              | none => []
    | _ => []

def AnnotationUse.lookupsOfArguments :
    List (Name × Constant) → List (Name × (Option TypeId → List Lookup))
  | [] => []
  | (name, value) :: rest => (name, value.lookups) :: AnnotationUse.lookupsOfArguments rest

end

def SourceTypeArgument.lookups : SourceTypeArgument → List Lookup
  | .star => []
  | .projection _ type => [.type type]

/-- What the classifier of a type looks up; it is a class or a type parameter. -/
def World.classifierLookups (w : World) (classifier : DescId) : List Lookup :=
  match (w.descriptor? classifier).bind (·.classifierKind?) with
  | some kind => [.key (kind, classifier)]
  | none => []

/-- What the conversion of a type looks up itself, besides what its parts do. -/
def SourceType.lookups : SourceType → List Lookup
  | .simple type => σ.world.classifierLookups type.classifier ++
      (type.arguments.flatMap (·.lookups) ++ type.annotations.flatMap (·.lookups σ))
  | .flexible _ upper => [.type upper]
  | .failed _ => []

/-- What a signature looks up. A parameter stands here with its own key only: what its signature
looks up follows from that, unless it has a declaration already. -/
def Descriptor.lookups (d : Descriptor) : List Lookup :=
  d.kind.parameters.map .key ++ d.kind.symbols.map .key ++ d.kind.types.map .type ++
    d.annotations.flatMap (·.lookups σ)

/-- The keys that a look-up comes to when no type is remembered. -/
inductive Lookup.Leads : Lookup → Key → Prop
  | key {key : Key} : Leads (.key key) key
  | type {id t l key} : σ.world.type? id = some t → l ∈ t.lookups σ → Leads l key →
      Leads (.type id) key

/-- The keys that look-ups come to. -/
def Setting.Finds (ls : List Lookup) (key : Key) : Prop := ∃ l ∈ ls, l.Leads σ key

/-- The conversion of the second type takes that of the first. -/
def Setting.Contains (part whole : TypeId) : Prop :=
  ∃ t, σ.world.type? whole = some t ∧ .type part ∈ t.lookups σ

/-- The signature of the second declaration has the first one as a parameter. -/
def Setting.Lists (parameter desc : DescId) : Prop :=
  ∃ d kind, σ.world.descriptor? desc = some d ∧ (kind, parameter) ∈ d.kind.parameters

/-- No type is a part of itself, and no declaration is a parameter of itself. -/
def Setting.Founded : Prop := WellFounded σ.Contains ∧ WellFounded σ.Lists

variable {σ}

namespace Lookup

theorem leads_key {key key' : Key} : (Lookup.key key).Leads σ key' ↔ key' = key :=
  ⟨fun h => by cases h; rfl, fun h => h ▸ .key⟩

theorem leads_type {id : TypeId} (ht : σ.world.type? id = some t) {key : Key} :
    (Lookup.type id).Leads σ key ↔ σ.Finds (t.lookups σ) key := by
  refine ⟨fun h => ?_, fun ⟨l, hl, h⟩ => .type ht hl h⟩
  cases h with
  | type ht' hl h =>
    cases ht.symm.trans ht'
    exact ⟨_, hl, h⟩

end Lookup

namespace Setting

variable {ls ls' : List Lookup} {key : Key}

theorem finds_nil : ¬ σ.Finds [] key := fun ⟨_, hl, _⟩ => by cases hl

theorem finds_append : σ.Finds (ls ++ ls') key ↔ σ.Finds ls key ∨ σ.Finds ls' key := by
  simp only [Finds, List.mem_append, or_and_right, exists_or]

theorem finds_singleton : σ.Finds [l] key ↔ l.Leads σ key := by
  simp [Finds]

theorem Finds.mono (h : σ.Finds ls key) (hsub : ls ⊆ ls') : σ.Finds ls' key :=
  let ⟨l, hl, hk⟩ := h
  ⟨l, hsub hl, hk⟩

end Setting

theorem AnnotationUse.lookup_lookupsOfArguments (arguments : List (Name × Constant))
    (name : Name) : (AnnotationUse.lookupsOfArguments σ arguments).lookup name =
      (arguments.lookup name).map (Constant.lookups σ) := by
  induction arguments with
  | nil => rfl
  | cons p rest ih =>
    obtain ⟨name', value⟩ := p
    simp only [AnnotationUse.lookupsOfArguments, List.lookup_cons]
    split
    next => rfl
    next => exact ih

section descent

variable {α : Type} {r : α → α → Prop}

/-- A way down of the given length. -/
def Descends (r : α → α → Prop) : Nat → α → Prop
  | 0, _ => True
  | n + 1, a => ∃ b, r b a ∧ Descends r n b

/-- A way down without repetition is no longer than there are places to pass. -/
theorem length_le_of_descends (hwf : WellFounded r) {places : List α}
    (hplaces : ∀ {a b}, r b a → a ∈ places) {n : Nat} {a : α} {above : List α} (hn : above.Nodup)
    (habove : ∀ x ∈ above, x ∈ places ∧ Relation.TransGen r a x) (h : Descends r n a) :
    n + above.length ≤ places.length := by
  induction n generalizing a above with
  | zero =>
    have hle := (List.subperm_of_subset hn fun x hx => (habove x hx).1).length_le
    omega
  | succ n ih =>
    obtain ⟨b, hb, hdown⟩ := h
    have hnot : a ∉ above := fun ha => hwf.transGen.irrefl.irrefl a (habove a ha).2
    have hnext := ih (a := b) (List.nodup_cons.2 ⟨hnot, hn⟩)
      (List.forall_mem_cons.2 ⟨⟨hplaces hb, .single hb⟩, fun x hx =>
        ⟨(habove x hx).1, .head hb (habove x hx).2⟩⟩) hdown
    simp only [List.length_cons] at hnext
    omega

theorem not_descends_of_wellFounded (hwf : WellFounded r) (places : List α)
    (hplaces : ∀ {a b}, r b a → a ∈ places) {n : Nat} (hn : places.length < n) {a : α} :
    ¬ Descends r n a := by
  intro h
  have hle := length_le_of_descends hwf hplaces .nil (by simp) h
  simp only [List.length_nil] at hle
  omega

end descent

theorem World.index_lt_of_type? {w : World} {id : TypeId} (h : w.type? id = some t) :
    id.index < w.typeCount := by
  unfold World.type? at h
  unfold World.typeCount
  split at h
  next => omega
  next =>
    obtain ⟨hi, _⟩ := Array.getElem?_eq_some_iff.1 h
    omega

theorem World.index_lt_of_descriptor? {w : World} {id : DescId} (h : w.descriptor? id = some d) :
    id.index < w.descriptorCount := by
  unfold World.descriptor? at h
  unfold World.descriptorCount
  split at h
  next => omega
  next =>
    obtain ⟨hi, _⟩ := Array.getElem?_eq_some_iff.1 h
    omega

/-- A nesting deeper than there are types is a circle. -/
theorem Setting.not_founded_of_contains {id : TypeId}
    (h : Descends σ.Contains (σ.world.typeCount + 1) id) : ¬ σ.Founded := fun hσ => by
  refine not_descends_of_wellFounded hσ.1 ((List.range σ.world.typeCount).map .mk)
    (fun {whole _} ⟨_, ht, _⟩ => ?_) (by simp) h
  exact List.mem_map.2 ⟨whole.index, List.mem_range.2 (World.index_lt_of_type? ht), rfl⟩

theorem Setting.not_founded_of_lists (h : Descends σ.Lists (2 * σ.world.descriptorCount + 2) desc) :
    ¬ σ.Founded := fun hσ => by
  refine not_descends_of_wellFounded hσ.2 ((List.range σ.world.descriptorCount).map .mk)
    (fun {whole _} ⟨_, _, hd, _⟩ => ?_) (by simp; omega) h
  exact List.mem_map.2 ⟨whole.index, List.mem_range.2 (World.index_lt_of_descriptor? hd), rfl⟩

end TypedTree
