import TypedTree.Fragment.Symbol
import TypedTree.Proofs.Reference

namespace TypedTree

theorem SourceTree.deparenthesize_withFiles (t : SourceTree) (files : List SourceFile)
    (id : NodeId) : { t with files := files }.deparenthesize id = t.deparenthesize id := by
  unfold deparenthesize
  generalize t.nodes.size = fuel
  induction fuel generalizing id with
  | zero => rfl
  | succ fuel ih =>
    simp only [stripParentheses, ih]
    rfl

namespace Descriptor

variable {d : Descriptor}

theorem kind_of_class? (h : d.class? = some i) : d.kind = .classLike i := by
  unfold class? at h
  split at h <;> simp_all

theorem kind_of_function? (h : d.function? = some i) : d.kind = .function i := by
  unfold function? at h
  split at h <;> simp_all

theorem kind_of_constructor? (h : d.constructor? = some i) : d.kind = .constructor i := by
  unfold constructor? at h
  split at h <;> simp_all

theorem kind_of_property? (h : d.property? = some i) : d.kind = .property i := by
  unfold property? at h
  split at h <;> simp_all

theorem kind_of_accessor? (h : d.accessor? = some i) : d.kind = .accessor i := by
  unfold accessor? at h
  split at h <;> simp_all

theorem kind_of_typeParameter? (h : d.typeParameter? = some i) : d.kind = .typeParameter i := by
  unfold typeParameter? at h
  split at h <;> simp_all

theorem kind_of_valueParameter? (h : d.valueParameter? = some i) :
    d.kind = .valueParameter i := by
  unfold valueParameter? at h
  split at h <;> simp_all

theorem kind_of_typeAlias? (h : d.typeAlias? = some i) : d.kind = .typeAlias i := by
  unfold typeAlias? at h
  split at h <;> simp_all

end Descriptor

namespace World

def has (w : World) : Reference → Bool
  | .node id => (w.tree.node? id).isSome
  | .desc id => (w.descriptor? id).isSome
  | .type id => (w.type? id).isSome

def refs (w : World) : List Reference :=
  w.tree.files.flatMap (·.refs) ++ w.tree.nodes.toList.flatMap (·.kind.refs) ++
    w.facts.toList.flatMap (·.refs) ++ w.declared.toList.flatMap (·.refs) ++
    w.types.toList.flatMap (·.refs)

def InRange (w : World) : Prop := ∀ r ∈ w.refs, w.has r

instance (w : World) : Decidable w.InRange := inferInstanceAs (Decidable (∀ r ∈ w.refs, w.has r))

/-- A reference that leads to something if all references of the unit do. -/
def Finds (w : World) (r : Reference) : Prop := w.InRange → w.has r

/-- What is known of references that stand together. -/
abbrev Knows (w : World) (rs : List Reference) : Prop := ∀ r ∈ rs, w.Finds r

theorem finds_builtin_desc (w : World) {id : DescId} (h : id.index < Builtin.descriptors.size) :
    w.Finds (.desc id) := by
  intro _
  simp [has, descriptor?, h]

theorem finds_builtin_type (w : World) {id : TypeId} (h : id.index < Builtin.types.size) :
    w.Finds (.type id) := by
  intro _
  simp [has, type?, h]

/-- What the built-in descriptors and types refer to is built in as well. -/
def isBuiltin : Reference → Bool
  | .node _ => false
  | .desc id => decide (id.index < Builtin.descriptors.size)
  | .type id => decide (id.index < Builtin.types.size)

theorem finds_of_isBuiltin (w : World) {r : Reference} (h : isBuiltin r) : w.Finds r := by
  cases r with
  | node id => simp [isBuiltin] at h
  | desc id => exact w.finds_builtin_desc (by simpa [isBuiltin] using h)
  | type id => exact w.finds_builtin_type (by simpa [isBuiltin] using h)

theorem builtin_descriptors_closed :
    ∀ d ∈ Builtin.descriptors.toList, ∀ r ∈ d.refs, isBuiltin r := by decide

theorem builtin_types_closed : ∀ t ∈ Builtin.types.toList, ∀ r ∈ t.refs, isBuiltin r := by decide

theorem knows_node (w : World) {id : NodeId} {n : Node} (h : w.tree.node? id = some n) :
    w.Knows n.kind.refs := by
  intro r hr hw
  have hn : n ∈ w.tree.nodes.toList := Array.mem_toList_iff.mpr (Array.mem_of_getElem? h)
  exact hw r (by simp only [refs, List.mem_append, List.mem_flatMap]; grind)

theorem knows_facts (w : World) (id : NodeId) : w.Knows (w.factsOf id).refs := by
  intro r hr hw
  unfold factsOf at hr
  cases h : w.facts[id.index]? with
  | none => simp [h, NodeFacts.refs, Reference.type?, Reference.types, Reference.desc?,
      Reference.descs] at hr
  | some f =>
    have hf : f ∈ w.facts.toList := Array.mem_toList_iff.mpr (Array.mem_of_getElem? h)
    rw [h, Option.getD_some] at hr
    exact hw r (by simp only [refs, List.mem_append, List.mem_flatMap]; grind)

theorem knows_descriptor (w : World) {id : DescId} {d : Descriptor}
    (h : w.descriptor? id = some d) : w.Knows d.refs := by
  intro r hr hw
  unfold descriptor? at h
  split at h
  next =>
    have hd := Array.mem_toList_iff.mpr (Array.mem_of_getElem? h)
    exact w.finds_of_isBuiltin (builtin_descriptors_closed d hd r hr) hw
  next =>
    have hd := Array.mem_toList_iff.mpr (Array.mem_of_getElem? h)
    exact hw r (by simp only [refs, List.mem_append, List.mem_flatMap]; grind)

theorem knows_type (w : World) {id : TypeId} {t : SourceType} (h : w.type? id = some t) :
    w.Knows t.refs := by
  intro r hr hw
  unfold type? at h
  split at h
  next =>
    have ht := Array.mem_toList_iff.mpr (Array.mem_of_getElem? h)
    exact w.finds_of_isBuiltin (builtin_types_closed t ht r hr) hw
  next =>
    have ht := Array.mem_toList_iff.mpr (Array.mem_of_getElem? h)
    exact hw r (by simp only [refs, List.mem_append, List.mem_flatMap]; grind)

theorem knows_file (w : World) {f : SourceFile} (h : f ∈ w.tree.files) : w.Knows f.refs := by
  intro r hr hw
  exact hw r (by simp only [refs, List.mem_append, List.mem_flatMap]; grind)

theorem finds_stripParentheses (w : World) (fuel : Nat) {id : NodeId} (h : w.Finds (.node id)) :
    w.Finds (.node (w.tree.stripParentheses fuel id)) := by
  induction fuel generalizing id with
  | zero => exact h
  | succ fuel ih =>
    unfold SourceTree.stripParentheses
    split
    next inner span hn => exact ih (w.knows_node hn (.node inner) (by simp [NodeKind.refs]))
    next => exact h

theorem finds_deparenthesize (w : World) {id : NodeId} (h : w.Finds (.node id)) :
    w.Finds (.node (w.tree.deparenthesize id)) :=
  w.finds_stripParentheses _ h

/-- What is known of references is known of each of those that they are put together from. -/
theorem knows_refs {w : World} :
    (∀ rs rs', w.Knows (rs ++ rs') ↔ w.Knows rs ∧ w.Knows rs') ∧
      (∀ r, w.Knows [r] ↔ w.Finds r) ∧
      (∀ ids, w.Knows (Reference.nodes ids) ↔ ∀ id ∈ ids, w.Finds (.node id)) ∧
      (∀ id, w.Knows (Reference.node? id) ↔ ∀ n ∈ id, w.Finds (.node n)) ∧
      (∀ ids, w.Knows (Reference.descs ids) ↔ ∀ id ∈ ids, w.Finds (.desc id)) ∧
      (∀ id, w.Knows (Reference.desc? id) ↔ ∀ d ∈ id, w.Finds (.desc d)) ∧
      (∀ ids, w.Knows (Reference.types ids) ↔ ∀ id ∈ ids, w.Finds (.type id)) ∧
      ∀ id, w.Knows (Reference.type? id) ↔ ∀ t ∈ id, w.Finds (.type t) := by
  simp [Knows, Reference.nodes, Reference.node?, Reference.descs, Reference.desc?,
    Reference.types, Reference.type?, or_imp, forall_and]

theorem Knows.kind {w : World} {d : Descriptor} (h : w.Knows d.refs) : w.Knows d.kind.refs :=
  fun r hr => h r (by simp [Descriptor.refs, hr])

theorem Knows.valueParameters {w : World} {d : Descriptor} (h : w.Knows d.refs) :
    ∀ p ∈ d.valueParameters, w.Finds (.desc p) := by
  intro p hp
  have hk := Knows.kind h
  unfold Descriptor.valueParameters at hp
  split at hp
  next info hkind => exact hk _ (by simp [hkind, DescriptorKind.refs, Reference.descs, hp])
  next info hkind => exact hk _ (by simp [hkind, DescriptorKind.refs, Reference.descs, hp])
  next info hkind => exact hk _ (by simp [hkind, DescriptorKind.refs, Reference.descs, hp])
  next => simp at hp

end World

/-- Symbols of parameters are made for parameters. -/
structure World.Fits (w : World) (kind : SymbolKind) (desc : DescId) : Prop where
  typeParameter : kind = .typeParameter →
    ∃ d, w.descriptor? desc = some d ∧ d.typeParameter?.isSome
  valueParameter : kind = .valueParameter →
    ∃ d, w.descriptor? desc = some d ∧ d.valueParameter?.isSome

end TypedTree
