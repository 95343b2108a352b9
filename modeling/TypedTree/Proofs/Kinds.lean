import TypedTree.SymbolTable

namespace TypedTree

/-- A descriptor, and the kind of symbol that a fact takes it to have. -/
abbrev Key := SymbolKind × DescId

namespace Key

def all (kind : SymbolKind) (ids : List DescId) : List Key := ids.map (kind, ·)

def optional (kind : SymbolKind) (id : Option DescId) : List Key := all kind id.toList

end Key

open Key (all optional)

mutual

def Constant.keys : Constant → List Key
  | .scalar _ | .failed _ | .classLiteral _ _ => []
  | .array elements _ => Constant.keysOfAll elements
  | .enumEntry entry _ => [(.classLike, entry)]
  | .nested use => use.keys

def Constant.keysOfAll : List Constant → List Key
  | [] => []
  | element :: rest => element.keys ++ Constant.keysOfAll rest

def AnnotationUse.keys : AnnotationUse → List Key
  | ⟨_, arguments⟩ => AnnotationUse.keysOfArguments arguments

def AnnotationUse.keysOfArguments : List (Name × Constant) → List Key
  | [] => []
  | (_, value) :: rest => value.keys ++ AnnotationUse.keysOfArguments rest

end

def DescriptorKind.keys : DescriptorKind → List Key
  | .classLike info => all .typeParameter info.typeParameters ++
      all .constructor info.constructors ++ optional .constructor info.primaryConstructor
  | .function info => all .typeParameter info.typeParameters ++
      all .valueParameter info.valueParameters ++ all .function info.overridden
  | .constructor info => all .valueParameter info.valueParameters
  | .property info => all .typeParameter info.typeParameters ++ optional .accessor info.getter ++
      optional .accessor info.setter
  | .accessor info => (.property, info.property) :: all .valueParameter info.valueParameters
  | .typeParameter _ | .valueParameter _ => []
  | .typeAlias info => all .typeParameter info.typeParameters

def Descriptor.keys (d : Descriptor) : List Key := d.annotations.flatMap (·.keys) ++ d.kind.keys

def SourceType.keys : SourceType → List Key
  | .simple type => type.annotations.flatMap (·.keys)
  | .flexible _ _ | .failed _ => []

def Receiver.keys : Receiver → List Key
  | .classValue object _ => [(.classLike, object)]
  | .expression _ | .implicitThis _ _ | .extensionThis _ _ | .superOf _ => []

def ResolvedCall.keys (c : ResolvedCall) : List Key :=
  c.dispatchReceiver.toList.flatMap (·.keys) ++ c.extensionReceiver.toList.flatMap (·.keys)

def LoopCalls.keys (c : LoopCalls) : List Key := c.iterator.keys ++ c.hasNext.keys ++ c.next.keys

def IndexedCalls.keys (c : IndexedCalls) : List Key :=
  c.get.toList.flatMap (·.keys) ++ c.set.toList.flatMap (·.keys)

def DelegateCalls.keys (c : DelegateCalls) : List Key :=
  c.getValue.keys ++ c.setValue.toList.flatMap (·.keys) ++ c.provideDelegate.toList.flatMap (·.keys)

def NodeFacts.keys (f : NodeFacts) : List Key :=
  f.call.toList.flatMap (·.keys) ++ f.annotationUse.toList.flatMap (·.keys) ++
    f.constant.toList.flatMap (·.keys) ++ f.loop.toList.flatMap (·.keys) ++
    f.component.toList.flatMap (·.keys) ++ f.indexed.toList.flatMap (·.keys) ++
    f.delegates.toList.flatMap (·.keys) ++ f.contains.toList.flatMap (·.keys) ++
    optional .property f.constructorProperty

namespace World

/-- What the form of a node says about the descriptors that are recorded for it and for its
parameter. -/
def keysOfNode (w : World) (id : NodeId) : NodeKind → List Key
  | .lambda _ _ => optional .anonymousFunction (w.factsOf id).declares
  | .forLoop parameter _ _ => optional .property (w.factsOf parameter).declares
  | .destructuringEntry (some _) => optional .property (w.factsOf id).declares
  | .delegationCall _ _ => all .constructor ((w.factsOf id).call.toList.map (·.candidate))
  | _ => []

/-- All descriptors that some fact takes to be of a kind. -/
def keys (w : World) : List Key :=
  w.declared.toList.flatMap (·.keys) ++ w.types.toList.flatMap (·.keys) ++
    w.facts.toList.flatMap (·.keys) ++
    w.tree.nodes.toList.zipIdx.flatMap fun (n, i) => w.keysOfNode ⟨i⟩ n.kind

/-- The symbol of a descriptor is of the given kind. -/
def Names (w : World) (key : Key) : Prop := ∀ d ∈ w.descriptor? key.2, d.symbolKind = key.1

instance (w : World) (key : Key) : Decidable (w.Names key) :=
  match h : w.descriptor? key.2 with
  | none => .isTrue (by simp [Names, h])
  | some d => decidable_of_iff (d.symbolKind = key.1) (by simp [Names, h])

/-- Every descriptor is of the kinds that the facts take it to have. -/
def KindConsistent (w : World) : Prop := ∀ key ∈ w.keys, w.Names key

instance (w : World) : Decidable w.KindConsistent :=
  inferInstanceAs (Decidable (∀ key ∈ w.keys, w.Names key))

namespace KindConsistent

variable {w : World} (h : w.KindConsistent)

include h

theorem descriptor {id : DescId} (hd : w.descriptor? id = some d) :
    ∀ key ∈ d.keys, w.Names key := by
  have hbuiltin : ∀ d ∈ Builtin.descriptors.toList, d.keys = [] := by decide
  intro key hkey
  unfold World.descriptor? at hd
  split at hd
  next =>
    rw [hbuiltin d (Array.mem_toList_iff.mpr (Array.mem_of_getElem? hd))] at hkey
    cases hkey
  next =>
    have hmem := Array.mem_toList_iff.mpr (Array.mem_of_getElem? hd)
    exact h key (by simp only [World.keys, List.mem_append, List.mem_flatMap]; grind)

theorem kind {id : DescId} (hd : w.descriptor? id = some d) :
    ∀ key ∈ d.kind.keys, w.Names key := fun key hkey =>
  h.descriptor hd key (by simp [Descriptor.keys, hkey])

theorem type {id : TypeId} (ht : w.type? id = some t) : ∀ key ∈ t.keys, w.Names key := by
  have hbuiltin : ∀ t ∈ Builtin.types.toList, t.keys = [] := by decide
  intro key hkey
  unfold World.type? at ht
  split at ht
  next =>
    rw [hbuiltin t (Array.mem_toList_iff.mpr (Array.mem_of_getElem? ht))] at hkey
    cases hkey
  next =>
    have hmem := Array.mem_toList_iff.mpr (Array.mem_of_getElem? ht)
    exact h key (by simp only [World.keys, List.mem_append, List.mem_flatMap]; grind)

theorem facts (id : NodeId) : ∀ key ∈ (w.factsOf id).keys, w.Names key := by
  intro key hkey
  unfold World.factsOf at hkey
  cases hf : w.facts[id.index]? with
  | none =>
    rw [hf] at hkey
    simp [NodeFacts.keys, Key.optional, Key.all] at hkey
  | some f =>
    rw [hf, Option.getD_some] at hkey
    have hmem := Array.mem_toList_iff.mpr (Array.mem_of_getElem? hf)
    exact h key (by simp only [World.keys, List.mem_append, List.mem_flatMap]; grind)

theorem node {id : NodeId} (hn : w.tree.node? id = some n) :
    ∀ key ∈ w.keysOfNode id n.kind, w.Names key := by
  intro key hkey
  have hmem : (n, id.index) ∈ w.tree.nodes.toList.zipIdx := by
    rw [List.mem_zipIdx_iff_getElem?]
    simpa [SourceTree.node?] using hn
  refine h key ?_
  simp only [World.keys, List.mem_append, List.mem_flatMap]
  exact .inr ⟨_, hmem, hkey⟩

end KindConsistent

end World

end TypedTree
