import TypedTree.Facts.Builtin
import TypedTree.Facts.Call
import TypedTree.Source.Tree

namespace TypedTree

/-- What analysis recorded for one node. -/
structure NodeFacts where
  type : Option TypeId := none
  writtenType : Option TypeId := none
  call : Option ResolvedCall := none
  /-- What a name refers to when it resolved to no call. -/
  target : Option DescId := none
  declares : Option DescId := none
  annotationUse : Option AnnotationUse := none
  constant : Option Constant := none
  loop : Option LoopCalls := none
  component : Option ResolvedCall := none
  indexed : Option IndexedCalls := none
  delegates : Option DelegateCalls := none
  /-- The call that tests a range condition. -/
  contains : Option ResolvedCall := none
  /-- A compound assignment that is one operator call. -/
  isOperatorAssignment : Bool := false
  /-- The property that a constructor parameter declares. -/
  constructorProperty : Option DescId := none

/-- An analysed unit: its source tree, and the facts about it. -/
structure World where
  tree : SourceTree
  /-- By node; nodes past the end have no facts. -/
  facts : Array NodeFacts
  /-- The descriptors that follow the built-in ones. -/
  declared : Array Descriptor
  /-- The types that follow the built-in ones. -/
  types : Array SourceType

namespace World

def descriptorCount (w : World) : Nat := Builtin.descriptors.size + w.declared.size

def typeCount (w : World) : Nat := Builtin.types.size + w.types.size

def descriptor? (w : World) (id : DescId) : Option Descriptor :=
  if id.index < Builtin.descriptors.size then Builtin.descriptors[id.index]?
  else w.declared[id.index - Builtin.descriptors.size]?

def type? (w : World) (id : TypeId) : Option SourceType :=
  if id.index < Builtin.types.size then Builtin.types[id.index]?
  else w.types[id.index - Builtin.types.size]?

def factsOf (w : World) (id : NodeId) : NodeFacts := w.facts[id.index]?.getD {}

def descriptors (w : World) : List (DescId × Descriptor) :=
  (Builtin.descriptors.toList ++ w.declared.toList).zipIdx.map fun (d, i) => (⟨i⟩, d)

/-- The containers of a declaration from the inside out, at most `fuel` of them. -/
def containersUpTo (w : World) : Nat → Option DescId → List Descriptor
  | 0, _ | _, none => []
  | fuel + 1, some id =>
    match w.descriptor? id with
    | some d => d :: w.containersUpTo fuel d.container
    | none => []

/-- The containers of a declaration from the inside out. Where they form a circle, each is listed
at least once. -/
def containers (w : World) (d : Descriptor) : List Descriptor :=
  w.containersUpTo w.descriptorCount d.container

end World

end TypedTree
