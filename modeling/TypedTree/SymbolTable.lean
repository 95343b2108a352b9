import TypedTree.Facts.World
import TypedTree.Fragment.Store

namespace TypedTree

/-- The kind of symbol that stands for what a descriptor describes. -/
def Descriptor.symbolKind (d : Descriptor) : SymbolKind :=
  match d.kind with
  | .classLike _ => .classLike
  | .function info => if info.isAnonymous then .anonymousFunction else .function
  | .constructor _ => .constructor
  | .property _ => .property
  | .accessor _ => .accessor
  | .typeParameter _ => .typeParameter
  | .valueParameter _ => .valueParameter
  | .typeAlias _ => .typeAlias

/-- Whether what is declared inside belongs to the body of a callable. -/
def Descriptor.isCallable (d : Descriptor) : Bool :=
  match d.kind with
  | .function _ | .constructor _ | .accessor _ => true
  | _ => false

def Descriptor.isLocalProperty (d : Descriptor) : Bool :=
  match d.kind with
  | .property info => info.isLocal
  | _ => false

/-- The qualified name of a declaration: the classes around it outermost first, and whether it is
local to a body. -/
def World.identity (w : World) (d : Descriptor) : SymbolIdentity where
  package := d.package
  enclosing := ((w.containers d).filter (·.class?.isSome)).reverse.map (·.name)
  name := d.name
  isLocal := d.isLocalProperty || (w.containers d).any (·.isCallable)

/-- The symbols of a unit. A descriptor has at most one symbol of each kind. -/
structure SymbolTable where
  symbols : Array Symbol := #[]
  /-- The symbol made for a kind and a descriptor. -/
  cache : List ((SymbolKind × DescId) × SymbolId) := []
  /-- The descriptor that a symbol was made for; helpers of the lowering have none. -/
  origins : List (SymbolId × DescId) := []

namespace SymbolTable

def get? (t : SymbolTable) (id : SymbolId) : Option Symbol := t.symbols[id.index]?

def cached? (t : SymbolTable) (kind : SymbolKind) (desc : DescId) : Option SymbolId :=
  t.cache.lookup (kind, desc)

def descriptorOf? (t : SymbolTable) (id : SymbolId) : Option DescId := t.origins.lookup id

def fresh (t : SymbolTable) (kind : SymbolKind) (identity : SymbolIdentity) :
    SymbolId × SymbolTable :=
  (⟨t.symbols.size⟩, { t with symbols := t.symbols.push ⟨kind, identity, none⟩ })

/-- The symbol of the given kind for a descriptor, made when it is first asked for. A descriptor
outside of the world has none. -/
def getOrCreate? (t : SymbolTable) (w : World) (kind : SymbolKind) (desc : DescId) :
    Option (SymbolId × SymbolTable) :=
  match t.cached? kind desc with
  | some id => some (id, t)
  | none => (w.descriptor? desc).map fun d =>
    let (id, t) := t.fresh kind (w.identity d)
    (id, { t with cache := ((kind, desc), id) :: t.cache, origins := (id, desc) :: t.origins })

def symbolFor? (t : SymbolTable) (w : World) (desc : DescId) : Option (SymbolId × SymbolTable) :=
  (w.descriptor? desc).bind fun d => t.getOrCreate? w d.symbolKind desc

/-- Gives a symbol its declaration; absent symbols have no answer. -/
def bind? (t : SymbolTable) (id : SymbolId) (decl : DeclId) :
    Option (Except BindError SymbolTable) :=
  (Store.changeAt t.symbols id.index (·.bind decl)).map
    (·.map fun symbols => { t with symbols := symbols })

def allUnbound (t : SymbolTable) : List SymbolId :=
  t.symbols.toList.zipIdx.filterMap fun (s, i) => if s.isBound then none else some ⟨i⟩

/-- The symbols without a declaration that stand for a descriptor, in the order of their
positions. -/
def unboundSymbols (t : SymbolTable) : List (DescId × SymbolId) :=
  t.allUnbound.filterMap fun id => (t.descriptorOf? id).map (·, id)

end SymbolTable

end TypedTree
