import TypedTree.Config
import TypedTree.Lowering.Scope
import TypedTree.SymbolTable

namespace TypedTree

/-- What lowering reads and never changes. -/
structure Setting where
  world : World
  config : Config

structure Stats where
  declarations : Nat := 0
  stubs : Nat := 0
  passes : Nat := 0
deriving DecidableEq, Repr

structure State where
  table : SymbolTable := {}
  types : List (TypeId × TreeType) := []
  store : Store := {}
  stats : Stats := {}

/-- A step of lowering. A step that fails keeps what it made before. -/
abbrev Lower := ReaderT Setting (ExceptT LowerError (StateM State))

namespace Lower

def runFrom {α : Type} (m : Lower α) (setting : Setting) (s : State) :
    Except LowerError α × State :=
  StateT.run (ExceptT.run (ReaderT.run m setting)) s

def present {α : Type} : Option α → Lower α
  | some a => pure a
  | none => throw .dangling

def descriptor (id : DescId) : Lower Descriptor := do
  present ((← read).world.descriptor? id)

def sourceType (id : TypeId) : Lower SourceType := do
  present ((← read).world.type? id)

def node (id : NodeId) : Lower Node := do
  present ((← read).world.tree.node? id)

def facts (id : NodeId) : Lower NodeFacts := do
  return (← read).world.factsOf id

def deparenthesize (id : NodeId) : Lower NodeId := do
  return (← read).world.tree.deparenthesize id

def expr (id : ExprId) : Lower Expr := do
  present ((← get).store.expr? id)

def decl (id : DeclId) : Lower Decl := do
  present ((← get).store.decl? id)

def symbol (id : SymbolId) : Lower Symbol := do
  present ((← get).table.get? id)

/-- The error for a node in a place where it does not belong. -/
def unexpected {α : Type} (id : NodeId) (expected : String) : Lower α := do
  let node ← node id
  throw (.unexpectedNode node.kind.describe expected node.span)

/-- A fact that analysis has to provide. -/
def required {α : Type} (fact : Option α) (what : String) (id : NodeId) : Lower α := do
  match fact with
  | some a => return a
  | none =>
    let node ← node id
    throw (.missingFact what node.kind.describe node.span)

/-- The descriptor of what a node declares. -/
def declared (id : NodeId) : Lower DescId := do
  required (← facts id).declares "declaration descriptor" id

/-- The error for a descriptor of the wrong kind. -/
def unexpectedDeclaration {α : Type} (d : Descriptor) (expected : String) : Lower α :=
  throw (.unexpectedDeclaration d.name d.kind.describe expected)

def symbolOf (kind : SymbolKind) (desc : DescId) : Lower SymbolId := do
  let (id, table) ← present ((← get).table.getOrCreate? (← read).world kind desc)
  modify fun s => { s with table := table }
  return id

def symbolFor (desc : DescId) : Lower SymbolId := do
  let (id, table) ← present ((← get).table.symbolFor? (← read).world desc)
  modify fun s => { s with table := table }
  return id

def freshSymbol (kind : SymbolKind) (identity : SymbolIdentity) : Lower SymbolId :=
  modifyGet fun s =>
    let (id, table) := s.table.fresh kind identity
    (id, { s with table := table })

def freshLocal (kind : SymbolKind) (name : Name) : Lower SymbolId :=
  freshSymbol kind (.unqualified name)

/-- Goes on with the result of a binding. -/
def bound {α : Type} (result : Option (Except BindError α)) : Lower α := do
  match ← present result with
  | .ok a => return a
  | .error cause => throw (.alreadyBound cause)

def bindSymbol (id : SymbolId) (decl : DeclId) : Lower Unit := do
  let table ← bound ((← get).table.bind? id decl)
  modify fun s => { s with table := table }

def bindFunctionTarget (id : FunctionTargetId) (decl : DeclId) : Lower Unit := do
  let store ← bound ((← get).store.bindFunctionTarget id decl)
  modify fun s => { s with store := store }

def bindLoopTarget (id : LoopTargetId) (expr : ExprId) : Lower Unit := do
  let store ← bound ((← get).store.bindLoopTarget id expr)
  modify fun s => { s with store := store }

def bindWhenRef (id : WhenRefId) (expr : ExprId) : Lower Unit := do
  let store ← bound ((← get).store.bindWhenRef id expr)
  modify fun s => { s with store := store }

def newFunctionTarget (label : Option Name) (isLambda : Bool) : Lower FunctionTargetId :=
  modifyGet fun s =>
    let (id, store) := s.store.addFunctionTarget label isLambda
    (id, { s with store := store })

def newLoopTarget (label : Option Name) : Lower LoopTargetId :=
  modifyGet fun s =>
    let (id, store) := s.store.addLoopTarget label
    (id, { s with store := store })

def newWhenRef : Lower WhenRefId :=
  modifyGet fun s =>
    let (id, store) := s.store.addWhenRef
    (id, { s with store := store })

def addExpr (type : TreeType) (kind : ExprKind) : Lower ExprId :=
  modifyGet fun s =>
    let (id, store) := s.store.addExpr ⟨type, [], kind⟩
    (id, { s with store := store })

def addDecl (decl : Decl) : Lower DeclId :=
  modifyGet fun s =>
    let (id, store) := s.store.addDecl decl
    (id, { s with store := store })

def annotateExpr (id : ExprId) (calls : List ExprId) : Lower Unit := do
  let _ ← expr id
  modify fun s => { s with store := s.store.annotateExpr id calls }

/-- Counts a declaration of the given origin. -/
def count (origin : Origin) : Lower Unit :=
  modify fun s =>
    match origin with
    | .stub => { s with stats.stubs := s.stats.stubs + 1 }
    | .source | .synthetic => { s with stats.declarations := s.stats.declarations + 1 }

/-- Adds a declaration and makes it the owner of its symbol. It is counted once it is. -/
def declare (symbol : SymbolId) (origin : Origin) (annotations : List ExprId) (kind : DeclKind) :
    Lower DeclId := do
  let id ← addDecl ⟨symbol, origin, annotations, kind⟩
  bindSymbol symbol id
  count origin
  return id

/-- Adds a loop and makes it the owner of its target. -/
def addLoop (target : LoopTargetId) (type : TreeType) (kind : ExprKind) : Lower ExprId := do
  let expr ← addExpr type kind
  bindLoopTarget target expr
  return expr

/-- Adds a choice and makes it the owner of the reference to its subject. -/
def addChoice (whenRef : WhenRefId) (type : TreeType) (kind : ExprKind) : Lower ExprId := do
  let expr ← addExpr type kind
  bindWhenRef whenRef expr
  return expr

/-- Declares a callable and makes it the owner of its target. -/
def declareCallable (target : FunctionTargetId) (symbol : SymbolId) (origin : Origin)
    (annotations : List ExprId) (kind : DeclKind) : Lower DeclId := do
  let decl ← declare symbol origin annotations kind
  bindFunctionTarget target decl
  return decl

def rememberType (id : TypeId) (type : TreeType) : Lower Unit :=
  modify fun s => { s with types := (id, type) :: s.types }

end Lower

end TypedTree
