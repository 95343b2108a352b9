import TypedTree.Fragment.Decl
import TypedTree.Fragment.Expr
import TypedTree.Fragment.Symbol

namespace TypedTree

/-- What a return jumps out of. -/
structure FunctionTarget where
  label : Option Name
  isLambda : Bool
  owner : Option DeclId := none
deriving DecidableEq, Repr

def FunctionTarget.bind (t : FunctionTarget) (decl : DeclId) : Except BindError FunctionTarget :=
  match t.owner with
  | some existing => .error (.functionTargetBound existing)
  | none => .ok { t with owner := some decl }

structure LoopTarget where
  label : Option Name
  owner : Option ExprId := none
deriving DecidableEq, Repr

def LoopTarget.bind (t : LoopTarget) (expr : ExprId) : Except BindError LoopTarget :=
  match t.owner with
  | some existing => .error (.exprTargetBound existing)
  | none => .ok { t with owner := some expr }

/-- What ties a subject to the choice it belongs to. -/
structure WhenRef where
  owner : Option ExprId := none
deriving DecidableEq, Repr

def WhenRef.bind (r : WhenRef) (expr : ExprId) : Except BindError WhenRef :=
  match r.owner with
  | some existing => .error (.exprTargetBound existing)
  | none => .ok ⟨some expr⟩

/-- The nodes of a typed tree. Nodes are only ever added at the end. -/
structure Store where
  decls : Array Decl := #[]
  exprs : Array Expr := #[]
  functionTargets : Array FunctionTarget := #[]
  loopTargets : Array LoopTarget := #[]
  whenRefs : Array WhenRef := #[]

namespace Store

def decl? (s : Store) (id : DeclId) : Option Decl := s.decls[id.index]?

def expr? (s : Store) (id : ExprId) : Option Expr := s.exprs[id.index]?

def functionTarget? (s : Store) (id : FunctionTargetId) : Option FunctionTarget :=
  s.functionTargets[id.index]?

def loopTarget? (s : Store) (id : LoopTargetId) : Option LoopTarget := s.loopTargets[id.index]?

def whenRef? (s : Store) (id : WhenRefId) : Option WhenRef := s.whenRefs[id.index]?

def addDecl (s : Store) (decl : Decl) : DeclId × Store :=
  (⟨s.decls.size⟩, { s with decls := s.decls.push decl })

def addExpr (s : Store) (expr : Expr) : ExprId × Store :=
  (⟨s.exprs.size⟩, { s with exprs := s.exprs.push expr })

def addFunctionTarget (s : Store) (label : Option Name) (isLambda : Bool) :
    FunctionTargetId × Store :=
  (⟨s.functionTargets.size⟩,
    { s with functionTargets := s.functionTargets.push ⟨label, isLambda, none⟩ })

def addLoopTarget (s : Store) (label : Option Name) : LoopTargetId × Store :=
  (⟨s.loopTargets.size⟩, { s with loopTargets := s.loopTargets.push ⟨label, none⟩ })

def addWhenRef (s : Store) : WhenRefId × Store :=
  (⟨s.whenRefs.size⟩, { s with whenRefs := s.whenRefs.push ⟨none⟩ })

def annotateExpr (s : Store) (id : ExprId) (calls : List ExprId) : Store :=
  { s with
    exprs := s.exprs.modify id.index fun e => { e with annotations := e.annotations ++ calls } }

/-- Replaces the entry at a position, if there is one and the change of it succeeds. -/
def changeAt {α ε : Type} (xs : Array α) (i : Nat) (f : α → Except ε α) :
    Option (Except ε (Array α)) :=
  xs[i]?.map fun x => (f x).map fun y => xs.setIfInBounds i y

def bindFunctionTarget (s : Store) (id : FunctionTargetId) (decl : DeclId) :
    Option (Except BindError Store) :=
  (changeAt s.functionTargets id.index (·.bind decl)).map
    (·.map fun targets => { s with functionTargets := targets })

def bindLoopTarget (s : Store) (id : LoopTargetId) (expr : ExprId) :
    Option (Except BindError Store) :=
  (changeAt s.loopTargets id.index (·.bind expr)).map
    (·.map fun targets => { s with loopTargets := targets })

def bindWhenRef (s : Store) (id : WhenRefId) (expr : ExprId) : Option (Except BindError Store) :=
  (changeAt s.whenRefs id.index (·.bind expr)).map (·.map fun refs => { s with whenRefs := refs })

end Store

structure TreeFile where
  name : String
  package : List Name
  annotations : List ExprId
  declarations : List DeclId
deriving DecidableEq, Repr

/-- The typed tree of a unit, with signatures for what it refers to outside of itself. -/
structure Fragment where
  name : String
  files : List TreeFile
  external : List DeclId
  symbols : Array Symbol
  store : Store

namespace Fragment

def symbol? (f : Fragment) (id : SymbolId) : Option Symbol := f.symbols[id.index]?

def unboundSymbols (f : Fragment) : List SymbolId :=
  f.symbols.toList.zipIdx.filterMap fun (s, i) => if s.isBound then none else some ⟨i⟩

/-- The declarations of the files, then those outside of the unit. -/
def roots (f : Fragment) : List DeclId := f.files.flatMap (·.declarations) ++ f.external

def bindSymbol (f : Fragment) (id : SymbolId) (decl : DeclId) :
    Option (Except BindError Fragment) :=
  (Store.changeAt f.symbols id.index (·.bind decl)).map
    (·.map fun symbols => { f with symbols := symbols })

end Fragment

end TypedTree
