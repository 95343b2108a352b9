import TypedTree.Lowering.Types

namespace TypedTree.Lower

/-- The declarations of parameters, through the symbols of the given kind. -/
def parametersWith (declaration : SymbolId → DescId → Lower DeclId) (kind : SymbolKind)
    (parameters : List DescId) : Lower (List DeclId) :=
  parameters.mapM fun parameter => do declaration (← symbolOf kind parameter) parameter

/-- An empty block in the place of a default value that is written elsewhere. -/
def placeholder (info : ValueParameterInfo) : Lower (Option ExprId) := do
  if info.declaresDefault then return some (← addExpr (← convert info.type) (.block []))
  else return none

def signatureWith (declaration : SymbolId → DescId → Lower DeclId) (d : Descriptor) :
    Lower DeclKind := do
  match d.kind with
  | .classLike info =>
    let typeParameters ← parametersWith declaration .typeParameter info.typeParameters
    let supertypes ← convertAll info.supertypes
    return .classLike ⟨info.kind, d.visibility, info.modality, info.isData, info.isInner,
      info.isCompanion, typeParameters, supertypes, []⟩
  | .function info =>
    let typeParameters ← parametersWith declaration .typeParameter info.typeParameters
    let dispatchReceiver ← convertOptional info.dispatchReceiver
    let extensionReceiver ← convertOptional info.extensionReceiver
    let valueParameters ← parametersWith declaration .valueParameter info.valueParameters
    let returnType ← convert info.returnType
    let overridden ← info.overridden.mapM (symbolOf .function)
    return .function ⟨d.visibility, info.modality, info.flags, typeParameters, dispatchReceiver,
      extensionReceiver, valueParameters, returnType, none, overridden, none⟩
  | .constructor info =>
    let valueParameters ← parametersWith declaration .valueParameter info.valueParameters
    let returnType ← convert info.returnType
    return .constructor ⟨info.isPrimary, d.visibility, valueParameters, returnType, none, none⟩
  | .property info =>
    let returnType ← convert info.type
    let dispatchReceiver ← convertOptional info.dispatchReceiver
    let extensionReceiver ← convertOptional info.extensionReceiver
    let typeParameters ← parametersWith declaration .typeParameter info.typeParameters
    return .property ⟨d.visibility, info.modality, info.isVar, info.isLocal, info.isConst,
      info.isLateinit, returnType, dispatchReceiver, extensionReceiver, typeParameters, none, none,
      none, none⟩
  | .accessor info =>
    let property ← symbolOf .property info.property
    let returnType ← convert info.returnType
    let valueParameters ← parametersWith declaration .valueParameter info.valueParameters
    return .accessor ⟨property, info.isSetter, d.visibility, returnType, valueParameters, none⟩
  | .typeParameter info =>
    return .typeParameter ⟨info.index, info.variance, info.isReified,
      ← convertAll info.upperBounds⟩
  | .valueParameter info =>
    let defaultValue ← placeholder info
    let type ← convert info.type
    return .valueParameter ⟨type, defaultValue, info.isVararg, info.isCrossinline,
      info.isNoinline, none⟩
  | .typeAlias info =>
    let typeParameters ← parametersWith declaration .typeParameter info.typeParameters
    let expanded ← convert info.expanded
    return .typeAlias ⟨d.visibility, typeParameters, expanded⟩

/-- The declaration of a symbol: its owner, or else a stub for the descriptor. -/
def declarationWith (declaration : SymbolId → DescId → Lower DeclId) (id : SymbolId)
    (desc : DescId) : Lower DeclId := do
  match (← symbol id).owner with
  | some owner => return owner
  | none =>
    let d ← descriptor desc
    let kind ← signatureWith declaration d
    let annotations ← annotationCalls d.annotations
    -- The signature may have led to this very symbol.
    match (← symbol id).owner with
    | some owner => return owner
    | none => declare id .stub annotations kind

/-- The declaration of a symbol whose parameters are nested at most `fuel` deep. -/
def declarationUpTo : Nat → SymbolId → DescId → Lower DeclId
  | 0, _, _ => throw .endless
  | fuel + 1, id, desc => declarationWith (declarationUpTo fuel) id desc

/-- The declaration of a symbol. Below it stand only parameters, each at most once as a type
parameter and once as a value parameter. -/
def declaration (id : SymbolId) (desc : DescId) : Lower DeclId := do
  declarationUpTo (2 * (← read).world.descriptorCount + 2) id desc

/-- Parameters belong to their callable, and locals to their body; all else is a root. -/
def isRoot (d : Descriptor) : Bool :=
  match d.kind with
  | .typeParameter _ | .valueParameter _ => false
  | _ => d.visibility != .inBody

/-- Declares one pending symbol, unless another one has done so; gives the declaration of a root. -/
def stubPending (pending : DescId × SymbolId) : Lower (Option DeclId) := do
  if (← symbol pending.2).isBound then return none
  else
    let decl ← declaration pending.2 pending.1
    return if isRoot (← descriptor pending.1) then some decl else none

/-- Declares what is pending, pass by pass, until a pass finds no symbol that is new. -/
def stubPasses : Nat → List SymbolId → Lower (List DeclId)
  | 0, _ => throw .endless
  | fuel + 1, visited => do
    let pending := (← get).table.unboundSymbols.filter fun p => !visited.contains p.2
    if pending.isEmpty then return []
    else
      modify fun s => { s with stats.passes := s.stats.passes + 1 }
      let roots ← pending.mapM stubPending
      return roots.filterMap id ++ (← stubPasses fuel (visited ++ pending.map (·.2)))

/-- Declares everything that is referred to and not declared, and gives the roots among the new
declarations. Each pass takes up a new symbol, and a descriptor has at most nine of them. -/
def generateStubs : Lower (List DeclId) := do
  let roots ← stubPasses (9 * (← read).world.descriptorCount + 1) []
  let unbound ← (← get).table.allUnbound.mapM fun id => return (← symbol id).name
  if unbound.isEmpty then return roots
  else throw (.unboundSymbols unbound)

end TypedTree.Lower
