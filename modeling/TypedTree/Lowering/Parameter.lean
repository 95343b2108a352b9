import TypedTree.Lowering.Block

namespace TypedTree.Lower

def lowerValueParameter (d : Descent) (scope : Scope) (id : NodeId) : Lower DeclId := do
  match (← node id).kind with
  | .parameter parameter =>
    let desc ← declared id
    let descriptor ← descriptor desc
    match descriptor.valueParameter? with
    | none => unexpectedDeclaration descriptor "value parameter"
    | some info =>
      let symbol ← symbolOf .valueParameter desc
      let annotations ← annotationEntries parameter.annotations
      let defaultValue ← parameter.defaultValue.mapM (d.expr scope)
      let property ← (← facts id).constructorProperty.mapM (symbolOf .property)
      let type ← convert info.type
      declare symbol .source annotations (.valueParameter ⟨type, defaultValue, info.isVararg,
        info.isCrossinline, info.isNoinline, property⟩)
  | _ => unexpected id "parameter"

/-- A parameter that only the signature declares. -/
def syntheticParameter (desc : DescId) : Lower DeclId := do
  let descriptor ← descriptor desc
  match descriptor.valueParameter? with
  | none => unexpectedDeclaration descriptor "value parameter"
  | some info =>
    let symbol ← symbolOf .valueParameter desc
    let type ← convert info.type
    declare symbol .synthetic []
      (.valueParameter { ValueParameterDecl.plain type with isVararg := info.isVararg })

def lowerTypeParameter (id : NodeId) : Lower DeclId := do
  match (← node id).kind with
  | .typeParameter _ annotations =>
    let desc ← declared id
    let descriptor ← descriptor desc
    match descriptor.typeParameter? with
    | none => unexpectedDeclaration descriptor "type parameter"
    | some info =>
      let symbol ← symbolOf .typeParameter desc
      let annotations ← annotationEntries annotations
      let bounds ← convertAll info.upperBounds
      declare symbol .source annotations
        (.typeParameter ⟨info.index, info.variance, info.isReified, bounds⟩)
  | _ => unexpected id "type parameter"

end TypedTree.Lower
