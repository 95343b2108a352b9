import TypedTree.Proofs.Helper.Expression

namespace TypedTree.Tidy

variable {σ : Setting}

theorem componentProperty : Tidy σ (Lower.componentProperty desc type value) :=
  descriptor.bind fun _ => by
    split
    next => exact convert.bind fun _ => pure
    next => exact pure

theorem destructuredEntries {id : NodeId} : Tidy σ (Lower.destructuredEntries id) :=
  node.bind fun _ => by
    split
    next => exact pure
    next => exact unexpected

theorem elementType : Tidy σ (Lower.elementType desc next) :=
  descriptor.bind fun _ => by
    split
    next => exact convert
    next => exact exprType

theorem syntheticParameter : Tidy σ (Lower.syntheticParameter desc) :=
  descriptor.bind fun _ => by
    split
    next => exact unexpectedDeclaration
    next => exact (symbolOf (by decide)).bind fun _ => convert.bind fun _ => declare (by decide)

theorem lowerTypeParameter {id : NodeId} : Tidy σ (Lower.lowerTypeParameter id) :=
  node.bind fun _ => by
    split
    next =>
      refine declared.bind fun _ => descriptor.bind fun _ => ?_
      split
      next => exact unexpectedDeclaration
      next =>
        exact (symbolOf (by decide)).bind fun _ => annotationEntries.bind fun _ =>
          convertAll.bind fun _ => declare (by decide)
    next => exact unexpected

theorem implicitParameters : Tidy σ (Lower.implicitParameters parameters info) := by
  unfold Lower.implicitParameters
  split
  next => exact mapM fun _ => syntheticParameter
  next => exact pure

theorem lambdaBlock : Tidy σ (Lower.lambdaBlock statements) := by
  unfold Lower.lambdaBlock
  split
  next => exact unitValue.bind fun _ => block
  next => exact block

theorem thisReference : Tidy σ (Lower.thisReference receiver) := by
  cases receiver <;> exact convert.bind fun _ => addExpr

theorem delegateField : Tidy σ (Lower.delegateField property receiver type) := by
  cases receiver with
  | none => exact addExpr
  | some receiver => exact convert.bind fun _ => addExpr.bind fun _ => addExpr

theorem propertyReference : Tidy σ (Lower.propertyReference operator property) :=
  Tidy.bind (m := Lower.propertyParameterType operator) (descriptor.bind fun _ => by
    split
    next => exact descriptor.bind fun _ => pure
    next => exact pure) fun _ => convert.bind fun _ => addExpr

theorem lowerConstructorProperty : Tidy σ (Lower.lowerConstructorProperty desc parameter) :=
  descriptor.bind fun _ => by
    split
    next => exact unexpectedDeclaration
    next =>
      exact (symbolOf (by decide)).bind fun _ => declared.bind fun _ =>
        (symbolOf (by decide)).bind fun _ => convert.bind fun _ => addExpr.bind fun _ =>
          convertOptional.bind fun _ => declare (by decide)

theorem classDecl {descriptor : Descriptor} {info : ClassInfo}
    {typeParameters members : List DeclId} :
    Tidy σ (Lower.classDecl descriptor info typeParameters members) :=
  convertAll.bind fun _ => pure

theorem lowerConstructorProperties : Tidy σ (Lower.lowerConstructorProperties constructor) :=
  node.bind fun _ => by
    split
    next =>
      refine Tidy.bind (mapM fun _ => facts.bind fun _ => ?_) fun _ => pure
      split
      next => exact lowerConstructorProperty.map
      next => exact pure
    next => exact pure

theorem lowerTypeAlias {id : NodeId} :
    Tidy σ (Lower.lowerTypeAlias id typeParameters annotations) :=
  declared.bind fun _ => descriptor.bind fun _ => by
    split
    next => exact unexpectedDeclaration
    next =>
      exact (symbolOf (by decide)).bind fun _ => annotationEntries.bind fun _ =>
        Tidy.bind (mapM fun _ => lowerTypeParameter) fun _ => convert.bind fun _ =>
          declare (by decide)

theorem accessorSymbol {declared : Option DescId} {name : Name} {β : Type}
    {k : SymbolId → Lower β} (hk : ∀ id, Pays σ [id] (k id)) :
    Tidy σ (Lower.accessorSymbol declared name >>= k) := by
  cases declared with
  | none => exact Pays.fresh hk
  | some desc => exact Tidy.bind (symbolOf (by decide)) fun id => (hk id).tidy

variable {d : Descent} (hd : d.Tidy σ) {scope : Scope}

include hd

section statement

theorem lowerComponent : Tidy σ (Lower.lowerComponent d scope container entry) :=
  node.bind fun _ => by
    split
    next => exact pure
    next =>
      exact facts.bind fun _ => required.bind fun _ => declared.bind fun _ =>
        symbolFor.bind fun _ => readTemporary.bind fun _ => convert.bind fun _ =>
          (callOn hd).bind fun _ => componentProperty.bind fun _ =>
            (declare (by decide)).bind fun _ => pure
    next => exact unexpected

theorem lowerComponents : Tidy σ (Lower.lowerComponents d scope container entries) :=
  Tidy.bind (mapM fun _ => lowerComponent hd) fun _ => pure

theorem lowerLoopParameter : Tidy σ (Lower.lowerLoopParameter d scope parameter next) :=
  node.bind fun _ => by
    split
    next =>
      exact destructuredEntries.bind fun _ => hold.bind fun _ =>
        (lowerComponents hd).bind fun _ => pure
    next =>
      exact declared.bind fun _ => symbolFor.bind fun _ => elementType.bind fun _ =>
        annotationEntries.bind fun _ => (declare (by decide)).bind fun _ => pure
    next => exact unexpected

end statement

section callable

theorem lowerValueParameter {id : NodeId} : Tidy σ (Lower.lowerValueParameter d scope id) :=
  node.bind fun _ => by
    split
    next =>
      refine declared.bind fun _ => descriptor.bind fun _ => ?_
      split
      next => exact unexpectedDeclaration
      next =>
        exact (symbolOf (by decide)).bind fun _ => annotationEntries.bind fun _ =>
          Tidy.bind (optionMapM fun value => hd.expr scope value) fun _ => facts.bind fun _ =>
            Tidy.bind (optionMapM fun _ => symbolOf (by decide)) fun _ => convert.bind fun _ =>
              declare (by decide)
    next => exact unexpected

theorem lowerFunctionBody : Tidy σ (Lower.lowerFunctionBody d scope target body) :=
  node.bind fun _ => by
    split
    next => exact lowerBlock hd
    next =>
      exact (hd.expr scope body).bind fun _ => Tidy.bind convert fun _ => addExpr.bind fun _ =>
        block

theorem lowerFunction {id : NodeId} : Tidy σ (Lower.lowerFunction d scope id label) :=
  node.bind fun _ => by
    split
    next =>
      refine declared.bind fun _ => descriptor.bind fun _ => ?_
      split
      next => exact unexpectedDeclaration
      next =>
        exact symbolFor.bind fun _ => annotationEntries.bind fun _ =>
          Tidy.bind (mapM fun _ => lowerTypeParameter) fun _ => newFunctionTarget.bind fun _ =>
            Tidy.bind (mapM fun _ => lowerValueParameter hd) fun _ =>
              Tidy.bind (optionMapM fun _ => lowerFunctionBody hd) fun _ =>
                convertOptional.bind fun _ => convertOptional.bind fun _ => convert.bind fun _ =>
                  Tidy.bind (mapM fun _ => symbolOf (by decide)) fun _ =>
                    declareCallable (by decide)
    next => exact unexpected

theorem lowerLambdaParameter : Tidy σ (Lower.lowerLambdaParameter d scope parameter) :=
  (lowerValueParameter hd).bind fun _ => node.bind fun _ => by
    split
    next =>
      refine destructuredEntries.bind fun _ => decl.bind fun _ => declaredType.bind fun _ => ?_
      split
      next => exact unexpected
      next => exact (lowerComponents hd).bind fun _ => pure
    next => exact pure

theorem lowerLambdaBody : Tidy σ (Lower.lowerLambdaBody d scope body) :=
  node.bind fun _ => by
    split
    next => exact lowerStatements hd
    next => exact (hd.expr scope body).bind fun _ => splice

theorem construct {id : NodeId} :
    Tidy σ (Lower.lowerConstructor.construct d scope id parameters delegation body annotations
      isPrimary) :=
  declared.bind fun _ => descriptor.bind fun _ => by
    split
    next => exact unexpectedDeclaration
    next =>
      exact (symbolOf (by decide)).bind fun _ => annotationEntries.bind fun _ =>
        newFunctionTarget.bind fun _ => Tidy.bind (mapM fun _ => lowerValueParameter hd) fun _ =>
          Tidy.bind (optionMapM fun _ => lowerDelegationCall hd) fun _ =>
            Tidy.bind (optionMapM fun _ => lowerFunctionBody hd) fun _ => convert.bind fun _ =>
              declareCallable (by decide)

theorem lowerConstructor {id : NodeId} :
    Tidy σ (Lower.lowerConstructor d scope id superCall) :=
  node.bind fun _ => by
    split
    next => exact construct hd
    next => exact construct hd
    next => exact unexpected

theorem syntheticConstructor : Tidy σ (Lower.syntheticConstructor d scope desc superCall) :=
  descriptor.bind fun _ => by
    split
    next => exact unexpectedDeclaration
    next =>
      exact (symbolOf (by decide)).bind fun _ => newFunctionTarget.bind fun _ =>
        Tidy.bind (mapM fun _ => syntheticParameter) fun _ =>
          Tidy.bind (optionMapM fun _ => lowerDelegationCall hd) fun _ => convert.bind fun _ =>
            declareCallable (by decide)

end callable

section property

theorem lowerAccessor {id : NodeId} : Tidy σ (Lower.lowerAccessor d scope property id) :=
  node.bind fun _ => by
    split
    next =>
      refine declared.bind fun _ => descriptor.bind fun _ => ?_
      split
      next => exact unexpectedDeclaration
      next =>
        exact (symbolOf (by decide)).bind fun _ => annotationEntries.bind fun _ =>
          newFunctionTarget.bind fun _ => Tidy.bind (mapM fun _ => lowerValueParameter hd) fun _ =>
            Tidy.bind (optionMapM fun _ => lowerFunctionBody hd) fun _ => convert.bind fun _ =>
              declareCallable (by decide)
    next => exact unexpected

theorem lowerDelegateValue :
    Tidy σ (Lower.lowerDelegateValue d scope calls info property delegate) :=
  (hd.expr scope delegate).bind fun _ => by
    split
    next => exact pure
    next =>
      exact thisReference.bind fun _ => propertyReference.bind fun _ => convert.bind fun _ =>
        callOn hd

theorem delegatedGetter {calls : DelegateCalls} {descriptor : Descriptor} {info : PropertyInfo}
    {property : SymbolId} {fieldType : TreeType} :
    Tidy σ (Lower.delegatedGetter d scope calls descriptor info property fieldType) :=
  accessorSymbol fun _ => convert.bind fun _ => newFunctionTarget.bind fun _ =>
    delegateField.bind fun _ => thisReference.bind fun _ => propertyReference.bind fun _ =>
      (callOn hd).bind fun _ => Tidy.bind convert fun _ => addExpr.bind fun _ =>
        block.bind fun _ => Pays.declareCallable (by decide)

theorem delegatedSetter {setValue : ResolvedCall} {descriptor : Descriptor} {info : PropertyInfo}
    {property : SymbolId} {fieldType : TreeType} :
    Tidy σ (Lower.delegatedSetter d scope setValue descriptor info property fieldType) :=
  accessorSymbol fun _ => convert.bind fun _ => Pays.fresh fun _ =>
    (Pays.declare (by decide)).bind fun _ => newFunctionTarget.bind fun _ =>
      delegateField.bind fun _ => thisReference.bind fun _ => propertyReference.bind fun _ =>
        addExpr.bind fun _ => Tidy.bind convert fun _ => (callOn hd).bind fun _ =>
          block.bind fun _ => Pays.declareCallable (by decide)

theorem lowerDelegate {id : NodeId} {descriptor : Descriptor} {info : PropertyInfo}
    {property : SymbolId} {delegate : NodeId} :
    Tidy σ (Lower.lowerDelegate d scope id descriptor info property delegate) :=
  facts.bind fun _ => required.bind fun _ => (lowerDelegateValue hd).bind fun _ =>
    exprType.bind fun _ => (delegatedGetter hd).bind fun _ => by
      split
      next => exact (delegatedSetter hd).bind fun _ => pure
      next => exact pure

theorem propertyParts {id : NodeId} {descriptor : Descriptor} {info : PropertyInfo}
    {property : SymbolId} {node : PropertyNode} :
    Tidy σ (Lower.propertyParts d scope id descriptor info property node) := by
  unfold Lower.propertyParts
  split
  next => exact lowerDelegate hd
  next =>
    exact Tidy.bind (optionMapM fun _ => lowerAccessor hd) fun _ =>
      Tidy.bind (optionMapM fun _ => lowerAccessor hd) fun _ => pure

theorem lowerProperty {id : NodeId} {node : PropertyNode} :
    Tidy σ (Lower.lowerProperty d scope id node) :=
  declared.bind fun _ => descriptor.bind fun _ => by
    split
    next => exact unexpectedDeclaration
    next =>
      exact (symbolOf (by decide)).bind fun _ => annotationEntries.bind fun _ =>
        Tidy.bind (mapM fun _ => lowerTypeParameter) fun _ => convert.bind fun _ =>
          Tidy.bind (optionMapM fun value => hd.expr scope value) fun _ =>
            (propertyParts hd).bind fun _ => convertOptional.bind fun _ =>
              convertOptional.bind fun _ => declare (by decide)

end property

section classLike

theorem lowerPrimaryConstructor {node : ClassNode} {info : ClassInfo} :
    Tidy σ (Lower.lowerPrimaryConstructor d node info) := by
  unfold Lower.lowerPrimaryConstructor
  split
  next =>
    exact (lowerConstructor hd).bind fun _ => lowerConstructorProperties.bind fun _ => pure
  next =>
    split
    next => exact pure
    next => exact (syntheticConstructor hd).bind fun _ => pure
  next => exact pure

theorem lowerClass {id : NodeId} : Tidy σ (Lower.lowerClass d id) :=
  node.bind fun _ => by
    split
    next =>
      refine declared.bind fun _ => descriptor.bind fun _ => ?_
      split
      next => exact unexpectedDeclaration
      next =>
        exact (symbolOf (by decide)).bind fun _ => annotationEntries.bind fun _ =>
          Tidy.bind (mapM fun _ => lowerTypeParameter) fun _ =>
            (lowerPrimaryConstructor hd).bind fun _ =>
              Tidy.bind (mapM fun member => hd.decl .root member) fun _ =>
                classDecl.bind fun _ => declare (by decide)
    next => exact unexpected

theorem lowerEnumEntry {id : NodeId} {declarations annotations : List NodeId} :
    Tidy σ (Lower.lowerEnumEntry d id declarations annotations) :=
  declared.bind fun _ => descriptor.bind fun _ => by
    split
    next => exact unexpectedDeclaration
    next =>
      exact (symbolOf (by decide)).bind fun _ => annotationEntries.bind fun _ =>
        Tidy.bind (mapM fun member => hd.decl .root member) fun _ => classDecl.bind fun _ =>
          declare (by decide)

theorem lowerInitializer : Tidy σ (Lower.lowerInitializer d scope body annotations) :=
  Pays.fresh fun _ => annotationEntries.bind fun _ => (lowerBody hd).bind fun _ =>
    Pays.declare (by decide)

end classLike

theorem declarationStep {id : NodeId} : Tidy σ (Lower.declarationStep d scope id) :=
  node.bind fun _ => by
    split
    next => exact lowerClass hd
    next => exact lowerEnumEntry hd
    next => exact lowerFunction hd
    next => exact lowerProperty hd
    next => exact lowerTypeAlias
    next => exact lowerConstructor hd
    next => exact lowerInitializer hd
    next => exact unexpected

end TypedTree.Tidy
