import TypedTree.Lowering.Callable

namespace TypedTree.Lower

def lowerAccessor (d : Descent) (scope : Scope) (property : SymbolId) (id : NodeId) :
    Lower DeclId := do
  match (← node id).kind with
  | .accessor isSetter parameters body annotations =>
    let desc ← declared id
    let descriptor ← descriptor desc
    match descriptor.accessor? with
    | none => unexpectedDeclaration descriptor "property accessor"
    | some info =>
      let symbol ← symbolOf .accessor desc
      let annotations ← annotationEntries annotations
      let target ← newFunctionTarget none false
      let inner : Scope := .function target :: scope
      let valueParameters ← parameters.mapM (lowerValueParameter d inner)
      let body ← body.mapM (lowerFunctionBody d inner target)
      let returnType ← convert info.returnType
      declareCallable target symbol .source annotations (.accessor ⟨property, isSetter,
        descriptor.visibility, returnType, valueParameters, body⟩)
  | _ => unexpected id "property accessor"

/-- The object that holds a property as a delegate sees it: null for a property without one. -/
def thisReference (receiver : Option TypeId) : Lower ExprId := do
  match receiver with
  | some receiver => addExpr (← convert receiver) (.thisRef none)
  | none => addExpr (← convert Builtin.nullableNothingType) (.literal .null .null)

def delegateField (property : SymbolId) (receiver : Option TypeId) (type : TreeType) :
    Lower ExprId := do
  match receiver with
  | some receiver =>
    let holder ← addExpr (← convert receiver) (.thisRef none)
    addExpr type (.delegateField property (some holder))
  | none => addExpr type (.delegateField property none)

/-- The type of the parameter through which an operator of a delegate receives the property. -/
def propertyParameterType (operator : ResolvedCall) : Lower TypeId := do
  match (← descriptor operator.candidate).valueParameters[1]? with
  | some parameter =>
    return (← descriptor parameter).valueParameter?.elim Builtin.nullableAnyType (·.type)
  | none => return Builtin.nullableAnyType

/-- A reference to a property, as an operator of its delegate receives it. -/
def propertyReference (operator : ResolvedCall) (property : SymbolId) : Lower ExprId := do
  let type ← convert (← propertyParameterType operator)
  addExpr type (.callableReference (.plain property))

def accessorSymbol (declared : Option DescId) (name : Name) : Lower SymbolId :=
  match declared with
  | some desc => symbolOf .accessor desc
  | none => freshLocal .accessor name

def lowerDelegateValue (d : Descent) (scope : Scope) (calls : DelegateCalls) (info : PropertyInfo)
    (property : SymbolId) (delegate : NodeId) : Lower ExprId := do
  let value ← d.expr scope delegate
  match calls.provideDelegate with
  | none => return value
  | some provide =>
    let this ← thisReference info.dispatchReceiver
    let reference ← propertyReference provide property
    let type ← convert provide.result
    callOn d scope provide type value [some this, some reference]

/-- The getter of a delegated property: it returns what the delegate answers. -/
def delegatedGetter (d : Descent) (scope : Scope) (calls : DelegateCalls) (descriptor : Descriptor)
    (info : PropertyInfo) (property : SymbolId) (fieldType : TreeType) : Lower DeclId := do
  let symbol ← accessorSymbol info.getter ("<get-" ++ descriptor.name ++ ">")
  let returnType ← convert info.type
  let target ← newFunctionTarget none false
  let receiver ← delegateField property info.dispatchReceiver fieldType
  let this ← thisReference info.dispatchReceiver
  let reference ← propertyReference calls.getValue property
  let value ← callOn d scope calls.getValue returnType receiver [some this, some reference]
  let jump ← addExpr (← nothingType) (.returnJump target value)
  let body ← block [.expression jump]
  declareCallable target symbol .synthetic [] (.accessor ⟨property, false, descriptor.visibility,
    returnType, [], some body⟩)

/-- The setter of a delegated property: it hands the new value to the delegate. -/
def delegatedSetter (d : Descent) (scope : Scope) (setValue : ResolvedCall)
    (descriptor : Descriptor) (info : PropertyInfo) (property : SymbolId) (fieldType : TreeType) :
    Lower DeclId := do
  let symbol ← accessorSymbol info.setter ("<set-" ++ descriptor.name ++ ">")
  let type ← convert info.type
  let valueSymbol ← freshLocal .valueParameter "<set-?>"
  let parameter ← declare valueSymbol .synthetic [] (.valueParameter (.plain type))
  let target ← newFunctionTarget none false
  let receiver ← delegateField property info.dispatchReceiver fieldType
  let this ← thisReference info.dispatchReceiver
  let reference ← propertyReference setValue property
  let value ← addExpr type (.read (.plain valueSymbol))
  let unit ← unitType
  let call ← callOn d scope setValue unit receiver [some this, some reference, some value]
  let body ← block [.expression call]
  declareCallable target symbol .synthetic [] (.accessor ⟨property, true, descriptor.visibility,
    unit, [parameter], some body⟩)

/-- What a property stores and runs besides its initial value. -/
structure PropertyParts where
  delegate : Option ExprId
  getter : Option DeclId
  setter : Option DeclId

/-- A delegate's field and the accessors that go through it. Only a variable has a setter. -/
def lowerDelegate (d : Descent) (scope : Scope) (id : NodeId) (descriptor : Descriptor)
    (info : PropertyInfo) (property : SymbolId) (delegate : NodeId) : Lower PropertyParts := do
  let calls ← required (← facts id).delegates "delegate operator calls" id
  let field ← lowerDelegateValue d scope calls info property delegate
  let fieldType ← exprType field
  let getter ← delegatedGetter d scope calls descriptor info property fieldType
  match calls.setValue, info.isVar with
  | some setValue, true =>
    let setter ← delegatedSetter d scope setValue descriptor info property fieldType
    return ⟨some field, some getter, some setter⟩
  | _, _ => return ⟨some field, some getter, none⟩

/-- The delegate of a property, or else the accessors that are written out. -/
def propertyParts (d : Descent) (scope : Scope) (id : NodeId) (descriptor : Descriptor)
    (info : PropertyInfo) (property : SymbolId) (node : PropertyNode) : Lower PropertyParts := do
  match node.delegate with
  | some delegate => lowerDelegate d scope id descriptor info property delegate
  | none =>
    let getter ← node.getter.mapM (lowerAccessor d scope property)
    let setter ← node.setter.mapM (lowerAccessor d scope property)
    return ⟨none, getter, setter⟩

/-- A property or a variable of a body. A delegate takes the place of accessors. -/
def lowerProperty (d : Descent) (scope : Scope) (id : NodeId) (node : PropertyNode) :
    Lower DeclId := do
  let desc ← declared id
  let descriptor ← descriptor desc
  match descriptor.property? with
  | none => unexpectedDeclaration descriptor "property"
  | some info =>
    let symbol ← symbolOf .property desc
    let annotations ← annotationEntries node.annotations
    let typeParameters ← node.typeParameters.mapM lowerTypeParameter
    let returnType ← convert info.type
    let initializer ← node.initializer.mapM (d.expr scope)
    let parts ← propertyParts d scope id descriptor info symbol node
    let dispatchReceiver ← convertOptional info.dispatchReceiver
    let extensionReceiver ← convertOptional info.extensionReceiver
    declare symbol .source annotations (.property ⟨descriptor.visibility, info.modality,
      info.isVar, info.isLocal, info.isConst, info.isLateinit, returnType, dispatchReceiver,
      extensionReceiver, typeParameters, initializer, parts.delegate, parts.getter, parts.setter⟩)

/-- The property that a constructor parameter declares, with the parameter as its value. -/
def lowerConstructorProperty (desc : DescId) (parameter : NodeId) : Lower DeclId := do
  let descriptor ← descriptor desc
  match descriptor.property? with
  | none => unexpectedDeclaration descriptor "property"
  | some info =>
    let symbol ← symbolOf .property desc
    let parameterSymbol ← symbolOf .valueParameter (← declared parameter)
    let returnType ← convert info.type
    let initializer ← addExpr returnType (.read (.plain parameterSymbol))
    let dispatchReceiver ← convertOptional info.dispatchReceiver
    declare symbol .source [] (.property ⟨descriptor.visibility, info.modality, info.isVar, false,
      info.isConst, info.isLateinit, returnType, dispatchReceiver, none, [], some initializer,
      none, none, none⟩)

end TypedTree.Lower
