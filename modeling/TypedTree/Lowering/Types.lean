import TypedTree.Lowering.State

namespace TypedTree

/-- The literal of a scalar. An unsigned number becomes the signed one with the same bits. -/
def Scalar.literal : Scalar → LiteralKind × LiteralValue
  | .text v => (.string, .text v)
  | .int v => (.int, .integer v.toInt64)
  | .uint v => (.int, .integer v.toInt32.toInt64)
  | .long v => (.long, .integer v)
  | .ulong v => (.long, .integer v.toInt64)
  | .short v => (.short, .integer v.toInt64)
  | .ushort v => (.short, .integer v.toInt16.toInt64)
  | .byte v => (.byte, .integer v.toInt64)
  | .ubyte v => (.byte, .integer v.toInt8.toInt64)
  | .boolean v => (.boolean, .boolean v)
  | .float v => (.float, .number v.widen)
  | .double v => (.double, .number v)
  | .char v => (.char, .char v)
  | .null => (.null, .null)

/-- The type of a scalar where no other one is given. -/
def Scalar.type : Scalar → TypeId
  | .text _ => Builtin.stringType
  | .int _ | .uint _ => Builtin.intType
  | .long _ | .ulong _ => Builtin.longType
  | .short _ | .ushort _ => Builtin.shortType
  | .byte _ | .ubyte _ => Builtin.byteType
  | .boolean _ => Builtin.booleanType
  | .float _ => Builtin.floatType
  | .double _ => Builtin.doubleType
  | .char _ => Builtin.charType
  | .null => Builtin.nullableNothingType

namespace Lower

/-- Adds an expression with the given type, if there is something to add. -/
def addContent : Option (TreeType × ExprKind) → Lower (Option ExprId)
  | none => return none
  | some (type, kind) => return some (← addExpr type kind)

/-- What an annotation gives for a parameter of its constructor. -/
def slotWith (given : List (Name × (Option TypeId → Lower (Option (TreeType × ExprKind)))))
    (parameter : DescId) : Lower (Option ExprId) := do
  let d ← descriptor parameter
  match given.lookup d.name with
  | some argument => addContent (← argument (d.valueParameter?.map (·.type)))
  | none => return none

mutual

/-- The expression of a constant. Values that analysis could not find have none, and under the
policy that leaves them out neither have enum entries and class literals. -/
def constantWith (convert : TypeId → Lower TreeType) :
    Constant → Option TypeId → Lower (Option (TreeType × ExprKind))
  | .scalar value, expected => do
    let type ← convert (expected.getD value.type)
    return some (type, .literal value.literal.1 value.literal.2)
  | .array elements type, _ => do
    let elements ← elementsWith convert elements
    let type ← convert type
    return some (type, .vararg elements)
  | .enumEntry entry type, _ => do
    match (← read).config.literals with
    | .unsupported => return none
    | .complete =>
      let type ← convert type
      let callee ← symbolOf .classLike entry
      return some (type, .read (.plain callee))
  | .nested use, _ => annotationWith convert use
  | .classLiteral referenced type, _ => do
    match (← read).config.literals with
    | .unsupported => return none
    | .complete =>
      match ← sourceType referenced with
      | .failed _ => return none
      | .simple _ | .flexible _ _ =>
        let classifier := (← convert referenced).classifier
        let type ← convert type
        return some (type, .classReference classifier)
  | .failed _, _ => return none

def elementsWith (convert : TypeId → Lower TreeType) : List Constant → Lower (List ExprId)
  | [] => return []
  | element :: rest => do
    let first ← addContent (← constantWith convert element none)
    return first.toList ++ (← elementsWith convert rest)

/-- The call of an annotation's constructor, with one slot for each of its parameters. -/
def annotationWith (convert : TypeId → Lower TreeType) :
    AnnotationUse → Lower (Option (TreeType × ExprKind))
  | ⟨type, arguments⟩ => do
    match ← sourceType type with
    | .flexible _ _ | .failed _ => return none
    | .simple simple =>
      let d ← descriptor simple.classifier
      match d.class? with
      | none => return none
      | some info =>
        match info.mainConstructor? with
        | none => throw (.noAnnotationConstructor d.name)
        | some constructor =>
          let type ← convert type
          let callee ← symbolOf .constructor constructor
          let parameters := (← descriptor constructor).valueParameters
          let slots ← parameters.mapM (slotWith (argumentsWith convert arguments))
          return some (type, .call (.plain callee) slots)

/-- How to make the expression of each argument, for the type of the parameter it goes to. -/
def argumentsWith (convert : TypeId → Lower TreeType) :
    List (Name × Constant) → List (Name × (Option TypeId → Lower (Option (TreeType × ExprKind))))
  | [] => []
  | (name, value) :: rest => (name, constantWith convert value) :: argumentsWith convert rest

end

def annotationCallsWith (convert : TypeId → Lower TreeType) (uses : List AnnotationUse) :
    Lower (List ExprId) := do
  let calls ← uses.mapM fun use => do addContent (← annotationWith convert use)
  return calls.filterMap id

/-- The symbol of a type's classifier, which is a class or a type parameter. -/
def classifierSymbol (id : DescId) : Lower SymbolId := do
  let d ← descriptor id
  match d.kind with
  | .classLike _ => symbolOf .classLike id
  | .typeParameter _ => symbolOf .typeParameter id
  | kind => throw (.unexpectedClassifier d.name kind.describe)

def projectionWith (convert : TypeId → Lower TreeType) : SourceTypeArgument → Lower TypeProjection
  | .star => return .star
  | .projection variance type => return .projection variance (← convert type)

/-- Converts a type once its parts can be converted. A flexible type is its upper bound. -/
def convertWith (convert : TypeId → Lower TreeType) (id : TypeId) : Lower TreeType := do
  match (← get).types.lookup id with
  | some type => return type
  | none =>
    match ← sourceType id with
    | .failed message => throw (.errorType message)
    | .flexible _ upper =>
      let type ← convert upper
      rememberType id type
      return type
    | .simple simple =>
      let classifier ← classifierSymbol simple.classifier
      let arguments ← simple.arguments.mapM (projectionWith convert)
      let annotations ← annotationCallsWith convert simple.annotations
      let type : TreeType := ⟨classifier, simple.nullable, arguments, annotations⟩
      rememberType id type
      return type

def convertUpTo : Nat → TypeId → Lower TreeType
  | 0, _ => throw .endless
  | fuel + 1, id => convertWith (convertUpTo fuel) id

/-- Converts a type. One nested deeper than there are types contains itself. -/
def convert (id : TypeId) : Lower TreeType := do
  convertUpTo ((← read).world.typeCount + 1) id

def constant (value : Constant) (expected : Option TypeId) : Lower (Option ExprId) := do
  addContent (← constantWith convert value expected)

def annotationCall (use : AnnotationUse) : Lower (Option ExprId) := do
  addContent (← annotationWith convert use)

def annotationCalls (uses : List AnnotationUse) : Lower (List ExprId) :=
  annotationCallsWith convert uses

def convertAll (ids : List TypeId) : Lower (List TreeType) := ids.mapM convert

def convertOptional (id : Option TypeId) : Lower (Option TreeType) := id.mapM convert

def unitType : Lower TreeType := convert Builtin.unitType

def booleanType : Lower TreeType := convert Builtin.booleanType

def nothingType : Lower TreeType := convert Builtin.nothingType

def stringType : Lower TreeType := convert Builtin.stringType

/-- The type of an expression; it is the unit type where none is recorded. -/
def expressionType (id : NodeId) : Lower TreeType := do
  match (← facts id).type with
  | some type => convert type
  | none => unitType

def writtenType (id : NodeId) : Lower TreeType := do
  convert (← required (← facts id).writtenType "resolved type" id)

def exprType (id : ExprId) : Lower TreeType := do
  return (← expr id).type

def declaredType (id : DeclId) : Lower (Option TreeType) := do
  return (← decl id).kind.valueType?

def unitValue : Lower ExprId := do
  addExpr (← unitType) .unit

/-- Stands for a malformed piece of the source. -/
def malformed (kind : Diagnostic) (message : String) : Lower ExprId := do
  addExpr (← nothingType) (.malformed kind message)

end Lower

end TypedTree
