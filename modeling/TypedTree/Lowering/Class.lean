import TypedTree.Lowering.Property

namespace TypedTree.Lower

def classDecl (descriptor : Descriptor) (info : ClassInfo) (typeParameters members : List DeclId) :
    Lower DeclKind := do
  let supertypes ← convertAll info.supertypes
  return .classLike ⟨info.kind, descriptor.visibility, info.modality, info.isData, info.isInner,
    info.isCompanion, typeParameters, supertypes, members⟩

/-- The property of each constructor parameter that declares one. -/
def lowerConstructorProperties (constructor : NodeId) : Lower (List DeclId) := do
  match (← node constructor).kind with
  | .primaryConstructor parameters _ =>
    let properties ← parameters.mapM fun parameter => do
      match (← facts parameter).constructorProperty with
      | some property => some <$> lowerConstructorProperty property parameter
      | none => return none
    return properties.filterMap id
  | _ => return []

/-- The primary constructor of a class and the properties it declares. A class that does not write
it out gets the one of its descriptor, unless it is an object. -/
def lowerPrimaryConstructor (d : Descent) (node : ClassNode) (info : ClassInfo) :
    Lower (List DeclId) := do
  match node.primaryConstructor, info.primaryConstructor with
  | some constructor, _ =>
    let decl ← lowerConstructor d .root constructor node.superCall
    return decl :: (← lowerConstructorProperties constructor)
  | none, some constructor =>
    if info.kind = .object then return []
    else return [← syntheticConstructor d .root constructor node.superCall]
  | none, none => return []

/-- A class. Its members do not see the functions and loops around it. -/
def lowerClass (d : Descent) (id : NodeId) : Lower DeclId := do
  match (← node id).kind with
  | .classDecl node =>
    let desc ← declared id
    let descriptor ← descriptor desc
    match descriptor.class? with
    | none => unexpectedDeclaration descriptor "class"
    | some info =>
      let symbol ← symbolOf .classLike desc
      let annotations ← annotationEntries node.annotations
      let typeParameters ← node.typeParameters.mapM lowerTypeParameter
      let constructors ← lowerPrimaryConstructor d node info
      let members ← node.declarations.mapM (d.decl .root)
      let kind ← classDecl descriptor info typeParameters (constructors ++ members)
      declare symbol .source annotations kind
  | _ => unexpected id "class"

def lowerObjectLiteral (d : Descent) (id declaration : NodeId) : Lower ExprId := do
  let object ← lowerClass d declaration
  addExpr (← expressionType id) (.anonymousObject object)

def lowerEnumEntry (d : Descent) (id : NodeId) (declarations annotations : List NodeId) :
    Lower DeclId := do
  let desc ← declared id
  let descriptor ← descriptor desc
  match descriptor.class? with
  | none => unexpectedDeclaration descriptor "enum entry"
  | some info =>
    let symbol ← symbolOf .classLike desc
    let annotations ← annotationEntries annotations
    let members ← declarations.mapM (d.decl .root)
    let kind ← classDecl descriptor info [] members
    declare symbol .source annotations kind

def lowerTypeAlias (id : NodeId) (typeParameters annotations : List NodeId) : Lower DeclId := do
  let desc ← declared id
  let descriptor ← descriptor desc
  match descriptor.typeAlias? with
  | none => unexpectedDeclaration descriptor "type alias"
  | some info =>
    let symbol ← symbolOf .typeAlias desc
    let annotations ← annotationEntries annotations
    let typeParameters ← typeParameters.mapM lowerTypeParameter
    let expanded ← convert info.expanded
    declare symbol .source annotations
      (.typeAlias ⟨descriptor.visibility, typeParameters, expanded⟩)

def lowerInitializer (d : Descent) (scope : Scope) (body : Option NodeId)
    (annotations : List NodeId) : Lower DeclId := do
  let symbol ← freshLocal .initializer "<init>"
  let annotations ← annotationEntries annotations
  let body ← lowerBody d scope body
  declare symbol .source annotations (.initializer body)

end TypedTree.Lower
