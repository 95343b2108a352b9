import TypedTree.Lowering.Call

namespace TypedTree.Lower

/-- The variable that holds a component; what it declares may have a type of its own. -/
def componentProperty (desc : DescId) (type : TreeType) (value : ExprId) : Lower PropertyDecl := do
  match (← descriptor desc).property? with
  | some info =>
    return { PropertyDecl.localValue (← convert info.type) value with isVar := info.isVar }
  | none => return .localValue type value

/-- The variable of a destructuring entry, initialized with its component of the container. An entry
without a name has none, and its component is not read. -/
def lowerComponent (d : Descent) (scope : Scope) (container : Temporary) (entry : NodeId) :
    Lower (Option Statement) := do
  match (← node entry).kind with
  | .destructuringEntry none => return none
  | .destructuringEntry (some _) =>
    let component ← required (← facts entry).component "component call" entry
    let desc ← declared entry
    let symbol ← symbolFor desc
    let receiver ← container.read
    let componentType ← convert component.result
    let value ← callOn d scope component componentType receiver []
    let property ← componentProperty desc componentType value
    return some (.declaration (← declare symbol .source [] (.property property)))
  | _ => unexpected entry "destructuring entry"

def lowerComponents (d : Descent) (scope : Scope) (container : Temporary) (entries : List NodeId) :
    Lower (List Statement) := do
  return (← entries.mapM (lowerComponent d scope container)).filterMap id

/-- The entries of a destructuring that takes the place of a parameter's name. -/
def destructuredEntries (id : NodeId) : Lower (List NodeId) := do
  match (← node id).kind with
  | .destructuring entries _ => return entries
  | _ => unexpected id "destructuring declaration"

/-- A destructuring declaration: its value is held once and read for each component. -/
def lowerDestructuring (d : Descent) (scope : Scope) (entries : List NodeId)
    (initializer : Option NodeId) : Lower ExprId := do
  let value ← lowerOptional d scope initializer "destructured value"
  let container ← Temporary.hold "<destruct>" value
  let components ← lowerComponents d scope container entries
  block (container.statement :: components)

end TypedTree.Lower
