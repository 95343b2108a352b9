import TypedTree.Lowering.Types

namespace TypedTree

/-- How to lower the expressions and the declarations inside a node. -/
structure Descent where
  expr : Scope → NodeId → Lower ExprId
  decl : Scope → NodeId → Lower DeclId

namespace Lower

/-- An expression that a malformed source may leave out. -/
def lowerOptional (d : Descent) (scope : Scope) (node : Option NodeId) (what : String) :
    Lower ExprId :=
  match node with
  | some node => d.expr scope node
  | none => malformed .expressionRequired ("expected " ++ what)

/-- The statements that an expression adds to a block: a block without annotations adds its own. -/
def splice (id : ExprId) : Lower (List Statement) := do
  match ← expr id with
  | ⟨_, [], .block statements⟩ => return statements
  | _ => return [.expression id]

/-- The statements that a list of nodes adds to a block. -/
def lowerStatements (d : Descent) (scope : Scope) (nodes : List NodeId) :
    Lower (List Statement) := do
  return (← nodes.mapM fun node => do splice (← d.expr scope node)).flatten

/-- The type of the last expression; statements that end in a declaration have the unit type. -/
def blockType (statements : List Statement) : Lower TreeType :=
  match statements.getLast? with
  | some (.expression last) => exprType last
  | _ => unitType

def block (statements : List Statement) : Lower ExprId := do
  addExpr (← blockType statements) (.block statements)

/-- A block of the type recorded for its node, if there is one. -/
def lowerBlock (d : Descent) (scope : Scope) (node : NodeId) (statements : List NodeId) :
    Lower ExprId := do
  let statements ← lowerStatements d scope statements
  match (← facts node).type with
  | some type => addExpr (← convert type) (.block statements)
  | none => block statements

def lowerBody (d : Descent) (scope : Scope) (body : Option NodeId) : Lower ExprId := do
  match body with
  | none => block []
  | some body =>
    match (← node body).kind with
    | .block statements => lowerBlock d scope body statements
    | _ => block (← splice (← d.expr scope body))

def annotationEntries (nodes : List NodeId) : Lower (List ExprId) := do
  let calls ← nodes.mapM fun node => do
    annotationCall (← required (← facts node).annotationUse "annotation" node)
  return calls.filterMap id

/-- A variable that holds an intermediate value. -/
structure Temporary where
  decl : DeclId
  symbol : SymbolId
  type : TreeType

namespace Temporary

def hold (name : Name) (value : ExprId) : Lower Temporary := do
  let symbol ← freshLocal .property name
  let type ← exprType value
  let decl ← declare symbol .synthetic [] (.property (.localValue type value))
  return ⟨decl, symbol, type⟩

def read (t : Temporary) : Lower ExprId := addExpr t.type (.read (.plain t.symbol))

def statement (t : Temporary) : Statement := .declaration t.decl

end Temporary

end Lower

end TypedTree
