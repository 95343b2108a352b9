import TypedTree.Lowering.Block

namespace TypedTree.Lower

def literalText? : ExprKind → Option String
  | .literal .string (.text text) => some text
  | _ => none

/-- A piece of a template: known text, or a value that is not. -/
inductive Piece where
  | text (text : String)
  | value (expr : ExprId)
deriving DecidableEq, Repr

/-- The piece that a template entry gives. Expressions that are string literals are known text. -/
def lowerEntry (d : Descent) (scope : Scope) (entry : TemplateEntry) : Lower Piece := do
  match entry with
  | .literal text | .escape text => return .text text
  | .expression node =>
    let id ← d.expr scope node
    match literalText? (← expr id).kind with
    | some text => return .text text
    | none => return .value id

def textLiteral (type : TreeType) (text : String) : Lower ExprId :=
  addExpr type (.literal .string (.text text))

/-- The literal of text that is not empty. -/
def pendingLiteral (type : TreeType) (pending : String) : Lower (List ExprId) := do
  if pending.isEmpty then return [] else return [← textLiteral type pending]

/-- Lowers the entries in turn and joins neighbouring texts. Gives the parts so far, and the text
after them. -/
def lowerEntries (d : Descent) (scope : Scope) (string : TreeType) :
    List TemplateEntry → List ExprId → String → Lower (List ExprId × String)
  | [], parts, pending => return (parts, pending)
  | entry :: rest, parts, pending => do
    match ← lowerEntry d scope entry with
    | .text text => lowerEntries d scope string rest parts (pending ++ text)
    | .value value =>
      let literal ← pendingLiteral string pending
      lowerEntries d scope string rest (parts ++ literal ++ [value]) ""

/-- A part of a concatenation: a literal, or the text of a value. -/
def concatenated (string : TreeType) (toText : SymbolId) (part : ExprId) : Lower ExprId := do
  match literalText? (← expr part).kind with
  | some _ => return part
  | none => addExpr string (.call ⟨toText, some part, none, []⟩ [])

/-- A string template. Without values it is one literal, a single value of the string type stands
for itself, and all else is a concatenation. -/
def lowerTemplate (d : Descent) (scope : Scope) (entries : List TemplateEntry) : Lower ExprId := do
  let string ← stringType
  let (parts, pending) ← lowerEntries d scope string entries [] ""
  if parts.isEmpty then textLiteral string pending
  else
    let parts := parts ++ (← pendingLiteral string pending)
    match parts with
    | [single] =>
      if (← exprType single) = string then return single
      else concatenate string parts
    | _ => concatenate string parts
where
  concatenate (string : TreeType) (parts : List ExprId) : Lower ExprId := do
    let toText ← symbolOf .function Builtin.anyToString
    let parts ← parts.mapM (concatenated string toText)
    addExpr string (.concatenation parts)

end TypedTree.Lower
