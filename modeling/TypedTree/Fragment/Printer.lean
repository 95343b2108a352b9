import TypedTree.Fragment.Literal
import TypedTree.Fragment.Store

namespace TypedTree

/-- What is printed so far, and how far new lines are indented. -/
structure Page where
  text : String := ""
  level : Nat := 0
deriving DecidableEq, Repr

abbrev Print := StateM Page

namespace Print

def write (s : String) : Print Unit := modify fun p => { p with text := p.text ++ s }

/-- The blanks before a line: four for each level. -/
def margin (level : Nat) : String := String.ofList (List.replicate (4 * level) ' ')

def startLine : Print Unit := do write (margin (← get).level)

def newline : Print Unit := write "\n"

def indent : Print Unit := modify fun p => { p with level := p.level + 1 }

def dedent : Print Unit := modify fun p => { p with level := p.level - 1 }

/-- Takes the last character back. -/
def eraseLast : Print Unit :=
  modify fun p => { p with text := String.ofList p.text.toList.dropLast }

def line (s : String) : Print Unit := do
  startLine
  write s
  newline

def between {α : Type} (separator : String) (print : α → Print Unit) : List α → Print Unit
  | [] => return
  | [a] => print a
  | a :: rest => do
    print a
    write separator
    between separator print rest

/-- What is there, if anything. -/
def given {α : Type} (print : α → Print Unit) : Option α → Print Unit
  | some a => print a
  | none => return

/-- Items one after the other. -/
def each {α : Type} (print : α → Print Unit) : List α → Print Unit
  | [] => return
  | a :: rest => do
    print a
    each print rest

/-- Lines in braces, one level further in. -/
def braced {α : Type} (print : α → Print Unit) (items : List α) : Print Unit := do
  write "\x7b"
  newline
  indent
  each print items
  dedent
  startLine
  write "\x7d"

end Print

/-- How to print the declarations and expressions inside another one. -/
structure Inner where
  decl : DeclId → Print Unit
  expr : ExprId → Print Unit

namespace Fragment

open Print

def nameOf (f : Fragment) (id : SymbolId) : String := ((f.symbol? id).map (·.name)).getD ""

/-- Annotations in front of what they are on. -/
def printAnnotations (r : Inner) (calls : List ExprId) : Print Unit :=
  each (fun call => do write "@"; r.expr call; write " ") calls

def varianceText : Variance → String
  | .invariant => ""
  | variance => variance.keyword ++ " "

mutual

def printType (f : Fragment) (r : Inner) : TreeType → Print Unit
  | ⟨classifier, nullable, arguments, annotations⟩ => do
    printAnnotations r annotations
    write (f.nameOf classifier)
    match arguments with
    | [] => pure ()
    | first :: rest =>
      write "<"
      printProjection f r first
      printFurther f r rest
      write ">"
    if nullable then write "?"

def printProjection (f : Fragment) (r : Inner) : TypeProjection → Print Unit
  | .star => write "*"
  | .projection variance type => do
    write (varianceText variance)
    printType f r type

def printFurther (f : Fragment) (r : Inner) : List TypeProjection → Print Unit
  | [] => return
  | argument :: rest => do
    write ", "
    printProjection f r argument
    printFurther f r rest

end

def printTypes (f : Fragment) (r : Inner) (types : List TreeType) : Print Unit :=
  between ", " (f.printType r) types

def printDeclLine (r : Inner) (id : DeclId) : Print Unit := do
  startLine
  r.decl id
  newline

def printExprLine (r : Inner) (id : ExprId) : Print Unit := do
  startLine
  r.expr id
  newline

def printTypeParameters (r : Inner) (parameters : List DeclId) : Print Unit := do
  if !parameters.isEmpty then
    write "<"
    between ", " r.decl parameters
    write ">"

def printValueParameters (r : Inner) (parameters : List DeclId) : Print Unit := do
  write "("
  between ", " r.decl parameters
  write ")"

def printAfter (r : Inner) (before : String) (id : ExprId) : Print Unit := do
  write before
  r.expr id

def printReceiverType (f : Fragment) (r : Inner) (type : TreeType) : Print Unit := do
  f.printType r type
  write "."

def printClass (f : Fragment) (r : Inner) (name : String) (d : ClassDecl) : Print Unit := do
  if d.isData then write "data "
  if d.isCompanion then write "companion "
  write d.kind.keyword
  if d.kind ≠ .enumEntry ∨ name ≠ "" then write (" " ++ name)
  printTypeParameters r d.typeParameters
  if !d.supertypes.isEmpty then
    write " : "
    f.printTypes r d.supertypes
  if !d.declarations.isEmpty then
    write " "
    braced (printDeclLine r) d.declarations

def printFunction (f : Fragment) (r : Inner) (name : String) (d : FunctionDecl) : Print Unit := do
  write "fun "
  printTypeParameters r d.typeParameters
  if !d.typeParameters.isEmpty then write " "
  given (f.printReceiverType r) d.extensionReceiver
  write name
  printValueParameters r d.valueParameters
  write ": "
  f.printType r d.returnType
  given (printAfter r " ") d.body

def printConstructor (r : Inner) (d : ConstructorDecl) : Print Unit := do
  write "constructor"
  printValueParameters r d.valueParameters
  given (printAfter r " : ") d.delegatedCall
  given (printAfter r " ") d.body

/-- An accessor below its property. The line stays open, since the property ends it. -/
def printAccessorBelow (r : Inner) (id : DeclId) : Print Unit := do
  newline
  printDeclLine r id
  eraseLast

def printProperty (f : Fragment) (r : Inner) (name : String) (d : PropertyDecl) : Print Unit := do
  if d.isConst then write "const "
  if d.isLateinit then write "lateinit "
  write (if d.isVar then "var " else "val ")
  given (f.printReceiverType r) d.extensionReceiver
  write name
  write ": "
  f.printType r d.returnType
  given (printAfter r " = ") d.initializer
  given (printAfter r " by ") d.delegate
  indent
  given (printAccessorBelow r) d.getter
  given (printAccessorBelow r) d.setter
  dedent

def printAccessor (r : Inner) (d : AccessorDecl) : Print Unit := do
  write (if d.isSetter then "set" else "get")
  printValueParameters r d.valueParameters
  given (printAfter r " ") d.body

def printTypeParameter (f : Fragment) (r : Inner) (name : String) (d : TypeParameterDecl) :
    Print Unit := do
  if d.isReified then write "reified "
  write (varianceText d.variance)
  write name
  if !d.bounds.isEmpty then
    write " : "
    f.printTypes r d.bounds

def printValueParameter (f : Fragment) (r : Inner) (name : String) (d : ValueParameterDecl) :
    Print Unit := do
  if d.isVararg then write "vararg "
  write name
  write ": "
  f.printType r d.type
  given (printAfter r " = ") d.defaultValue

def printTypeAlias (f : Fragment) (r : Inner) (name : String) (d : TypeAliasDecl) :
    Print Unit := do
  write "typealias "
  write name
  printTypeParameters r d.typeParameters
  write " = "
  f.printType r d.expanded

/-- A declaration without the line it stands on. -/
def printDeclWith (f : Fragment) (r : Inner) (d : Decl) : Print Unit := do
  if d.origin = .stub then write "/* stub */ "
  printAnnotations r d.annotations
  let name := f.nameOf d.symbol
  match d.kind with
  | .classLike d => f.printClass r name d
  | .function d => f.printFunction r name d
  | .constructor d => printConstructor r d
  | .property d => f.printProperty r name d
  | .accessor d => printAccessor r d
  | .initializer body => printAfter r "init " body
  | .typeParameter d => f.printTypeParameter r name d
  | .valueParameter d => f.printValueParameter r name d
  | .typeAlias d => f.printTypeAlias r name d

def printReceiver (r : Inner) (id : ExprId) : Print Unit := do
  r.expr id
  write "."

def printAccess (f : Fragment) (r : Inner) (a : Access) : Print Unit := do
  given (printReceiver r) a.receiver?
  write (f.nameOf a.callee)
  if !a.typeArguments.isEmpty then
    write "<"
    f.printTypes r a.typeArguments
    write ">"

def printArgument (r : Inner) : Option ExprId → Print Unit
  | some id => r.expr id
  | none => write "<default>"

def printArguments (r : Inner) (slots : List (Option ExprId)) : Print Unit := do
  write "("
  between ", " (printArgument r) slots
  write ")"

def printStatement (r : Inner) : Statement → Print Unit
  | .declaration id => printDeclLine r id
  | .expression id => printExprLine r id

def printBlock (r : Inner) (statements : List Statement) : Print Unit :=
  if statements.isEmpty then write "\x7b\x7d" else braced (printStatement r) statements

def printIntrinsic (r : Inner) : Intrinsic → List ExprId → Print Unit
  | .not, [operand] => printAfter r "!" operand
  | .checkNotNull, [operand] => do
    r.expr operand
    write "!!"
  | op, operands => do
    write "("
    between (" " ++ op.spelling ++ " ") r.expr operands
    write ")"

def labelText : Option Name → String
  | some label => "@" ++ label
  | none => ""

def functionLabel (f : Fragment) (id : FunctionTargetId) : Option Name :=
  (f.store.functionTarget? id).bind (·.label)

def loopLabel (f : Fragment) (id : LoopTargetId) : Option Name :=
  (f.store.loopTarget? id).bind (·.label)

def printLoopLabel (f : Fragment) (id : LoopTargetId) : Print Unit :=
  given (fun label => write (label ++ "@ ")) (f.loopLabel id)

def printBranch (r : Inner) (branch : WhenBranch) : Print Unit := do
  startLine
  match branch.condition with
  | some condition => r.expr condition
  | none => write "else"
  write " -> "
  r.expr branch.result
  newline

/-- The subject of a choice; a variable that holds it stands for it. -/
def printSubject (r : Inner) : Option ExprId → Option DeclId → Print Unit
  | _, some decl => do
    write "("
    r.decl decl
    write ") "
  | some expr, none => do
    write "("
    r.expr expr
    write ") "
  | none, none => return

def printCatch (r : Inner) (handler : Catch) : Print Unit := do
  write " catch ("
  r.decl handler.parameter
  write ") "
  r.expr handler.body

def printLambda (r : Inner) (d : FunctionDecl) : Print Unit := do
  given (fun label => write (label ++ "@")) d.label
  write "\x7b "
  if !d.valueParameters.isEmpty then
    between ", " r.decl d.valueParameters
    write " -> "
  given r.expr d.body
  write " \x7d"

def printFunctionValue (f : Fragment) (r : Inner) (id : DeclId) : Print Unit :=
  match f.store.decl? id with
  | some { kind := .function d, .. } => printLambda r d
  | _ => r.decl id

def printExprKind (f : Fragment) (r : Inner) : ExprKind → Print Unit
  | .literal kind value => write (literalText kind value)
  | .block statements => printBlock r statements
  | .read access => f.printAccess r access
  | .call access slots => do
    f.printAccess r access
    printArguments r slots
  | .delegatedCall _ kind slots => do
    write (match kind with | .toThis => "this" | .toSuper => "super")
    printArguments r slots
  | .assignment access value => do
    f.printAccess r access
    printAfter r " = " value
  | .intrinsic op operands => printIntrinsic r op operands
  | .concatenation parts => do
    write "strcat("
    between ", " r.expr parts
    write ")"
  | .elvis left right => do
    printAfter r "(" left
    printAfter r " ?: " right
    write ")"
  | .typeOperation op argument operand => do
    printAfter r "(" argument
    write (" " ++ op.keyword ++ " ")
    f.printType r operand
    write ")"
  | .choice _ subject subjectVariable branches => do
    write "when "
    printSubject r subject subjectVariable
    braced (printBranch r) branches
  | .whenSubject _ => write "$subject"
  | .whileLoop target condition body => do
    f.printLoopLabel target
    printAfter r "while (" condition
    printAfter r ") " body
  | .doWhile target condition body => do
    f.printLoopLabel target
    printAfter r "do " body
    printAfter r " while (" condition
    write ")"
  | .breakJump target => write ("break" ++ labelText (f.loopLabel target))
  | .continueJump target => write ("continue" ++ labelText (f.loopLabel target))
  | .returnJump target value =>
    printAfter r ("return" ++ labelText (f.functionLabel target) ++ " ") value
  | .throwing exception => printAfter r "throw " exception
  | .tryCatch body catches finalizer => do
    printAfter r "try " body
    each (printCatch r) catches
    given (printAfter r " finally ") finalizer
  | .thisRef label => write ("this" ++ labelText label)
  | .superRef none => write "super"
  | .superRef (some type) => do
    write "super<"
    f.printType r type
    write ">"
  | .classReference classifier => write (f.nameOf classifier ++ "::class")
  | .callableReference access => do
    given r.expr access.receiver?
    write ("::" ++ f.nameOf access.callee)
  | .lambda function => f.printFunctionValue r function
  | .anonymousObject object => r.decl object
  | .safeCall receiver _ selector => do
    r.expr receiver
    printAfter r "?.\x7b " selector
    write " \x7d"
  | .safeCallSubject _ => write "$safe"
  | .vararg elements => do
    write "vararg("
    between ", " r.expr elements
    write ")"
  | .spread expression => printAfter r "*" expression
  | .delegateField property receiver => do
    given (printReceiver r) receiver
    write (f.nameOf property ++ "$delegate")
  | .unit => write "Unit"
  | .malformed _ message => write ("error(" ++ quotedText message ++ ")")

def printExprWith (f : Fragment) (r : Inner) (e : Expr) : Print Unit := do
  printAnnotations r e.annotations
  f.printExprKind r e.kind

/-- Prints what is nested at most `depth` deep. -/
def inner (f : Fragment) : Nat → Inner
  | 0 => ⟨fun _ => return, fun _ => return⟩
  | depth + 1 =>
    ⟨fun id => given (f.printDeclWith (f.inner depth)) (f.store.decl? id),
      fun id => given (f.printExprWith (f.inner depth)) (f.store.expr? id)⟩

/-- No chain of declarations and expressions that own each other is longer than the store. -/
def depth (f : Fragment) : Nat := f.store.decls.size + f.store.exprs.size

def printDecl (f : Fragment) (id : DeclId) : Print Unit := printDeclLine (f.inner f.depth) id

def printExpr (f : Fragment) (id : ExprId) : Print Unit := (f.inner f.depth).expr id

def printFile (f : Fragment) (file : TreeFile) : Print Unit := do
  line ("// file " ++ file.name)
  if !file.package.isEmpty then line ("package " ++ ".".intercalate file.package)
  each (fun call => do startLine; write "@file:"; f.printExpr call; newline) file.annotations
  each f.printDecl file.declarations

/-- Every file, then what is outside of the unit. -/
def print (f : Fragment) : Print Unit := do
  each f.printFile f.files
  if !f.external.isEmpty then
    line "// external"
    each f.printDecl f.external

/-- What a step prints on an empty page. -/
def textOf (m : Print Unit) : String := (m.run {}).2.text

def render (f : Fragment) : String := textOf f.print

def renderDecl (f : Fragment) (id : DeclId) : String := textOf (f.printDecl id)

def renderExpr (f : Fragment) (id : ExprId) : String := textOf (f.printExpr id)

end Fragment

end TypedTree
