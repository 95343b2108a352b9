import TypedTree.Fragment.Store
import TypedTree.Lowering.Error

namespace TypedTree

/-- What one construct adds to the scope of the code inside it. -/
inductive Frame where
  /-- Adds nothing. -/
  | root
  | function (target : FunctionTargetId)
  | loop (target : LoopTargetId)
  /-- The arguments of a call: lambdas among them are labelled with the name of the callee. -/
  | callee (name : Name)
deriving DecidableEq, Repr

/-- The frames around a piece of code, innermost first. -/
abbrev Scope := List Frame

namespace Scope

def root : Scope := [.root]

/-- The label of a lambda that has none: the name of the nearest call, unless a function stands in
between. -/
def implicitLabel : Scope → Option Name
  | .callee name :: _ => some name
  | .function _ :: _ => none
  | .root :: outer | .loop _ :: outer => implicitLabel outer
  | [] => none

def findFunction (store : Store) (accepts : FunctionTarget → Bool) :
    Scope → Except LowerError (Option FunctionTargetId)
  | [] => .ok none
  | .function id :: outer =>
    match store.functionTarget? id with
    | none => .error .dangling
    | some target => if accepts target then .ok (some id) else findFunction store accepts outer
  | _ :: outer => findFunction store accepts outer

/-- What a return leaves. With a label it is the innermost function of that label, and otherwise the
innermost one that is not a lambda. -/
def returnTarget (scope : Scope) (label : Option Name) (store : Store) (span : Span) :
    Except LowerError FunctionTargetId := do
  match label with
  | some label =>
    match ← findFunction store (·.label == some label) scope with
    | some id => return id
    | none => throw (.unresolvedLabel label span)
  | none =>
    match ← findFunction store (!·.isLambda) scope with
    | some id => return id
    | none => throw (.missingTarget "return" "function" span)

/-- The innermost loop; functions hide the loops around them. -/
def innermostLoop : Scope → Option LoopTargetId
  | .loop id :: _ => some id
  | .function _ :: _ => none
  | .root :: outer | .callee _ :: outer => innermostLoop outer
  | [] => none

def findLoop (store : Store) (label : Name) : Scope → Except LowerError (Option LoopTargetId)
  | [] => .ok none
  | .loop id :: outer =>
    match store.loopTarget? id with
    | none => .error .dangling
    | some target =>
      if target.label == some label then .ok (some id) else findLoop store label outer
  | _ :: outer => findLoop store label outer

/-- What a break or a continue jumps to. A label finds its loop across functions. -/
def loopTarget (scope : Scope) (keyword : String) (label : Option Name) (store : Store)
    (span : Span) : Except LowerError LoopTargetId := do
  match label with
  | some label =>
    match ← findLoop store label scope with
    | some id => return id
    | none => throw (.unresolvedLabel label span)
  | none =>
    match innermostLoop scope with
    | some id => return id
    | none => throw (.missingTarget keyword "loop" span)

end Scope

end TypedTree
