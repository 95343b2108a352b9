import TypedTree.Fragment.Symbol

namespace TypedTree

/-- Why lowering stops. Malformed sources are no reason: they become error expressions. -/
inductive LowerError where
  | unexpectedClassifier (name kind : String)
  | errorType (message : String)
  | unresolvedLabel (label : Name) (span : Span)
  | missingTarget (keyword expected : String) (span : Span)
  | unexpectedNode (found expected : String) (span : Span)
  | missingFact (what node : String) (span : Span)
  | unboundSymbols (names : List Name)
  | alreadyBound (cause : BindError)
  | unexpectedDeclaration (name found expected : String)
  | noAnnotationConstructor (name : String)
  /-- A reference to something that is not there. -/
  | dangling
  /-- The input runs in a circle, so that no answer is ever reached. -/
  | endless
deriving DecidableEq, Repr

namespace LowerError

def message : LowerError → String
  | unexpectedClassifier name kind => "unexpected classifier `" ++ name ++ "` (" ++ kind ++ ")"
  | errorType message => "cannot convert error type: " ++ message
  | unresolvedLabel label _ => "unresolved label `@" ++ label ++ "`"
  | missingTarget keyword expected _ => "`" ++ keyword ++ "` outside of a " ++ expected
  | unexpectedNode found expected _ =>
    "unexpected " ++ found ++ " where " ++ expected ++ " was expected"
  | missingFact what node _ => "missing " ++ what ++ " for " ++ node
  | unboundSymbols names =>
    toString names.length ++ " symbols left without a declaration: " ++ ", ".intercalate names
  | alreadyBound cause => cause.message
  | unexpectedDeclaration name found expected =>
    "unexpected " ++ found ++ " descriptor for `" ++ name ++ "`, expected " ++ expected
  | noAnnotationConstructor name => "annotation class `" ++ name ++ "` has no usable constructor"
  | dangling => "reference to something that is not there"
  | endless => "the input runs in a circle"

def span? : LowerError → Option Span
  | unresolvedLabel _ span | missingTarget _ _ span | unexpectedNode _ _ span
  | missingFact _ _ span => some span
  | _ => none

end LowerError

end TypedTree
