import TypedTree.Source.Span

namespace TypedTree

inductive UnaryOp where
  | increment
  | decrement
  | minus
  | plus
  | not
  /-- Postfix check that a value is not null. -/
  | notNull
deriving DecidableEq, Repr

def UnaryOp.spelling : UnaryOp → String
  | .increment => "++"
  | .decrement => "--"
  | .minus => "-"
  | .plus => "+"
  | .not => "!"
  | .notNull => "!!"

inductive BinaryOp where
  | assign
  | plusAssign
  | minusAssign
  | timesAssign
  | divAssign
  | remAssign
  | plus
  | minus
  | times
  | div
  | rem
  | rangeTo
  | less
  | lessOrEqual
  | greater
  | greaterOrEqual
  | equals
  | notEquals
  | identityEquals
  | identityNotEquals
  | and
  | or
  | contained
  | notContained
  | elvis
  /-- A named function between its operands. -/
  | named (function : Name)
deriving DecidableEq, Repr

namespace BinaryOp

/-- Compound assignments such as `+=`. -/
def isAugmented : BinaryOp → Bool
  | .plusAssign | .minusAssign | .timesAssign | .divAssign | .remAssign => true
  | _ => false

def isAssignment (op : BinaryOp) : Bool := op == .assign || op.isAugmented

/-- The source spelling; every named operator shares one. -/
def spelling : BinaryOp → String
  | .assign => "="
  | .plusAssign => "+="
  | .minusAssign => "-="
  | .timesAssign => "*="
  | .divAssign => "/="
  | .remAssign => "%="
  | .plus => "+"
  | .minus => "-"
  | .times => "*"
  | .div => "/"
  | .rem => "%"
  | .rangeTo => ".."
  | .less => "<"
  | .lessOrEqual => "<="
  | .greater => ">"
  | .greaterOrEqual => ">="
  | .equals => "=="
  | .notEquals => "!="
  | .identityEquals => "==="
  | .identityNotEquals => "!=="
  | .and => "&&"
  | .or => "||"
  | .contained => "in"
  | .notContained => "!in"
  | .elvis => "?:"
  | .named _ => "infix"

end BinaryOp

end TypedTree
