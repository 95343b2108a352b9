namespace TypedTree

inductive LiteralPolicy where
  | complete
  /-- They are left out. -/
  | unsupported
deriving DecidableEq, Repr

structure Config where
  moduleName : String := "main"
  literals : LiteralPolicy := .complete
  /-- Whether arguments written out of order are kept in temporaries. -/
  reorderArguments : Bool := true
  verifyBound : Bool := true
deriving DecidableEq, Repr

end TypedTree
