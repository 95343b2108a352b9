import TypedTree.Facts.Constant
import TypedTree.Source.Node

namespace TypedTree

inductive Receiver where
  | expression (node : NodeId)
  /-- The object of an enclosing class. -/
  | implicitThis (enclosing : DescId) (type : TypeId)
  /-- The receiver of an enclosing extension. -/
  | extensionThis (callable : DescId) (type : TypeId)
  | superOf (type : TypeId)
  /-- The name of an object or companion, used as a value. -/
  | classValue (object : DescId) (type : TypeId)
deriving DecidableEq, Repr

structure VarargElement where
  node : NodeId
  spread : Bool
deriving DecidableEq, Repr

/-- What one value parameter receives. -/
inductive ValueArgument where
  | omitted
  | expression (node : NodeId)
  | vararg (elements : List VarargElement)
deriving DecidableEq, Repr

/-- The callee chosen for a call, with what it receives. -/
structure ResolvedCall where
  candidate : DescId
  typeArguments : List TypeId
  dispatchReceiver : Option Receiver
  extensionReceiver : Option Receiver
  /-- One for each value parameter of the candidate, by its position. -/
  arguments : List ValueArgument
  /-- The positions of the arguments as they are written; empty when they are written in order. -/
  order : List Nat
  result : TypeId
deriving DecidableEq, Repr

def hasDescent : List Nat → Bool
  | a :: b :: rest => b < a || hasDescent (b :: rest)
  | _ => false

namespace ResolvedCall

def isReordered (c : ResolvedCall) : Bool := hasDescent c.order

def evaluationOrder (c : ResolvedCall) : List Nat :=
  if c.order.isEmpty then List.range c.arguments.length else c.order

/-- The receiver that is written in the source; that of an extension goes first. -/
def explicitReceiver? (c : ResolvedCall) : Option NodeId :=
  match c.extensionReceiver, c.dispatchReceiver with
  | some (.expression node), _ => some node
  | _, some (.expression node) => some node
  | _, _ => none

end ResolvedCall

structure LoopCalls where
  iterator : ResolvedCall
  hasNext : ResolvedCall
  next : ResolvedCall
deriving DecidableEq, Repr

structure IndexedCalls where
  get : Option ResolvedCall
  set : Option ResolvedCall
deriving DecidableEq, Repr

/-- The calls that a delegated property makes on its delegate. -/
structure DelegateCalls where
  getValue : ResolvedCall
  setValue : Option ResolvedCall
  provideDelegate : Option ResolvedCall
deriving DecidableEq, Repr

end TypedTree
