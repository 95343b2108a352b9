import TypedTree.Source.Node

namespace TypedTree

structure SourceFile where
  name : String
  package : List Name
  annotations : List NodeId
  declarations : List NodeId
deriving DecidableEq, Repr

/-- The files of a unit and the nodes they are made of. A node may refer to later ones. -/
structure SourceTree where
  nodes : Array Node
  files : List SourceFile
deriving Repr

namespace SourceTree

def node? (t : SourceTree) (id : NodeId) : Option Node := t.nodes[id.index]?

/-- Takes at most `fuel` pairs of parentheses off. -/
def stripParentheses (t : SourceTree) : Nat → NodeId → NodeId
  | 0, id => id
  | fuel + 1, id =>
    match t.node? id with
    | some ⟨.parenthesized inner, _⟩ => t.stripParentheses fuel inner
    | _ => id

/-- The expression inside any number of parentheses. More pairs than nodes close a circle, which
holds no expression at all. -/
def deparenthesize (t : SourceTree) (id : NodeId) : NodeId :=
  t.stripParentheses t.nodes.size id

end SourceTree

end TypedTree
