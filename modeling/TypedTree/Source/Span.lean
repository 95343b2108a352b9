namespace TypedTree

/-- Names are compared as texts. -/
abbrev Name := String

/-- The bytes `start` up to `stop` of one source file. -/
structure Span where
  file : Nat
  start : Nat
  stop : Nat
deriving DecidableEq, Repr

namespace Span

/-- The place of nodes that no file holds. -/
def detached : Span := ⟨0xffffffff, 0, 0⟩

def text (s : Span) : String := s!"file#{s.file}@{s.start}..{s.stop}"

end Span

end TypedTree
