namespace TypedTree

/-- Position of a text in its interner. -/
structure InternedName where
  index : Nat
deriving DecidableEq, Repr

/-- Distinct texts in the order in which they first came. -/
structure Interner where
  texts : Array String := #[]
deriving Repr

namespace Interner

def intern (i : Interner) (text : String) : InternedName × Interner :=
  match i.texts.idxOf? text with
  | some index => (⟨index⟩, i)
  | none => (⟨i.texts.size⟩, ⟨i.texts.push text⟩)

def internAll (i : Interner) : List String → List InternedName × Interner
  | [] => ([], i)
  | text :: rest =>
    let (name, i) := i.intern text
    let (names, i) := i.internAll rest
    (name :: names, i)

def resolve? (i : Interner) (name : InternedName) : Option String := i.texts[name.index]?

def describe (i : Interner) : String := s!"Interner \x7b len: {i.texts.size} \x7d"

end Interner

end TypedTree
