import TypedTree.Lowering.Session

namespace TypedTree

/-- A function whose body is a lambda that asks its parameter for its text, unless it is null. -/
def sampleWorld : World where
  tree :=
    { nodes := #[
        ⟨.function ⟨some "main", [], [], some ⟨1⟩, []⟩, .detached⟩,
        ⟨.block [⟨2⟩], .detached⟩,
        ⟨.lambda [] ⟨3⟩, .detached⟩,
        ⟨.qualified ⟨4⟩ ⟨5⟩ true, .detached⟩,
        ⟨.nameReference "it", .detached⟩,
        ⟨.call ⟨4⟩ [], .detached⟩]
      files := [⟨"main.kt", [], [], [⟨0⟩]⟩] }
  facts := #[
    { declares := some ⟨13⟩ },
    {},
    { declares := some ⟨14⟩, type := some Builtin.anyType },
    { type := some Builtin.stringType },
    { target := some ⟨15⟩, type := some Builtin.nullableAnyType },
    { type := some Builtin.stringType
      call := some ⟨Builtin.anyToString, [], some (.expression ⟨4⟩), none, [], [],
        Builtin.stringType⟩ }]
  declared := #[
    ⟨"main", [], none, .everywhere, [], .function ⟨.final, [], [], Builtin.unitType, none, none, {},
      false, []⟩⟩,
    ⟨"<anonymous>", [], some ⟨13⟩, .inBody, [], .function ⟨.final, [], [⟨15⟩], Builtin.stringType,
      none, none, {}, true, []⟩⟩,
    ⟨"it", [], some ⟨14⟩, .inBody, [],
      .valueParameter ⟨0, Builtin.nullableAnyType, false, false, false, false⟩⟩]
  types := #[]

/-- The same with a second file, which declares another function. -/
def twoFileWorld : World where
  tree :=
    { nodes := sampleWorld.tree.nodes.push
        ⟨.function ⟨some "other", [], [], none, []⟩, .detached⟩
      files := sampleWorld.tree.files ++ [⟨"other.kt", [], [], [⟨6⟩]⟩] }
  facts := sampleWorld.facts.push { declares := some ⟨16⟩ }
  declared := sampleWorld.declared.push
    ⟨"other", [], none, .everywhere, [], .function ⟨.final, [], [], Builtin.anyType, none, none, {},
      false, []⟩⟩
  types := #[]

/-- A generic class `Box`, an annotation class `Mark`, and types that apply them. The last type has
an error in it. -/
def genericWorld : World where
  tree := { nodes := #[], files := [] }
  facts := #[]
  declared := #[
    ⟨"Box", [], none, .everywhere, [],
      .classLike { typeParameters := [⟨14⟩], supertypes := [Builtin.anyType] }⟩,
    ⟨"T", [], some ⟨13⟩, .everywhere, [],
      .typeParameter ⟨0, .covariant, false, [Builtin.nullableAnyType]⟩⟩,
    ⟨"Mark", [], none, .everywhere, [],
      .classLike { kind := .annotationClass, primaryConstructor := some ⟨16⟩ }⟩,
    ⟨"<init>", [], some ⟨15⟩, .everywhere, [], .constructor ⟨true, [⟨17⟩], ⟨14⟩⟩⟩,
    ⟨"name", [], some ⟨16⟩, .inBody, [],
      .valueParameter ⟨0, Builtin.stringType, false, false, false, false⟩⟩]
  types := #[
    .simple { classifier := ⟨15⟩ },
    .simple { classifier := ⟨14⟩, nullable := true },
    .simple { classifier := ⟨13⟩, arguments := [.projection .covariant ⟨15⟩, .star],
              annotations := [⟨⟨14⟩, [("name", .scalar (.text "x"))]⟩] },
    .simple { classifier := ⟨13⟩, arguments := [.projection .covariant ⟨15⟩, .star] },
    .flexible ⟨16⟩ ⟨17⟩,
    .failed "unresolved",
    .simple { classifier := ⟨13⟩, arguments := [.projection .contravariant ⟨15⟩,
              .projection .invariant ⟨19⟩] }]

/-- A generic function `same` that has a parameter of its type parameter's type. -/
def identityWorld : World where
  tree :=
    { nodes := #[
        ⟨.function ⟨some "same", [⟨1⟩], [⟨2⟩], none, []⟩, .detached⟩,
        ⟨.typeParameter "T" [], .detached⟩,
        ⟨.parameter ⟨some "x", none, none, []⟩, .detached⟩]
      files := [⟨"same.kt", [], [], [⟨0⟩]⟩] }
  facts := #[{ declares := some ⟨13⟩ }, { declares := some ⟨14⟩ }, { declares := some ⟨15⟩ }]
  declared := #[
    ⟨"same", [], none, .everywhere, [], .function ⟨.final, [⟨14⟩], [⟨15⟩], ⟨14⟩, none,
      some Builtin.anyType, {}, false, []⟩⟩,
    ⟨"T", [], some ⟨13⟩, .everywhere, [],
      .typeParameter ⟨0, .invariant, true, [Builtin.nullableAnyType]⟩⟩,
    ⟨"x", [], some ⟨13⟩, .inBody, [], .valueParameter ⟨0, ⟨14⟩, false, false, true, false⟩⟩]
  types := #[.simple { classifier := ⟨14⟩ }]

end TypedTree
