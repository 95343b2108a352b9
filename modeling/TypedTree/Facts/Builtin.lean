import TypedTree.Facts.Descriptor

namespace TypedTree.Builtin

def package : List Name := ["kotlin"]

def classOf (name : Name) (modality : Modality := .final) : Descriptor :=
  ⟨name, package, none, .everywhere, [], .classLike ⟨.plain, modality, false, false, false, [], [],
    [], none⟩⟩

/-- The built-in classes, and the text of a value as a member of the class of all values. -/
def descriptors : Array Descriptor :=
  #[classOf "Any" .overridable, classOf "Unit", classOf "Boolean", classOf "String",
    classOf "Nothing", classOf "Char", classOf "Byte", classOf "Short", classOf "Int",
    classOf "Long", classOf "Float", classOf "Double",
    ⟨"toString", package, some ⟨0⟩, .everywhere, [],
      .function ⟨.overridable, [], [], ⟨4⟩, some ⟨0⟩, none, {}, false, []⟩⟩]

def typeOf (classifier : Nat) (nullable : Bool := false) : SourceType :=
  .simple ⟨⟨classifier⟩, [], nullable, []⟩

/-- One type for each built-in class, and nullable ones for the first and the empty class. -/
def types : Array SourceType :=
  #[typeOf 0, typeOf 0 true, typeOf 1, typeOf 2, typeOf 3, typeOf 4, typeOf 4 true, typeOf 5,
    typeOf 6, typeOf 7, typeOf 8, typeOf 9, typeOf 10, typeOf 11]

def anyClass : DescId := ⟨0⟩

def unitClass : DescId := ⟨1⟩

def booleanClass : DescId := ⟨2⟩

def stringClass : DescId := ⟨3⟩

def nothingClass : DescId := ⟨4⟩

def anyToString : DescId := ⟨12⟩

def anyType : TypeId := ⟨0⟩

def nullableAnyType : TypeId := ⟨1⟩

def unitType : TypeId := ⟨2⟩

def booleanType : TypeId := ⟨3⟩

def stringType : TypeId := ⟨4⟩

def nothingType : TypeId := ⟨5⟩

def nullableNothingType : TypeId := ⟨6⟩

def charType : TypeId := ⟨7⟩

def byteType : TypeId := ⟨8⟩

def shortType : TypeId := ⟨9⟩

def intType : TypeId := ⟨10⟩

def longType : TypeId := ⟨11⟩

def floatType : TypeId := ⟨12⟩

def doubleType : TypeId := ⟨13⟩

end TypedTree.Builtin
