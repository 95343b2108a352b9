import Mathlib.Logic.Relation
import TypedTree.Lowering.Types

namespace TypedTree

variable (σ : Setting)

mutual

/-- The types that are converted on the way to the expression of a constant. -/
def Constant.needs : Constant → Option TypeId → List TypeId
  | .scalar value, expected => [expected.getD value.type]
  | .array elements type, _ => Constant.needsOfAll elements ++ [type]
  | .enumEntry _ type, _ =>
    match σ.config.literals with
    | .unsupported => []
    | .complete => [type]
  | .nested use, _ => use.needs
  | .classLiteral referenced type, _ =>
    match σ.config.literals, σ.world.type? referenced with
    | .complete, some (.simple _) | .complete, some (.flexible _ _) => [referenced, type]
    | _, _ => []
  | .failed _, _ => []

def Constant.needsOfAll : List Constant → List TypeId
  | [] => []
  | element :: rest => element.needs none ++ Constant.needsOfAll rest

/-- The types that are converted on the way to the call of an annotation. -/
def AnnotationUse.needs : AnnotationUse → List TypeId
  | ⟨type, arguments⟩ =>
    match σ.world.type? type with
    | some (.simple simple) =>
      match (σ.world.descriptor? simple.classifier).bind (·.class?) with
      | none => []
      | some info =>
        match info.mainConstructor?.bind σ.world.descriptor? with
        | none => []
        | some constructor => type :: constructor.valueParameters.flatMap fun parameter =>
          match σ.world.descriptor? parameter with
          | none => []
          | some d =>
            match (AnnotationUse.needsOfArguments arguments).lookup d.name with
            | some argument => argument (d.valueParameter?.map (·.type))
            | none => []
    | _ => []

def AnnotationUse.needsOfArguments :
    List (Name × Constant) → List (Name × (Option TypeId → List TypeId))
  | [] => []
  | (name, value) :: rest => (name, value.needs) :: AnnotationUse.needsOfArguments rest

end

def SourceTypeArgument.needs : SourceTypeArgument → List TypeId
  | .star => []
  | .projection _ type => [type]

/-- The types that are converted on the way to the conversion of a type. -/
def SourceType.needs : SourceType → List TypeId
  | .simple type => type.arguments.flatMap (·.needs) ++ type.annotations.flatMap (·.needs σ)
  | .flexible _ upper => [upper]
  | .failed _ => []

/-- The conversion of the second type takes that of the first. -/
def Setting.Needs (type needy : TypeId) : Prop :=
  ∃ t, σ.world.type? needy = some t ∧ type ∈ t.needs σ

/-- A type that is made of others without a circle. -/
def Setting.Grounds (type : TypeId) : Prop := Acc σ.Needs type

variable {σ}

/-- What such a type is made of does not contain it. -/
theorem Setting.Grounds.not_needs (h : σ.Grounds type) :
    ∀ {part}, Relation.ReflTransGen σ.Needs type part → ¬ σ.Needs part type := by
  induction h with
  | intro type _ ih =>
    intro part hp hn
    rcases Relation.ReflTransGen.cases_tail hp with rfl | ⟨mid, hmid, hpart⟩
    · exact ih _ hn .refl hn
    · exact ih part hn (.trans (.single hn) hmid) hpart

theorem AnnotationUse.lookup_needsOfArguments (arguments : List (Name × Constant)) (name : Name) :
    (AnnotationUse.needsOfArguments σ arguments).lookup name =
      (arguments.lookup name).map (Constant.needs σ) := by
  induction arguments with
  | nil => rfl
  | cons p rest ih =>
    obtain ⟨name', value⟩ := p
    simp only [AnnotationUse.needsOfArguments, List.lookup_cons]
    split
    next => rfl
    next => exact ih

end TypedTree
