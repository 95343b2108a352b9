import Mathlib.Data.Finset.Card
import Mathlib.Data.Finset.Range
import TypedTree.Proofs.Lookup.Traversal

namespace TypedTree

mutual

/-- A type that has keys in the place of symbols, and in the place of each annotation the key of the
constructor that it calls. -/
structure PlainType where
  classifier : Key
  nullable : Bool
  arguments : List PlainProjection
  annotations : List Key

inductive PlainProjection where
  | star
  | projection (variance : Variance) (type : PlainType)

end

def orDangling {α : Type} : Option α → Except LowerError α
  | some a => .ok a
  | none => .error .dangling

@[simp] theorem orDangling_some_bind {α β : Type} (a : α) (f : α → Except LowerError β) :
    orDangling (some a) >>= f = f a := rfl

@[simp] theorem orDangling_none_bind {α β : Type} (f : α → Except LowerError β) :
    orDangling none >>= f = .error .dangling := rfl

/-- The key of a type's classifier, which is a class or a type parameter. -/
def World.classifierKey (w : World) (id : DescId) : Except LowerError Key := do
  let d ← orDangling (w.descriptor? id)
  match d.kind with
  | .classLike _ => return (.classLike, id)
  | .typeParameter _ => return (.typeParameter, id)
  | kind => throw (.unexpectedClassifier d.name kind.describe)

/-- What goes wrong with what an annotation gives for a parameter of its constructor. -/
def World.checkSlot (w : World) (given : List (Name × (Option TypeId → Except LowerError Unit)))
    (parameter : DescId) : Except LowerError Unit := do
  let d ← orDangling (w.descriptor? parameter)
  match given.lookup d.name with
  | some check => check (d.valueParameter?.map (·.type))
  | none => return

section reference

variable (σ : Setting) (plain : TypeId → Except LowerError PlainType)

mutual

/-- What goes wrong on the way to the expression of a constant. -/
def Constant.check : Constant → Option TypeId → Except LowerError Unit
  | .scalar value, expected => do
    let _ ← plain (expected.getD value.type)
  | .array elements type, _ => do
    Constant.checkAll elements
    let _ ← plain type
  | .enumEntry entry type, _ =>
    match σ.config.literals with
    | .unsupported => return
    | .complete => do
      let _ ← plain type
      let _ ← orDangling (σ.world.descriptor? entry)
  | .nested use, _ => do
    let _ ← use.constructorKey
  | .classLiteral referenced type, _ =>
    match σ.config.literals with
    | .unsupported => return
    | .complete => do
      match ← orDangling (σ.world.type? referenced) with
      | .failed _ => return
      | .simple _ | .flexible _ _ =>
        let _ ← plain referenced
        let _ ← plain type
  | .failed _, _ => return

def Constant.checkAll : List Constant → Except LowerError Unit
  | [] => return
  | element :: rest => do
    element.check none
    Constant.checkAll rest

/-- The constructor that an annotation calls, if it calls one. -/
def AnnotationUse.constructorKey : AnnotationUse → Except LowerError (Option Key)
  | ⟨type, arguments⟩ => do
    match ← orDangling (σ.world.type? type) with
    | .flexible _ _ | .failed _ => return none
    | .simple simple =>
      let d ← orDangling (σ.world.descriptor? simple.classifier)
      match d.class? with
      | none => return none
      | some info =>
        match info.mainConstructor? with
        | none => throw (.noAnnotationConstructor d.name)
        | some constructor =>
          let _ ← plain type
          let callee ← orDangling (σ.world.descriptor? constructor)
          let _ ← callee.valueParameters.mapM (σ.world.checkSlot (AnnotationUse.checks arguments))
          return some (.constructor, constructor)

/-- How to check each argument, for the type of the parameter it goes to. -/
def AnnotationUse.checks :
    List (Name × Constant) → List (Name × (Option TypeId → Except LowerError Unit))
  | [] => []
  | (name, value) :: rest => (name, value.check) :: AnnotationUse.checks rest

end

def SourceTypeArgument.plainWith : SourceTypeArgument → Except LowerError PlainProjection
  | .star => return .star
  | .projection variance type => return .projection variance (← plain type)

/-- A type as it is written, once its parts are known. A flexible type is its upper bound. -/
def Setting.plainWith (id : TypeId) : Except LowerError PlainType := do
  match ← orDangling (σ.world.type? id) with
  | .failed message => throw (.errorType message)
  | .flexible _ upper => plain upper
  | .simple simple =>
    let classifier ← σ.world.classifierKey simple.classifier
    let arguments ← simple.arguments.mapM (·.plainWith plain)
    let annotations ← simple.annotations.mapM (·.constructorKey σ plain)
    return ⟨classifier, simple.nullable, arguments, annotations.reduceOption⟩

end reference

/-- The type that an id stands for, if its parts are nested at most `fuel` deep. -/
def Setting.plainUpTo (σ : Setting) : Nat → TypeId → Except LowerError PlainType
  | 0, _ => .error .endless
  | fuel + 1, id => σ.plainWith (σ.plainUpTo fuel) id

/-- The type that an id stands for, worked out anew from the facts alone. -/
def Setting.plain (σ : Setting) (id : TypeId) : Except LowerError PlainType :=
  σ.plainUpTo (σ.world.typeCount + 1) id

def isEndless {α : Type} : Except LowerError α → Bool
  | .error .endless => true
  | _ => false

theorem eq_endless_of_isEndless {α : Type} {p : Except LowerError α} (h : isEndless p) :
    p = .error .endless := by
  rcases p with (_ | _) | _ <;> first | rfl | cases h

/-- The second result, unless the first one ran out of fuel. -/
def Nears {α : Type} (p q : Except LowerError α) : Prop := p = .error .endless ∨ p = q

namespace Nears

variable {α β : Type} {p q : Except LowerError α}

theorem refl (p : Except LowerError α) : Nears p p := .inr rfl

theorem bind (h : Nears p q) (hk : ∀ a, Nears (f a) (g a)) : Nears (p >>= f) (q >>= g) := by
  rcases h with rfl | rfl
  · exact .inl rfl
  · cases p with
    | error e => exact .refl _
    | ok a => exact hk a

theorem mapM {γ : Type} {f g : γ → Except LowerError α} (h : ∀ x, Nears (f x) (g x))
    (xs : List γ) : Nears (xs.mapM f) (xs.mapM g) := by
  induction xs with
  | nil => exact .refl _
  | cons x xs ih =>
    rw [List.mapM_cons, List.mapM_cons]
    exact (h x).bind fun _ => ih.bind fun _ => .refl _

end Nears

section

variable {σ : Setting} {f g : TypeId → Except LowerError PlainType}

theorem AnnotationUse.lookup_checks (f : TypeId → Except LowerError PlainType)
    (arguments : List (Name × Constant)) (name : Name) :
    (AnnotationUse.checks σ f arguments).lookup name =
      (arguments.lookup name).map (Constant.check σ f) := by
  induction arguments with
  | nil => rfl
  | cons p rest ih =>
    obtain ⟨name', value⟩ := p
    simp only [AnnotationUse.checks, List.lookup_cons]
    split
    next => rfl
    next => exact ih

theorem AnnotationUse.checkSlot_nears {arguments : List (Name × Constant)}
    (h : ∀ q ∈ arguments, ∀ expected, Nears (q.2.check σ f expected) (q.2.check σ g expected))
    (parameter : DescId) : Nears (σ.world.checkSlot (AnnotationUse.checks σ f arguments) parameter)
      (σ.world.checkSlot (AnnotationUse.checks σ g arguments) parameter) := by
  refine (Nears.refl _).bind fun d => ?_
  rw [AnnotationUse.lookup_checks, AnnotationUse.lookup_checks]
  cases hlookup : arguments.lookup d.name with
  | none => exact .refl _
  | some value => exact h _ (Ledger.mem_of_lookup hlookup) _

mutual

theorem Constant.check_nears (h : ∀ id, Nears (f id) (g id)) : (value : Constant) →
    ∀ expected, Nears (value.check σ f expected) (value.check σ g expected)
  | .scalar _ => fun _ => by
    simp only [Constant.check]
    exact (h _).bind fun _ => .refl _
  | .array elements _ => fun _ => by
    simp only [Constant.check]
    exact (Constant.checkAll_nears h elements).bind fun _ => (h _).bind fun _ => .refl _
  | .enumEntry _ _ => fun _ => by
    simp only [Constant.check]
    split
    next => exact .refl _
    next => exact (h _).bind fun _ => .refl _
  | .nested use => fun _ => by
    simp only [Constant.check]
    exact (AnnotationUse.constructorKey_nears h use).bind fun _ => .refl _
  | .classLiteral _ _ => fun _ => by
    simp only [Constant.check]
    split
    next => exact .refl _
    next =>
      refine (Nears.refl _).bind fun t => ?_
      cases t with
      | failed _ => exact .refl _
      | simple _ => exact (h _).bind fun _ => (h _).bind fun _ => .refl _
      | flexible _ _ => exact (h _).bind fun _ => (h _).bind fun _ => .refl _
  | .failed _ => fun _ => by
    simp only [Constant.check]
    exact .refl _

theorem Constant.checkAll_nears (h : ∀ id, Nears (f id) (g id)) : (values : List Constant) →
    Nears (Constant.checkAll σ f values) (Constant.checkAll σ g values)
  | [] => by
    simp only [Constant.checkAll]
    exact .refl _
  | value :: values => by
    simp only [Constant.checkAll]
    exact (Constant.check_nears h value none).bind fun _ => Constant.checkAll_nears h values

theorem AnnotationUse.constructorKey_nears (h : ∀ id, Nears (f id) (g id)) :
    (use : AnnotationUse) → Nears (use.constructorKey σ f) (use.constructorKey σ g)
  | ⟨type, arguments⟩ => by
    simp only [AnnotationUse.constructorKey]
    refine (Nears.refl _).bind fun t => ?_
    cases t with
    | flexible _ _ => exact .refl _
    | failed _ => exact .refl _
    | simple simple =>
      refine (Nears.refl _).bind fun d => ?_
      cases d.class? with
      | none => exact .refl _
      | some info =>
        dsimp only
        cases info.mainConstructor? with
        | none => exact .refl _
        | some constructor =>
          refine (h type).bind fun _ => (Nears.refl _).bind fun callee => ?_
          exact (Nears.mapM (AnnotationUse.checkSlot_nears (AnnotationUse.check_nears h arguments))
            _).bind fun _ => .refl _

theorem AnnotationUse.check_nears (h : ∀ id, Nears (f id) (g id)) :
    (arguments : List (Name × Constant)) → ∀ q ∈ arguments, ∀ expected,
      Nears (q.2.check σ f expected) (q.2.check σ g expected)
  | (_, value) :: rest, q, hq => by
    rcases List.mem_cons.1 hq with rfl | hq
    · exact Constant.check_nears h value
    · exact AnnotationUse.check_nears h rest q hq

end

namespace Setting

theorem plainWith_nears (h : ∀ id, Nears (f id) (g id)) (id : TypeId) :
    Nears (σ.plainWith f id) (σ.plainWith g id) := by
  refine (Nears.refl _).bind fun t => ?_
  cases t with
  | failed _ => exact .refl _
  | flexible _ upper => exact h upper
  | simple simple =>
    refine (Nears.refl _).bind fun _ => (Nears.mapM (fun a => ?_) _).bind fun _ =>
      (Nears.mapM (fun use => use.constructorKey_nears h) _).bind fun _ => .refl _
    cases a with
    | star => exact .refl _
    | projection _ type => exact (h type).bind fun _ => .refl _

theorem plainUpTo_nears (σ : Setting) (fuel : Nat) (id : TypeId) :
    Nears (σ.plainUpTo fuel id) (σ.plainUpTo (fuel + 1) id) := by
  induction fuel generalizing id with
  | zero => exact .inl rfl
  | succ fuel ih => exact plainWith_nears ih id

/-- With fuel at hand, a type outside of the unit is told from one that is nested too deep. -/
theorem plainUpTo_of_type?_eq_none {id : TypeId} (h : σ.world.type? id = none) (fuel : Nat) :
    σ.plainUpTo (fuel + 1) id = .error .dangling := by
  simp [plainUpTo, plainWith, h]

def known (σ : Setting) (fuel : Nat) : Finset Nat :=
  (Finset.range σ.world.typeCount).filter fun i => !isEndless (σ.plainUpTo fuel ⟨i⟩)

/-- As long as more fuel makes a difference, there are types that become known. -/
theorem card_known_lt (h : σ.plainUpTo (fuel + 1) ≠ σ.plainUpTo (fuel + 2)) :
    (σ.known (fuel + 1)).card < (σ.known (fuel + 2)).card := by
  obtain ⟨id, hid⟩ := Function.ne_iff.1 h
  have hless : σ.plainUpTo (fuel + 1) id = .error .endless :=
    (σ.plainUpTo_nears (fuel + 1) id).resolve_right hid
  have hrange : id.index < σ.world.typeCount := by
    cases ht : σ.world.type? id with
    | some t => exact World.index_lt_of_type? ht
    | none => cases (plainUpTo_of_type?_eq_none ht fuel).symm.trans hless
  have hmore : isEndless (σ.plainUpTo (fuel + 2) id) = false := by
    refine Bool.eq_false_iff.2 fun he => hid ?_
    rw [hless, eq_endless_of_isEndless he]
  refine Finset.card_lt_card (Finset.ssubset_iff_of_subset (fun i hi => ?_) |>.2
    ⟨id.index, ?_, ?_⟩)
  · obtain ⟨hi, hknown⟩ := Finset.mem_filter.1 hi
    refine Finset.mem_filter.2 ⟨hi, ?_⟩
    rcases σ.plainUpTo_nears (fuel + 1) ⟨i⟩ with he | he
    · simp [he, isEndless] at hknown
    · rwa [← he]
  · exact Finset.mem_filter.2 ⟨Finset.mem_range.2 hrange, by simpa using hmore⟩
  · simp [known, hless, isEndless]

/-- More fuel than there are types makes no difference. -/
theorem plainUpTo_stable (σ : Setting) :
    σ.plainUpTo (σ.world.typeCount + 1) = σ.plainUpTo (σ.world.typeCount + 2) := by
  have hlater {k n : Nat} (hk : σ.plainUpTo (k + 1) = σ.plainUpTo (k + 2)) (hn : k ≤ n) :
      σ.plainUpTo (n + 1) = σ.plainUpTo (n + 2) := by
    induction n, hn using Nat.le_induction with
    | base => exact hk
    | succ n _ ih => exact funext fun id => congrArg (σ.plainWith · id) ih
  have hgrows (n : Nat) (h : ∀ k ≤ n, σ.plainUpTo (k + 1) ≠ σ.plainUpTo (k + 2)) :
      n < (σ.known (n + 2)).card := by
    induction n with
    | zero => exact Nat.zero_lt_of_lt (card_known_lt (h 0 (Nat.le_refl 0)))
    | succ n ih =>
      have hbefore := ih fun k hk => h k (Nat.le_succ_of_le hk)
      exact Nat.lt_of_le_of_lt hbefore (card_known_lt (h (n + 1) (Nat.le_refl _)))
  by_contra hne
  have hlt := hgrows σ.world.typeCount fun k hk hstable => hne (hlater hstable hk)
  have hle := Finset.card_filter_le (Finset.range σ.world.typeCount)
    fun i => !isEndless (σ.plainUpTo (σ.world.typeCount + 2) ⟨i⟩)
  rw [Finset.card_range] at hle
  exact Nat.not_lt.2 hle hlt

theorem plain_eq (σ : Setting) (id : TypeId) : σ.plain id = σ.plainWith σ.plain id :=
  congrFun σ.plainUpTo_stable id

theorem plain_of_flexible {id : TypeId} (h : σ.world.type? id = some (.flexible lower upper)) :
    σ.plain id = σ.plain upper := by
  rw [plain_eq, plainWith, h, orDangling_some_bind]

/-- With enough fuel, a type is what it is with any. -/
theorem plainUpTo_of_le (σ : Setting) {fuel : Nat} (h : σ.world.typeCount + 1 ≤ fuel) :
    σ.plainUpTo fuel = σ.plain := by
  induction fuel, h using Nat.le_induction with
  | base => rfl
  | succ n _ ih =>
    exact funext fun id => (congrArg (σ.plainWith · id) ih).trans (σ.plain_eq id).symm

theorem plainUpTo_nears_plain (σ : Setting) (fuel : Nat) (id : TypeId) :
    Nears (σ.plainUpTo fuel id) (σ.plain id) := by
  rcases Nat.le_total (σ.world.typeCount + 1) fuel with h | h
  · rw [σ.plainUpTo_of_le h]
    exact .refl _
  · induction h using Nat.decreasingInduction with
    | self => exact .refl _
    | of_succ k _ ih =>
      rcases σ.plainUpTo_nears k id with he | he
      · exact .inl he
      · rw [he]
        exact ih

end Setting

end

end TypedTree
