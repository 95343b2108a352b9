import TypedTree.Proofs.Argument.Placement
import TypedTree.Proofs.Sample

namespace TypedTree

open Lower

/-- A literal as a value. Integers of all widths are numbers. -/
inductive PlainScalar where
  | text (value : String)
  | integer (value : Int)
  | number (value : Double)
  | boolean (value : Bool)
  | char (value : Char)
  | null
deriving DecidableEq, Repr

/-- A constant that has lost the values without an expression, and has descriptors in the place of
symbols. -/
inductive PlainValue where
  | scalar (kind : LiteralKind) (value : PlainScalar)
  | array (elements : List PlainValue)
  | call (constructor : DescId) (slots : List (Option PlainValue))
  | entry (entry : DescId)
  | classLiteral (classifier : Key)

/-- The literal that stands for a scalar. An unsigned number becomes the one among the signed
numbers of its width that differs from it by a multiple of the number of bit patterns. -/
def Scalar.plain : Scalar → LiteralKind × PlainScalar
  | .text v => (.string, .text v)
  | .int v => (.int, .integer v.toInt)
  | .uint v => (.int, .integer (Int.bmod v.toNat 4294967296))
  | .long v => (.long, .integer v.toInt)
  | .ulong v => (.long, .integer (Int.bmod v.toNat 18446744073709551616))
  | .short v => (.short, .integer v.toInt)
  | .ushort v => (.short, .integer (Int.bmod v.toNat 65536))
  | .byte v => (.byte, .integer v.toInt)
  | .ubyte v => (.byte, .integer (Int.bmod v.toNat 256))
  | .boolean v => (.boolean, .boolean v)
  | .float v => (.float, .number v.widen)
  | .double v => (.double, .number v)
  | .char v => (.char, .char v)
  | .null => (.null, .null)

/-- The kind that an unsigned scalar gets, the scalar as a number, and half the number of its bit
patterns. -/
def Scalar.unsigned? : Scalar → Option (LiteralKind × Nat × Nat)
  | .uint v => some (.int, v.toNat, 2147483648)
  | .ulong v => some (.long, v.toNat, 9223372036854775808)
  | .ushort v => some (.short, v.toNat, 32768)
  | .ubyte v => some (.byte, v.toNat, 128)
  | _ => none

theorem Scalar.plain_of_unsigned {scalar : Scalar} (h : scalar.unsigned? = some (kind, n, half)) :
    scalar.plain = (kind, .integer (Int.bmod n (2 * half))) := by
  cases scalar <;> cases h <;> rfl

/-- The constructor that an annotation of a type calls: that of the class of the type which is
primary or has no other beside it. -/
def World.annotationConstructor? (w : World) (type : TypeId) : Option DescId := do
  match ← w.type? type with
  | .simple simple => (← (← w.descriptor? simple.classifier).class?).mainConstructor?
  | .flexible _ _ | .failed _ => none

def World.argumentFor? (w : World) (arguments : List (Name × Option PlainValue))
    (parameter : DescId) : Option PlainValue := do
  ← arguments.lookup (← w.descriptor? parameter).name

section plain

variable (σ : Setting)

mutual

/-- What a constant comes to in the tree, if anything. -/
def Constant.plain? : Constant → Option PlainValue
  | .scalar value => some (.scalar value.plain.1 value.plain.2)
  | .array elements _ => some (.array (Constant.plainAll elements))
  | .enumEntry entry _ =>
    match σ.config.literals with
    | .unsupported => none
    | .complete => some (.entry entry)
  | .nested use => use.plain?
  | .classLiteral referenced _ =>
    match σ.config.literals with
    | .unsupported => none
    | .complete => (σ.plain referenced).toOption.map (.classLiteral ·.classifier)
  | .failed _ => none

def Constant.plainAll : List Constant → List PlainValue
  | [] => []
  | element :: rest => element.plain?.toList ++ Constant.plainAll rest

/-- The call of the constructor, with a slot for each of its parameters. -/
def AnnotationUse.plain? : AnnotationUse → Option PlainValue
  | ⟨type, arguments⟩ => do
    let constructor ← σ.world.annotationConstructor? type
    let callee ← σ.world.descriptor? constructor
    return .call constructor
      (callee.valueParameters.map (σ.world.argumentFor? (AnnotationUse.plainArguments arguments)))

def AnnotationUse.plainArguments : List (Name × Constant) → List (Name × Option PlainValue)
  | [] => []
  | (name, value) :: rest => (name, value.plain?) :: AnnotationUse.plainArguments rest

end

end plain

theorem AnnotationUse.lookup_plainArguments (arguments : List (Name × Constant)) (name : Name) :
    (plainArguments σ arguments).lookup name =
      (arguments.lookup name).map (·.plain? σ) := by
  induction arguments with
  | nil => rfl
  | cons argument rest ih =>
    obtain ⟨name', value⟩ := argument
    simp only [plainArguments, List.lookup_cons]
    split
    next => rfl
    next => exact ih

def LiteralValue.plain : LiteralValue → PlainScalar
  | .text v => .text v
  | .integer v => .integer v.toInt
  | .number v => .number v
  | .boolean v => .boolean v
  | .char v => .char v
  | .null => .null

theorem Scalar.plain_eq (value : Scalar) :
    value.plain = (value.literal.1, value.literal.2.plain) := by
  cases value with
  | uint v =>
    simp only [plain, literal, LiteralValue.plain, Int32.toInt_toInt64]
    rw [← UInt32.toNat_toBitVec, ← BitVec.toInt_eq_toNat_bmod]
    rfl
  | ulong v =>
    simp only [plain, literal, LiteralValue.plain]
    rw [← UInt64.toNat_toBitVec, ← BitVec.toInt_eq_toNat_bmod]
    rfl
  | ushort v =>
    simp only [plain, literal, LiteralValue.plain, Int16.toInt_toInt64]
    rw [← UInt16.toNat_toBitVec, ← BitVec.toInt_eq_toNat_bmod]
    rfl
  | ubyte v =>
    simp only [plain, literal, LiteralValue.plain, Int8.toInt_toInt64]
    rw [← UInt8.toNat_toBitVec, ← BitVec.toInt_eq_toNat_bmod]
    rfl
  | _ => simp [plain, literal, LiteralValue.plain]

namespace State

/-- The value of an expression of the given kind, once those of its parts are known. -/
def kindValue? (s : State) (value? : ExprId → Option PlainValue) : ExprKind → Option PlainValue
  | .literal kind value => some (.scalar kind value.plain)
  | .vararg elements => do return .array (← elements.mapM value?)
  | .call ⟨callee, none, none, []⟩ slots => do
    match ← s.keyOf? callee with
    | (.constructor, desc) => return .call desc (← slots.mapM fun slot => slot.mapM value?)
    | _ => none
  | .read ⟨callee, none, none, []⟩ => do
    match ← s.keyOf? callee with
    | (.classLike, desc) => return .entry desc
    | _ => none
  | .classReference classifier => do return .classLiteral (← s.keyOf? classifier)
  | _ => none

def valueUpTo (s : State) : Nat → ExprId → Option PlainValue
  | 0, _ => none
  | depth + 1, e => do s.kindValue? (s.valueUpTo depth) (← s.store.kind? e)

/-- The constant that an expression stands for. Parts come before what they are parts of. -/
def value? (s : State) (e : ExprId) : Option PlainValue := s.valueUpTo (e.index + 1) e

/-- The value of an expression of the given kind that is added next. -/
def nextValue? (s : State) (kind : ExprKind) : Option PlainValue :=
  s.kindValue? (s.valueUpTo s.store.exprs.size) kind

variable {σ : Setting} {s s' : State} {e : ExprId} {v : PlainValue}

theorem optionMapM_eq_some_iff {α β : Type} {f : α → Option β} {x : Option α} {y : Option β} :
    x.mapM f = some y ↔ Option.Rel (fun a b => f a = some b) x y := by
  cases x with
  | none => cases y <;> simp
  | some a => cases y <;> simp

theorem kindValue?_mono (hle : s.Le s') {f g : ExprId → Option PlainValue}
    (hfg : ∀ e v, f e = some v → g e = some v) {kind : ExprKind}
    (h : s.kindValue? f kind = some v) : s'.kindValue? g kind = some v := by
  unfold kindValue? at h ⊢
  split at h
  case h_1 => exact h
  case h_2 elements =>
    obtain ⟨vs, hvs, h⟩ := Option.bind_eq_some_iff.1 h
    refine Option.bind_eq_some_iff.2 ⟨vs, mapM_eq_some_iff.2 ?_, h⟩
    exact (mapM_eq_some_iff.1 hvs).imp fun _ _ => hfg _ _
  case h_3 callee slots =>
    obtain ⟨key, hkey, h⟩ := Option.bind_eq_some_iff.1 h
    refine Option.bind_eq_some_iff.2 ⟨key, hle.keyOf? hkey, ?_⟩
    split at h
    next =>
      obtain ⟨vs, hvs, h⟩ := Option.bind_eq_some_iff.1 h
      refine Option.bind_eq_some_iff.2 ⟨vs, mapM_eq_some_iff.2 ?_, h⟩
      refine (mapM_eq_some_iff.1 hvs).imp fun _ _ hslot => ?_
      exact optionMapM_eq_some_iff.2 (Option.rel_imp (hfg · ·) (optionMapM_eq_some_iff.1 hslot))
    next => cases h
  case h_4 callee =>
    obtain ⟨key, hkey, h⟩ := Option.bind_eq_some_iff.1 h
    exact Option.bind_eq_some_iff.2 ⟨key, hle.keyOf? hkey, h⟩
  case h_5 classifier =>
    obtain ⟨key, hkey, h⟩ := Option.bind_eq_some_iff.1 h
    exact Option.bind_eq_some_iff.2 ⟨key, hle.keyOf? hkey, h⟩
  case h_6 => cases h

theorem valueUpTo_mono (hle : s.Le s') {depth depth' : Nat} (hdepth : depth ≤ depth')
    (h : s.valueUpTo depth e = some v) : s'.valueUpTo depth' e = some v := by
  induction depth generalizing depth' e v with
  | zero => cases h
  | succ depth ih =>
    obtain ⟨depth', rfl⟩ : ∃ n, depth' = n + 1 := ⟨depth' - 1, by omega⟩
    obtain ⟨kind, hkind, h⟩ := Option.bind_eq_some_iff.1 h
    refine Option.bind_eq_some_iff.2 ⟨kind, hle.kind? hkind, ?_⟩
    exact kindValue?_mono hle (fun _ _ => ih (by omega)) h

theorem Le.value? (hle : s.Le s') (h : s.value? e = some v) : s'.value? e = some v :=
  valueUpTo_mono hle (Nat.le_refl _) h

theorem valueUpTo_of_value? (h : s.value? e = some v) :
    s.valueUpTo s.store.exprs.size e = some v := by
  refine valueUpTo_mono (.refl s) ?_ h
  obtain ⟨kind, hkind, _⟩ := Option.bind_eq_some_iff.1 h
  obtain ⟨x, hx, _⟩ := Option.map_eq_some_iff.1 hkind
  exact (Array.getElem?_eq_some_iff.1 hx).1

/-- The content of an expression that comes to the value, or no content where there is none. -/
def Presents (s : State) : Option (TreeType × ExprKind) → Option PlainValue → Prop :=
  Option.Rel fun content v => s.nextValue? content.2 = some v

/-- An expression that comes to the value, or no expression where there is none. -/
def ShowsValue (s : State) : Option ExprId → Option PlainValue → Prop :=
  Option.Rel fun e v => s.value? e = some v

end State

namespace Yields

variable {σ : Setting} {s : State}

theorem addValue (h : s.nextValue? kind = some v) :
    Brings σ s (Lower.addExpr type kind) fun s' e => s'.value? e = some v := by
  refine (ran (work Tidy.addExpr)).imp fun s' e _ ⟨⟨hrun, hle⟩, _⟩ => ?_
  cases hrun
  refine Option.bind_eq_some_iff.2 ⟨kind, by simp [Store.kind?, Store.expr?], ?_⟩
  exact State.kindValue?_mono hle (fun _ _ => State.valueUpTo_mono hle (Nat.le_refl _)) h

theorem showsValue (h : s.Presents content v) :
    Brings σ s (Lower.addContent content) fun s' e => s'.ShowsValue e v := by
  cases h with
  | none => exact .pure .none
  | some h => exact .bind (addValue h) fun e s' _ _ he => .pure (.some he)

theorem slot
    (h : ∀ argument ∈ arguments, ∀ expected s', s.Le s' →
      Brings σ s' (Lower.constantWith Lower.convert argument.2 expected) fun s'' content =>
        s''.Presents content (argument.2.plain? σ))
    {s' : State} (hle : s.Le s') :
    Brings σ s' (Lower.slotWith (Lower.argumentsWith Lower.convert arguments)
      parameter) fun s'' e => s''.ShowsValue e
        (σ.world.argumentFor? (AnnotationUse.plainArguments σ arguments) parameter) := by
  refine .descriptor_bind fun d hd => ?_
  simp only [Ledger.lookup_argumentsWith, World.argumentFor?, hd, Option.bind_eq_bind,
    Option.bind_some, AnnotationUse.lookup_plainArguments]
  cases hlookup : arguments.lookup d.name with
  | none => exact .pure .none
  | some value =>
    refine .bind (h _ (Ledger.mem_of_lookup hlookup) _ s' hle) fun content s1 _ _ hcontent => ?_
    exact showsValue hcontent

mutual

theorem presents : (value : Constant) → ∀ (expected : Option TypeId) (s : State),
    Brings σ s (Lower.constantWith Lower.convert value expected) fun s' content =>
      s'.Presents content (value.plain? σ)
  | .scalar value, expected, s => by
    simp only [Lower.constantWith, Constant.plain?]
    refine .bind (convert State.Apt.lasting _) fun _ s1 _ _ _ => .pure (.some ?_)
    rw [value.plain_eq]
    rfl
  | .array elements type, expected, s => by
    simp only [Lower.constantWith, Constant.plain?]
    refine .bind (elementsShow elements s) fun es s1 _ _ hes => ?_
    refine .bind (convert State.Apt.lasting _) fun _ s2 h2 _ _ => .pure (.some ?_)
    refine Option.bind_eq_some_iff.2 ⟨_, mapM_eq_some_iff.2 ?_, rfl⟩
    exact hes.imp fun _ _ h => State.valueUpTo_of_value? (h2.value? h)
  | .enumEntry entry type, expected, s => by
    simp only [Lower.constantWith, Constant.plain?]
    refine .read_bind ?_
    cases σ.config.literals with
    | unsupported => exact .pure .none
    | complete =>
      refine .bind (convert State.Apt.lasting _) fun _ s1 _ _ _ => ?_
      refine .bind (symbolOf State.Apt.lasting (by decide) entry) fun callee s2 _ _ hkey => ?_
      refine .pure (.some ?_)
      simp [State.nextValue?, State.kindValue?, Access.plain, hkey]
  | .nested use, expected, s => by
    simp only [Lower.constantWith, Constant.plain?]
    exact annotationPresents use s
  | .classLiteral referenced type, expected, s => by
    simp only [Lower.constantWith, Constant.plain?]
    refine .read_bind ?_
    cases σ.config.literals with
    | unsupported => exact .pure .none
    | complete =>
      have hboth : Brings σ s (do
          let classifier := (← Lower.convert referenced).classifier
          let type ← Lower.convert type
          return some (type, ExprKind.classReference classifier)) fun s' content =>
            s'.Presents content
              ((σ.plain referenced).toOption.map (.classLiteral ·.classifier)) := by
        refine .bind (convert State.Apt.lasting _) fun τ s1 _ _ ⟨T, hT, hτ⟩ => ?_
        refine .bind (convert State.Apt.lasting _) fun _ s2 h2 _ _ => .pure ?_
        obtain ⟨classifier, nullable, arguments, annotations⟩ := τ
        obtain ⟨hkey, _⟩ := State.plain?_eq_some.1 (h2.plain? hτ)
        rw [hT]
        exact .some (by simp [State.nextValue?, State.kindValue?, hkey])
      simp only [Lower.sourceType, bind_assoc]
      refine .read_bind (.present_bind fun t ht => ?_)
      cases t with
      | failed message =>
        have hplain : σ.plain referenced = .error (.errorType message) := by
          rw [σ.plain_eq, Setting.plainWith, ht]
          rfl
        rw [hplain]
        exact .pure .none
      | simple _ => exact hboth
      | flexible _ _ => exact hboth
  | .failed _, expected, s => by
    simp only [Lower.constantWith, Constant.plain?]
    exact .pure .none

theorem elementsShow : (values : List Constant) → ∀ (s : State),
    Brings σ s (Lower.elementsWith Lower.convert values) fun s' es =>
      List.Forall₂ (fun e v => s'.value? e = some v) es (Constant.plainAll σ values)
  | [], s => by
    simp only [Lower.elementsWith, Constant.plainAll]
    exact .pure .nil
  | value :: values, s => by
    simp only [Lower.elementsWith, Constant.plainAll]
    refine .bind (presents value none s) fun content s1 _ _ hcontent => ?_
    refine .bind (showsValue hcontent) fun first s2 _ _ hfirst => ?_
    refine .bind (elementsShow values s2) fun rest s3 h3 _ hrest => .pure ?_
    refine List.rel_append ?_ hrest
    generalize value.plain? σ = v at hfirst ⊢
    cases hfirst with
    | none => exact .nil
    | some h => exact .cons (h3.value? h) .nil

theorem annotationPresents : (use : AnnotationUse) → ∀ (s : State),
    Brings σ s (Lower.annotationWith Lower.convert use) fun s' content =>
      s'.Presents content (use.plain? σ)
  | ⟨type, arguments⟩, s => by
    simp only [Lower.annotationWith, AnnotationUse.plain?, World.annotationConstructor?,
      Lower.sourceType, bind_assoc]
    refine .read_bind (.present_bind fun t ht => ?_)
    rw [ht]
    cases t with
    | flexible _ _ => exact .pure .none
    | failed _ => exact .pure .none
    | simple simple =>
      refine .descriptor_bind fun d hd => ?_
      simp only [Option.bind_eq_bind, Option.bind_some, hd]
      cases d.class? with
      | none => exact .pure .none
      | some info =>
        simp only [Option.bind_some]
        cases info.mainConstructor? with
        | none => exact .throw
        | some constructor =>
          refine .bind (convert State.Apt.lasting _) fun _ s1 _ _ _ => ?_
          refine .bind (symbolOf State.Apt.lasting (by decide) constructor)
            fun id s2 _ _ hid => ?_
          refine .descriptor_bind fun callee hcallee => ?_
          rw [Option.bind_some, hcallee]
          refine .bind (mapM (S := fun s parameter e => s.ShowsValue e
              (σ.world.argumentFor? (AnnotationUse.plainArguments σ arguments) parameter))
            (fun hle => Option.rel_imp fun _ _ => hle.value?)
            fun parameter _ s' hle => slot (argumentsPresent arguments) hle)
            fun slots s3 h3 _ hslots => .pure (.some ?_)
          have hvalues : slots.mapM (fun slot => slot.mapM (s3.valueUpTo s3.store.exprs.size)) =
              some (callee.valueParameters.map
                (σ.world.argumentFor? (AnnotationUse.plainArguments σ arguments))) := by
            rw [mapM_eq_some_iff, List.forall₂_map_right_iff]
            refine hslots.flip.imp fun slot _ hslot => State.optionMapM_eq_some_iff.2 ?_
            exact Option.rel_imp (fun _ _ => State.valueUpTo_of_value?) hslot
          simp [State.nextValue?, State.kindValue?, Access.plain, h3.keyOf? hid, hvalues]

theorem argumentsPresent : (arguments : List (Name × Constant)) → {s : State} →
    ∀ argument ∈ arguments, ∀ expected s', s.Le s' → Brings σ s'
      (Lower.constantWith Lower.convert argument.2 expected) fun s'' content =>
        s''.Presents content (argument.2.plain? σ)
  | (_, value) :: rest, s, argument, hargument => by
    rcases List.mem_cons.1 hargument with rfl | hargument
    · exact fun expected s' _ => presents value expected s'
    · exact argumentsPresent rest argument hargument

end

end Yields

namespace State

/-- A constant is read back from the tree: it has an expression exactly if it comes to something,
and from then on the expression stands for that. An unsigned number comes to the only signed number
of its width that differs from it by a multiple of the number of bit patterns. -/
theorem value?_constant (σ : Setting) (s s' : State) (hs : s.Reachable σ) (value : Constant)
    (expected : Option TypeId) (result : Option ExprId)
    (hrun : (Lower.constant value expected).runFrom σ s = (.ok result, s')) :
    (result = none ↔ value.plain? σ = none) ∧
    (∀ e, result = some e → ∀ s'', s'.Reaches σ s'' → s''.value? e = value.plain? σ) ∧
    ∀ scalar kind n half, Scalar.unsigned? scalar = some (kind, n, half) →
      ∃ i : Int, Constant.plain? σ (.scalar scalar) = some (.scalar kind (.integer i)) ∧
        ∀ j : Int, ((2 * half : Int) ∣ j - n ∧ -half ≤ j ∧ j < half) ↔ j = i := by
  have hshows : Brings σ s (Lower.constant value expected) fun s' e =>
      s'.ShowsValue e (value.plain? σ) :=
    .bind (Yields.presents value expected s) fun content _ _ _ hcontent =>
      Yields.showsValue hcontent
  obtain ⟨hle, hapt, hresult⟩ := hshows ⟨hs.coherent, hs.faithful⟩
  simp only [hrun] at hapt hresult
  have hresult := hresult result rfl
  refine ⟨?_, fun e he s'' hs'' => ?_, fun scalar kind n half h => ?_⟩
  · generalize value.plain? σ = v at hresult ⊢
    cases hresult <;> simp
  · subst he
    generalize value.plain? σ = v at hresult ⊢
    cases hresult with
    | some h => exact (hs''.upholds hapt.1 hapt.2).le.value? h
  · refine ⟨Int.bmod n (2 * half), ?_, fun j => ?_⟩
    · rw [Constant.plain?, Scalar.plain_of_unsigned h]
    · have hhalf : 0 < half := by cases scalar <;> cases h <;> decide
      rw [eq_comm, Int.bmod_eq_iff (by omega)]
      push_cast
      omega

/-- An annotation within an annotation. The value that analysis could not find is left out, the
unsigned numbers keep their bits, and the parameter that has no argument has an empty slot. -/
theorem value?_constant_genericWorld :
    let σ : Setting := ⟨genericWorld, {}⟩
    let inner : Constant := .array [.scalar (.ubyte 200), .failed "unknown",
      .nested ⟨⟨14⟩, []⟩, .scalar (.uint 3000000000)] ⟨15⟩
    let r := (Lower.constant (.nested ⟨⟨14⟩, [("other", .scalar .null), ("name", inner)]⟩)
      none).runFrom σ {}
    ∃ e, r.1 = .ok (some e) ∧ r.2.value? e = some (.call ⟨16⟩ [some (.array
      [.scalar .byte (.integer (-56)), .call ⟨16⟩ [none],
        .scalar .int (.integer (-1294967296))])]) := by
  intro σ inner r
  have hok : r.1.toOption.isSome := by decide +kernel
  obtain ⟨result, hrun⟩ := exists_ok hok
  obtain ⟨hnone, hread, _⟩ := value?_constant σ {} r.2 (Reachable.start σ) _ _ result hrun
  cases result with
  | none => cases hnone.1 rfl
  | some e =>
    refine ⟨e, congrArg Prod.fst hrun, (hread e rfl r.2 .refl).trans ?_⟩
    have hconstructor : σ.world.annotationConstructor? ⟨14⟩ = some ⟨16⟩ := rfl
    obtain ⟨callee, hcallee, hparameters⟩ :
        ∃ callee, σ.world.descriptor? ⟨16⟩ = some callee ∧ callee.valueParameters = [⟨17⟩] :=
      ⟨_, rfl, rfl⟩
    obtain ⟨parameter, hparameter, hname⟩ :
        ∃ parameter, σ.world.descriptor? ⟨17⟩ = some parameter ∧ parameter.name = "name" :=
      ⟨_, rfl, rfl⟩
    simp [inner, Constant.plain?, Constant.plainAll, AnnotationUse.plain?,
      AnnotationUse.plainArguments, World.argumentFor?, Scalar.plain, List.lookup_cons,
      hconstructor, hcallee, hparameters, hparameter, hname]

end State

end TypedTree
