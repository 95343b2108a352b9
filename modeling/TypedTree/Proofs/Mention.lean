import TypedTree.Fragment.Walk

namespace TypedTree

/-- What a return, a jump out of a loop or a subject belongs to. -/
inductive Holder where
  | function (target : FunctionTargetId)
  | loop (target : LoopTargetId)
  | choice (whenRef : WhenRefId)
deriving DecidableEq, Repr

/-- An id that a node stores, and what for. -/
inductive Mention where
  /-- An expression that the node owns. It may use the given holders, besides those that the node
  itself may use. -/
  | expr (inside : List Holder) (id : ExprId)
  | decl (id : DeclId)
  | note (id : ExprId)
  /-- An expression that another node owns. -/
  | aside (id : ExprId)
  | symbol (id : SymbolId)
  /-- The node is what the holder stands for. -/
  | holds (holder : Holder)
  /-- The node lies inside of what the holder stands for. -/
  | uses (holder : Holder)
deriving DecidableEq, Repr

namespace Mention

/-- What the node owns through a mention. -/
def node? : Mention → Option TreePart
  | .expr _ id | .note id => some (.expr id)
  | .decl id => some (.decl id)
  | .aside _ | .symbol _ | .holds _ | .uses _ => none

def exprs (ids : List ExprId) : List Mention := ids.map (.expr [])

def expr? (id : Option ExprId) : List Mention := exprs id.toList

def decls (ids : List DeclId) : List Mention := ids.map .decl

def decl? (id : Option DeclId) : List Mention := decls id.toList

def annotations (calls : List ExprId) : List Mention := calls.map .note

def symbols (ids : List SymbolId) : List Mention := ids.map .symbol

end Mention

mutual

def TreeType.mentions : TreeType → List Mention
  | ⟨classifier, _, arguments, annotations⟩ =>
    .symbol classifier ::
      (TypeProjection.mentionsOfAll arguments ++ Mention.annotations annotations)

def TypeProjection.mentionsOfAll : List TypeProjection → List Mention
  | [] => []
  | .star :: rest => TypeProjection.mentionsOfAll rest
  | .projection _ type :: rest => type.mentions ++ TypeProjection.mentionsOfAll rest

end

namespace Mention

def types (types : List TreeType) : List Mention := types.flatMap (·.mentions)

def type? (type : Option TreeType) : List Mention := types type.toList

/-- Types mention nothing but symbols and annotations. -/
def IsOfType : Mention → Prop
  | .symbol _ | .note _ => True
  | .expr _ _ | .decl _ | .aside _ | .holds _ | .uses _ => False

mutual

theorem isOfType_of_mem : (type : TreeType) → m ∈ type.mentions → m.IsOfType
  | ⟨_, _, arguments, _⟩, hm => by
    simp only [TreeType.mentions, annotations, List.mem_cons, List.mem_append, List.mem_map] at hm
    rcases hm with rfl | hm | ⟨_, _, rfl⟩
    · trivial
    · exact isOfType_of_mem_all arguments hm
    · trivial

theorem isOfType_of_mem_all : (arguments : List TypeProjection) →
    m ∈ TypeProjection.mentionsOfAll arguments → m.IsOfType
  | [], hm => by cases hm
  | .star :: rest, hm => isOfType_of_mem_all rest hm
  | .projection _ type :: rest, hm =>
    (List.mem_append.1 hm).elim (isOfType_of_mem type) (isOfType_of_mem_all rest)

end

theorem isOfType_of_mem_types (hm : m ∈ types list) : m.IsOfType := by
  obtain ⟨type, _, hm⟩ := List.mem_flatMap.1 hm
  exact isOfType_of_mem type hm

end Mention

open Mention in
def Access.mentions (a : Access) : List Mention :=
  .symbol a.callee :: (expr? a.dispatchReceiver ++ expr? a.extensionReceiver ++
    types a.typeArguments)

def Statement.mention : Statement → Mention
  | .declaration id => .decl id
  | .expression id => .expr [] id

/-- A condition lies inside of the choice; a result does not see its subject. -/
def WhenBranch.mentions (inside : List Holder) (b : WhenBranch) : List Mention :=
  b.condition.toList.map (.expr inside) ++ [.expr [] b.result]

open Mention in
/-- All ids that an expression stores besides those of its type and its annotations. -/
def ExprKind.mentions : ExprKind → List Mention
  | .literal _ _ | .unit | .malformed _ _ | .thisRef _ => []
  | .safeCallSubject receiver => [.aside receiver]
  | .block statements => statements.map (·.mention)
  | .read access | .callableReference access => access.mentions
  | .call access slots => access.mentions ++ exprs (slots.filterMap id)
  | .delegatedCall callee _ slots => .symbol callee :: exprs (slots.filterMap id)
  | .assignment access value => access.mentions ++ [.expr [] value]
  | .intrinsic _ operands => exprs operands
  | .concatenation pieces => exprs pieces
  | .vararg elements => exprs elements
  | .elvis left right => exprs [left, right]
  | .typeOperation _ argument operand => .expr [] argument :: operand.mentions
  | .choice whenRef subject subjectVariable branches =>
    whenRef.toList.map (fun ref => .holds (.choice ref)) ++ expr? subject ++
      decl? subjectVariable ++ branches.flatMap (·.mentions (whenRef.toList.map .choice))
  | .whenSubject whenRef => [.uses (.choice whenRef)]
  | .whileLoop target condition body =>
    [.holds (.loop target), .expr [] condition, .expr [.loop target] body]
  | .doWhile target condition body =>
    [.holds (.loop target), .expr [.loop target] condition, .expr [.loop target] body]
  | .breakJump target | .continueJump target => [.uses (.loop target)]
  | .returnJump target value => [.uses (.function target), .expr [] value]
  | .throwing exception => exprs [exception]
  | .tryCatch body catches finalizer =>
    .expr [] body :: (catches.flatMap (fun c => [.decl c.parameter, .expr [] c.body]) ++
      expr? finalizer)
  | .superRef superType => type? superType
  | .classReference classifier => [.symbol classifier]
  | .lambda function => [.decl function]
  | .anonymousObject object => [.decl object]
  | .safeCall receiver subject selector => exprs [receiver, subject, selector]
  | .spread expression => exprs [expression]
  | .delegateField property receiver => .symbol property :: expr? receiver

def Expr.mentions (e : Expr) : List Mention :=
  e.type.mentions ++ Mention.annotations e.annotations ++ e.kind.mentions

open Mention in
/-- All ids that a declaration stores besides its symbol and those of its annotations. -/
def DeclKind.mentions : DeclKind → List Mention
  | .classLike d => decls d.typeParameters ++ types d.supertypes ++ decls d.declarations
  | .function d =>
    decls d.typeParameters ++ type? d.dispatchReceiver ++ type? d.extensionReceiver ++
      decls d.valueParameters ++ d.returnType.mentions ++ symbols d.overridden ++ expr? d.body
  | .constructor d =>
    decls d.valueParameters ++ d.returnType.mentions ++ expr? d.delegatedCall ++ expr? d.body
  | .property d =>
    decls d.typeParameters ++ d.returnType.mentions ++ type? d.dispatchReceiver ++
      type? d.extensionReceiver ++ expr? d.initializer ++ expr? d.delegate ++ decl? d.getter ++
      decl? d.setter
  | .accessor d =>
    .symbol d.property :: (decls d.valueParameters ++ d.returnType.mentions ++ expr? d.body)
  | .initializer body => exprs [body]
  | .typeParameter d => types d.bounds
  | .valueParameter d => d.type.mentions ++ expr? d.defaultValue ++ symbols d.property.toList
  | .typeAlias d => decls d.typeParameters ++ d.expanded.mentions

def Decl.mentions (d : Decl) : List Mention :=
  .symbol d.symbol :: (Mention.annotations d.annotations ++ d.kind.mentions)

/-- Whether a declaration owns the target of the returns in it. -/
def DeclKind.isCallable : DeclKind → Bool
  | .function _ | .constructor _ | .accessor _ => true
  | _ => false

/-- What a walk goes down to. -/
def TreePart.node? : TreePart → Option TreePart
  | .decl id => some (.decl id)
  | .expr id => some (.expr id)
  | .type _ | .symbol _ | .functionTarget _ | .loopTarget _ | .whenRef _ => none

section nodes

open Mention

@[simp] theorem nodes_exprs (ids : List ExprId) :
    (exprs ids).filterMap node? = ids.map .expr := by
  simp [exprs, List.filterMap_map, Function.comp_def, node?]

@[simp] theorem nodes_decls (ids : List DeclId) :
    (decls ids).filterMap node? = ids.map .decl := by
  simp [decls, List.filterMap_map, Function.comp_def, node?]

@[simp] theorem nodes_annotations (calls : List ExprId) :
    (annotations calls).filterMap node? = calls.map .expr := by
  simp [annotations, List.filterMap_map, Function.comp_def, node?]

@[simp] theorem nodes_symbols (ids : List SymbolId) :
    (symbols ids).filterMap node? = [] := by
  simp [symbols, List.filterMap_map, Function.comp_def, node?]

mutual

theorem TreeType.nodes_parts : (type : TreeType) →
    type.parts.filterMap TreePart.node? = type.mentions.filterMap node?
  | ⟨_, _, arguments, annotations⟩ => by
    simp [TreeType.parts, TreeType.mentions, TreePart.node?, node?, List.filterMap_cons,
      List.filterMap_map, Function.comp_def, TypeProjection.nodes_partsOfAll arguments]

theorem TypeProjection.nodes_partsOfAll : (arguments : List TypeProjection) →
    (TypeProjection.partsOfAll arguments).filterMap TreePart.node? =
      (TypeProjection.mentionsOfAll arguments).filterMap node?
  | [] => rfl
  | .star :: rest => by
    simpa [TypeProjection.partsOfAll, TypeProjection.mentionsOfAll]
      using TypeProjection.nodes_partsOfAll rest
  | .projection _ type :: rest => by
    simp [TypeProjection.partsOfAll, TypeProjection.mentionsOfAll, TreeType.nodes_parts type,
      TypeProjection.nodes_partsOfAll rest]

end

theorem nodes_types (list : List TreeType) :
    (TreePart.types list).filterMap TreePart.node? = (types list).filterMap node? := by
  simp [TreePart.types, types, List.filterMap_flatMap, TreeType.nodes_parts]

theorem Access.nodes_parts (a : Access) :
    a.parts.filterMap TreePart.node? = a.mentions.filterMap node? := by
  simp [Access.parts, Access.mentions, TreePart.node?, node?, TreePart.expr?, expr?,
    List.filterMap_cons, List.filterMap_map, Function.comp_def, nodes_types]

theorem WhenBranch.nodes_mentions (inside : List Holder) (b : WhenBranch) :
    (b.mentions inside).filterMap node? = b.parts.filterMap TreePart.node? := by
  simp [WhenBranch.parts, WhenBranch.mentions, TreePart.node?, node?, TreePart.expr?,
    List.filterMap_map, Function.comp_def]

theorem Statement.node_part (s : Statement) : s.part.node? = s.mention.node? := by
  cases s <;> rfl

theorem ExprKind.nodes_parts (kind : ExprKind) :
    kind.parts.filterMap TreePart.node? = kind.mentions.filterMap node? := by
  cases kind with
  | block statements =>
    simp only [ExprKind.parts, ExprKind.mentions, List.filterMap_map]
    exact congrArg (List.filterMap · statements) (funext Statement.node_part)
  | choice whenRef subject subjectVariable branches =>
    cases whenRef <;>
      simp [ExprKind.parts, ExprKind.mentions, TreePart.node?, node?, TreePart.expr?, expr?,
        TreePart.decl?, decl?, List.filterMap_cons, List.filterMap_map, List.filterMap_flatMap,
        Function.comp_def, WhenBranch.nodes_mentions]
  | _ =>
    simp [ExprKind.parts, ExprKind.mentions, TreePart.node?, node?, TreePart.expr?, expr?,
      TreePart.exprs, TreePart.arguments, TreePart.type?, type?, List.filterMap_cons,
      List.filterMap_map, List.filterMap_flatMap, Function.comp_def, Access.nodes_parts,
      TreeType.nodes_parts, nodes_types]

/-- A walk goes from an expression down to the nodes that it owns, in the order of its mentions. -/
theorem Expr.nodes_parts (e : Expr) :
    e.parts.filterMap TreePart.node? = e.mentions.filterMap node? := by
  simp [Expr.parts, Expr.mentions, TreePart.exprs, TreePart.node?, List.filterMap_map,
    Function.comp_def, ExprKind.nodes_parts, TreeType.nodes_parts]

theorem DeclKind.nodes_parts (kind : DeclKind) :
    kind.parts.filterMap TreePart.node? = kind.mentions.filterMap node? := by
  cases kind <;>
    simp [DeclKind.parts, DeclKind.mentions, TreePart.node?, node?, TreePart.expr?, expr?,
      TreePart.decl?, decl?, TreePart.decls, TreePart.type?, type?, List.filterMap_cons,
      List.filterMap_map, Function.comp_def, TreeType.nodes_parts, nodes_types]

theorem Decl.nodes_parts (d : Decl) :
    d.parts.filterMap TreePart.node? = d.mentions.filterMap node? := by
  simp [Decl.parts, Decl.mentions, TreePart.exprs, TreePart.node?, node?, List.filterMap_cons,
    List.filterMap_map, Function.comp_def, DeclKind.nodes_parts]

end nodes

end TypedTree
