import TypedTree.Facts.World

namespace TypedTree

/-- A position that something in a unit refers to. -/
inductive Reference where
  | node (id : NodeId)
  | desc (id : DescId)
  | type (id : TypeId)
deriving DecidableEq, Repr

namespace Reference

def nodes (ids : List NodeId) : List Reference := ids.map .node

def node? (id : Option NodeId) : List Reference := nodes id.toList

def descs (ids : List DescId) : List Reference := ids.map .desc

def desc? (id : Option DescId) : List Reference := descs id.toList

def types (ids : List TypeId) : List Reference := ids.map .type

def type? (id : Option TypeId) : List Reference := types id.toList

end Reference

open Reference (nodes node? descs desc? types type?)

mutual

def Constant.refs : Constant → List Reference
  | .scalar _ | .failed _ => []
  | .array elements type => .type type :: Constant.refsOfAll elements
  | .enumEntry entry type => [.desc entry, .type type]
  | .nested use => use.refs
  | .classLiteral referenced type => [.type referenced, .type type]

def Constant.refsOfAll : List Constant → List Reference
  | [] => []
  | element :: rest => element.refs ++ Constant.refsOfAll rest

def AnnotationUse.refs : AnnotationUse → List Reference
  | ⟨type, arguments⟩ => .type type :: AnnotationUse.refsOfArguments arguments

def AnnotationUse.refsOfArguments : List (Name × Constant) → List Reference
  | [] => []
  | (_, value) :: rest => value.refs ++ AnnotationUse.refsOfArguments rest

end

def DescriptorKind.refs : DescriptorKind → List Reference
  | .classLike info => descs info.typeParameters ++ types info.supertypes ++
      descs info.constructors ++ desc? info.primaryConstructor
  | .function info => descs info.typeParameters ++ descs info.valueParameters ++
      [.type info.returnType] ++ type? info.dispatchReceiver ++ type? info.extensionReceiver ++
      descs info.overridden
  | .constructor info => descs info.valueParameters ++ [.type info.returnType]
  | .property info => [.type info.type] ++ type? info.dispatchReceiver ++
      type? info.extensionReceiver ++ descs info.typeParameters ++ desc? info.getter ++
      desc? info.setter
  | .accessor info => [.desc info.property, .type info.returnType] ++ descs info.valueParameters
  | .typeParameter info => types info.upperBounds
  | .valueParameter info => [.type info.type]
  | .typeAlias info => descs info.typeParameters ++ [.type info.expanded]

def Descriptor.refs (d : Descriptor) : List Reference :=
  desc? d.container ++ d.annotations.flatMap (·.refs) ++ d.kind.refs

def SourceTypeArgument.refs : SourceTypeArgument → List Reference
  | .star => []
  | .projection _ type => [.type type]

def SourceType.refs : SourceType → List Reference
  | .simple type => .desc type.classifier :: (type.arguments.flatMap (·.refs) ++
      type.annotations.flatMap (·.refs))
  | .flexible lower upper => [.type lower, .type upper]
  | .failed _ => []

def Receiver.refs : Receiver → List Reference
  | .expression node => [.node node]
  | .implicitThis desc type | .extensionThis desc type | .classValue desc type =>
    [.desc desc, .type type]
  | .superOf type => [.type type]

def ValueArgument.refs : ValueArgument → List Reference
  | .omitted => []
  | .expression node => [.node node]
  | .vararg elements => nodes (elements.map (·.node))

def ResolvedCall.refs (c : ResolvedCall) : List Reference :=
  [.desc c.candidate] ++ types c.typeArguments ++ c.dispatchReceiver.toList.flatMap (·.refs) ++
    c.extensionReceiver.toList.flatMap (·.refs) ++ c.arguments.flatMap (·.refs) ++
    [.type c.result]

def LoopCalls.refs (c : LoopCalls) : List Reference :=
  c.iterator.refs ++ c.hasNext.refs ++ c.next.refs

def IndexedCalls.refs (c : IndexedCalls) : List Reference :=
  c.get.toList.flatMap (·.refs) ++ c.set.toList.flatMap (·.refs)

def DelegateCalls.refs (c : DelegateCalls) : List Reference :=
  c.getValue.refs ++ c.setValue.toList.flatMap (·.refs) ++ c.provideDelegate.toList.flatMap (·.refs)

def NodeFacts.refs (f : NodeFacts) : List Reference :=
  type? f.type ++ type? f.writtenType ++ f.call.toList.flatMap (·.refs) ++ desc? f.target ++
    desc? f.declares ++ f.annotationUse.toList.flatMap (·.refs) ++
    f.constant.toList.flatMap (·.refs) ++ f.loop.toList.flatMap (·.refs) ++
    f.component.toList.flatMap (·.refs) ++ f.indexed.toList.flatMap (·.refs) ++
    f.delegates.toList.flatMap (·.refs) ++ f.contains.toList.flatMap (·.refs) ++
    desc? f.constructorProperty

def TemplateEntry.refs : TemplateEntry → List Reference
  | .literal _ | .escape _ => []
  | .expression node => [.node node]

def WhenSubject.refs : WhenSubject → List Reference
  | .expression node | .declaration node => [.node node]

def WhenCondition.refs : WhenCondition → List Reference
  | .expression node => node? node
  | .inRange node _ | .isPattern node _ => [.node node]

def WhenEntry.refs (e : WhenEntry) : List Reference :=
  e.conditions.flatMap (·.refs) ++ node? e.body

def CatchClause.refs (c : CatchClause) : List Reference := [.node c.parameter, .node c.body]

/-- The nodes directly inside a node. -/
def NodeKind.refs : NodeKind → List Reference
  | .constant | .destructuringEntry _ | .nameReference _ | .breakJump _ | .continueJump _
  | .thisRef _ | .annotationEntry | .typeReference | .malformed _ => []
  | .classDecl c => nodes c.typeParameters ++ node? c.primaryConstructor ++ node? c.superCall ++
      nodes c.declarations ++ nodes c.annotations
  | .enumEntry _ declarations annotations => nodes declarations ++ nodes annotations
  | .function f => nodes f.typeParameters ++ nodes f.parameters ++ node? f.body ++
      nodes f.annotations
  | .primaryConstructor parameters annotations => nodes parameters ++ nodes annotations
  | .secondaryConstructor parameters delegation body annotations =>
    nodes parameters ++ node? delegation ++ node? body ++ nodes annotations
  | .delegationCall _ arguments => nodes arguments
  | .property p => nodes p.typeParameters ++ node? p.initializer ++ node? p.delegate ++
      node? p.getter ++ node? p.setter ++ nodes p.annotations
  | .accessor _ parameters body annotations => nodes parameters ++ node? body ++ nodes annotations
  | .initializer body annotations => node? body ++ nodes annotations
  | .typeParameter _ annotations => nodes annotations
  | .parameter p => node? p.defaultValue ++ node? p.destructuring ++ nodes p.annotations
  | .typeAlias _ typeParameters annotations => nodes typeParameters ++ nodes annotations
  | .destructuring entries value => nodes entries ++ node? value
  | .template entries => entries.flatMap (·.refs)
  | .call callee arguments => .node callee :: nodes arguments
  | .qualified receiver selector _ => [.node receiver, .node selector]
  | .arrayAccess array indices => .node array :: nodes indices
  | .unary _ operand _ => [.node operand]
  | .binary _ left right => .node left :: node? right
  | .typeCheck expression typeRef _ | .cast expression typeRef _ =>
    [.node expression, .node typeRef]
  | .ifElse condition thenBranch elseBranch =>
    node? condition ++ node? thenBranch ++ node? elseBranch
  | .whenCases subject entries => subject.toList.flatMap (·.refs) ++ entries.flatMap (·.refs)
  | .whileLoop condition body => node? condition ++ node? body
  | .doWhile body condition => node? body ++ node? condition
  | .forLoop element range body => [.node element, .node range] ++ node? body
  | .returnJump _ value => node? value
  | .labeled _ body => [.node body]
  | .lambda parameters body => .node body :: nodes parameters
  | .block statements => nodes statements
  | .parenthesized inner => [.node inner]
  | .superRef superType => node? superType
  | .throwing exception => node? exception
  | .tryCatch body catches finalizer =>
    .node body :: (catches.flatMap (·.refs) ++ node? finalizer)
  | .objectLiteral declaration => [.node declaration]
  | .classLiteral receiver => [.node receiver]
  | .callableReference receiver callee => .node callee :: node? receiver
  | .annotated annotations base => .node base :: nodes annotations

def SourceFile.refs (f : SourceFile) : List Reference :=
  nodes f.annotations ++ nodes f.declarations

end TypedTree
