import Mathlib.Tactic.Choose
import TypedTree.Proofs.Run

namespace TypedTree

open Lower

namespace Lower

variable {σ : Setting} {α β : Type}

/-- Two steps that do the same under a setting. -/
def Same (σ : Setting) (m m' : Lower α) : Prop := ∀ s, m.runFrom σ s = m'.runFrom σ s

theorem Same.refl (m : Lower α) : Same σ m m := fun _ => rfl

theorem Same.trans (h : Same σ m m') (h' : Same σ m' m'') : Same σ m m'' :=
  fun s => (h s).trans (h' s)

theorem Same.bind (h : Same σ m m') (hk : ∀ a, Same σ (k a) (k' a)) :
    Same σ (m >>= k) (m' >>= k') := by
  intro s
  rw [runFrom_bind, runFrom_bind, h s]
  rcases m'.runFrom σ s with ⟨e | a, s'⟩
  · rfl
  · exact hk a s'

theorem same_read_bind (k : Setting → Lower β) : Same σ (read >>= k) (k σ) := fun _ =>
  runFrom_bind_ok _ _ (runFrom_read _ _) k

theorem same_node_bind {id : NodeId} (hn : σ.world.tree.node? id = some n) (k : Node → Lower β) :
    Same σ (node id >>= k) (k n) := by
  simp only [node, bind_assoc]
  refine (same_read_bind _).trans ?_
  rw [hn]
  exact .refl _

theorem same_facts_bind {id : NodeId} (k : NodeFacts → Lower β) :
    Same σ (facts id >>= k) (k (σ.world.factsOf id)) := by
  simp only [facts, bind_assoc, pure_bind]
  exact same_read_bind _

theorem same_deparenthesize_bind {id : NodeId} (k : NodeId → Lower β) :
    Same σ (deparenthesize id >>= k) (k (σ.world.tree.deparenthesize id)) := by
  simp only [deparenthesize, bind_assoc, pure_bind]
  exact same_read_bind _

end Lower

/-- A node, and the scope in which it is lowered. -/
abbrev Visit := Scope × NodeId

/-- The step goes into the source exactly at these nodes, one after the other. All that it does
besides is the same whatever the descent finds there. -/
def Visits (σ : Setting) {α : Type} : List Visit → (Descent → Lower α) → Prop
  | [], f => ∃ m : Lower α, ∀ d, Same σ (f d) m
  | v :: vs, f => ∃ (β : Type) (m : Lower β) (g : β → ExprId → Descent → Lower α),
      (∀ d, Same σ (f d) (do let b ← m; let e ← d.expr v.1 v.2; g b e d)) ∧
        ∀ b e, Visits σ vs (g b e)

namespace Visits

variable {σ : Setting} {α β : Type} {vs ws : List Visit} {f : Descent → Lower α}

theorem of_same (h : Visits σ vs f') (hf : ∀ d, Same σ (f d) (f' d)) : Visits σ vs f := by
  cases vs with
  | nil =>
    obtain ⟨m, hm⟩ := h
    exact ⟨m, fun d => (hf d).trans (hm d)⟩
  | cons v vs =>
    obtain ⟨β, m, g, hg, hrest⟩ := h
    exact ⟨β, m, g, fun d => (hf d).trans (hg d), hrest⟩

theorem work (m : Lower α) : Visits σ [] fun _ => m := ⟨m, fun _ => .refl m⟩

theorem visit (scope : Scope) (node : NodeId) :
    Visits σ [(scope, node)] fun d => d.expr scope node :=
  ⟨Unit, pure (), fun _ e _ => pure e, fun d => by simpa using .refl _, fun _ e => work (pure e)⟩

theorem throw : Visits σ vs fun _ => (MonadExcept.throw e : Lower α) := by
  induction vs with
  | nil => exact work _
  | cons v vs ih =>
    exact ⟨Unit, MonadExcept.throw e, fun _ _ _ => MonadExcept.throw e, fun d => .refl _,
      fun _ _ => ih⟩

/-- Work that comes first may decide how to go on, but not where. -/
theorem after (m : Lower β) {g : β → Descent → Lower α} (h : ∀ b, Visits σ vs (g b)) :
    Visits σ vs fun d => m >>= fun b => g b d := by
  cases vs with
  | nil =>
    choose m' hm' using h
    exact ⟨m >>= m', fun d => .bind (.refl m) fun b => hm' b d⟩
  | cons v vs =>
    choose γ m' g' hg' hrest using h
    refine ⟨(b : β) × γ b, m >>= fun b => Sigma.mk b <$> m' b, fun p => g' p.1 p.2, fun d => ?_,
      fun p e => hrest p.1 p.2 e⟩
    simp only [bind_assoc, bind_map_left]
    exact .bind (.refl m) fun b => hg' b d

theorem bind {g : α → Descent → Lower β} (h : Visits σ vs f) (hg : ∀ a, Visits σ ws (g a)) :
    Visits σ (vs ++ ws) fun d => f d >>= fun a => g a d := by
  induction vs generalizing f with
  | nil =>
    obtain ⟨m, hm⟩ := h
    exact (after m hg).of_same fun d => .bind (hm d) fun a => .refl _
  | cons v vs ih =>
    obtain ⟨γ, m, k, hk, hrest⟩ := h
    refine ⟨γ, m, fun b e d => k b e d >>= fun a => g a d, fun d => ?_, fun b e => ih (hrest b e)⟩
    simpa only [bind_assoc] using Same.bind (hk d) fun a => .refl (g a d)

theorem before (h : Visits σ vs f) (k : α → Lower β) : Visits σ vs fun d => f d >>= k := by
  simpa using h.bind fun a => work (k a)

theorem read_bind {k : Setting → Descent → Lower α} (h : Visits σ vs (k σ)) :
    Visits σ vs fun d => read >>= fun ρ => k ρ d :=
  h.of_same fun _ => same_read_bind _

theorem present_bind {k : β → Descent → Lower α} (h : ∀ b, x = some b → Visits σ vs (k b)) :
    Visits σ vs fun d => present x >>= fun b => k b d := by
  cases x with
  | none => exact throw
  | some b => exact h b rfl

theorem node_bind {id : NodeId} {k : Node → Descent → Lower α}
    (h : ∀ n, σ.world.tree.node? id = some n → Visits σ vs (k n)) :
    Visits σ vs fun d => node id >>= fun n => k n d := by
  simp only [node, bind_assoc]
  exact read_bind (present_bind h)

theorem descriptor_bind {id : DescId} {k : Descriptor → Descent → Lower α}
    (h : ∀ c, σ.world.descriptor? id = some c → Visits σ vs (k c)) :
    Visits σ vs fun d => descriptor id >>= fun c => k c d := by
  simp only [descriptor, bind_assoc]
  exact read_bind (present_bind h)

theorem facts_bind {id : NodeId} {k : NodeFacts → Descent → Lower α}
    (h : Visits σ vs (k (σ.world.factsOf id))) :
    Visits σ vs fun d => facts id >>= fun x => k x d :=
  h.of_same fun _ => same_facts_bind _

theorem deparenthesize_bind {id : NodeId} {k : NodeId → Descent → Lower α}
    (h : Visits σ vs (k (σ.world.tree.deparenthesize id))) :
    Visits σ vs fun d => deparenthesize id >>= fun x => k x d :=
  h.of_same fun _ => same_deparenthesize_bind _

theorem required_bind {id : NodeId} {k : β → Descent → Lower α}
    (h : ∀ b, x = some b → Visits σ vs (k b)) :
    Visits σ vs fun d => required x what id >>= fun b => k b d := by
  cases x with
  | none =>
    simp only [required, bind_assoc]
    exact node_bind fun _ _ => throw
  | some b => simpa only [required, pure_bind] using h b rfl

theorem mapM {xs : List β} {f : Descent → β → Lower α} {vs : β → List Visit}
    (h : ∀ x ∈ xs, Visits σ (vs x) fun d => f d x) :
    Visits σ (xs.flatMap vs) fun d => xs.mapM (f d) := by
  induction xs with
  | nil => exact work (pure [])
  | cons x xs ih =>
    obtain ⟨hx, hxs⟩ := List.forall_mem_cons.1 h
    simp only [List.mapM_cons, List.flatMap_cons]
    exact hx.bind fun a => (ih hxs).before fun as => pure (a :: as)

theorem foldlM {xs : List β} {f : Descent → α → β → Lower α} {vs : β → List Visit}
    (h : ∀ x ∈ xs, ∀ a, Visits σ (vs x) fun d => f d a x) (a : α) :
    Visits σ (xs.flatMap vs) fun d => xs.foldlM (f d) a := by
  induction xs generalizing a with
  | nil => exact work (pure a)
  | cons x xs ih =>
    obtain ⟨hx, hxs⟩ := List.forall_mem_cons.1 h
    simp only [List.foldlM_cons, List.flatMap_cons]
    exact (hx a).bind fun a' => ih hxs a'

end Visits

section written

def Receiver.written? : Receiver → Option NodeId
  | .expression node => some node
  | _ => none

def ValueArgument.nodes : ValueArgument → List NodeId
  | .omitted => []
  | .expression node => [node]
  | .vararg elements => elements.map (·.node)

namespace ResolvedCall

/-- The nodes that are written as receivers; that of an extension goes first. -/
def writtenReceivers (call : ResolvedCall) : List NodeId :=
  (call.extensionReceiver.bind (·.written?)).toList ++
    (call.dispatchReceiver.bind (·.written?)).toList

/-- The nodes of the arguments and of the elements of varargs, in the order of their evaluation. -/
def argumentNodes (call : ResolvedCall) : List NodeId :=
  call.evaluationOrder.flatMap fun i => (call.arguments[i]?.map (·.nodes)).getD []

/-- The arguments that a call goes into; what is read has none. -/
def argumentVisits (σ : Setting) (scope : Scope) (call : ResolvedCall) : List Visit :=
  if (σ.world.descriptor? call.candidate).any isRead then [] else call.argumentNodes.map (scope, ·)

/-- The receiver is where the written one was to be. -/
structure Through (call : ResolvedCall) (receiver : ExprId) (access : Access) : Prop where
  extension : (call.extensionReceiver.bind (·.written?)).isSome →
    access.extensionReceiver = some receiver
  dispatch : (call.dispatchReceiver.bind (·.written?)).isSome →
    access.dispatchReceiver = some receiver

end ResolvedCall

namespace Setting

variable (σ : Setting) (scope : Scope) (id : NodeId)

def selectorScope (call : ResolvedCall) : Scope :=
  match σ.world.tree.node? id, σ.world.descriptor? call.candidate with
  | some ⟨.call _ _, _⟩, some callee => .callee callee.name :: scope
  | _, _ => scope

def selectorReceivers : List Visit :=
  (σ.world.factsOf id).call.elim [] fun call =>
    call.writtenReceivers.map (σ.selectorScope scope id call, ·)

def selectorArguments : List Visit :=
  (σ.world.factsOf id).call.elim [] fun call =>
    call.argumentVisits σ (σ.selectorScope scope id call)

def assignedReceivers : List Visit :=
  (σ.world.factsOf id).call.elim [] (·.writtenReceivers.map (scope, ·))

end Setting

end written

namespace Lower

/-- What is left of an explicit receiver behind a receiver that may be written. -/
def explicitAfter (receiver : Option Receiver) (explicit : Option ExprId) : Option ExprId :=
  if (receiver.bind (·.written?)).isSome then none else explicit

theorem explicitAfter_none (receiver : Option Receiver) : explicitAfter receiver none = none :=
  ite_self _

variable {d : Descent} {scope : Scope} {call : ResolvedCall} {explicit : Option ExprId}

theorem optionalReceiver_eq (receiver : Option Receiver) :
    optionalReceiver d scope receiver explicit =
      (fun p => (p.1, explicitAfter receiver explicit)) <$>
        optionalReceiver d scope receiver explicit := by
  cases receiver with
  | none => simp [optionalReceiver, explicitAfter]
  | some receiver =>
    cases receiver <;> cases explicit <;>
      simp [optionalReceiver, receiverExpr, explicitAfter, Receiver.written?]

/-- The access of a call, once its receivers are there. -/
def assembleAccess (call : ResolvedCall) (callee : SymbolId) (extension dispatch : Option ExprId)
    (explicit : Option ExprId) (types : List TreeType) : Access :=
  match explicit with
  | none => ⟨callee, dispatch, extension, types⟩
  | some _ =>
    if call.extensionReceiver.isSome then ⟨callee, dispatch, explicit, types⟩
    else ⟨callee, explicit, extension, types⟩

/-- Where the explicit receiver goes does not depend on what the receivers are lowered to. -/
theorem buildAccess_eq : buildAccess d scope call explicit = do
    let callee ← symbolFor call.candidate
    let explicit1 := explicitAfter call.extensionReceiver explicit
    let extension ← optionalReceiver d scope call.extensionReceiver explicit
    let dispatch ← optionalReceiver d scope call.dispatchReceiver explicit1
    let types ← convertAll call.typeArguments
    return assembleAccess call callee extension.1 dispatch.1
      (explicitAfter call.dispatchReceiver explicit1) types := by
  unfold buildAccess
  refine bind_congr fun callee => ?_
  rw [optionalReceiver_eq]
  simp only [bind_map_left]
  refine bind_congr fun extension => ?_
  rw [optionalReceiver_eq]
  simp only [bind_map_left]
  refine bind_congr fun dispatch => bind_congr fun types => ?_
  generalize explicitAfter call.dispatchReceiver _ = left
  cases left with
  | none => rfl
  | some _ =>
    dsimp only [assembleAccess]
    split <;> rfl

end Lower

namespace Visits

variable {σ : Setting} {scope : Scope} {call : ResolvedCall}

section access

theorem optionalReceiver :
    Visits σ (((receiver.bind (·.written?)).toList.drop explicit.toList.length).map (scope, ·))
      fun d => Lower.optionalReceiver d scope receiver explicit := by
  cases receiver with
  | none =>
    rw [Option.bind_none, Option.toList_none, List.drop_nil]
    exact work (pure (none, explicit))
  | some receiver =>
    simp only [Lower.optionalReceiver]
    cases receiver with
    | expression node =>
      cases explicit with
      | none => exact ((visit scope node).before _).before _
      | some expr => exact work (pure (some expr, none))
    | _ =>
      simp only [receiverExpr, Option.bind_some, Receiver.written?, Option.toList_none,
        List.drop_nil, List.map_nil]
      exact work _

/-- An explicit receiver takes the place of the first one that is written. -/
theorem buildAccess {explicit : Option ExprId} :
    Visits σ ((call.writtenReceivers.drop explicit.toList.length).map (scope, ·))
      fun d => Lower.buildAccess d scope call explicit := by
  simp only [buildAccess_eq]
  refine after _ fun callee => ?_
  have hall : (call.writtenReceivers.drop explicit.toList.length).map (scope, ·) =
      (((call.extensionReceiver.bind (·.written?)).toList.drop
        explicit.toList.length).map (scope, ·)) ++
      (((call.dispatchReceiver.bind (·.written?)).toList.drop
        (explicitAfter call.extensionReceiver explicit).toList.length).map (scope, ·)) := by
    unfold ResolvedCall.writtenReceivers explicitAfter
    cases explicit <;> cases call.extensionReceiver.bind (·.written?) <;> simp
  rw [hall]
  exact optionalReceiver.bind fun _ => optionalReceiver.before _

end access

section arguments

theorem lowerElement (element : VarargElement) :
    Visits σ [(scope, element.node)] fun d => Lower.lowerElement d scope element :=
  (visit scope element.node).before _

theorem lowerArgument {argument : ValueArgument} :
    Visits σ (argument.nodes.map (scope, ·))
      fun d => Lower.lowerArgument d scope argument parameter := by
  cases argument with
  | omitted => exact work (pure none)
  | expression node => exact (visit scope node).before _
  | vararg elements =>
    simp only [Lower.lowerArgument, lowerVararg]
    split
    next hempty =>
      rw [List.isEmpty_iff.1 hempty]
      exact work (pure none)
    next =>
      have hall : (ValueArgument.vararg elements).nodes.map (scope, ·) =
          elements.flatMap fun element => [(scope, element.node)] := by
        rw [ValueArgument.nodes, List.map_map, List.map_eq_flatMap]
        rfl
      rw [hall]
      exact (mapM fun element _ => lowerElement element).before _

theorem placeArgument :
    Visits σ (((call.arguments[index]?.map (·.nodes)).getD []).map (scope, ·))
      fun d => Lower.placeArgument d scope call parameters reorder built index := by
  unfold Lower.placeArgument
  cases call.arguments[index]? with
  | none => exact work (pure built)
  | some argument => exact lowerArgument.before _

theorem lowerArguments :
    Visits σ (call.argumentNodes.map (scope, ·)) fun d => Lower.lowerArguments d scope call := by
  refine descriptor_bind fun c _ => read_bind ?_
  rw [ResolvedCall.argumentNodes, List.map_flatMap]
  exact foldlM (fun _ _ _ => placeArgument) _

end arguments

section call

theorem buildCall {parts : CallParts} :
    Visits σ ((call.writtenReceivers.drop parts.receiver.toList.length).map (scope, ·) ++
        if parts.arguments.isSome then [] else call.argumentVisits σ scope)
      fun d => Lower.buildCall d scope call type parts := by
  refine buildAccess.bind fun access => descriptor_bind fun candidate hcandidate => ?_
  rw [ResolvedCall.argumentVisits, hcandidate, Option.any_some]
  by_cases hread : isRead candidate
  · simp only [hread, if_true, ite_self]
    exact work _
  · simp only [hread, if_false, Bool.false_eq_true]
    cases parts.arguments with
    | some arguments => exact (work (pure ([], arguments))).before _
    | none => exact lowerArguments.before _

theorem lowerSelector {id : NodeId} {parts : CallParts} (harguments : parts.arguments = none) :
    Visits σ ((σ.selectorReceivers scope id).drop parts.receiver.toList.length ++
        σ.selectorArguments scope id)
      fun d => Lower.lowerSelector d scope id parts := by
  refine after _ fun type => facts_bind (node_bind fun n hn => ?_)
  unfold Setting.selectorReceivers Setting.selectorArguments Setting.selectorScope
  cases (σ.world.factsOf id).call with
  | some call =>
    have hcall (scope : Scope) :
        Visits σ ((call.writtenReceivers.map (scope, ·)).drop parts.receiver.toList.length ++
            call.argumentVisits σ scope)
          fun d => Lower.buildCall d scope call type parts := by
      simpa [harguments, List.map_drop] using @buildCall σ scope call type parts
    obtain ⟨kind, span⟩ := n
    simp only [hn, Option.elim_some]
    cases kind with
    | call _ _ =>
      refine descriptor_bind fun callee hcallee => ?_
      simp only [hcallee]
      exact hcall _
    | _ => exact hcall scope
  | none =>
    rw [Option.elim_none, Option.elim_none, List.drop_nil, List.append_nil]
    cases n.kind <;> exact work _

theorem assignName {receiver : Option ExprId} :
    Visits σ ((σ.assignedReceivers scope name).drop receiver.toList.length)
      fun d => Lower.assignName d scope name value receiver := by
  refine before ?_ _
  refine facts_bind ?_
  unfold Setting.assignedReceivers
  cases (σ.world.factsOf name).call with
  | some call =>
    rw [Option.elim_some, ← List.map_drop]
    exact buildAccess
  | none =>
    rw [Option.elim_none, List.drop_nil]
    exact work _

end call

end Visits

end TypedTree
