import TypedTree.Proofs.Access

namespace TypedTree

open Lower

/-- The temporary is new, and holds what the node is lowered to. -/
def State.HoldsNode (σ : Setting) (d : Descent) (scope : Scope) (s s' : State) (name : Name)
    (node : NodeId) (t : Temporary) : Prop :=
  ∃ value, Gives σ d scope s s' node value ∧ s'.Introduces name t value ∧
    s.table.get? t.symbol = none

theorem State.HoldsNode.within {σ : Setting} {d : Descent} {scope : Scope} {s s' s0 s'' : State}
    {name : Name} {node : NodeId} {t : Temporary} (h : HoldsNode σ d scope s s' name node t)
    (h0 : s0.Le s) (h' : s'.Le s'') : HoldsNode σ d scope s0 s'' name node t := by
  obtain ⟨value, hvalue, hheld, hnew⟩ := h
  exact ⟨value, hvalue.within h0 h', hheld.mono h', h0.get?_eq_none hnew⟩

/-- What is read and stored part by part: names, members without a safe call, and elements. -/
def NodeKind.isPlace : NodeKind → Bool
  | .nameReference _ | .qualified _ _ false | .arrayAccess _ _ => true
  | _ => false

/-- The calls that read and store what a node of this kind denotes. -/
def World.accessors (w : World) (target : NodeId) : NodeKind → List ResolvedCall
  | .qualified _ selector _ => (w.factsOf (w.tree.deparenthesize selector)).call.toList
  | .arrayAccess _ _ =>
    ((w.factsOf target).indexed.bind (·.get)).toList ++
      ((w.factsOf target).indexed.bind (·.set)).toList
  | _ => []

/-- The nodes that an increment goes into: the parts of the operand, each of them once. A name has
no parts, and is lowered for its value before, and once more if its value after is asked for. -/
def Setting.incrementVisits (σ : Setting) (scope : Scope) (target : NodeId) (prefixed : Bool) :
    NodeKind → List Visit
  | .nameReference _ =>
    (scope, target) :: σ.assignedReceivers scope target ++
      if prefixed then [(scope, target)] else []
  | .qualified receiver selector _ =>
    (scope, receiver) :: σ.selectorArguments scope (σ.world.tree.deparenthesize selector)
  | .arrayAccess array indices => (scope, array) :: indices.map (scope, ·)
  | _ => []

namespace Lower

section same

variable {σ : Setting} {d : Descent} {scope : Scope} {id : NodeId} {span : Span}

theorem same_increment {op : UnaryOp} {operand : NodeId} {prefixed : Bool}
    (hn : σ.world.tree.node? id = some ⟨.unary op operand prefixed, span⟩)
    (hop : op = .increment ∨ op = .decrement) :
    Same σ (expressionStep d scope id) (lowerIncrement d scope id operand prefixed) := by
  refine (same_node_bind hn _).trans ?_
  rcases hop with rfl | rfl
  all_goals exact .refl _

/-- A compound assignment that no function stands for. -/
theorem same_augmented {op : BinaryOp} {left : NodeId} {right : Option NodeId} {n : Node}
    (hn : σ.world.tree.node? id = some ⟨.binary op left right, span⟩) (hop : op.isAugmented)
    (hplain : (σ.world.factsOf id).isOperatorAssignment = false)
    (htarget : σ.world.tree.node? (σ.world.tree.deparenthesize left) = some n) :
    Same σ (expressionStep d scope id) (match n.kind with
      | .arrayAccess array indices =>
        lowerIndexedUpdate d scope id (σ.world.tree.deparenthesize left) array indices right
      | _ => do
        let call ← required (σ.world.factsOf id).call "resolved operator call" id
        let type ← convert call.result
        assignTo d scope (σ.world.tree.deparenthesize left)
          (← buildCall d scope call type {})) := by
  refine (same_node_bind hn _).trans ?_
  have hassign : Same σ (lowerBinary d scope id op left right)
      (lowerAssignment d scope id op left right) := by
    unfold lowerBinary
    rw [if_pos (by rw [BinaryOp.isAssignment, hop, Bool.or_true])]
    exact .refl _
  refine hassign.trans ((same_facts_bind _).trans ?_)
  rw [hplain, Bool.and_false, if_neg Bool.false_ne_true]
  refine (same_deparenthesize_bind _).trans ((same_node_bind htarget _).trans ?_)
  cases op with
  | plusAssign | minusAssign | timesAssign | divAssign | remAssign => cases n.kind <;> exact .refl _
  | _ => cases hop

end same

namespace Place

variable (σ : Setting) (d : Descent) (scope : Scope)

/-- The parts of a node are lowered in the order of the source, and the temporaries of the place are
declared with them. -/
inductive Captures (s s' : State) (target : NodeId) : NodeKind → Place → List Statement → Prop
  | name {name} : Captures s s' target (.nameReference name) (.name target) []
  | member {receiver selector t} : State.HoldsNode σ d scope s s' "<receiver>" receiver t →
      Captures s s' target (.qualified receiver selector false)
        (.member (σ.world.tree.deparenthesize selector) t) [t.statement]
  | indexed {array indices t ts} : State.HoldsNode σ d scope s s' "<array>" array t →
      List.Forall₂ (fun index => State.HoldsNode σ d scope s s' s!"<index_{index.2}>" index.1)
        indices.zipIdx ts →
      Captures s s' target (.arrayAccess array indices) (.indexed target t ts)
        (t.statement :: ts.map (·.statement))

/-- How an increment ends, once there is an updated value: with a store, and with the value of the
whole. -/
inductive Ends (s s' : State) (place : Place) (before : List Statement) (unary : Temporary)
    (updated e : ExprId) : Bool → Prop
  | postfixed {s1 store result} : s.Le s1 → s1.Le s' → place.Stores σ d scope s s1 updated store →
      State.ReadsNew s1 s' unary result →
      s'.store.kind? e = some (.block (before ++ [.expression store, .expression result])) →
      Ends s s' place before unary updated e false
  | name {s1 node store result} : s.Le s1 → s1.Le s' → place = .name node →
      place.Stores σ d scope s s1 updated store → State.Gives σ d scope s1 s' node result →
      s'.store.kind? e = some (.block (before ++ [.expression store, .expression result])) →
      Ends s s' place before unary updated e true
  | part {s1 kept value store result} : s.Le s1 → s1.Le s' → place.isName = false →
      s1.Introduces "<unary-result>" kept updated → s.table.get? kept.symbol = none →
      State.ReadsNew s s1 kept value → place.Stores σ d scope s s1 value store →
      State.ReadsNew s1 s' kept result →
      s'.store.kind? e =
        some (.block (before ++ [kept.statement, .expression store, .expression result])) →
      Ends s s' place before unary updated e true

theorem Stores.within {σ : Setting} {d : Descent} {scope : Scope} {s s' s0 s'' : State}
    {place : Place} {value e : ExprId} (h : place.Stores σ d scope s s' value e) (h0 : s0.Le s)
    (h' : s'.Le s'') : place.Stores σ d scope s0 s'' value e := by
  cases place with
  | name _ =>
    obtain ⟨access, haccess, he⟩ := h
    exact ⟨access, haccess.within h0 h', h'.kind? he⟩
  | other _ => exact h
  | member _ _ =>
    obtain ⟨r, access, hr, haccess, he⟩ := h
    exact ⟨r, access, hr.within h0 h', haccess.within h0 h', h'.kind? he⟩
  | indexed _ _ _ =>
    obtain ⟨set, r, rs, hset, hr, hrs, he⟩ := h
    exact ⟨set, r, rs, hset, hr.within h0 h', hrs.imp fun _ _ h => h.within h0 h', he.within h0 h'⟩

section direct

variable {σ : Setting} {target : NodeId} {n : Node}

theorem Captures.known {d : Descent} {scope : Scope} {s s' : State} {place : Place}
    {captured : List Statement} (h : Captures σ d scope s s' target n.kind place captured)
    (hn : σ.world.tree.node? target = some n) : place.Known σ := by
  obtain ⟨kind, span⟩ := n
  cases h with
  | name => exact ⟨_, span, hn⟩
  | member _ | indexed _ _ => trivial

theorem direct_member {receiver selector : NodeId} {safe : Bool} {t : Temporary}
    (hone : ∀ call ∈ σ.world.accessors target (.qualified receiver selector safe),
      call.writtenReceivers.length = 1) :
    (member (σ.world.tree.deparenthesize selector) t).Direct σ :=
  fun call hcall => hone call (Option.mem_toList.2 hcall)

theorem direct_indexed {array : NodeId} {indices : List NodeId} {t : Temporary}
    {ts : List Temporary} (hone : ∀ call ∈ σ.world.accessors target (.arrayAccess array indices),
      call.writtenReceivers.length = 1) : (indexed target t ts).Direct σ :=
  ⟨fun get hget => hone get (List.mem_append_left _ (Option.mem_toList.2 hget)),
    fun set hset => hone set (List.mem_append_right _ (Option.mem_toList.2 hset))⟩

end direct

/-- The block that an increment becomes: the current value is kept, the operator is called on it,
and its result is stored. -/
def Increments (operator : ResolvedCall) (place : Place) (captured : List Statement)
    (prefixed : Bool) (s s' : State) (e : ExprId) : Prop :=
  ∃ s1 s2 value unary r updated, s.Le s1 ∧ s1.Le s2 ∧ s2.Le s' ∧
    place.Reads σ d scope s s1 value ∧ s2.Introduces "<unary>" unary value ∧
    s1.table.get? unary.symbol = none ∧ State.ReadsNew s1 s2 unary r ∧
    operator.IsCall σ d scope s1 s2 (some r) [] updated ∧
    Ends σ d scope s2 s' place (captured ++ [unary.statement]) unary updated e prefixed

/-- The block that a compound assignment to an element becomes. -/
def Updates (operator : ResolvedCall) (place : Place) (captured : List Statement)
    (right : Option NodeId) (s s' : State) (e : ExprId) : Prop :=
  ∃ s1 s2 element value updated store, s.Le s1 ∧ s1.Le s2 ∧ s2.Le s' ∧
    place.Reads σ d scope s s1 element ∧
    (∀ node ∈ right, State.Gives σ d scope s1 s2 node value) ∧
    operator.IsCall σ d scope s1 s2 (some element) [some value] updated ∧
    place.Stores σ d scope s2 s' updated store ∧
    s'.store.kind? e = some (.block (captured ++ [.expression store]))

end Place

end Lower

namespace Yields

variable {σ : Setting} {s : State}

theorem block {statements : List Statement} :
    Brings σ s (Lower.block statements) fun s' e =>
      s'.store.kind? e = some (.block statements) :=
  .bind (work Tidy.blockType) fun _ _ _ _ _ => addExpr_kind.imp fun _ _ _ h => h.1

section descent

variable {d : Descent} (hd : d.Naming σ) {scope : Scope} {operator : ResolvedCall} {place : Place}
  {captured : List Statement}

include hd

theorem holdsNode {name : Name} {node : NodeId} :
    Brings σ s (do Temporary.hold name (← d.expr scope node)) fun s' t =>
      State.HoldsNode σ d scope s s' name node t := by
  refine .bind (gives hd) fun value s1 h1 _ hvalue => ?_
  refine hold.imp_le fun s2 t h2 hheld => ?_
  exact ⟨value, hvalue.within (.refl s) h2, hheld.1, h1.get?_eq_none hheld.2⟩

theorem holdsNode_bind {α : Type} {Q : State → α → Prop} {name : Name} {node : NodeId}
    {k : Temporary → Lower α} (hk : ∀ t s', s.Le s' → State.HoldsNode σ d scope s s' name node t →
      Brings σ s' (k t) Q) :
    Brings σ s (d.expr scope node >>= fun value => Temporary.hold name value >>= k)
      Q := by
  rw [← bind_assoc]
  exact .bind (holdsNode hd) fun t s' h' _ ht => hk t s' h' ht

theorem captureIndexed {target array : NodeId} {indices : List NodeId} :
    Brings σ s (Place.captureIndexed d scope target array indices) fun s' built =>
      built.1.Captures σ d scope s s' target (.arrayAccess array indices) built.2 := by
  refine holdsNode_bind hd fun t s1 h1 ht => ?_
  have hindices : Brings σ s1 (indices.zipIdx.mapM fun index => do
      Temporary.hold s!"<index_{index.2}>" (← d.expr scope index.1)) fun s' ts =>
        List.Forall₂ (fun index t =>
          State.HoldsNode σ d scope s1 s' s!"<index_{index.2}>" index.1 t) indices.zipIdx ts :=
    mapM (fun hle h => h.within (.refl s1) hle)
      fun index _ s2 hle => (holdsNode hd).imp fun s3 _ _ h => h.within hle (.refl s3)
  refine .bind hindices fun ts s2 h2 _ hts => .pure ?_
  exact .indexed (ht.within (.refl s) h2) (hts.imp fun _ _ h => h.within h1 (.refl s2))

theorem capture {target : NodeId} {n : Node} (hn : σ.world.tree.node? target = some n)
    (hplace : n.kind.isPlace) :
    Brings σ s (Place.capture d scope target) fun s' built =>
      built.1.Captures σ d scope s s' target n.kind built.2 := by
  refine .node_bind fun n' hn' => ?_
  cases hn.symm.trans hn'
  obtain ⟨kind, span⟩ := n
  cases kind with
  | nameReference _ => exact .pure .name
  | qualified _ _ safe =>
    cases safe with
    | true => cases hplace
    | false => exact holdsNode_bind hd fun t s1 _ ht => .deparenthesize_bind (.pure (.member ht))
  | arrayAccess _ _ => exact captureIndexed hd
  | _ => cases hplace

theorem incrementPlace (hplace : place.Known σ) {prefixed : Bool} :
    Brings σ s (Lower.incrementPlace d scope operator place captured prefixed)
      fun s' e => Place.Increments σ d scope operator place captured prefixed s s' e := by
  refine .bind (readPlace hd) fun value s1 h1 _ hvalue => ?_
  refine .bind hold fun unary s2 h2 _ ⟨hunary, hnew⟩ => ?_
  refine .bind readsNew fun r s3 h3 _ hr => ?_
  refine .bind (work Tidy.convert) fun type s4 h4 _ _ => ?_
  refine .bind (isCall hd) fun updated s5 h5 _ hupdated => ?_
  have h45 := h4.trans h5
  have hends {s' : State} {e : ExprId} (hle : s5.Le s') (hend : Place.Ends σ d scope s5 s' place
      (captured ++ [unary.statement]) unary updated e prefixed) :
      Place.Increments σ d scope operator place captured prefixed s s' e :=
    ⟨s1, s5, value, unary, r, updated, h1, h2.trans (h3.trans h45), hle, hvalue,
      hunary.mono (h3.trans h45), hnew, hr.within h2 h45,
      hupdated.within (h2.trans (h3.trans h4)) (.refl s5), hend⟩
  cases prefixed with
  | false =>
    refine .bind (storePlace hd hplace) fun store s6 h6 _ hstore => ?_
    refine .bind readsNew fun result s7 h7 _ hresult => ?_
    refine block.imp_le fun s8 e h8 he => ?_
    exact hends (h6.trans (h7.trans h8)) (.postfixed h6 (h7.trans h8) hstore
      (hresult.within (.refl s6) h8) he)
  | true =>
    cases hname : place.isName with
    | true =>
      obtain ⟨node, rfl⟩ : ∃ node, place = .name node := by
        cases place with
        | name node => exact ⟨node, rfl⟩
        | _ => cases hname
      refine .bind (storePlace hd hplace) fun store s6 h6 _ hstore => ?_
      refine .bind (gives hd) fun result s7 h7 _ hresult => ?_
      refine block.imp_le fun s8 e h8 he => ?_
      exact hends (h6.trans (h7.trans h8)) (.name h6 (h7.trans h8) rfl hstore
        (hresult.within (.refl s6) h8) he)
    | false =>
      refine .bind hold fun kept s6 h6 _ ⟨hkept, hfresh⟩ => ?_
      refine .bind readsNew fun value s7 h7 _ hvalue => ?_
      refine .bind (storePlace hd hplace) fun store s8 h8 _ hstore => ?_
      refine .bind readsNew fun result s9 h9 _ hresult => ?_
      refine block.imp_le fun s' e h' he => ?_
      have h78 := h7.trans h8
      exact hends (h6.trans (h78.trans (h9.trans h'))) (.part (h6.trans h78) (h9.trans h') hname
        (hkept.mono h78) hfresh (hvalue.within h6 h8) (hstore.within (h6.trans h7) (.refl s8))
        (hresult.within (.refl s8) h') he)

theorem lowerIncrement {id operand : NodeId} {prefixed : Bool} {n : Node}
    (hn : σ.world.tree.node? (σ.world.tree.deparenthesize operand) = some n)
    (hplace : n.kind.isPlace) :
    Brings σ s (Lower.lowerIncrement d scope id operand prefixed) fun s' e =>
      ∃ operator place captured s1, (σ.world.factsOf id).call = some operator ∧
        s.Le s1 ∧ s1.Le s' ∧ Place.Captures σ d scope s s1 (σ.world.tree.deparenthesize operand)
          n.kind place captured ∧
        Place.Increments σ d scope operator place captured prefixed s1 s' e := by
  refine .deparenthesize_bind (.facts_bind (.required_bind fun operator hoperator => ?_))
  refine .bind (capture hd hn hplace) fun ⟨place, captured⟩ s1 h1 _ hcaptures => ?_
  refine (incrementPlace hd (hcaptures.known hn)).imp_le fun s' e h' he => ?_
  exact ⟨operator, place, captured, s1, hoperator, h1, h', hcaptures, he⟩

theorem givesOptional {node : Option NodeId} {what : String} :
    Brings σ s (Lower.lowerOptional d scope node what) fun s' e =>
      ∀ n ∈ node, State.Gives σ d scope s s' n e := by
  cases node with
  | none => exact (work Tidy.malformed).imp fun _ _ _ _ _ h => by cases h
  | some node =>
    refine (gives hd).imp fun _ _ _ hgives _ h => ?_
    cases h
    exact hgives

theorem lowerIndexedUpdate {id target array : NodeId} {indices : List NodeId}
    {right : Option NodeId} {span : Span}
    (hn : σ.world.tree.node? target = some ⟨.arrayAccess array indices, span⟩) :
    Brings σ s (Lower.lowerIndexedUpdate d scope id target array indices right)
      fun s' e => ∃ operator place captured s1, (σ.world.factsOf id).call = some operator ∧
        s.Le s1 ∧ s1.Le s' ∧
        place.Captures σ d scope s s1 target (.arrayAccess array indices) captured ∧
        Place.Updates σ d scope operator place captured right s1 s' e := by
  refine .facts_bind (.required_bind fun operator hoperator => ?_)
  refine .bind (captureIndexed hd) fun ⟨place, captured⟩ s1 h1 _ hcaptures => ?_
  refine .bind (readPlace hd) fun element s2 h2 _ helement => ?_
  refine .bind (givesOptional hd) fun value s3 h3 _ hvalue => ?_
  refine .bind (work Tidy.convert) fun type s4 h4 _ _ => ?_
  refine .bind (isCall hd) fun updated s5 h5 _ hupdated => ?_
  refine .bind (storePlace hd (hcaptures.known hn)) fun store s6 h6 _ hstore => ?_
  refine block.imp_le fun s7 e h7 he => ?_
  have h35 := h3.trans (h4.trans h5)
  exact ⟨operator, place, captured, s1, hoperator, h1, h2.trans (h35.trans (h6.trans h7)),
    hcaptures, s2, s5, element, value, updated, store, h2, h35, h6.trans h7, helement,
    fun node hnode => (hvalue node hnode).within (.refl s2) (h4.trans h5),
    hupdated.within (h3.trans h4) (.refl s5), hstore.within (.refl s5) h7, he⟩

end descent

end Yields

namespace Visits

variable {σ : Setting} {scope : Scope} {operator : ResolvedCall} {place : Place}
  {captured : List Statement}

theorem incrementPlace (hknown : place.Known σ) (hplace : place.Direct σ)
    (hone : operator.writtenReceivers.length = 1) {prefixed : Bool} :
    Visits σ (place.readVisits σ scope ++ (place.storeVisits σ scope ++
        if prefixed && place.isName then place.readVisits σ scope else []))
      fun d => Lower.incrementPlace d scope operator place captured prefixed := by
  refine (readPlace hplace).bind fun value => after _ fun unary => after _ fun r => ?_
  refine after _ fun type => ?_
  rw [← List.nil_append (place.storeVisits σ scope ++ _)]
  refine (callOn hone.le).bind fun updated => ?_
  cases prefixed with
  | false => exact (storePlace hknown hplace).bind fun store => work _
  | true =>
    cases hname : place.isName with
    | true => exact (storePlace hknown hplace).bind fun store => (readPlace hplace).before _
    | false =>
      refine after _ fun kept => after _ fun value => ?_
      exact (storePlace hknown hplace).bind fun store => work _

theorem captureIndexed_bind {α : Type} {target array : NodeId} {indices : List NodeId}
    {vs : List Visit} {k : Place × List Statement → Descent → Lower α}
    (h : ∀ t ts captured, Visits σ vs (k (.indexed target t ts, captured))) :
    Visits σ ((scope, array) :: indices.map (scope, ·) ++ vs)
      fun d => Place.captureIndexed d scope target array indices >>= fun built => k built d := by
  have hall : indices.map (scope, ·) = indices.zipIdx.flatMap fun index => [(scope, index.1)] := by
    conv_lhs => rw [← List.zipIdx_map_fst 0 indices, List.map_map, List.map_eq_flatMap]
    rfl
  simp only [Place.captureIndexed, bind_assoc, pure_bind]
  rw [List.cons_append, hall]
  refine (visit scope array).bind fun value => after _ fun t => ?_
  exact (mapM fun index _ => (visit scope index.1).before _).bind fun ts => h t ts _

theorem lowerIncrement {id operand : NodeId} {prefixed : Bool} {n : Node}
    (hn : σ.world.tree.node? (σ.world.tree.deparenthesize operand) = some n)
    (hplace : n.kind.isPlace)
    (hone : ∀ call ∈ (σ.world.factsOf id).call, call.writtenReceivers.length = 1)
    (haccessors : ∀ call ∈ σ.world.accessors (σ.world.tree.deparenthesize operand) n.kind,
      call.writtenReceivers.length = 1) :
    Visits σ (σ.incrementVisits scope (σ.world.tree.deparenthesize operand) prefixed n.kind)
      fun d => Lower.lowerIncrement d scope id operand prefixed := by
  refine deparenthesize_bind (facts_bind (required_bind fun operator hoperator => ?_))
  have hone := hone operator hoperator
  simp only [Place.capture, bind_assoc]
  refine node_bind fun n' hn' => ?_
  cases hn.symm.trans hn'
  obtain ⟨kind, span⟩ := n
  cases kind with
  | nameReference name =>
    have hknown : (Place.name (σ.world.tree.deparenthesize operand)).Known σ := ⟨name, span, hn⟩
    simpa [Setting.incrementVisits, Place.readVisits, Place.storeVisits, Place.isName] using
      @incrementPlace σ scope operator _ [] hknown trivial hone prefixed
  | qualified receiver selector safe =>
    cases safe with
    | true => cases hplace
    | false =>
      simp only [bind_assoc, pure_bind]
      change Visits σ ([(scope, receiver)] ++
        σ.selectorArguments scope (σ.world.tree.deparenthesize selector)) _
      refine (visit scope receiver).bind fun value => after _ fun t => deparenthesize_bind ?_
      simpa [Place.readVisits, Place.storeVisits, Place.isName] using
        @incrementPlace σ scope operator (.member _ t) [t.statement] trivial
          (Place.direct_member haccessors) hone prefixed
  | arrayAccess array indices =>
    have hall : σ.incrementVisits scope (σ.world.tree.deparenthesize operand) prefixed
        (.arrayAccess array indices) = (scope, array) :: indices.map (scope, ·) ++ [] := by
      simp [Setting.incrementVisits]
    rw [hall]
    refine captureIndexed_bind fun t ts captured => ?_
    simpa [Place.readVisits, Place.storeVisits, Place.isName] using
      @incrementPlace σ scope operator (.indexed _ t ts) captured trivial
        (Place.direct_indexed haccessors) hone prefixed
  | _ => cases hplace

theorem lowerIndexedUpdate {id target array : NodeId} {indices : List NodeId}
    {right : Option NodeId}
    (hone : ∀ call ∈ (σ.world.factsOf id).call, call.writtenReceivers.length = 1)
    (haccessors : ∀ call ∈ σ.world.accessors target (.arrayAccess array indices),
      call.writtenReceivers.length = 1) :
    Visits σ ((scope, array) :: indices.map (scope, ·) ++ right.toList.map (scope, ·))
      fun d => Lower.lowerIndexedUpdate d scope id target array indices right := by
  refine facts_bind (required_bind fun operator hoperator => captureIndexed_bind fun t ts _ => ?_)
  have hknown : (Place.indexed target t ts).Known σ := trivial
  have hdirect : (Place.indexed target t ts).Direct σ := Place.direct_indexed haccessors
  have hright : Visits σ (right.toList.map (scope, ·))
      fun d => lowerOptional d scope right "assigned value" := by
    cases right with
    | none => exact work _
    | some node => exact visit scope node
  rw [← List.nil_append (right.toList.map (scope, ·)), ← List.append_nil (right.toList.map _)]
  refine (readPlace hdirect).bind fun element => hright.bind fun value => after _ fun type => ?_
  exact (callOn (hone operator hoperator).le).bind fun updated =>
    (storePlace hknown hdirect).before _

end Visits

namespace State

/-- An increment, and a compound assignment to an element, evaluate the parts of the place once, in
the order of the source, into temporaries. Then they read the place through these and store in it
once, through new reads of the same temporaries. After the operand, the value is that from before;
before a name it is the name read again; before all else it is the new value. -/
theorem update_once {σ : Setting} {s s' : State} (hs : s.Apt σ) {fuel : Nat} {scope : Scope}
    {id : NodeId} {n : Node} {e : ExprId} (hn : σ.world.tree.node? id = some n)
    (hone : ∀ call ∈ (σ.world.factsOf id).call, call.writtenReceivers.length = 1)
    (hrun : (expressionStep (descent fuel) scope id).runFrom σ s = (.ok e, s')) :
    (∀ op operand prefixed place, n.kind = .unary op operand prefixed →
      op = .increment ∨ op = .decrement → let target := σ.world.tree.deparenthesize operand
      σ.world.tree.node? target = some place → place.kind.isPlace →
      (∀ call ∈ σ.world.accessors target place.kind, call.writtenReceivers.length = 1) →
      Visits σ (σ.incrementVisits scope target prefixed place.kind)
        (fun d => expressionStep d scope id) ∧
      ∃ operator p captured s1, (σ.world.factsOf id).call = some operator ∧ s.Le s1 ∧ s1.Le s' ∧
        Place.Captures σ (descent fuel) scope s s1 target place.kind p captured ∧
        Place.Increments σ (descent fuel) scope operator p captured prefixed s1 s' e) ∧
    ∀ op left right array indices span, n.kind = .binary op left right → op.isAugmented →
      (σ.world.factsOf id).isOperatorAssignment = false →
      let target := σ.world.tree.deparenthesize left
      σ.world.tree.node? target = some ⟨.arrayAccess array indices, span⟩ →
      (∀ call ∈ σ.world.accessors target (.arrayAccess array indices),
        call.writtenReceivers.length = 1) →
      Visits σ ((scope, array) :: indices.map (scope, ·) ++ right.toList.map (scope, ·))
        (fun d => expressionStep d scope id) ∧
      ∃ operator p captured s1, (σ.world.factsOf id).call = some operator ∧ s.Le s1 ∧ s1.Le s' ∧
        Place.Captures σ (descent fuel) scope s s1 target (.arrayAccess array indices) p captured ∧
        Place.Updates σ (descent fuel) scope operator p captured right s1 s' e := by
  obtain ⟨kind, span⟩ := n
  constructor
  · rintro op operand prefixed place rfl hop target hplace hkind haccessors
    refine ⟨(Visits.lowerIncrement hplace hkind hone haccessors).of_same fun d =>
      same_increment hn hop, ?_⟩
    have hlowers : Brings σ s
        (lowerIncrement (descent fuel) scope id operand prefixed) _ :=
      .lowerIncrement (Naming.descent fuel) hplace hkind
    exact hlowers.of_ran hs ((same_increment hn hop s).symm.trans hrun)
  · rintro op left right array indices span' rfl hop hplain target htarget haccessors
    have hsame (d : Descent) :=
      @same_augmented σ d scope id span op left right _ hn hop hplain htarget
    refine ⟨(Visits.lowerIndexedUpdate hone haccessors).of_same hsame, ?_⟩
    have hlowers : Brings σ s
        (lowerIndexedUpdate (descent fuel) scope id target array indices right) _ :=
      .lowerIndexedUpdate (Naming.descent fuel) htarget
    exact hlowers.of_ran hs ((hsame (descent fuel) s).symm.trans hrun)

end State

/-- The increment `a[i]++` and the assignment `a[i] += i`, where `set` may be of any kind. -/
def elementWorld (set : DescriptorKind) : World where
  tree :=
    { nodes := #[
        ⟨.unary .increment ⟨1⟩ false, .detached⟩,
        ⟨.arrayAccess ⟨2⟩ [⟨3⟩], .detached⟩,
        ⟨.nameReference "a", .detached⟩,
        ⟨.nameReference "i", .detached⟩,
        ⟨.binary .plusAssign ⟨1⟩ (some ⟨3⟩), .detached⟩]
      files := [] }
  facts := #[
    { type := some Builtin.intType
      call := some ⟨⟨15⟩, [], some (.expression ⟨1⟩), none, [], [], Builtin.intType⟩ },
    { indexed := some
        ⟨some ⟨⟨13⟩, [], some (.expression ⟨2⟩), none, [.expression ⟨3⟩], [], Builtin.intType⟩,
          some ⟨⟨14⟩, [], some (.expression ⟨2⟩), none, [.expression ⟨3⟩, .omitted], [],
            Builtin.unitType⟩⟩ },
    { type := some Builtin.anyType, target := some ⟨16⟩ },
    { type := some Builtin.intType, target := some ⟨17⟩ },
    { call := some ⟨⟨18⟩, [], some (.expression ⟨1⟩), none, [.expression ⟨3⟩], [],
        Builtin.intType⟩ }]
  declared := #[
    ⟨"get", [], none, .everywhere, [], .function { returnType := Builtin.intType }⟩,
    ⟨"set", [], none, .everywhere, [], set⟩,
    ⟨"inc", [], none, .everywhere, [], .function { returnType := Builtin.intType }⟩,
    ⟨"a", [], none, .everywhere, [], .property ⟨Builtin.anyType, true, false, false, false, .final,
      none, none, [], none, none⟩⟩,
    ⟨"i", [], none, .everywhere, [], .property ⟨Builtin.intType, true, false, false, false, .final,
      none, none, [], none, none⟩⟩,
    ⟨"plus", [], none, .everywhere, [], .function { returnType := Builtin.intType }⟩]
  types := #[]

theorem State.update_once_elementWorld :
    let σ : Setting := ⟨elementWorld (.function { returnType := Builtin.unitType }), {}⟩
    let r (id : NodeId) := (expressionStep (descent 4) [] id).runFrom σ {}
    State.Apt σ {} ∧
      (Visits σ [([], ⟨2⟩), ([], ⟨3⟩)] (fun d => expressionStep d [] ⟨0⟩) ∧
        ∃ e operator p captured s1, (r ⟨0⟩).1 = .ok e ∧
          (σ.world.factsOf ⟨0⟩).call = some operator ∧
          Place.Captures σ (descent 4) [] {} s1 ⟨1⟩ (.arrayAccess ⟨2⟩ [⟨3⟩]) p captured ∧
          Place.Increments σ (descent 4) [] operator p captured false s1 (r ⟨0⟩).2 e) ∧
      Visits σ [([], ⟨2⟩), ([], ⟨3⟩), ([], ⟨3⟩)] (fun d => expressionStep d [] ⟨4⟩) ∧
        ∃ e operator p captured s1, (r ⟨4⟩).1 = .ok e ∧
          (σ.world.factsOf ⟨4⟩).call = some operator ∧
          Place.Captures σ (descent 4) [] {} s1 ⟨1⟩ (.arrayAccess ⟨2⟩ [⟨3⟩]) p captured ∧
          Place.Updates σ (descent 4) [] operator p captured (some ⟨3⟩) s1 (r ⟨4⟩).2 e := by
  intro σ r
  have hone : ∀ id ∈ [(⟨0⟩ : NodeId), ⟨4⟩], ∀ call ∈ (σ.world.factsOf id).call,
      call.writtenReceivers.length = 1 := by decide
  have haccessors : ∀ call ∈ σ.world.accessors ⟨1⟩ (.arrayAccess ⟨2⟩ [⟨3⟩]),
      call.writtenReceivers.length = 1 := by decide
  refine ⟨Apt.start σ, ?_, ?_⟩
  · obtain ⟨e, hrun⟩ : ∃ e, r ⟨0⟩ = (.ok e, (r ⟨0⟩).2) := exists_ok (by decide +kernel)
    obtain ⟨hvisits, operator, p, captured, s1, hoperator, _, _, hcaptures, hincrements⟩ :=
      (@update_once σ {} _ (Apt.start σ) 4 [] ⟨0⟩ _ e rfl (hone ⟨0⟩ (by decide)) hrun).1 .increment
        ⟨1⟩ false ⟨.arrayAccess ⟨2⟩ [⟨3⟩], .detached⟩ rfl (.inl rfl) rfl rfl haccessors
    exact ⟨hvisits, e, operator, p, captured, s1, congrArg Prod.fst hrun, hoperator, hcaptures,
      hincrements⟩
  · obtain ⟨e, hrun⟩ : ∃ e, r ⟨4⟩ = (.ok e, (r ⟨4⟩).2) := exists_ok (by decide +kernel)
    obtain ⟨hvisits, operator, p, captured, s1, hoperator, _, _, hcaptures, hupdates⟩ :=
      (@update_once σ {} _ (Apt.start σ) 4 [] ⟨4⟩ _ e rfl (hone ⟨4⟩ (by decide)) hrun).2
        .plusAssign ⟨1⟩ (some ⟨3⟩) ⟨2⟩ [⟨3⟩] .detached rfl rfl rfl rfl haccessors
    exact ⟨hvisits, e, operator, p, captured, s1, congrArg Prod.fst hrun, hoperator, hcaptures,
      hupdates⟩

/-- Where `set` is a property, the store is a read of it. The index and the new value are nowhere in
it. -/
theorem State.increment_setProperty :
    let σ : Setting := ⟨elementWorld (.property ⟨Builtin.anyType, true, false, false, false,
      .final, none, none, [], none, none⟩), {}⟩
    let r := (expressionStep (descent 4) [] ⟨0⟩).runFrom σ {}
    (σ.world.accessors ⟨1⟩ (.arrayAccess ⟨2⟩ [⟨3⟩])).map (·.writtenReceivers) = [[⟨2⟩], [⟨2⟩]] ∧
      (σ.world.factsOf ⟨0⟩).call.map (·.writtenReceivers) = some [⟨1⟩] ∧
      r.1.toOption = some ⟨11⟩ ∧
      r.2.store.kind? ⟨11⟩ = some (.block [.declaration ⟨0⟩, .declaration ⟨1⟩, .declaration ⟨2⟩,
        .expression ⟨9⟩, .expression ⟨10⟩]) ∧
      r.2.store.kind? ⟨9⟩ = some (.read ⟨⟨10⟩, some ⟨7⟩, none, []⟩) ∧
      r.2.keyOf? ⟨10⟩ = some (.property, ⟨14⟩) := by
  decide +kernel

end TypedTree
