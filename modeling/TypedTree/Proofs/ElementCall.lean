import TypedTree.Proofs.ArgumentSlots
import TypedTree.Proofs.Update

namespace TypedTree

open Lower

/-- The expression is a call of the candidate with these arguments. -/
def ResolvedCall.Passes (σ : Setting) (s : State) (call : ResolvedCall)
    (slots : List (Option ExprId)) (e : ExprId) : Prop :=
  ∃ access, s.Denotes σ call.candidate access.callee ∧ s.store.kind? e = some (.call access slots)

namespace World

/-- The candidate of the call is called and not read. -/
def calls (w : World) (call : ResolvedCall) : Bool :=
  (w.descriptor? call.candidate).all fun candidate => !isRead candidate

theorem isRead_eq_false {w : World} {call : ResolvedCall} (h : w.calls call)
    {candidate : Descriptor}
    (hcandidate : w.descriptor? call.candidate = some candidate) : isRead candidate = false := by
  simpa [calls, hcandidate] using h

def elementGet? (w : World) (target : NodeId) : Option ResolvedCall :=
  (w.factsOf target).indexed.bind (·.get)

def elementSet? (w : World) (target : NodeId) : Option ResolvedCall :=
  (w.factsOf target).indexed.bind (·.set)

end World

theorem ResolvedCall.IsCall.passes {s s' : State} {call : ResolvedCall}
    (h : call.IsCall σ d scope s s' explicit slots e) (hcalls : σ.world.calls call) :
    call.Passes σ s' slots e := by
  obtain ⟨candidate, access, s1, s2, hcandidate, _, _, h2, haccess, he⟩ := h
  rw [World.isRead_eq_false hcalls hcandidate, if_neg Bool.false_ne_true] at he
  exact ⟨access, haccess.callee.mono h2, he⟩

namespace State

variable (σ : Setting) (target : NodeId) (ts : List Temporary)

/-- The call reads an element through new reads of the temporaries for its indices, with one slot
for each of them. -/
def ReadsElement (s s' : State) (slots : List (Option ExprId)) (e : ExprId) : Prop :=
  ∃ get rs, σ.world.elementGet? target = some get ∧ List.Forall₂ (ReadsNew s s') ts rs ∧
    slots = rs.map some ∧ get.Passes σ s' slots e

/-- The call stores in an element, with one slot more for the value. -/
def StoresElement (s s' : State) (slots : List (Option ExprId)) (e : ExprId) : Prop :=
  ∃ set rs value, σ.world.elementSet? target = some set ∧ List.Forall₂ (ReadsNew s s') ts rs ∧
    slots = rs.map some ++ [some value] ∧ set.Passes σ s' slots e

/-- The block that reads an element and then stores in it. -/
structure UpdatesElement (captured : List Statement) (s s' : State)
    (gets sets : List (Option ExprId)) (e : ExprId) : Prop where
  read : ∃ element, ReadsElement σ target ts s s' gets element
  store : ∃ store rest, StoresElement σ target ts s s' sets store ∧
    s'.store.kind? e = some (.block (captured ++ rest)) ∧ .expression store ∈ rest

variable {σ target ts} {s s' s0 s'' : State} {slots : List (Option ExprId)} {e : ExprId}

theorem ReadsElement.slots_filled (h : ReadsElement σ target ts s s' slots e) :
    slots.length = ts.length ∧ none ∉ slots := by
  obtain ⟨get, rs, _, hrs, rfl, _⟩ := h
  simp [hrs.length_eq]

theorem StoresElement.slots_filled (h : StoresElement σ target ts s s' slots e) :
    slots.length = ts.length + 1 ∧ none ∉ slots := by
  obtain ⟨set, rs, value, _, hrs, rfl, _⟩ := h
  simp [hrs.length_eq]

/-- An element that is read. There is a slot for each argument that is recorded, which is empty
where there is nothing to pass. -/
def ReadsByParameter (σ : Setting) (d : Descent) (scope : Scope) (target : NodeId) (s s' : State)
    (e : ExprId) : Prop :=
  ∃ get getter s1 s2 c before slots values kept, σ.world.elementGet? target = some get ∧
    σ.world.descriptor? get.candidate = some getter ∧ s.Le s1 ∧ s2.Le s' ∧
    get.Passes σ s' slots c ∧
    (before = [] ∧ e = c ∨ s'.store.kind? e = some (.block (before ++ [.expression c]))) ∧
    get.Places σ d scope s1 s2 before slots values kept ∧
    (∀ (i : Nat) (argument : ValueArgument), get.arguments[i]? = some argument →
      (slots[i]? = some none ↔ argument = .omitted ∨ argument = .vararg [])) ∧
    (get.arguments.length = getter.valueParameters.length →
      slots.length = getter.valueParameters.length)

/-- An element that is assigned a value. There is one slot for each index and one for the value,
whatever the parameters of the candidate are. -/
def AssignsByPosition (σ : Setting) (d : Descent) (scope : Scope) (target : NodeId)
    (indices : List NodeId) (right : Option NodeId) (s s' : State) (e : ExprId) : Prop :=
  ∃ set values value slots, σ.world.elementSet? target = some set ∧
    (∀ node ∈ right, Gives σ d scope s s' node value) ∧
    List.Forall₂ (Gives σ d scope s s') indices values ∧
    slots = values.map some ++ [some value] ∧ slots.length = indices.length + 1 ∧
    set.Passes σ s' slots e

/-- An element that is updated after the array and the indices have been evaluated. Whatever the
parameters of the candidates are, there is one slot for each index, none of them empty. -/
def UpdatesByPosition (σ : Setting) (d : Descent) (scope : Scope) (target array : NodeId)
    (indices : List NodeId) (s s' : State) (e : ExprId) : Prop :=
  ∃ t ts captured s1 gets sets, s.Le s1 ∧ s1.Le s' ∧
    Place.Captures σ d scope s s1 target (.arrayAccess array indices) (.indexed target t ts)
      captured ∧
    UpdatesElement σ target ts captured s1 s' gets sets e ∧
    gets.length = indices.length ∧ none ∉ gets ∧
    sets.length = indices.length + 1 ∧ none ∉ sets

theorem UpdatesElement.byPosition (h : UpdatesElement σ target ts captured s1 s' gets sets e)
    (hcaptures : Place.Captures σ d scope s s1 target (.arrayAccess array indices)
      (.indexed target t ts) captured)
    (h1 : s.Le s1) (h' : s1.Le s') : UpdatesByPosition σ d scope target array indices s s' e := by
  have hlength : ts.length = indices.length := by
    cases hcaptures with
    | indexed _ hts => simpa using hts.length_eq.symm
  obtain ⟨element, hread⟩ := h.read
  obtain ⟨store, rest, hstore, _⟩ := h.store
  refine ⟨t, ts, captured, s1, gets, sets, h1, h', hcaptures, h, ?_⟩
  rw [← hlength]
  exact ⟨hread.slots_filled.1, hread.slots_filled.2, hstore.slots_filled⟩

section place

variable {d : Descent} {scope : Scope} {t : Temporary} {captured : List Statement}
  {operator : ResolvedCall}
  (hgets : ∀ get ∈ σ.world.elementGet? target, σ.world.calls get)
  (hsets : ∀ set ∈ σ.world.elementSet? target, σ.world.calls set)

include hgets in
theorem ReadsElement.of_reads (h : (Place.indexed target t ts).Reads σ d scope s s' e)
    (h' : s'.Le s'') : ∃ slots, ReadsElement σ target ts s s'' slots e := by
  obtain ⟨get, r, rs, hget, _, hrs, he⟩ := h
  exact ⟨_, get, rs, hget, hrs.imp fun _ _ h => h.within (.refl s) h', rfl,
    (he.within (.refl s) h').passes (hgets get hget)⟩

include hsets in
theorem StoresElement.of_stores {value : ExprId}
    (h : (Place.indexed target t ts).Stores σ d scope s s' value e) (h0 : s0.Le s)
    (h' : s'.Le s'') : ∃ slots, StoresElement σ target ts s0 s'' slots e := by
  obtain ⟨set, r, rs, hset, _, hrs, he⟩ := h.within h0 h'
  exact ⟨_, set, rs, value, hset, hrs, rfl, he.passes (hsets set hset)⟩

include hgets hsets

theorem UpdatesElement.of_increments {prefixed : Bool}
    (h : Place.Increments σ d scope operator (.indexed target t ts) captured prefixed s s' e) :
    ∃ gets sets, UpdatesElement σ target ts captured s s' gets sets e := by
  obtain ⟨s1, s2, value, unary, r, updated, h1, h2, h', hreads, _, _, _, _, hends⟩ := h
  obtain ⟨gets, hread⟩ := ReadsElement.of_reads hgets hreads (h2.trans h')
  cases hends with
  | postfixed h3 h4 hstores _ he | part h3 h4 _ _ _ _ hstores _ he =>
    obtain ⟨sets, hstore⟩ := StoresElement.of_stores hsets hstores (h1.trans h2) h4
    rw [List.append_assoc] at he
    exact ⟨gets, sets, ⟨value, hread⟩, ⟨_, _, hstore, he, by simp⟩⟩
  | name _ _ hname => cases hname

theorem UpdatesElement.of_updates {right : Option NodeId}
    (h : Place.Updates σ d scope operator (.indexed target t ts) captured right s s' e) :
    ∃ gets sets, UpdatesElement σ target ts captured s s' gets sets e := by
  obtain ⟨s1, s2, element, value, updated, store, h1, h2, h', hreads, _, _, hstores, he⟩ := h
  obtain ⟨gets, hread⟩ := ReadsElement.of_reads hgets hreads (h2.trans h')
  obtain ⟨sets, hstore⟩ := StoresElement.of_stores hsets hstores (h1.trans h2) (.refl s')
  exact ⟨gets, sets, ⟨element, hread⟩, ⟨store, _, hstore, he, by simp⟩⟩

end place

end State

namespace Lower

variable {σ : Setting} {d : Descent} {scope : Scope} {id : NodeId} {span : Span}

theorem same_arrayAccess (hn : σ.world.tree.node? id = some ⟨.arrayAccess array indices, span⟩) :
    Same σ (expressionStep d scope id) (lowerArrayAccess d scope id) :=
  same_node_bind hn _

theorem same_assign (hn : σ.world.tree.node? id = some ⟨.binary .assign left right, span⟩)
    (htarget : σ.world.tree.node? (σ.world.tree.deparenthesize left) = some n) :
    Same σ (expressionStep d scope id) (do
      assignTo d scope (σ.world.tree.deparenthesize left)
        (← lowerOptional d scope right "assigned value")) :=
  (same_node_bind hn _).trans ((same_facts_bind _).trans
    ((same_deparenthesize_bind _).trans (same_node_bind htarget _)))

end Lower

namespace Yields

variable {σ : Setting} {s : State} {d : Descent} (hd : d.Naming σ) {scope : Scope}

include hd

section call

variable {call : ResolvedCall} (hcalls : σ.world.calls call) {type : TreeType}

include hcalls

theorem passesPlaced (hlists : call.Lists call.evaluationOrder) :
    Brings σ s (Lower.buildCall d scope call type {}) fun s' e =>
      ∃ s1 s2 c before slots values kept candidate,
        σ.world.descriptor? call.candidate = some candidate ∧ s.Le s1 ∧ s2.Le s' ∧
        call.Passes σ s' slots c ∧ call.Places σ d scope s1 s2 before slots values kept ∧
        (before = [] ∧ e = c ∨ s'.store.kind? e = some (.block (before ++ [.expression c]))) := by
  refine .bind (accesses hd) fun access s1 h1 _ haccess => ?_
  refine .descriptor_bind fun candidate hcandidate => ?_
  rw [World.isRead_eq_false hcalls hcandidate, if_neg Bool.false_ne_true]
  refine .bind (placesArguments hd hlists) fun built s2 h2 _ ⟨values, kept, hplaces, _⟩ => ?_
  refine .bind addExpr_kind fun c s3 h3 _ ⟨hkind, _⟩ => ?_
  refine withPrelude.imp_le fun s4 e h4 he => ?_
  exact ⟨s1, s2, c, built.1, built.2, values, kept, candidate, hcandidate, h1, h3.trans h4,
    ⟨access, haccess.callee.mono (h2.trans (h3.trans h4)), h4.kind? hkind⟩, hplaces, he⟩

end call

section element

variable {target array : NodeId} {indices : List NodeId}
  (hgets : ∀ get ∈ σ.world.elementGet? target, σ.world.calls get)
  (hsets : ∀ set ∈ σ.world.elementSet? target, σ.world.calls set)

include hgets in
theorem readsByParameter
    (horder : ∀ get ∈ σ.world.elementGet? target, get.order = [] ∨ get.Lists get.order) :
    Brings σ s (Lower.lowerArrayAccess d scope target) fun s' e =>
      State.ReadsByParameter σ d scope target s s' e := by
  simp only [Lower.lowerArrayAccess, indexedGet, bind_assoc]
  refine .facts_bind (.required_bind fun get hget => ?_)
  refine .bind (work Tidy.expressionType) fun type s1 h1 _ _ => ?_
  have hlists : get.Lists get.evaluationOrder := .evaluationOrder (horder get hget)
  refine (passesPlaced hd (hgets get hget) hlists).imp fun s' e _ hbuilt => ?_
  obtain ⟨s2, s3, c, before, slots, values, kept, getter, hgetter, h2, h3, hpasses, hplaces, he⟩ :=
    hbuilt
  exact ⟨get, getter, s2, s3, c, before, slots, values, kept, hget, hgetter, h1.trans h2, h3,
    hpasses, he, hplaces, fun i argument hi => hplaces.slot_eq_none_iff hi, hplaces.length.trans⟩

include hsets in
theorem assignsByPosition {span : Span} {right : Option NodeId}
    (hn : σ.world.tree.node? target = some ⟨.arrayAccess array indices, span⟩) :
    Brings σ s (do
      Lower.assignTo d scope target (← Lower.lowerOptional d scope right "assigned value"))
      fun s' e => State.AssignsByPosition σ d scope target indices right s s' e := by
  refine .bind (givesOptional hd) fun value s1 h1 _ hvalue => ?_
  refine .node_bind fun n hn' => ?_
  cases hn.symm.trans hn'
  simp only [indexedSet, bind_assoc]
  refine .facts_bind (.required_bind fun set hset => ?_)
  have hindices : Brings σ s1 (indices.mapM (d.expr scope)) fun s' values =>
      List.Forall₂ (State.Gives σ d scope s1 s') indices values :=
    mapM (S := fun s' => State.Gives σ d scope s1 s') (fun hle h => h.within (.refl s1) hle)
      fun _ _ _ hle => (gives hd).imp fun s2 _ _ h => h.within hle (.refl s2)
  refine .bind hindices fun values s2 h2 _ hvalues => ?_
  refine .bind (work Tidy.convert) fun type s3 h3 _ _ => ?_
  refine (isCall hd).imp_le fun s4 e h4 he => ?_
  have h34 := h3.trans h4
  exact ⟨set, values, value, _, hset,
    fun node hnode => (hvalue node hnode).within (.refl s) (h2.trans h34),
    hvalues.imp fun _ _ h => h.within h1 h34, rfl, by simp [hvalues.length_eq],
    he.passes (hsets set hset)⟩

end element

end Yields

/-- An element that is read has a slot for each entry of the call that reads it, empty where there
is nothing to pass, and an array in the slot of a vararg. An assignment, a compound assignment, an
increment and a decrement pass the indices by position: there are as many slots as indices, and one
more for the value that is stored, whatever the parameters of the candidates are. -/
theorem State.element_slots {σ : Setting} {s s' : State} (hs : s.Apt σ) {fuel : Nat} {scope : Scope}
    {id target array : NodeId} {indices : List NodeId} {span : Span} {e : ExprId}
    (htarget : σ.world.tree.node? target = some ⟨.arrayAccess array indices, span⟩)
    (hgets : ∀ get ∈ σ.world.elementGet? target, σ.world.calls get)
    (hsets : ∀ set ∈ σ.world.elementSet? target, σ.world.calls set)
    (hrun : (expressionStep (descent fuel) scope id).runFrom σ s = (.ok e, s')) :
    (id = target →
      (∀ get ∈ σ.world.elementGet? target, get.order = [] ∨ get.Lists get.order) →
      ReadsByParameter σ (descent fuel) scope target s s' e) ∧
    (∀ left right span, σ.world.tree.node? id = some ⟨.binary .assign left right, span⟩ →
      σ.world.tree.deparenthesize left = target →
      AssignsByPosition σ (descent fuel) scope target indices right s s' e) ∧
    (∀ op left right span, σ.world.tree.node? id = some ⟨.binary op left right, span⟩ →
      op.isAugmented → (σ.world.factsOf id).isOperatorAssignment = false →
      σ.world.tree.deparenthesize left = target →
      UpdatesByPosition σ (descent fuel) scope target array indices s s' e) ∧
    ∀ op operand prefixed span, σ.world.tree.node? id = some ⟨.unary op operand prefixed, span⟩ →
      op = .increment ∨ op = .decrement → σ.world.tree.deparenthesize operand = target →
      UpdatesByPosition σ (descent fuel) scope target array indices s s' e := by
  have hd : (descent fuel).Naming σ := Naming.descent fuel
  refine ⟨?_, ?_, ?_, ?_⟩
  · rintro rfl horder
    exact (Yields.readsByParameter hd hgets horder).of_ran hs
      ((same_arrayAccess htarget s).symm.trans hrun)
  · rintro left right span' hn rfl
    exact (Yields.assignsByPosition hd hsets htarget).of_ran hs
      ((same_assign hn htarget s).symm.trans hrun)
  · rintro op left right span' hn hop hplain rfl
    obtain ⟨operator, place, captured, s1, _, h1, h', hcaptures, hupdates⟩ :=
      (Yields.lowerIndexedUpdate hd htarget).of_ran hs
        ((same_augmented hn hop hplain htarget s).symm.trans hrun)
    cases hcaptures with
    | indexed ht hts =>
      obtain ⟨gets, sets, he⟩ := UpdatesElement.of_updates hgets hsets hupdates
      exact he.byPosition (.indexed ht hts) h1 h'
  · rintro op operand prefixed span' hn hop rfl
    obtain ⟨operator, place, captured, s1, _, h1, h', hcaptures, hincrements⟩ :=
      (Yields.lowerIncrement hd htarget rfl).of_ran hs ((same_increment hn hop s).symm.trans hrun)
    cases hcaptures with
    | indexed ht hts =>
      obtain ⟨gets, sets, he⟩ := UpdatesElement.of_increments hgets hsets hincrements
      exact he.byPosition (.indexed ht hts) h1 h'

/-- The functions `get(index, offset = 0)` and `set(index, offset = 0, value)`, and the element
`a[i]` that is incremented, read, updated and assigned. -/
def offsetWorld : World where
  tree :=
    { nodes := (elementWorld setter).tree.nodes.push ⟨.binary .assign ⟨1⟩ (some ⟨3⟩), .detached⟩
      files := [] }
  facts := (elementWorld setter).facts.setIfInBounds 1
    { type := some Builtin.intType
      indexed := some
        ⟨some ⟨⟨13⟩, [], some (.expression ⟨2⟩), none, [.expression ⟨3⟩, .omitted], [],
            Builtin.intType⟩,
          some ⟨⟨14⟩, [], some (.expression ⟨2⟩), none, [.expression ⟨3⟩, .omitted, .omitted], [],
            Builtin.unitType⟩⟩ }
  declared := (elementWorld setter).declared.setIfInBounds 0
      ⟨"get", [], none, .everywhere, [],
        .function { valueParameters := [⟨19⟩, ⟨20⟩], returnType := Builtin.intType }⟩ ++
    #[parameter "index" 0 false, parameter "offset" 1 true, parameter "value" 2 false]
  types := #[]
where
  setter : DescriptorKind :=
    .function { valueParameters := [⟨19⟩, ⟨20⟩, ⟨21⟩], returnType := Builtin.unitType }
  parameter (name : Name) (index : Nat) (declaresDefault : Bool) : Descriptor :=
    ⟨name, [], none, .inBody, [],
      .valueParameter ⟨index, Builtin.intType, declaresDefault, false, false, false⟩⟩

theorem State.element_slots_offsetWorld :
    let σ : Setting := ⟨offsetWorld, {}⟩
    let r (id : NodeId) := (expressionStep (descent 4) [] id).runFrom σ {}
    State.Apt σ {} ∧
      (∃ e, (r ⟨1⟩).1 = .ok e ∧ ReadsByParameter σ (descent 4) [] ⟨1⟩ {} (r ⟨1⟩).2 e) ∧
      (∃ e, (r ⟨5⟩).1 = .ok e ∧
        AssignsByPosition σ (descent 4) [] ⟨1⟩ [⟨3⟩] (some ⟨3⟩) {} (r ⟨5⟩).2 e) ∧
      (∃ e, (r ⟨4⟩).1 = .ok e ∧
        UpdatesByPosition σ (descent 4) [] ⟨1⟩ ⟨2⟩ [⟨3⟩] {} (r ⟨4⟩).2 e) ∧
      ∃ e, (r ⟨0⟩).1 = .ok e ∧
        UpdatesByPosition σ (descent 4) [] ⟨1⟩ ⟨2⟩ [⟨3⟩] {} (r ⟨0⟩).2 e := by
  intro σ r
  have hgets : ∀ get ∈ σ.world.elementGet? ⟨1⟩, σ.world.calls get := by decide
  have hsets : ∀ set ∈ σ.world.elementSet? ⟨1⟩, σ.world.calls set := by decide
  have horder : ∀ get ∈ σ.world.elementGet? ⟨1⟩, get.order = [] := by decide
  have hok : ∀ id ∈ [(⟨0⟩ : NodeId), ⟨1⟩, ⟨4⟩, ⟨5⟩], (r id).1.toOption.isSome := by decide +kernel
  have hslots {id : NodeId} {e : ExprId} (hrun : r id = (.ok e, (r id).2)) :=
    @element_slots σ {} _ (Apt.start σ) 4 [] id ⟨1⟩ ⟨2⟩ [⟨3⟩] .detached e rfl hgets hsets hrun
  obtain ⟨e0, h0⟩ := exists_ok (hok ⟨0⟩ (by decide))
  obtain ⟨e1, h1⟩ := exists_ok (hok ⟨1⟩ (by decide))
  obtain ⟨e4, h4⟩ := exists_ok (hok ⟨4⟩ (by decide))
  obtain ⟨e5, h5⟩ := exists_ok (hok ⟨5⟩ (by decide))
  refine ⟨Apt.start σ, ⟨e1, congrArg Prod.fst h1, (hslots h1).1 rfl fun get hget => ?_⟩,
    ⟨e5, congrArg Prod.fst h5, (hslots h5).2.1 _ _ .detached rfl rfl⟩,
    ⟨e4, congrArg Prod.fst h4, (hslots h4).2.2.1 .plusAssign _ _ .detached rfl rfl rfl rfl⟩,
    ⟨e0, congrArg Prod.fst h0, (hslots h0).2.2.2 .increment _ _ .detached rfl (.inl rfl) rfl⟩⟩
  exact .inl (horder get hget)

/-- The read of `a[i]` has an empty slot for the offset. In `a[i]++` neither `get` nor `set` has a
slot for it, and the new value stands where the offset belongs. -/
theorem State.increment_drops_default :
    let σ : Setting := ⟨offsetWorld, {}⟩
    let read := (expressionStep (descent 4) [] ⟨1⟩).runFrom σ {}
    let increment := (expressionStep (descent 4) [] ⟨0⟩).runFrom σ {}
    let parameters (call : Option ResolvedCall) :=
      (call.bind fun call => σ.world.descriptor? call.candidate).map (·.valueParameters.length)
    (σ.world.elementGet? ⟨1⟩).map (·.arguments.length) = some 2 ∧
      parameters (σ.world.elementGet? ⟨1⟩) = some 2 ∧
      parameters (σ.world.elementSet? ⟨1⟩) = some 3 ∧
      read.2.store.kind? ⟨2⟩ = some (.call ⟨⟨1⟩, some ⟨0⟩, none, []⟩ [some ⟨1⟩, none]) ∧
      read.2.keyOf? ⟨1⟩ = some (.function, ⟨13⟩) ∧
      increment.2.store.kind? ⟨4⟩ = some (.call ⟨⟨6⟩, some ⟨2⟩, none, []⟩ [some ⟨3⟩]) ∧
      increment.2.keyOf? ⟨6⟩ = some (.function, ⟨13⟩) ∧
      increment.2.store.kind? ⟨9⟩ =
        some (.call ⟨⟨10⟩, some ⟨7⟩, none, []⟩ [some ⟨8⟩, some ⟨6⟩]) ∧
      increment.2.keyOf? ⟨10⟩ = some (.function, ⟨14⟩) := by
  decide +kernel

end TypedTree
