import TypedTree.Proofs.ArgumentOrder
import TypedTree.Proofs.Visits

namespace TypedTree

open Lower

namespace State

variable {σ : Setting} {d : Descent} {scope : Scope} {s s' s0 s'' : State} {desc : DescId}
  {id : SymbolId} {node : NodeId} {explicit receiver : Option ExprId} {r : ExprId}

def Denotes (σ : Setting) (s : State) (desc : DescId) (id : SymbolId) : Prop :=
  ∃ d, σ.world.descriptor? desc = some d ∧ s.keyOf? id = some (d.symbolKind, desc)

theorem Denotes.mono (h : s.Denotes σ desc id) (hle : s.Le s') : s'.Denotes σ desc id := by
  obtain ⟨d, hd, hkey⟩ := h
  exact ⟨d, hd, hle.keyOf? hkey⟩

/-- What a written receiver becomes: the explicit one if that is left, or else what the node is
lowered to. -/
def Receives (σ : Setting) (d : Descent) (scope : Scope) (s s' : State) (explicit : Option ExprId)
    (node : NodeId) (receiver : Option ExprId) : Prop :=
  ∃ r, receiver = some r ∧ (explicit = some r ∨ explicit = none ∧ Gives σ d scope s s' node r)

theorem Receives.within (h : Receives σ d scope s s' explicit node receiver) (h0 : s0.Le s)
    (h' : s'.Le s'') : Receives σ d scope s0 s'' explicit node receiver := by
  obtain ⟨r, hr, hgiven⟩ := h
  exact ⟨r, hr, hgiven.imp_right fun hgives => ⟨hgives.1, hgives.2.within h0 h'⟩⟩

theorem Receives.eq_some (h : Receives σ d scope s s' (some r) node receiver) :
    receiver = some r := by
  obtain ⟨_, rfl, h | ⟨h, _⟩⟩ := h
  · exact h.symm
  · cases h

end State

namespace ResolvedCall

variable {σ : Setting} {d : Descent} {scope : Scope} {s s' s0 s'' : State} {call : ResolvedCall}
  {explicit : Option ExprId} {access : Access} {arguments : List (Option ExprId)} {e : ExprId}

/-- Whether an explicit receiver goes to the extension: where that is written, or where nothing is
written and there is one. -/
def givesExtension (call : ResolvedCall) : Bool :=
  (call.extensionReceiver.bind (·.written?)).isSome ||
    call.extensionReceiver.isSome && (call.dispatchReceiver.bind (·.written?)).isNone

/-- The access goes to the candidate. An explicit receiver has the place of the first one that is
written, and what is written otherwise is lowered for its own place. -/
structure Accesses (σ : Setting) (d : Descent) (scope : Scope) (s s' : State) (call : ResolvedCall)
    (explicit : Option ExprId) (access : Access) : Prop where
  callee : s'.Denotes σ call.candidate access.callee
  extension : ∀ node ∈ call.extensionReceiver.bind (·.written?),
    State.Receives σ d scope s s' explicit node access.extensionReceiver
  dispatch : ∀ node ∈ call.dispatchReceiver.bind (·.written?),
    State.Receives σ d scope s s' (explicitAfter call.extensionReceiver explicit) node
      access.dispatchReceiver
  explicit : ∀ r ∈ explicit,
    (if call.givesExtension then access.extensionReceiver else access.dispatchReceiver) = some r

theorem Accesses.within (h : call.Accesses σ d scope s s' explicit access) (h0 : s0.Le s)
    (h' : s'.Le s'') : call.Accesses σ d scope s0 s'' explicit access :=
  ⟨h.callee.mono h', fun node hnode => (h.extension node hnode).within h0 h',
    fun node hnode => (h.dispatch node hnode).within h0 h', h.explicit⟩

theorem Accesses.assembled {callee : SymbolId} {extension dispatch : Option ExprId}
    {types : List TreeType} (hcallee : s'.Denotes σ call.candidate callee)
    (hextension : ∀ node ∈ call.extensionReceiver.bind (·.written?),
      State.Receives σ d scope s s' explicit node extension)
    (hdispatch : ∀ node ∈ call.dispatchReceiver.bind (·.written?),
      State.Receives σ d scope s s' (explicitAfter call.extensionReceiver explicit) node dispatch) :
    call.Accesses σ d scope s s' explicit (assembleAccess call callee extension dispatch
      (explicitAfter call.dispatchReceiver (explicitAfter call.extensionReceiver explicit))
      types) := by
  cases hx : call.extensionReceiver.bind (·.written?) with
  | some node =>
    have hleft : explicitAfter call.extensionReceiver explicit = none := by
      simp [explicitAfter, hx]
    rw [hleft, explicitAfter_none]
    refine ⟨hcallee, hextension, hdispatch, ?_⟩
    rintro r rfl
    simpa [givesExtension, hx, assembleAccess] using (hextension node hx).eq_some
  | none =>
    cases hw : call.dispatchReceiver.bind (·.written?) with
    | some node =>
      have hleft : explicitAfter call.dispatchReceiver
          (explicitAfter call.extensionReceiver explicit) = none := by simp [explicitAfter, hw]
      rw [hleft]
      refine ⟨hcallee, hextension, hdispatch, ?_⟩
      rintro r rfl
      have hreceives := hdispatch node hw
      rw [explicitAfter, hx] at hreceives
      simpa [givesExtension, hx, hw, assembleAccess] using hreceives.eq_some
    | none =>
      have hleft : explicitAfter call.dispatchReceiver
          (explicitAfter call.extensionReceiver explicit) = explicit := by
        simp [explicitAfter, hx, hw]
      rw [hleft]
      cases hsome : call.extensionReceiver.isSome
      all_goals
        refine ⟨?_, by simp [hx], by simp [hw], ?_⟩
        · cases explicit <;> simpa [assembleAccess, hsome] using hcallee
        · rintro r rfl
          simp [givesExtension, hx, hw, hsome, assembleAccess]

/-- The expression is the call with these arguments, through the access that is built for it between
the states. A candidate that is read takes no arguments. -/
def IsCall (σ : Setting) (d : Descent) (scope : Scope) (s s' : State) (call : ResolvedCall)
    (explicit : Option ExprId) (arguments : List (Option ExprId)) (e : ExprId) : Prop :=
  ∃ candidate access s1 s2, σ.world.descriptor? call.candidate = some candidate ∧ s.Le s1 ∧
    (buildAccess d scope call explicit).runFrom σ s1 = (.ok access, s2) ∧ s2.Le s' ∧
    call.Accesses σ d scope s1 s2 explicit access ∧
    s'.store.kind? e = some (if isRead candidate then .read access else .call access arguments)

theorem IsCall.within (h : call.IsCall σ d scope s s' explicit arguments e) (h0 : s0.Le s)
    (h' : s'.Le s'') : call.IsCall σ d scope s0 s'' explicit arguments e := by
  obtain ⟨candidate, access, s1, s2, hcandidate, h1, hrun, h2, haccess, he⟩ := h
  exact ⟨candidate, access, s1, s2, hcandidate, h0.trans h1, hrun, h2.trans h', haccess,
    h'.kind? he⟩

end ResolvedCall

/-- The access goes to what the name refers to, through an explicit receiver if there is one. -/
inductive State.AccessesName (σ : Setting) (d : Descent) (scopeOf : ResolvedCall → Scope)
    (s s' : State) (name : NodeId) (explicit : Option ExprId) : Access → Prop
  | call {call access} : (σ.world.factsOf name).call = some call →
      call.Accesses σ d (scopeOf call) s s' explicit access →
      AccessesName σ d scopeOf s s' name explicit access
  | target {target symbol} : (σ.world.factsOf name).call = none →
      (σ.world.factsOf name).target = some target → s'.Denotes σ target symbol →
      AccessesName σ d scopeOf s s' name explicit ⟨symbol, explicit, none, []⟩

theorem State.AccessesName.within {s s' s0 s'' : State}
    (h : AccessesName σ d scopeOf s s' name explicit access) (h0 : s0.Le s) (h' : s'.Le s'') :
    AccessesName σ d scopeOf s0 s'' name explicit access := by
  cases h with
  | call hcall haccess => exact .call hcall (haccess.within h0 h')
  | target hnone htarget hsymbol => exact .target hnone htarget (hsymbol.mono h')

/-- The expression is what the name or the call gives on the receiver. The arguments of a call are
lowered behind its other receivers. -/
inductive State.Selects (σ : Setting) (d : Descent) (scope : Scope) (s s' : State)
    (selector : NodeId) (r : ExprId) (e : ExprId) : Prop
  | read {access} :
      AccessesName σ d (σ.selectorScope scope selector) s s' selector (some r) access →
      s'.store.kind? e = some (.read access) →
      (∀ call ∈ (σ.world.factsOf selector).call,
        (σ.world.descriptor? call.candidate).any isRead) → Selects σ d scope s s' selector r e
  | call {call access before slots c s1 s2} : (σ.world.factsOf selector).call = some call →
      call.Accesses σ d (σ.selectorScope scope selector call) s s1 (some r) access →
      s.Le s1 → (lowerArguments d (σ.selectorScope scope selector call) call).runFrom σ s1 =
        (.ok (before, slots), s2) → s2.Le s' →
      s'.store.kind? c = some (.call access slots) →
      (before = [] ∧ e = c ∨ s'.store.kind? e = some (.block (before ++ [.expression c]))) →
      Selects σ d scope s s' selector r e

namespace Lower.Place

variable (σ : Setting) (d : Descent) (scope : Scope) (s s' : State)

/-- A name, a member or an element, and not just any node. -/
def Known : Place → Prop
  | .name node => ∃ name span, σ.world.tree.node? node = some ⟨.nameReference name, span⟩
  | .other _ => False
  | _ => True

/-- The calls that read and store a place have one receiver to write. -/
def Direct : Place → Prop
  | .member selector _ =>
    ∀ call ∈ (σ.world.factsOf selector).call, call.writtenReceivers.length = 1
  | .indexed node _ _ =>
    (∀ get ∈ (σ.world.factsOf node).indexed.bind (·.get), get.writtenReceivers.length = 1) ∧
      ∀ set ∈ (σ.world.factsOf node).indexed.bind (·.set), set.writtenReceivers.length = 1
  | _ => True

/-- The expression is the current value of the place, through new reads of its temporaries. -/
def Reads : Place → ExprId → Prop
  | .name node, e | .other node, e => State.Gives σ d scope s s' node e
  | .member selector t, e => ∃ r, State.ReadsNew s s' t r ∧
      State.Selects σ d scope s s' selector r e
  | .indexed node t ts, e => ∃ get r rs, (σ.world.factsOf node).indexed.bind (·.get) = some get ∧
      State.ReadsNew s s' t r ∧ List.Forall₂ (State.ReadsNew s s') ts rs ∧
      get.IsCall σ d scope s s' (some r) (rs.map some) e

/-- The expression stores the value in the place, through new reads of its temporaries. -/
def Stores (value : ExprId) : Place → ExprId → Prop
  | .name node, e => ∃ access, State.AccessesName σ d (fun _ => scope) s s' node none access ∧
      s'.store.kind? e = some (.assignment access value)
  | .member selector t, e => ∃ r access, State.ReadsNew s s' t r ∧
      State.AccessesName σ d (fun _ => scope) s s' selector (some r) access ∧
      s'.store.kind? e = some (.assignment access value)
  | .indexed node t ts, e => ∃ set r rs, (σ.world.factsOf node).indexed.bind (·.set) = some set ∧
      State.ReadsNew s s' t r ∧ List.Forall₂ (State.ReadsNew s s') ts rs ∧
      set.IsCall σ d scope s s' (some r) (rs.map some ++ [some value]) e
  | .other _, _ => False

def readVisits : Place → List Visit
  | .name node | .other node => [(scope, node)]
  | .member selector _ => σ.selectorArguments scope selector
  | .indexed _ _ _ => []

def storeVisits : Place → List Visit
  | .name node => σ.assignedReceivers scope node
  | _ => []

end Lower.Place

namespace Yields

variable {σ : Setting} {s : State}

section reading

variable {I : State → Prop} {α β : Type} {Q : State → β → Prop}

theorem required_none {id : NodeId} : Yields σ I s (Lower.required none what id : Lower β) Q :=
  node_bind fun _ _ => throw

theorem required_bind {id : NodeId} (h : ∀ a, x = some a → Yields σ I s (k a) Q) :
    Yields σ I s (Lower.required x what id >>= k) Q := by
  cases x with
  | none => exact bind (P := fun _ _ => False) required_none fun _ _ _ _ h => h.elim
  | some a => simpa only [Lower.required, pure_bind] using h a rfl

theorem deparenthesize_bind {id : NodeId}
    (h : Yields σ I s (k (σ.world.tree.deparenthesize id)) Q) :
    Yields σ I s (Lower.deparenthesize id >>= k) Q := by
  simp only [Lower.deparenthesize, bind_assoc, pure_bind]
  exact read_bind h

end reading

theorem denotes : Brings σ s (Lower.symbolFor desc) fun s' id =>
    s'.Denotes σ desc id := by
  cases hd : σ.world.descriptor? desc with
  | some d => exact (symbolFor hd).imp fun _ _ _ h => ⟨d, hd, h⟩
  | none =>
    refine (throw (e := .dangling)).of_runFrom ?_
    simp [Lower.symbolFor, SymbolTable.symbolFor?, runFrom_bind, hd, present]

theorem allReadNew :
    Brings σ s (ts.mapM (·.read)) fun s' es =>
      List.Forall₂ (State.ReadsNew s s') ts es :=
  mapM (S := fun s' => State.ReadsNew s s') (fun hle h => h.within (.refl s) hle)
    fun _ _ _ hle => readsNew.imp fun s2 _ _ h => h.within hle (.refl s2)

section descent

variable {d : Descent} (hd : d.Naming σ) {scope : Scope} {call : ResolvedCall} {r : ExprId}
  {explicit : Option ExprId}

include hd

theorem receives :
    Brings σ s (Lower.optionalReceiver d scope receiver explicit) fun s' built =>
      ∀ node ∈ receiver.bind (·.written?),
        State.Receives σ d scope s s' explicit node built.1 := by
  cases receiver with
  | none => exact .pure nofun
  | some receiver =>
    cases receiver with
    | expression node =>
      cases explicit with
      | none =>
        simp only [Lower.optionalReceiver, Lower.receiverExpr, bind_assoc, pure_bind]
        refine .bind (gives hd) fun r _ _ _ hr => .pure fun node' hnode => ?_
        cases hnode
        exact ⟨r, rfl, .inr ⟨rfl, hr⟩⟩
      | some r => exact .pure fun _ _ => ⟨r, rfl, .inl rfl⟩
    | _ => exact (work (Tidy.optionalReceiver hd.tidy)).imp fun _ _ _ _ _ h => by cases h

theorem accesses :
    Brings σ s (Lower.buildAccess d scope call explicit) fun s' access =>
      call.Accesses σ d scope s s' explicit access := by
  rw [buildAccess_eq]
  refine .bind denotes fun callee s1 h1 _ hcallee => ?_
  refine .bind (receives hd) fun extension s2 h2 _ hextension => ?_
  refine .bind (receives hd) fun dispatch s3 h3 _ hdispatch => ?_
  refine .bind (work Tidy.convertAll) fun types s4 h4 _ _ => .pure ?_
  have h34 := h3.trans h4
  exact .assembled (hcallee.mono (h2.trans h34))
    (fun node hnode => (hextension node hnode).within h1 h34)
    fun node hnode => (hdispatch node hnode).within (h1.trans h2) h4

theorem isCall {type : TreeType} {arguments : List (Option ExprId)} :
    Brings σ s (Lower.buildCall d scope call type ⟨explicit, some arguments⟩) fun s' e =>
      call.IsCall σ d scope s s' explicit arguments e := by
  refine .bind (ran (accesses hd)) fun access s1 _ _ ⟨⟨hrun, _⟩, haccess⟩ => ?_
  refine .descriptor_bind fun candidate hcandidate => ?_
  have hcall {s' : State} {e : ExprId} (h' : s1.Le s') (he : s'.store.kind? e =
      some (if isRead candidate then .read access else .call access arguments)) :
      call.IsCall σ d scope s s' explicit arguments e :=
    ⟨candidate, access, s, s1, hcandidate, .refl s, hrun, h', haccess, he⟩
  split
  next hread =>
    refine addExpr_kind.imp_le fun s2 e h2 ⟨hkind, _⟩ => hcall h2 ?_
    rw [if_pos hread, hkind]
  next hread =>
    simp only [Lower.callArguments, pure_bind]
    refine .bind addExpr_kind fun e s2 h2 _ ⟨hkind, _⟩ => .pure (hcall h2 ?_)
    rw [if_neg hread, hkind]

theorem callsOnReads {type : Lower TreeType} (htype : Tidy σ type)
    {arguments : List ExprId → List (Option ExprId)} :
    Brings σ s (do
      let r ← t.read
      let rs ← ts.mapM (·.read)
      let type ← type
      Lower.callOn d scope call type r (arguments rs)) fun s' e =>
        ∃ r rs, State.ReadsNew s s' t r ∧ List.Forall₂ (State.ReadsNew s s') ts rs ∧
          call.IsCall σ d scope s s' (some r) (arguments rs) e := by
  refine .bind readsNew fun r s1 h1 _ hr => ?_
  refine .bind allReadNew fun rs s2 h2 _ hrs => ?_
  refine .bind (work htype) fun _ s3 h3 _ _ => (isCall hd).imp_le fun s4 e h4 he => ?_
  have h34 := h3.trans h4
  exact ⟨r, rs, hr.within (.refl s) (h2.trans h34), hrs.imp fun _ _ h => h.within h1 h34,
    he.within (h1.trans (h2.trans h3)) (.refl s4)⟩

theorem lowerSelector (h0 : s0.Le s) :
    Brings σ s (Lower.lowerSelector d scope selector ⟨some r, none⟩) fun s' e =>
      State.Selects σ d scope s0 s' selector r e := by
  refine .bind (work Tidy.expressionType) fun type s1 h1 _ _ => ?_
  have h01 := h0.trans h1
  refine .facts_bind (.node_bind fun n hn => ?_)
  cases hcall : (σ.world.factsOf selector).call with
  | some call =>
    have hbuilds : Brings σ s1 (Lower.buildCall d
        (σ.selectorScope scope selector call) call type ⟨some r, none⟩) fun s' e =>
          State.Selects σ d scope s0 s' selector r e := by
      refine .bind (accesses hd) fun access s2 h2 _ haccess => ?_
      refine .descriptor_bind fun candidate hcandidate => ?_
      split
      next hread =>
        refine addExpr_kind.imp_le fun s3 e h3 ⟨hkind, _⟩ => ?_
        refine .read (.call hcall (haccess.within h01 h3)) hkind fun call' hcall' => ?_
        cases hcall.symm.trans hcall'
        simp [hcandidate, hread]
      next =>
        refine .bind (does (Tidy.lowerArguments hd.tidy)) fun built s3 _ _ hrun => ?_
        refine .bind addExpr_kind fun c s4 h4 _ ⟨hkind, _⟩ => ?_
        refine withPrelude.imp_le fun s5 e h5 he => ?_
        exact .call hcall (haccess.within h01 (.refl s2)) (h01.trans h2) hrun (h4.trans h5)
          (h5.kind? hkind) he
    unfold Setting.selectorScope at hbuilds
    obtain ⟨kind, span⟩ := n
    rw [hn] at hbuilds
    cases kind with
    | call _ _ =>
      refine .descriptor_bind fun callee hcallee => ?_
      rw [hcallee] at hbuilds
      exact hbuilds
    | _ => exact hbuilds
  | none =>
    cases n.kind with
    | nameReference _ =>
      refine .required_bind fun target htarget => ?_
      refine .bind denotes fun symbol s2 _ _ hsymbol => ?_
      refine addExpr_kind.imp_le fun s3 e h3 ⟨hkind, _⟩ => ?_
      refine .read (.target hcall htarget (hsymbol.mono h3)) hkind fun call hcall' => ?_
      cases hcall.symm.trans hcall'
    | call _ _ => exact .required_none
    | _ => exact .unexpected

theorem assignName :
    Brings σ s (Lower.assignName d scope name value explicit) fun s' e =>
      ∃ access, State.AccessesName σ d (fun _ => scope) s s' name explicit access ∧
        s'.store.kind? e = some (.assignment access value) := by
  have haccess : Brings σ s (Lower.assignedAccess d scope name explicit) fun s' access =>
      State.AccessesName σ d (fun _ => scope) s s' name explicit access := by
    refine .facts_bind ?_
    cases hcall : (σ.world.factsOf name).call with
    | some call => exact (accesses hd).imp fun _ _ _ haccess => .call hcall haccess
    | none =>
      refine .required_bind fun target htarget => ?_
      exact .bind denotes fun symbol _ _ _ hsymbol => .pure (.target hcall htarget hsymbol)
  refine .bind haccess fun access s1 _ _ haccess => ?_
  refine .bind (work Tidy.convert) fun _ s2 h2 _ _ => ?_
  refine addExpr_kind.imp_le fun s3 e h3 ⟨hkind, _⟩ => ?_
  exact ⟨access, haccess.within (.refl s) (h2.trans h3), hkind⟩

theorem readPlace {place : Place} :
    Brings σ s (place.read d scope) fun s' e => place.Reads σ d scope s s' e := by
  cases place with
  | name node => exact gives hd
  | other node => exact gives hd
  | member selector t =>
    refine .bind readsNew fun r s1 h1 _ hr => ?_
    refine (lowerSelector hd h1).imp_le fun s2 e h2 he => ?_
    exact ⟨r, hr.within (.refl s) h2, he⟩
  | indexed node t ts =>
    simp only [Place.read, indexedGet, bind_assoc]
    refine .facts_bind (.required_bind fun get hget => ?_)
    refine (callsOnReads hd Tidy.convert).imp fun _ _ _ hcall => ?_
    obtain ⟨r, rs, hcall⟩ := hcall
    exact ⟨get, r, rs, hget, hcall⟩

theorem storePlace {place : Place} (hplace : place.Known σ) {value : ExprId} :
    Brings σ s (place.store d scope value) fun s' e =>
      place.Stores σ d scope s s' value e := by
  cases place with
  | name node =>
    obtain ⟨name, span, hn⟩ := hplace
    refine .node_bind fun n hn' => ?_
    cases hn.symm.trans hn'
    exact assignName hd
  | other node => exact hplace.elim
  | member selector t =>
    refine .bind readsNew fun r s1 h1 _ hr => ?_
    refine (assignName hd).imp_le fun s2 e h2 he => ?_
    obtain ⟨access, haccess, he⟩ := he
    exact ⟨r, access, hr.within (.refl s) h2, haccess.within h1 (.refl s2), he⟩
  | indexed node t ts =>
    simp only [Place.store, indexedSet, bind_assoc]
    refine .facts_bind (.required_bind fun set hset => ?_)
    refine (callsOnReads hd Tidy.convert).imp fun _ _ _ hcall => ?_
    obtain ⟨r, rs, hcall⟩ := hcall
    exact ⟨set, r, rs, hset, hcall⟩

end descent

end Yields

namespace Visits

variable {σ : Setting} {scope : Scope}

theorem callOn (hone : call.writtenReceivers.length ≤ 1) {type : TreeType} {r : ExprId}
    {arguments : List (Option ExprId)} :
    Visits σ [] fun d => Lower.callOn d scope call type r arguments := by
  have hnone : call.writtenReceivers.drop 1 = [] := List.drop_eq_nil_of_le hone
  simpa [hnone, Lower.callOn] using @buildCall σ scope call type ⟨some r, some arguments⟩

theorem drop_writtenReceivers {call : Option ResolvedCall} {scopeOf : ResolvedCall → Scope}
    (hone : ∀ c ∈ call, c.writtenReceivers.length = 1) :
    (call.elim [] fun c => c.writtenReceivers.map (scopeOf c, ·)).drop 1 = [] := by
  cases call with
  | none => rfl
  | some call => exact List.drop_eq_nil_of_le (by simp [hone call rfl])

theorem readPlace {place : Place} (hplace : place.Direct σ) :
    Visits σ (place.readVisits σ scope) fun d => place.read d scope := by
  cases place with
  | name node => exact visit scope node
  | other node => exact visit scope node
  | member selector t =>
    have hnone : (σ.selectorReceivers scope selector).drop 1 = [] := drop_writtenReceivers hplace
    refine after _ fun r => ?_
    simpa [hnone, Place.readVisits] using @lowerSelector σ scope selector ⟨some r, none⟩ rfl
  | indexed node t ts =>
    simp only [Place.read, indexedGet, bind_assoc]
    refine facts_bind (required_bind fun get hget => ?_)
    exact after _ fun r => after _ fun rs => after _ fun _ => callOn (hplace.1 get hget).le

theorem storePlace {place : Place} (hknown : place.Known σ) (hplace : place.Direct σ)
    {value : ExprId} :
    Visits σ (place.storeVisits σ scope) fun d => place.store d scope value := by
  cases place with
  | name node =>
    obtain ⟨name, span, hn⟩ := hknown
    refine node_bind fun n hn' => ?_
    cases hn.symm.trans hn'
    exact @assignName σ scope node value none
  | other node => exact hknown.elim
  | member selector t =>
    have hnone : (σ.assignedReceivers scope selector).drop 1 = [] := drop_writtenReceivers hplace
    refine after _ fun r => ?_
    simpa [hnone, Place.storeVisits] using @assignName σ scope selector value (some r)
  | indexed node t ts =>
    simp only [Place.store, indexedSet, bind_assoc]
    refine facts_bind (required_bind fun set hset => ?_)
    exact after _ fun r => after _ fun rs => after _ fun _ => callOn (hplace.2 set hset).le

end Visits

end TypedTree
