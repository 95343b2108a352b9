import TypedTree.Proofs.Components

namespace TypedTree

open Lower

/-- A branch of the source: the conditions one of which has to hold, or none for all that is
left. -/
structure Case where
  conditions : Option (List WhenCondition)
  body : Option NodeId

def WhenEntry.toCase (entry : WhenEntry) : Case :=
  ⟨if entry.isElse then none else some entry.conditions, entry.body⟩

def NodeKind.isIf : NodeKind → Bool
  | .ifElse _ _ _ => true
  | _ => false

/-- The branches of conditionals each of which is the else of the one before, in parentheses or
not. Only the last else, which is no conditional, is a branch without a condition. -/
inductive World.Cascade (w : World) : NodeId → List Case → Prop
  | last {id condition body span} :
      w.tree.node? id = some ⟨.ifElse condition body none, span⟩ →
      Cascade w id [⟨some [.expression condition], body⟩]
  | other {id condition body otherwise span n} :
      w.tree.node? id = some ⟨.ifElse condition body (some otherwise), span⟩ →
      w.tree.node? (w.tree.deparenthesize otherwise) = some n → n.kind.isIf = false →
      Cascade w id [⟨some [.expression condition], body⟩,
        ⟨none, some (w.tree.deparenthesize otherwise)⟩]
  | next {id condition body otherwise span n cases} :
      w.tree.node? id = some ⟨.ifElse condition body (some otherwise), span⟩ →
      w.tree.node? (w.tree.deparenthesize otherwise) = some n → n.kind.isIf = true →
      Cascade w (w.tree.deparenthesize otherwise) cases →
      Cascade w id (⟨some [.expression condition], body⟩ :: cases)

namespace Setting

variable (σ : Setting) (scope : Scope) (tested : Bool)

/-- What is lowered for a condition, on a subject or without one. -/
def conditionVisits : WhenCondition → List Visit
  | .expression node => node.toList.map (scope, ·)
  | .inRange range _ =>
    if tested then
      (σ.world.factsOf range).contains.elim [] (·.writtenReceivers.map (scope, ·))
    else []
  | .isPattern _ _ => []

def entryVisits (entry : WhenEntry) : List Visit :=
  entry.body.toList.map (scope, ·) ++
    if entry.isElse then [] else entry.conditions.flatMap (σ.conditionVisits scope tested)

end Setting

variable {cases : List Case} {condition : WhenCondition} {type : TreeType}
  {conditions : List WhenCondition} {r : WhenRefId} {fuel : Nat} {entry : WhenEntry}
  {es : List ExprId}

section evaluation

variable {m : Type → Type} [Monad m] {α β : Type} {as : List α} {bs : List β}

/-- Whether one of them holds. Those behind it are not tested. -/
def anyOf {α : Type} (holds : α → m Bool) : List α → m Bool
  | [] => return false
  | a :: rest => do
    if ← holds a then return true
    else anyOf holds rest

def firstMatch {α : Type} (accepts : α → m Bool) : List α → m (Option Nat)
  | [] => return none
  | a :: rest => do
    if ← accepts a then return some 0
    else return (← firstMatch accepts rest).map (· + 1)

/-- The number of the branch that conditionals nested at most `fuel` deep take. -/
def World.conditional (w : World) (holds : WhenCondition → m Bool) : Nat → NodeId → m (Option Nat)
  | 0, _ => return none
  | fuel + 1, id =>
    match w.tree.node? id with
    | some ⟨.ifElse condition _ otherwise, _⟩ => do
      if ← holds (.expression condition) then return some 0
      else
        match otherwise with
        | none => return none
        | some otherwise =>
          if (w.tree.node? (w.tree.deparenthesize otherwise)).any (·.kind.isIf) then
            return (← w.conditional holds fuel (w.tree.deparenthesize otherwise)).map (· + 1)
          else return some 1
    | _ => return none

def Case.accepts (holds : WhenCondition → m Bool) (c : Case) : m Bool :=
  match c.conditions with
  | none => return true
  | some conditions => anyOf holds conditions

def WhenBranch.accepts (holds : ExprId → m Bool) (b : WhenBranch) : m Bool :=
  match b.condition with
  | none => return true
  | some condition => holds condition

def ExprKind.disjuncts? : ExprKind → Option (List ExprId)
  | .intrinsic .lazyOr operands => some operands
  | _ => none

/-- A lazy or holds if one of its operands does, tested in their order. -/
def Store.LazyOr (s : Store) (holds : ExprId → m Bool) : Prop :=
  ∀ e, ∀ operands ∈ (s.kind? e).bind (·.disjuncts?), holds e = anyOf holds operands

/-- The expressions are joined from the left by a lazy or. -/
inductive Store.JoinsLeft (s : Store) : ExprId → List ExprId → ExprId → Prop
  | nil {e} : JoinsLeft s e [] e
  | cons {e next both rest joined} : s.kind? both = some (.intrinsic .lazyOr [e, next]) →
      JoinsLeft s both rest joined → JoinsLeft s e (next :: rest) joined

theorem firstMatch_congr {f : α → m Bool} {g : β → m Bool}
    (h : List.Forall₂ (fun a b => f a = g b) as bs) : firstMatch f as = firstMatch g bs := by
  induction h with
  | nil => rfl
  | cons hab _ ih => rw [firstMatch, firstMatch, hab, ih]

theorem anyOf_congr {f : α → m Bool} {g : β → m Bool}
    (h : List.Forall₂ (fun a b => f a = g b) as bs) : anyOf f as = anyOf g bs := by
  induction h with
  | nil => rfl
  | cons hab _ ih => rw [anyOf, anyOf, hab, ih]

variable [LawfulMonad m]

theorem anyOf_singleton {α : Type} (p : α → m Bool) (a : α) : anyOf p [a] = p a := by
  refine (bind_congr fun b => ?_).trans (bind_pure (p a))
  cases b <;> rfl

theorem Store.JoinsLeft.holds {s : Store} {e joined : ExprId}
    {holds : ExprId → m Bool} (h : s.JoinsLeft e es joined) (hor : s.LazyOr holds) :
    holds joined = anyOf holds (e :: es) := by
  induction h with
  | nil => exact (anyOf_singleton holds _).symm
  | cons hboth _ ih =>
    rw [ih, anyOf, hor _ _ (by rw [hboth]; rfl)]
    simp only [anyOf, bind_assoc]
    refine bind_congr fun b => ?_
    cases b with
    | true => simp
    | false =>
      simp only [Bool.false_eq_true, if_false, bind_assoc]
      exact bind_congr fun b => by cases b <;> simp

/-- Conditionals inside each other take the first branch whose condition holds. -/
theorem World.Cascade.conditional {w : World} {id : NodeId}
    {holds : WhenCondition → m Bool} (h : w.Cascade id cases)
    (hfuel : cases.length ≤ fuel) :
    w.conditional holds fuel id = firstMatch (Case.accepts holds) cases := by
  induction h generalizing fuel with
  | last hn | other hn ho hif | next hn ho hif _ ih =>
    obtain ⟨fuel, rfl⟩ := Nat.exists_eq_add_one.2 (Nat.lt_of_lt_of_le (by simp) hfuel)
    simp_all [World.conditional, firstMatch, Case.accepts, anyOf_singleton]

end evaluation

theorem World.Cascade.tested {w : World} {id : NodeId}
    (h : w.Cascade id cases) : ∀ c ∈ cases, c.conditions ≠ some [] := by
  induction h <;> simp_all

namespace State

variable {σ : Setting} {d : Descent} {scope : Scope} {s s' s'' : State}

/-- A condition on the subject of a choice tests a reference to it that is new: against a value, in
a range by the call of that range, or for a type. -/
inductive SubjectTest (σ : Setting) (d : Descent) (scope : Scope) (ref : WhenRefId)
    (s s' : State) : WhenCondition → ExprId → Prop
  | equals {node subject value s1 s2 e} : s.store.expr? subject = none →
      s'.store.kind? subject = some (.whenSubject ref) → s.Le s1 →
      (lowerOptional d scope node "condition").runFrom σ s1 = (.ok value, s2) → s2.Le s' →
      s'.store.kind? e = some (.intrinsic .equals [subject, value]) →
      SubjectTest σ d scope ref s s' (.expression node) e
  | contains {range negated subject call test e} :
      s.store.expr? subject = none → s'.store.kind? subject = some (.whenSubject ref) →
      (σ.world.factsOf range).contains = some call →
      call.IsCall σ d scope s s' none [some subject] test →
      (if negated then s'.store.kind? e = some (.intrinsic .not [test]) else e = test) →
      SubjectTest σ d scope ref s s' (.inRange range negated) e
  | type {node negated subject written τ e} : s.store.expr? subject = none →
      s'.store.kind? subject = some (.whenSubject ref) →
      (σ.world.factsOf node).writtenType = some written → s'.types.lookup written = some τ →
      s'.store.kind? e =
        some (.typeOperation (if negated then .isNotOf else .isOf) subject τ) →
      SubjectTest σ d scope ref s s' (.isPattern node negated) e

/-- A condition of a choice with the given reference to its subject, if it has one. -/
def Tests (σ : Setting) (d : Descent) (scope : Scope) (s s' : State) (condition : WhenCondition)
    (e : ExprId) : Option WhenRefId → Prop
  | none => (plainCondition d scope condition).runFrom σ s = (.ok e, s')
  | some ref => SubjectTest σ d scope ref s s' condition e

/-- A condition becomes a test, and what joins it to the others may follow. -/
def Tested (R : State → State → WhenCondition → ExprId → Prop) (s s' : State)
    (c : WhenCondition) (e : ExprId) : Prop :=
  ∃ s1, s.Le s1 ∧ R s s1 c e ∧ s1.Le s'

/-- The conditions of a branch become tests, in their order, which are joined from the left. -/
inductive Joined (R : State → State → WhenCondition → ExprId → Prop) (s s' : State) :
    Option (List WhenCondition) → List ExprId → Option ExprId → Prop
  | otherwise : Joined R s s' none [] none
  | empty {e} : s'.store.kind? e = some (.malformed .expressionRequired "expected condition") →
      Joined R s s' (some []) [] (some e)
  | conditions {c cs e es joined s1 s2} : s.Le s1 →
      InTurn (Tested R) s1 s2 (c :: cs) (e :: es) → s2.Le s' → s'.store.JoinsLeft e es joined →
      Joined R s s' (some (c :: cs)) (e :: es) (some joined)

/-- What becomes of a branch of the source: a branch, and the tests of its conditions. -/
structure BranchOf (σ : Setting) (R : State → State → WhenCondition → ExprId → Prop)
    (lower : Option NodeId → Lower ExprId) (s s' : State) (c : Case)
    (b : WhenBranch × List ExprId) : Prop where
  le : s.Le s'
  result : ∃ s1 s2, s.Le s1 ∧ (lower c.body).runFrom σ s1 = (.ok b.1.result, s2) ∧ s2.Le s'
  condition : Joined R s s' c.conditions b.2 b.1.condition

/-- The tests of a branch hold where its conditions do, each with the condition it was made of. -/
def Agrees {m : Type → Type} (holds : WhenCondition → m Bool) (holds' : ExprId → m Bool) (c : Case)
    (b : WhenBranch × List ExprId) : Prop :=
  List.Forall₂ (fun condition e => holds' e = holds condition) (c.conditions.getD []) b.2

/-- The expression is a choice with one branch for each branch of the source, in their order. So it
takes the branch with the same number, the first one of which a condition holds, as long as each
test holds where its own condition does. -/
def Chooses (σ : Setting) (d : Descent) (scope : Scope) (lower : Option NodeId → Lower ExprId)
    (s s' : State) (ref : Option WhenRefId) (subject : Option ExprId) (declaration : Option DeclId)
    (cases : List Case) (e : ExprId) : Prop :=
  ∃ built s1 s2, s.Le s1 ∧ s2.Le s' ∧
    InTurn (BranchOf σ (Tests σ d scope · · · · ref) lower) s1 s2 cases built ∧
    s'.store.kind? e = some (.choice ref subject declaration (built.map (·.1))) ∧
    ((∀ c ∈ cases, c.conditions ≠ some []) →
      ∀ (m : Type → Type) [Monad m] [LawfulMonad m] (holds : WhenCondition → m Bool)
        (holds' : ExprId → m Bool), s'.store.LazyOr holds' →
        List.Forall₂ (Agrees holds holds') cases built →
        firstMatch (WhenBranch.accepts holds') (built.map (·.1)) =
          firstMatch (Case.accepts holds) cases)

end State

theorem Store.JoinsLeft.mono {s s' : State} {e joined : ExprId}
    (h : s.store.JoinsLeft e es joined) (hle : s.Le s') : s'.store.JoinsLeft e es joined := by
  induction h with
  | nil => exact .nil
  | cons hboth _ ih => exact .cons (hle.kind? hboth) ih

namespace State

variable {σ : Setting} {d : Descent} {scope : Scope} {s s' s'' : State}
  {R : State → State → WhenCondition → ExprId → Prop} {lower : Option NodeId → Lower ExprId}
  {built : List (WhenBranch × List ExprId)}

theorem InTurn.le {α β : Type} {R : State → State → α → β → Prop} {xs : List α} {ys : List β}
    (hle : ∀ s s' x y, R s s' x y → s.Le s') (h : InTurn R s s' xs ys) : s.Le s' := by
  induction h with
  | nil => exact .refl _
  | cons hx _ ih => exact (hle _ _ _ _ hx).trans ih

section evaluation

variable {m : Type → Type} [Monad m] [LawfulMonad m] {holds : WhenCondition → m Bool}
  {holds' : ExprId → m Bool} (hor : s''.store.LazyOr holds')

include hor

theorem BranchOf.accepts {c : Case} {b : WhenBranch × List ExprId}
    (h : BranchOf σ R lower s s' c b) (h' : s'.Le s'') (hne : c.conditions ≠ some [])
    (hagrees : Agrees holds holds' c b) : b.1.accepts holds' = c.accepts holds := by
  obtain ⟨⟨condition, result⟩, tests⟩ := b
  obtain ⟨conditions, body⟩ := c
  cases h.condition with
  | otherwise => rfl
  | empty _ => exact (hne rfl).elim
  | conditions _ _ _ hjoined =>
    exact ((hjoined.mono h').holds hor).trans (anyOf_congr (.flip hagrees))

theorem InTurn.firstMatch (h : InTurn (BranchOf σ R lower) s s' cases built) (h' : s'.Le s'')
    (hne : ∀ c ∈ cases, c.conditions ≠ some [])
    (hagree : List.Forall₂ (Agrees holds holds') cases built) :
    firstMatch (WhenBranch.accepts holds') (built.map (·.1)) =
      firstMatch (Case.accepts holds) cases := by
  refine firstMatch_congr ?_
  induction h with
  | nil => exact .nil
  | cons hx hxs ih =>
    obtain ⟨hc, hcs⟩ := List.forall_mem_cons.1 hne
    obtain ⟨hagrees, hagree⟩ := List.forall₂_cons.1 hagree
    have hle := hxs.le fun _ _ _ _ hx => hx.le
    exact .cons (hx.accepts hor (hle.trans h') hc hagrees) (ih h' hcs hagree)

end evaluation

theorem InTurn.exists_pairs {α β γ δ : Type} {R : State → State → β → γ × δ → Prop} {f : α → β}
    {xs : List α} {ys : List γ}
    (h : InTurn (fun s s' x y => ∃ z, R s s' (f x) (y, z)) s s' xs ys) :
    ∃ pairs, ys = pairs.map (·.1) ∧ InTurn R s s' (xs.map f) pairs := by
  induction h with
  | nil => exact ⟨[], rfl, .nil⟩
  | cons hx _ ih =>
    obtain ⟨z, hx⟩ := hx
    obtain ⟨pairs, rfl, hturn⟩ := ih
    exact ⟨_ :: pairs, rfl, .cons hx hturn⟩

section tests

variable {tests : List ExprId} {c c' : WhenCondition} {e : ExprId}

end tests

theorem Chooses.of_inTurn {ref : Option WhenRefId} {subject : Option ExprId}
    {declaration : Option DeclId} {e : ExprId}
    {s1 s2 : State} (h1 : s.Le s1) (h2 : s2.Le s')
    (hturn : InTurn (BranchOf σ (Tests σ d scope · · · · ref) lower) s1 s2 cases built)
    (he : s'.store.kind? e = some (.choice ref subject declaration (built.map (·.1)))) :
    Chooses σ d scope lower s s' ref subject declaration cases e :=
  ⟨built, s1, s2, h1, h2, hturn, he, fun hne _ _ _ _ _ hor => hturn.firstMatch hor h2 hne⟩

end State

namespace Yields

variable {σ : Setting} {s : State} {R : State → State → WhenCondition → ExprId → Prop}
  {lower : WhenCondition → Lower ExprId} {subject : Option WhenSubject}

theorem owned {holder : Holder} {part : TreePart} {m : Lower Unit} (hwork : Tidy σ m)
    (howns : Owns σ s holder part m) (hh : s.store.Has holder) (hsuits : holder.Suits part) :
    Brings σ s m fun s' _ => s'.store.owner? holder = some part := by
  refine (does hwork).imp fun s' _ _ hrun => ?_
  rcases howns with ⟨e, he⟩ | ⟨_, hok⟩
  · cases he.symm.trans hrun
  · cases hok.symm.trans hrun
    exact s.store.owner?_own hh hsuits

theorem newWhenRef : Brings σ s Lower.newWhenRef fun s' r =>
    s.store.whenRef? r = none ∧ s'.store.Has (.choice r) := by
  refine (does Tidy.newWhenRef).imp fun s' t _ hrun => ?_
  cases hrun
  simp [Store.whenRef?, Store.Has]

theorem addChoice {kind : ExprKind}
    (hh : s.store.Has (.choice r)) :
    Brings σ s (Lower.addChoice r type kind) fun s' e =>
      s'.store.kind? e = some kind ∧ s'.store.owner? (.choice r) = some (.expr e) := by
  refine .bind addExpr_kind fun e s1 h1 _ ⟨hkind, _⟩ => ?_
  refine .bind (owned .bindWhenRef (owns_bindWhenRef r e) (h1.targets.has hh) trivial)
    fun _ s2 h2 _ howner => ?_
  exact .pure ⟨h2.kind? hkind, howner⟩

theorem joinConditions {joined : ExprId}
    (h : ∀ c s, Brings σ s (lower c) fun s' e => R s s' c e) :
    Brings σ s (Lower.joinConditions lower (some joined) conditions) fun s' x =>
      ∃ es e, x = some e ∧ State.InTurn (State.Tested R) s s' conditions es ∧
        s'.store.JoinsLeft joined es e := by
  induction conditions generalizing s joined with
  | nil => exact .pure ⟨[], joined, rfl, .nil, .nil⟩
  | cons c cs ih =>
    refine .bind (h c s) fun next s1 h1 _ hnext => ?_
    refine .bind (work Tidy.convert) fun _ s2 h2 _ _ => ?_
    refine .bind addExpr_kind fun both s3 h3 _ ⟨hboth, _⟩ => ?_
    refine ih.imp_le fun s4 x h4 ⟨es, e, hx, hturn, hjoined⟩ => ?_
    exact ⟨next :: es, e, hx, .cons ⟨s1, h1, hnext, h2.trans h3⟩ hturn,
      .cons (h4.kind? hboth) hjoined⟩

section descent

variable {d : Descent} (hd : d.Naming σ) {scope : Scope} {id : NodeId}

include hd

theorem lowerWhenEntry
    (h : ∀ c s, Brings σ s (lower c) fun s' e => R s s' c e) :
    Brings σ s (Lower.lowerWhenEntry d scope lower entry) fun s' branch => ∃ tests,
      State.BranchOf σ R (lowerOptional d scope · "branch result") s s' entry.toCase
        (branch, tests) := by
  obtain ⟨conditions, body, isElse⟩ := entry
  refine .bind (does (Tidy.lowerOptional hd.tidy)) fun result s1 h1 _ hrun => ?_
  have hresult {s'} (hle : s1.Le s') : ∃ s2 s3, s.Le s2 ∧
      (lowerOptional d scope body "branch result").runFrom σ s2 = (.ok result, s3) ∧ s3.Le s' :=
    ⟨s, s1, .refl s, hrun, hle⟩
  cases isElse with
  | true => exact .pure ⟨[], h1, hresult (.refl s1), .otherwise⟩
  | false =>
    cases conditions with
    | nil =>
      simp only [Bool.false_eq_true, if_false, Lower.joinConditions, pure_bind, Lower.malformed,
        bind_assoc]
      refine .bind (work Tidy.convert) fun _ s2 h2 _ _ => ?_
      refine .bind addExpr_kind fun e s3 h3 _ ⟨he, _⟩ => ?_
      exact .pure ⟨[], h1.trans (h2.trans h3), hresult (h2.trans h3), .empty he⟩
    | cons c cs =>
      simp only [Bool.false_eq_true, if_false, Lower.joinConditions, bind_assoc]
      refine .bind (h c s1) fun first s2 h2 _ hfirst => ?_
      refine .bind (joinConditions h) ?_
      rintro _ s3 h3 _ ⟨es, e, rfl, hturn, hjoined⟩
      exact .pure ⟨first :: es, h1.trans (h2.trans h3), hresult (h2.trans h3),
        .conditions h1 (.cons ⟨s2, h2, hfirst, .refl s2⟩ hturn) (.refl s3) hjoined⟩

theorem subjectCondition :
    Brings σ s (Lower.subjectCondition d scope r type condition) fun s' e =>
      State.SubjectTest σ d scope r s s' condition e := by
  refine .bind addExpr_kind fun subject s1 h1 _ ⟨hsubject, hnew⟩ => ?_
  refine .bind (work Tidy.convert) fun boolean s2 h2 _ _ => ?_
  cases condition with
  | expression node =>
    refine .bind (does (Tidy.lowerOptional hd.tidy)) fun value s3 h3 _ hrun => ?_
    refine addExpr_kind.imp_le fun s4 e h4 he => ?_
    exact .equals hnew ((h2.trans (h3.trans h4)).kind? hsubject) (h1.trans h2) hrun h4 he.1
  | inRange range negated =>
    refine .facts_bind (.required_bind fun call hcall => ?_)
    refine .bind (isCall hd) fun test s3 h3 _ htest => ?_
    cases negated with
    | false =>
      exact .pure (.contains hnew ((h2.trans h3).kind? hsubject) hcall
        (htest.within (h1.trans h2) (.refl s3)) rfl)
    | true =>
      refine addExpr_kind.imp_le fun s4 e h4 he => ?_
      exact .contains hnew ((h2.trans (h3.trans h4)).kind? hsubject) hcall
        (htest.within (h1.trans h2) h4) he.1
  | isPattern node negated =>
    simp only [Lower.writtenType, bind_assoc]
    refine .facts_bind (.required_bind fun written hwritten => ?_)
    refine .bind converted fun τ s3 h3 _ hτ => ?_
    refine addExpr_kind.imp_le fun s4 e h4 he => ?_
    exact .type hnew ((h2.trans (h3.trans h4)).kind? hsubject) hwritten (h4.types hτ) he.1

theorem ifBranches :
    Brings σ s (Lower.ifBranches d scope fuel id) fun s' branches =>
      ∃ cases built, σ.world.Cascade id cases ∧ branches = built.map (·.1) ∧
        State.InTurn (State.BranchOf σ (State.Tests σ d scope · · · · none)
          (Lower.lowerBody d scope)) s s' cases built := by
  induction fuel generalizing s id with
  | zero => exact .throw
  | succ fuel ih =>
    refine .node_bind fun n hn => ?_
    obtain ⟨kind, span⟩ := n
    cases kind with
    | ifElse condition body otherwise =>
      refine .bind (does (Tidy.lowerOptional hd.tidy)) fun test s1 h1 _ htest => ?_
      refine .bind (does (Tidy.lowerBody hd.tidy)) fun result s2 h2 _ hresult => ?_
      have hfirst : State.BranchOf σ (State.Tests σ d scope · · · · none) (Lower.lowerBody d scope)
          s s2 ⟨some [.expression condition], body⟩ (⟨some test, result⟩, [test]) :=
        ⟨h1.trans h2, ⟨s1, s2, h1, hresult, .refl s2⟩,
          .conditions (.refl s) (.cons ⟨s1, h1, htest, .refl s1⟩ .nil) h2 .nil⟩
      cases otherwise with
      | none => exact .pure ⟨_, _, .last hn, rfl, .cons hfirst .nil⟩
      | some otherwise =>
        refine .deparenthesize_bind (.node_bind fun n' hn' => ?_)
        split
        next hkind =>
          refine .bind ih ?_
          rintro _ s3 _ _ ⟨cases, built, hcascade, rfl, hturn⟩
          exact .pure ⟨_, _ :: built, .next hn hn' (by rw [hkind]; rfl) hcascade, rfl,
            .cons hfirst hturn⟩
        next hkind =>
          have hif : n'.kind.isIf = false := by
            unfold NodeKind.isIf
            split
            next hif => exact (hkind _ _ _ hif).elim
            next => rfl
          refine .bind (does (Tidy.lowerBody hd.tidy)) fun last s3 h3 _ hlast => ?_
          have hotherwise : State.BranchOf σ (State.Tests σ d scope · · · · none)
              (Lower.lowerBody d scope) s2 s3
              ⟨none, some (σ.world.tree.deparenthesize otherwise)⟩ (⟨none, last⟩, []) :=
            ⟨h3, ⟨s2, s3, .refl s2, hlast, .refl s3⟩, .otherwise⟩
          exact .pure ⟨_, [_, _], .other hn hn' hif, rfl, .cons hfirst (.cons hotherwise .nil)⟩
    | _ => exact unexpected

theorem lowerIf :
    Brings σ s (Lower.lowerIf d scope id) fun s' e => ∃ cases,
      σ.world.Cascade id cases ∧
        State.Chooses σ d scope (Lower.lowerBody d scope) s s' none none none cases e := by
  refine .read_bind (.bind (ifBranches hd) ?_)
  rintro _ s1 _ _ ⟨cases, built, hcascade, rfl, hturn⟩
  refine .bind (work Tidy.expressionType) fun _ s2 h2 _ _ => ?_
  refine addExpr_kind.imp_le fun s3 e h3 ⟨he, _⟩ => ?_
  exact ⟨cases, hcascade, .of_inTurn (.refl s) (h2.trans h3) hturn he⟩

theorem lowerWhen {entries : List WhenEntry} :
    Brings σ s (Lower.lowerWhen d scope id subject entries) fun s' e =>
      ∃ x ref s1, (lowerSubject d scope subject).runFrom σ s = (.ok x, s1) ∧
        ref.isSome = x.type.isSome ∧
        (∀ r ∈ ref, s1.store.whenRef? r = none ∧ s'.store.owner? (.choice r) = some (.expr e)) ∧
        State.Chooses σ d scope (lowerOptional d scope · "branch result") s1 s' ref x.value
          x.declaration (entries.map WhenEntry.toCase) e := by
  refine .bind (does (Tidy.lowerSubject hd.tidy)) fun x s1 _ _ hrun => ?_
  have hentries {s : State} {lower : WhenCondition → Lower ExprId} {r : Option WhenRefId}
      (h : ∀ c s, Brings σ s (lower c) fun s' e => s.Tests σ d scope s' c e r) :
      Brings σ s (entries.mapM (Lower.lowerWhenEntry d scope lower)) fun s' branches =>
        ∃ built, branches = built.map (·.1) ∧ State.InTurn (State.BranchOf σ
          (State.Tests σ d scope · · · · r) (lowerOptional d scope · "branch result")) s s'
            (entries.map WhenEntry.toCase) built :=
    (inTurn fun _ _ => lowerWhenEntry hd h).imp fun _ _ _ hturn => hturn.exists_pairs
  cases htype : x.type with
  | none =>
    refine .bind (hentries (r := none) fun c s => does (Tidy.plainCondition hd.tidy)) ?_
    rintro _ s2 _ _ ⟨built, rfl, hturn⟩
    refine .bind (work Tidy.expressionType) fun _ s3 h3 _ _ => addExpr_kind.imp_le ?_
    rintro s4 e h4 ⟨he, _⟩
    exact ⟨x, none, s1, hrun, by simp [htype], by simp,
      .of_inTurn (.refl s1) (h3.trans h4) hturn he⟩
  | some type =>
    refine .bind newWhenRef fun r s2 h2 _ hr => ?_
    refine .bind (hentries (r := some r) fun c s => subjectCondition hd) ?_
    rintro _ s3 h3 _ ⟨built, rfl, hturn⟩
    refine .bind (work Tidy.expressionType) fun _ s4 h4 _ _ => ?_
    refine (addChoice ((h3.trans h4).targets.has hr.2)).imp_le ?_
    rintro s5 e h5 ⟨he, howner⟩
    refine ⟨x, some r, s1, hrun, by simp [htype], ?_, .of_inTurn h2 (h4.trans h5) hturn he⟩
    rintro _ ⟨⟩
    exact ⟨hr.1, howner⟩

end descent

end Yields

namespace Visits

variable {σ : Setting} {scope : Scope} {lower : Descent → WhenCondition → Lower ExprId}

theorem joinConditions
    {vs : WhenCondition → List Visit} {joined : Option ExprId}
    (h : ∀ c, Visits σ (vs c) fun d => lower d c) :
    Visits σ (conditions.flatMap vs) fun d => Lower.joinConditions (lower d) joined conditions := by
  induction conditions generalizing joined with
  | nil => cases joined <;> exact work _
  | cons c cs ih =>
    rw [List.flatMap_cons]
    cases joined with
    | none => exact (h c).bind fun _ => ih
    | some joined => exact (h c).bind fun _ => after _ fun _ => after _ fun _ => ih

theorem lowerWhenEntry {tested : Bool}
    (h : ∀ c, Visits σ (σ.conditionVisits scope tested c) fun d => lower d c) :
    Visits σ (σ.entryVisits scope tested entry) fun d =>
      Lower.lowerWhenEntry d scope (lower d) entry := by
  refine lowerOptional.bind fun result => ?_
  cases entry.isElse with
  | true => exact work _
  | false => exact (joinConditions h).before _

theorem plainCondition :
    Visits σ (σ.conditionVisits scope false condition) fun d =>
      Lower.plainCondition d scope condition := by
  cases condition with
  | expression node => exact lowerOptional
  | inRange _ _ | isPattern _ _ => exact work _

theorem subjectCondition :
    Visits σ (σ.conditionVisits scope true condition) fun d =>
      Lower.subjectCondition d scope r type condition := by
  refine after _ fun subject => after _ fun boolean => ?_
  cases condition with
  | expression node => exact lowerOptional.before _
  | isPattern _ _ => exact work _
  | inRange range negated =>
    refine facts_bind (required_bind fun call hcall => before ?_ _)
    simpa [Setting.conditionVisits, hcall] using
      @buildCall σ scope call boolean ⟨none, some [some subject]⟩

/-- Behind its subject, a choice goes into the bodies and conditions of its entries only. -/
theorem lowerWhen {id : NodeId} {subject : Option WhenSubject} {entries : List WhenEntry} :
    ∃ rest : Subject → Descent → Lower ExprId,
      (∀ d, Lower.lowerWhen d scope id subject entries =
        Lower.lowerSubject d scope subject >>= fun x => rest x d) ∧
      ∀ x, Visits σ (entries.flatMap (σ.entryVisits scope x.type.isSome)) (rest x) := by
  refine ⟨_, fun d => rfl, fun x => ?_⟩
  cases x.type with
  | none => exact (mapM fun _ _ => lowerWhenEntry fun _ => plainCondition).before _
  | some type =>
    exact after _ fun r => (mapM fun _ _ => lowerWhenEntry fun _ => subjectCondition).before _

end Visits

end TypedTree
