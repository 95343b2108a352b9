import Mathlib.Logic.Function.Basic
import TypedTree.Lowering.Call
import TypedTree.Proofs.Trace.Operand

namespace TypedTree

open Lower

/-- Two evaluations whose order makes no difference. -/
def Commutes {m : Type → Type} [Monad m] {α β : Type} (x : m α) (y : m β) : Prop :=
  (do let a ← x; let b ← y; return (a, b)) = (do let b ← y; let a ← x; return (a, b))

namespace Commutes

variable {m : Type → Type} [Monad m] [LawfulMonad m] {α β γ : Type} {x : m α} {y : m β}

theorem symm (h : Commutes x y) : Commutes y x := by
  have h' := congrArg (Prod.swap <$> ·) (Eq.symm h)
  simpa [Commutes] using h'

theorem swap (h : Commutes x y) (k : α → β → m γ) :
    (do let a ← x; let b ← y; k a b) = (do let b ← y; let a ← x; k a b) := by
  simpa using congrArg (· >>= fun p => k p.1 p.2) h

theorem pure : Commutes x (pure b) := by simp [Commutes]

theorem bind (h : Commutes x y) (hf : ∀ b, Commutes x (f b)) : Commutes x (y >>= f) := by
  unfold Commutes
  simp only [bind_assoc]
  rw [h.swap]
  exact bind_congr fun b => (hf b).swap _

theorem map (h : Commutes x y) : Commutes x (f <$> y) := by
  rw [map_eq_pure_bind]
  exact h.bind fun _ => pure

theorem optionMapM (h : ∀ c, o = some c → Commutes x (f c)) : Commutes x (o.mapM f) := by
  cases o with
  | none => exact pure
  | some c => exact (h c rfl).map

end Commutes

section record

variable {m : Type → Type} [Monad m] {α γ : Type}

/-- Runs one of the evaluations and writes down its value. -/
def record (ops : Nat → m α) (values : Nat → α) (i : Nat) : m (Nat → α) := do
  return Function.update values i (← ops i)

/-- What an evaluation gives, if it is not one of those that have been run before. -/
def settle (ops : Nat → m α) (moved : Nat → Bool) (held : Nat → α) (i : Nat) : m α :=
  if moved i then return held i else ops i

variable [LawfulMonad m] {ops : Nat → m α} {moved : Nat → Bool} {i j : Nat} {is js : List Nat}
  {values : Nat → α}

theorem foldlM_record_pair (h : i ≠ j → Commutes (ops i) (ops j)) :
    [i, j].foldlM (record ops) values = [j, i].foldlM (record ops) values := by
  rcases eq_or_ne i j with rfl | hne
  · rfl
  · simp only [List.foldlM_cons, List.foldlM_nil, bind_pure, record, bind_assoc, pure_bind]
    rw [(h hne).swap]
    simp only [Function.update_comm hne]

/-- An evaluation can wait for those with which it commutes. -/
theorem foldlM_record_cons (h : ∀ j ∈ is, i ≠ j → Commutes (ops i) (ops j)) :
    (i :: is).foldlM (record ops) values = (is ++ [i]).foldlM (record ops) values := by
  induction is generalizing values with
  | nil => rfl
  | cons j is ih =>
    obtain ⟨hj, his⟩ := List.forall_mem_cons.1 h
    calc
      _ = ([i, j] ++ is).foldlM (record ops) values := rfl
      _ = ([j, i] ++ is).foldlM (record ops) values := by
        rw [List.foldlM_append, foldlM_record_pair hj, ← List.foldlM_append]
      _ = (j :: (is ++ [i])).foldlM (record ops) values := by
        rw [List.foldlM_cons]
        exact bind_congr fun _ => ih his

theorem Commutes.foldlM_record (h : ∀ i ∈ is, Commutes x (ops i)) :
    Commutes x (is.foldlM (record ops) values) := by
  induction is generalizing values with
  | nil => exact .pure
  | cons i is ih =>
    obtain ⟨hi, his⟩ := List.forall_mem_cons.1 h
    rw [List.foldlM_cons]
    exact .bind (.bind hi fun _ => .pure) fun _ => ih his

theorem foldlM_record_perm (hp : is.Perm js)
    (h : ∀ i ∈ is, ∀ j ∈ is, i ≠ j → Commutes (ops i) (ops j)) :
    is.foldlM (record ops) values = js.foldlM (record ops) values := by
  induction hp generalizing values with
  | nil => rfl
  | cons i _ ih =>
    simp only [List.foldlM_cons]
    exact bind_congr fun _ => ih fun i hi j hj => h i (.tail _ hi) j (.tail _ hj)
  | swap i j is =>
    change ([j, i] ++ is).foldlM (record ops) values = ([i, j] ++ is).foldlM (record ops) values
    rw [List.foldlM_append, foldlM_record_pair (h j (by simp) i (by simp)), ← List.foldlM_append]
  | trans hp _ ih ih' =>
    exact (ih h).trans (ih' fun i hi j hj => h i (hp.mem_iff.2 hi) j (hp.mem_iff.2 hj))

/-- Those that are not moved can all wait for those that are. -/
theorem foldlM_record_partition (h : is.Pairwise fun i j =>
    moved i = false → moved j = true → Commutes (ops i) (ops j)) :
    is.foldlM (record ops) values =
      (is.filter moved ++ is.filter (!moved ·)).foldlM (record ops) values := by
  induction is generalizing values with
  | nil => rfl
  | cons i is ih =>
    obtain ⟨hi, his⟩ := List.pairwise_cons.1 h
    rw [List.foldlM_cons]
    simp only [ih his]
    rw [← List.foldlM_cons]
    cases hm : moved i with
    | true => simp [hm]
    | false =>
      have hlate : ∀ j ∈ is.filter moved, i ≠ j → Commutes (ops i) (ops j) := fun j hj _ =>
        have ⟨hj, hmoved⟩ := List.mem_filter.1 hj
        hi j hj hm hmoved
      rw [← List.cons_append, List.foldlM_append, foldlM_record_cons hlate, ← List.foldlM_append]
      simp [hm]

/-- What is written down elsewhere stays. -/
theorem foldlM_record_update (h : i ∉ is) (a : α) :
    is.foldlM (record ops) (Function.update values i a) =
      (Function.update · i a) <$> is.foldlM (record ops) values := by
  induction is generalizing values with
  | nil => simp
  | cons j is ih =>
    obtain ⟨hne, his⟩ := List.ne_and_not_mem_of_not_mem_cons h
    simp only [List.foldlM_cons, record, bind_assoc, pure_bind, map_bind]
    refine bind_congr fun b => ?_
    rw [Function.update_comm hne, ih his]

/-- The values of those that are left can be found one by one. -/
theorem foldlM_record_settle (hnodup : is.Nodup) (k : List α → m γ) :
    (do let held ← (is.filter (!moved ·)).foldlM (record ops) values; k (is.map held)) =
      (do k (← is.mapM (settle ops moved values))) := by
  induction is generalizing k with
  | nil => simp
  | cons i is ih =>
    obtain ⟨hi, his⟩ := List.nodup_cons.1 hnodup
    have hrest : i ∉ is.filter (!moved ·) := fun h => hi (List.mem_filter.1 h).1
    -- The value at `i` is settled first, and the others leave it alone.
    have hfirst (a : α) : (do
        let held ← (is.filter (!moved ·)).foldlM (record ops) (Function.update values i a)
        k ((i :: is).map held)) = (do k (a :: (← is.mapM (settle ops moved values)))) := by
      have hmap (held : Nat → α) : is.map (Function.update held i a) = is.map held :=
        List.map_congr_left fun j hj => Function.update_of_ne (by rintro rfl; exact hi hj) _ _
      rw [foldlM_record_update hrest]
      simp only [bind_map_left, List.map_cons, Function.update_self, hmap]
      exact ih his (k <| a :: ·)
    simp only [List.mapM_cons, bind_assoc, pure_bind]
    cases hm : moved i with
    | true =>
      have hself := hfirst (values i)
      rw [Function.update_eq_self] at hself
      simpa [hm, settle] using hself
    | false =>
      simp only [List.filter_cons, hm, Bool.not_false, if_true, List.foldlM_cons, record,
        bind_assoc, pure_bind, settle, Bool.false_eq_true, if_false, hfirst]

end record

namespace Store

/-- Whether an argument out of order is evaluated before the call, and not in its place. -/
def moves (store : Store) (e : ExprId) : Bool := !(store.kind? e).any hasNoEffect

/-- Whether the argument at a position is. -/
def moved (store : Store) (arguments : Nat → Option ExprId) (i : Nat) : Bool :=
  (arguments i).any store.moves

end Store

/-- The values of the temporaries of a block. -/
abbrev Locals (Value : Type) := List (SymbolId × Value)

/-- What the evaluation of a call rests on. The operands of the call may have any effect that `m`
has, but they do not see its temporaries. -/
structure Machine (m : Type → Type) [Monad m] (Value : Type) where
  lookup : SymbolId → m Value
  /-- The value of an expression whose evaluation does nothing. -/
  constant : ExprId → Value
  perform : ExprId → m Value
  /-- Runs the callee on its receivers and arguments. -/
  invoke : SymbolId → List TreeType → Option Value × Option Value → List (Option Value) → m Value
  unit : Value
  lookup_commutes : ∀ a b, Commutes (lookup a) (lookup b)

namespace Machine

variable {m : Type → Type} [Monad m] {Value : Type} (M : Machine m Value) (store : Store)

/-- A receiver, an argument or the value of a temporary. A read without receivers gives the current
value of its variable. Literals, class references, lambdas and references without receivers do
nothing. -/
def operand (φ : Locals Value) (e : ExprId) : m Value :=
  match store.kind? e with
  | some (.read ⟨callee, none, none, _⟩) =>
    match φ.lookup callee with
    | some value => return value
    | none => M.lookup callee
  | some (.literal _ _) | some (.classReference _) | some (.lambda _)
  | some (.callableReference ⟨_, none, none, _⟩) => return M.constant e
  | _ => M.perform e

def receivers (φ : Locals Value) (access : Access) : m (Option Value × Option Value) := do
  let dispatch ← access.dispatchReceiver.mapM (M.operand store φ)
  let extension ← access.extensionReceiver.mapM (M.operand store φ)
  return (dispatch, extension)

/-- A call evaluates its receivers, and then its slots from left to right. -/
def call (φ : Locals Value) (access : Access) (slots : List (Option ExprId)) : m Value := do
  let receivers ← M.receivers store φ access
  let values ← slots.mapM (·.mapM (M.operand store φ))
  M.invoke access.callee access.typeArguments receivers values

def expression (φ : Locals Value) (e : ExprId) : m Value :=
  match store.kind? e with
  | some (.call access slots) => M.call store φ access slots
  | _ => M.operand store φ e

/-- A block runs its statements in order and has the value of the last one. -/
def block : Locals Value → List Statement → m Value
  | _, [] => return M.unit
  | φ, [.expression e] => M.expression store φ e
  | φ, .expression e :: rest => do
    let _ ← M.expression store φ e
    block φ rest
  | φ, .declaration c :: rest =>
    match store.decl? c with
    | some ⟨symbol, _, _, .property { initializer := some e, .. }⟩ => do
      let value ← M.operand store φ e
      block ((symbol, value) :: φ) rest
    | _ => block φ rest

/-- Evaluates a call, or a block around a call. -/
def evaluate (e : ExprId) : m Value :=
  match store.kind? e with
  | some (.block statements) => M.block store [] statements
  | _ => M.expression store [] e

section order

variable (access : Access) (order : List Nat) (arguments : Nat → Option ExprId)

def argument (i : Nat) : m (Option Value) := (arguments i).mapM (M.operand store [])

/-- The receivers first, then the arguments in the given order; each parameter gets the value that
its argument had then. -/
def inOrder : m Value := do
  let receivers ← M.receivers store [] access
  let values ← order.foldlM (record (M.argument store arguments)) fun _ => none
  M.invoke access.callee access.typeArguments receivers ((List.range order.length).map values)

/-- The arguments that are moved in the given order, then the receivers, and then the arguments that
are left from left to right. -/
def asBuilt : m Value := do
  let held ← (order.filter (store.moved arguments)).foldlM (record (M.argument store arguments))
    fun _ => none
  let receivers ← M.receivers store [] access
  let values ← (List.range order.length).mapM
    (settle (M.argument store arguments) (store.moved arguments) held)
  M.invoke access.callee access.typeArguments receivers values

/-- It makes no difference to a receiver whether a moved argument goes before it, and none to an
argument in its place whether a moved one that is written after it does. -/
structure Orderly : Prop where
  receiver : ∀ r, access.dispatchReceiver = some r ∨ access.extensionReceiver = some r →
    ∀ i ∈ order, store.moved arguments i →
      Commutes (M.operand store [] r) (M.argument store arguments i)
  argument : order.Pairwise fun i j => store.moved arguments i = false →
    store.moved arguments j →
      Commutes (M.argument store arguments i) (M.argument store arguments j)

end order

variable {M store}

/-- What stays in its place does nothing, or reads a variable. -/
theorem operand_of_not_moves (h : store.moves e = false) (φ : Locals Value) :
    (∃ v, M.operand store φ e = pure v) ∨ ∃ a, M.operand store φ e = M.lookup a := by
  obtain ⟨kind, hkind, hquiet⟩ : ∃ kind, store.kind? e = some kind ∧ hasNoEffect kind = true := by
    simpa [Store.moves, Option.any_eq_true] using h
  unfold operand
  rw [hkind]
  cases kind with
  | literal _ _ | classReference _ | lambda _ => exact .inl ⟨_, rfl⟩
  | read access =>
    obtain ⟨callee, _ | _, _ | _, _⟩ := access <;> cases hquiet
    dsimp only
    cases φ.lookup callee with
    | some value => exact .inl ⟨_, rfl⟩
    | none => exact .inr ⟨_, rfl⟩
  | callableReference access =>
    obtain ⟨_, _ | _, _ | _, _⟩ := access <;> cases hquiet
    exact .inl ⟨_, rfl⟩
  | _ => cases hquiet

section lawful

variable [LawfulMonad m]

theorem argument_commutes (hi : store.moved arguments i = false)
    (hj : store.moved arguments j = false) :
    Commutes (M.argument store arguments i) (M.argument store arguments j) := by
  refine .optionMapM fun e he => (Commutes.optionMapM fun e' he' => ?_).symm
  simp only [Store.moved, he, he', Option.any_some] at hi hj
  obtain ⟨v, hv⟩ | ⟨a, ha⟩ := operand_of_not_moves (M := M) hj []
  · rw [hv]
    exact .symm .pure
  obtain ⟨v, hv⟩ | ⟨b, hb⟩ := operand_of_not_moves (M := M) hi []
  · rw [hv]
    exact .pure
  · rw [ha, hb]
    exact M.lookup_commutes a b

theorem commutes_receivers {α : Type} {x : m α}
    (h : ∀ r, access.dispatchReceiver = some r ∨ access.extensionReceiver = some r →
      Commutes x (M.operand store φ r)) :
    Commutes x (M.receivers store φ access) :=
  .bind (.optionMapM fun r hr => h r (.inl hr)) fun _ =>
    .bind (.optionMapM fun r hr => h r (.inr hr)) fun _ => .pure

/-- Where moving arguments makes no difference to the others, none is made by the whole. -/
theorem asBuilt_eq_inOrder (hperm : order.Perm (List.range order.length))
    (h : M.Orderly store access order arguments) :
    M.asBuilt store access order arguments = M.inOrder store access order arguments := by
  let moved := store.moved arguments
  let ops := M.argument store arguments
  let invoke := M.invoke access.callee access.typeArguments
  have hreceivers : Commutes (M.receivers store [] access)
      ((order.filter moved).foldlM (record ops) fun _ => none) := by
    refine .foldlM_record fun i hi => (commutes_receivers fun r hr => ?_).symm
    obtain ⟨hi, hmoved⟩ := List.mem_filter.1 hi
    exact (h.receiver r hr i hi hmoved).symm
  have hleft (held : Nat → Option Value) :
      (order.filter (!moved ·)).foldlM (record ops) held =
        ((List.range order.length).filter (!moved ·)).foldlM (record ops) held := by
    have hstays (i : Nat) (hi : i ∈ order.filter (!moved ·)) : moved i = false := by
      simpa using (List.mem_filter.1 hi).2
    exact foldlM_record_perm (hperm.filter _) fun i hi j hj _ =>
      argument_commutes (hstays i hi) (hstays j hj)
  calc
    _ = (do
        let receivers ← M.receivers store [] access
        let held ← (order.filter moved).foldlM (record ops) fun _ => none
        let values ← (List.range order.length).mapM (settle ops moved held)
        invoke receivers values) := (hreceivers.swap _).symm
    _ = (do
        let receivers ← M.receivers store [] access
        let held ← (order.filter moved).foldlM (record ops) fun _ => none
        let values ← (order.filter (!moved ·)).foldlM (record ops) held
        invoke receivers ((List.range order.length).map values)) := by
      simp only [hleft, foldlM_record_settle List.nodup_range]
    _ = M.inOrder store access order arguments := by
      unfold inOrder
      rw [foldlM_record_partition h.argument, List.foldlM_append]
      simp only [bind_assoc]
      rfl

end lawful

end Machine

end TypedTree
