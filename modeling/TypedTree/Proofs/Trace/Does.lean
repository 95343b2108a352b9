import Mathlib.Tactic.Abel
import TypedTree.Proofs.Effect
import TypedTree.Proofs.Trace.Step

namespace TypedTree

open Desk Token

/-- Whether an error leaves no declaration without its symbol. -/
def LowerError.isClean : LowerError → Bool
  | .alreadyBound (.symbolBound _ _ _) => false
  | _ => true

variable {σ : Setting} {α β : Type}

/-- What a run that starts with the given tokens leads to. Further tokens are left alone. -/
def Outcome (σ : Setting) (s : State) (F : Multiset Token) (Q : State → α → Prop)
    (G : α → Multiset Token) (R : Multiset Token) : Except LowerError α × State → Prop
  | (.ok a, s') => Steps σ true ⟨F + R, s⟩ ⟨G a + R, s'⟩ ∧ Q s' a
  | (.error e, s') => ∃ h, Steps σ e.isClean ⟨F + R, s⟩ ⟨h, s'⟩

/-- The step takes the first tokens, and gives the others with its result. -/
def Does (σ : Setting) (s : State) (F : Multiset Token) (m : Lower α) (Q : State → α → Prop)
    (G : α → Multiset Token) : Prop :=
  s.Sane σ → ∀ R, Outcome σ s F Q G R (m.runFrom σ s)

namespace Does

variable {s : State} {F C R : Multiset Token} {m : Lower α} {k : α → Lower β}
  {P : State → α → Prop} {Q : State → β → Prop} {G : β → Multiset Token} {H : α → Multiset Token}

theorem pure (hb : Q s b) (hF : G b ≤ F) [hw : Keeps F (G b)] :
    Does σ s F (pure b) Q G := fun _ R =>
  ⟨.single (.drop (by gcongr) (by simpa only [waiting_add] using add_le_add_left hw.waiting_le _)),
    hb⟩

theorem throw : Does σ s F (throw e) Q G := fun _ _ => ⟨_, .refl⟩

/-- The tokens that the first step does not take are there for the second one. -/
theorem bind (h : Does σ s F m P H) (hC : C = F + R)
    (hk : ∀ s' a, s.Le s' → P s' a → Does σ s' (H a + R) (k a) Q G) :
    Does σ s C (m >>= k) Q G := by
  intro hs R'
  have hm := h hs (R + R')
  rw [Lower.runFrom_bind]
  have hsum : F + (R + R') = C + R' := by rw [hC, add_assoc]
  rcases hr : m.runFrom σ s with ⟨e | a, s'⟩
  · rw [hr] at hm
    obtain ⟨h, hsteps⟩ := hm
    exact ⟨h, hsum ▸ hsteps⟩
  · rw [hr] at hm
    obtain ⟨hsteps, hP⟩ := hm
    rw [hsum, ← add_assoc] at hsteps
    have hthen := hk s' a hsteps.le hP (hsteps.sane hs) R'
    change Outcome σ s C Q G R' ((k a).runFrom σ s')
    generalize (k a).runFrom σ s' = r at hthen ⊢
    obtain ⟨e | b, s''⟩ := r
    · obtain ⟨h, hrest⟩ := hthen
      cases he : e.isClean with
      | true => exact ⟨h, he ▸ hsteps.trans (he ▸ hrest)⟩
      | false => exact ⟨h, he ▸ hsteps.soil.trans (he ▸ hrest)⟩
    · exact ⟨hsteps.trans hthen.1, hthen.2⟩

theorem seq (h : Does σ s 0 m P H)
    (hk : ∀ s' a, s.Le s' → P s' a → Does σ s' (H a + C) (k a) Q G) :
    Does σ s C (m >>= k) Q G :=
  h.bind (zero_add C).symm hk

theorem weaken {m : Lower β} (h : Does σ s F m Q G) (hF : F ≤ C) [hw : Keeps C F] :
    Does σ s C m Q G := by
  intro hs R
  have hdrop : Steps σ true ⟨C + R, s⟩ ⟨F + R, s⟩ :=
    .single (.drop (by gcongr) (by simpa only [waiting_add] using add_le_add_left hw.waiting_le _))
  have hm := h hs R
  generalize m.runFrom σ s = r at hm ⊢
  obtain ⟨e | a, s'⟩ := r
  · obtain ⟨h, hsteps⟩ := hm
    cases he : e.isClean with
    | true => exact ⟨h, he ▸ hdrop.trans (he ▸ hsteps)⟩
    | false => exact ⟨h, he ▸ hdrop.soil.trans (he ▸ hsteps)⟩
  · exact ⟨hdrop.trans hm.1, hm.2⟩

theorem imp {m : Lower β} {Q' : State → β → Prop} {G' : β → Multiset Token}
    (h : Does σ s F m Q G) (hQ : ∀ s' b, s.Le s' → Q s' b → Q' s' b) (hG : ∀ b, G' b ≤ G b)
    [hw : ∀ b, Keeps (G b) (G' b)] : Does σ s F m Q' G' := by
  intro hs R
  have hm := h hs R
  generalize m.runFrom σ s = r at hm ⊢
  obtain ⟨e | b, s'⟩ := r
  · exact hm
  · refine ⟨hm.1.tail (.drop ?_ ?_), hQ s' b hm.1.le hm.2⟩
    · exact add_le_add_left (hG b) R
    · simp only [waiting_add]
      exact add_le_add_left (hw b).waiting_le _

theorem map (h : Does σ s F m P H) (hQ : ∀ s' a, s.Le s' → P s' a → Q s' (f a))
    (hG : ∀ a, G (f a) ≤ H a) [hw : ∀ a, Keeps (H a) (G (f a))] : Does σ s F (f <$> m) Q G := by
  rw [map_eq_pure_bind]
  refine h.bind (add_zero F).symm fun s' a hle ha => ?_
  rw [add_zero]
  exact pure (hQ s' a hle ha) (hG a)

/-- Looking at the state or at the setting changes nothing. -/
theorem of_runFrom {m m' : Lower β} (h : Does σ s F m Q G) (he : m'.runFrom σ s = m.runFrom σ s) :
    Does σ s F m' Q G := by
  intro hs R
  rw [he]
  exact h hs R

theorem read_bind {k : Setting → Lower β} (h : Does σ s F (k σ) Q G) :
    Does σ s F (read >>= k) Q G :=
  h.of_runFrom (Lower.runFrom_bind_ok _ _ (Lower.runFrom_read _ _) _)

theorem get_bind {k : State → Lower β} (h : Does σ s F (k s) Q G) :
    Does σ s F (get >>= k) Q G :=
  h.of_runFrom (Lower.runFrom_bind_ok _ _ (Lower.runFrom_get _ _) _)

theorem ran (h : Does σ s F m P H) :
    Does σ s F m (fun s' a => P s' a ∧ m.runFrom σ s = (.ok a, s')) H := by
  intro hs R
  have hm := h hs R
  rcases hr : m.runFrom σ s with ⟨e | a, s'⟩
  · rwa [hr] at hm
  · rw [hr] at hm
    exact ⟨hm.1, hm.2, rfl⟩

theorem sane (h : s.Sane σ → Does σ s F m P H) : Does σ s F m P H := fun hs => h hs hs

end Does

/-- The tokens that go with a value. No subject waits among them. -/
class Carries (α : Type) where
  tokens : α → Multiset Token
  quiet : ∀ a, Quiet (tokens a)

open Carries (tokens)

attribute [instance] Carries.quiet

namespace Carries

theorem waiting_tokens [Carries α] (a : α) : waiting (tokens a) = 0 := (quiet a).waiting_eq

instance : Carries ExprId := ⟨fun e => {.free e}, inferInstance⟩

instance : Carries DeclId := ⟨fun _ => 0, inferInstance⟩

instance : Carries SymbolId := ⟨fun _ => 0, inferInstance⟩

instance : Carries TreeType := ⟨fun _ => 0, inferInstance⟩

instance : Carries TypeProjection := ⟨fun _ => 0, inferInstance⟩

instance : Carries Unit := ⟨fun _ => 0, inferInstance⟩

instance [Carries α] : Carries (Option α) where
  tokens a := a.elim 0 tokens
  quiet a := by
    cases a with
    | none => exact inferInstanceAs (Quiet 0)
    | some a => exact quiet a

instance [Carries α] : Carries (List α) where
  tokens as := (as.map tokens).sum
  quiet as := ⟨by induction as <;> simp_all [waiting_tokens]⟩

instance [Carries α] [Carries β] : Carries (α × β) :=
  ⟨fun p => tokens p.1 + tokens p.2, inferInstance⟩

instance : Carries Access :=
  ⟨fun a => tokens a.dispatchReceiver + tokens a.extensionReceiver, inferInstance⟩

def ofStatement : Statement → Multiset Token
  | .declaration _ => 0
  | .expression e => tokens e

instance : Carries Statement where
  tokens := ofStatement
  quiet st := by
    cases st with
    | declaration => exact inferInstanceAs (Quiet 0)
    | expression e => exact quiet e

instance : Carries WhenBranch := ⟨fun b => tokens b.condition + tokens b.result, inferInstance⟩

instance : Carries Catch := ⟨fun c => tokens c.body, inferInstance⟩

theorem tokens_expr (e : ExprId) : tokens e = {.free e} := rfl

@[simp] theorem tokens_decl (d : DeclId) : tokens d = 0 := rfl

@[simp] theorem tokens_symbol (id : SymbolId) : tokens id = 0 := rfl

@[simp] theorem tokens_type (τ : TreeType) : tokens τ = 0 := rfl

@[simp] theorem tokens_projection (p : TypeProjection) : tokens p = 0 := rfl

@[simp] theorem tokens_unit (u : Unit) : tokens u = 0 := rfl

@[simp] theorem tokens_pair [Carries α] [Carries β] (p : α × β) :
    tokens p = tokens p.1 + tokens p.2 := rfl

@[simp] theorem tokens_declaration (d : DeclId) : tokens (Statement.declaration d) = 0 := rfl

@[simp] theorem tokens_expression (e : ExprId) : tokens (Statement.expression e) = tokens e := rfl

@[simp] theorem tokens_branch (b : WhenBranch) : tokens b = tokens b.condition + tokens b.result :=
  rfl

@[simp] theorem tokens_catch (c : Catch) : tokens c = tokens c.body := rfl

@[simp] theorem tokens_access (a : Access) :
    tokens a = tokens a.dispatchReceiver + tokens a.extensionReceiver := rfl

section

variable [Carries α]

@[simp] theorem tokens_none : tokens (none : Option α) = 0 := rfl

@[simp] theorem tokens_some (a : α) : tokens (some a) = tokens a := rfl

@[simp] theorem tokens_nil : tokens ([] : List α) = 0 := rfl

@[simp] theorem tokens_cons (a : α) (as : List α) : tokens (a :: as) = tokens a + tokens as := by
  simp [tokens]

@[simp] theorem tokens_append (as bs : List α) : tokens (as ++ bs) = tokens as + tokens bs := by
  simp [tokens]

@[simp] theorem tokens_toList (a : Option α) : tokens a.toList = tokens a := by
  cases a <;> simp

@[simp] theorem tokens_flatten (as : List (List α)) : tokens as.flatten = tokens as := by
  induction as with
  | nil => rfl
  | cons a as ih => simp [ih]

@[simp] theorem tokens_filterMap (as : List (Option α)) :
    tokens (as.filterMap fun a => a) = tokens as := by
  induction as with
  | nil => rfl
  | cons a as ih => cases a <;> simp [ih]

@[simp] theorem tokens_map_some (as : List α) : tokens (as.map some) = tokens as := by
  induction as with
  | nil => rfl
  | cons a as ih => simp [ih]

@[simp] theorem tokens_reduceOption (as : List (Option α)) : tokens as.reduceOption = tokens as :=
  tokens_filterMap as

@[simp] theorem tokens_replicate_none (n : Nat) :
    tokens (List.replicate n (none : Option α)) = 0 := by
  induction n with
  | zero => rfl
  | succ n ih => simp [List.replicate_succ, ih]

theorem tokens_eq_zero {as : List α} (h : ∀ a ∈ as, tokens a = 0) : tokens as = 0 := by
  induction as with
  | nil => rfl
  | cons a as ih =>
    rw [tokens_cons, h a (by simp), ih fun b hb => h b (by simp [hb]), add_zero]

@[simp] theorem tokens_decls (ds : List DeclId) : tokens ds = 0 := tokens_eq_zero fun _ _ => rfl

@[simp] theorem tokens_symbols (ids : List SymbolId) : tokens ids = 0 :=
  tokens_eq_zero fun _ _ => rfl

@[simp] theorem tokens_types (ts : List TreeType) : tokens ts = 0 := tokens_eq_zero fun _ _ => rfl

@[simp] theorem tokens_projections (ps : List TypeProjection) : tokens ps = 0 :=
  tokens_eq_zero fun _ _ => rfl

@[simp] theorem tokens_optionDecl (d : Option DeclId) : tokens d = 0 := by cases d <;> rfl

@[simp] theorem tokens_optionSymbol (id : Option SymbolId) : tokens id = 0 := by cases id <;> rfl

@[simp] theorem tokens_optionType (τ : Option TreeType) : tokens τ = 0 := by cases τ <;> rfl

end

end Carries

open Carries

@[simp] theorem frees_eq_tokens (ids : List ExprId) : frees ids = tokens ids := by
  induction ids with
  | nil => rfl
  | cons id ids ih =>
    rw [tokens_cons, ← ih]
    rfl

theorem tokens_flatMap [Carries α] {f : α → List ExprId} (h : ∀ a, tokens (f a) = tokens a)
    (as : List α) : tokens (as.flatMap f) = tokens as := by
  induction as with
  | nil => rfl
  | cons a as ih => simp [ih, h]

@[simp] theorem tokens_statements (ss : List Statement) :
    tokens (ss.flatMap (·.operands)) = tokens ss :=
  tokens_flatMap (fun st => by cases st <;> simp [Statement.operands]) ss

@[simp] theorem tokens_branches (bs : List WhenBranch) :
    tokens (bs.flatMap (·.operands)) = tokens bs :=
  tokens_flatMap (fun b => by simp [WhenBranch.operands]) bs

@[simp] theorem tokens_catches (cs : List Catch) : tokens (cs.map (·.body)) = tokens cs := by
  induction cs with
  | nil => rfl
  | cons c cs ih => simp [ih]

attribute [simp] Access.operands ExprKind.operands ExprKind.takes ExprKind.types DeclKind.operands
  DeclKind.types

end TypedTree
