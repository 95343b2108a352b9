import TypedTree.Proofs.Printing
import TypedTree.Proofs.Reach

namespace TypedTree

/-- Symbols and holders stand for themselves, and of the nodes those among some parts. -/
def Correspondence.among (parts : List TreePart) : Correspondence where
  symbol a b := a = b
  note a b := a = b ∧ .expr a ∈ parts
  expr _ _ _ := False
  decl _ a b := a = b ∧ .decl a ∈ parts
  holder a b := a = b
  expr_weaken _ h := h
  decl_weaken _ h := h

open Correspondence

section self

variable {g : Region} {parts : List TreePart}

theorem exprs_self (h : TreePart.exprs xs ⊆ parts) : List.Forall₂ (among parts).note xs xs :=
  List.forall₂_same.2 fun _ hx => ⟨rfl, h (List.mem_map_of_mem hx)⟩

theorem operands_self (h : TreePart.exprs xs ⊆ parts) :
    List.Forall₂ ((among parts).part g) xs xs :=
  (exprs_self h).imp fun _ _ => .inr

theorem decls_self (h : TreePart.decls xs ⊆ parts) : List.Forall₂ ((among parts).decl g) xs xs :=
  List.forall₂_same.2 fun _ hx => ⟨rfl, h (List.mem_map_of_mem hx)⟩

theorem part_self {x : ExprId} (h : .expr x ∈ parts) : (among parts).part g x x := .inr ⟨rfl, h⟩

theorem part?_self {x : Option ExprId} (h : TreePart.expr? x ⊆ parts) :
    Option.Rel ((among parts).part g) x x :=
  Option.rel_self fun _ ha => part_self (h (List.mem_map_of_mem (Option.mem_toList.2 ha)))

theorem decl?_self {x : Option DeclId} (h : TreePart.decl? x ⊆ parts) :
    Option.Rel ((among parts).decl g) x x :=
  Option.rel_self fun _ ha => ⟨rfl, h (List.mem_map_of_mem (Option.mem_toList.2 ha))⟩

theorem slots_self {xs : List (Option ExprId)} (h : TreePart.arguments xs ⊆ parts) :
    List.Forall₂ (Option.Rel ((among parts).part g)) xs xs :=
  List.forall₂_same.2 fun x hx => Option.rel_self fun _ ha =>
    part_self (h (List.mem_map_of_mem (List.mem_filterMap.2 ⟨x, hx, ha⟩)))

mutual

theorem TreeType.alike_self : (type : TreeType) → type.parts ⊆ parts →
    TreeType.Alike (among parts) type type
  | ⟨_, _, arguments, _⟩, hsub => by
    simp only [TreeType.parts, List.cons_subset, List.append_subset] at hsub
    exact .mk rfl (TypeProjection.allAlike_self arguments hsub.2.2.1) (exprs_self hsub.2.2.2)

theorem TypeProjection.allAlike_self : (arguments : List TypeProjection) →
    TypeProjection.partsOfAll arguments ⊆ parts →
      TypeProjection.AllAlike (among parts) arguments arguments
  | [], _ => .nil
  | .star :: rest, hsub => .star (TypeProjection.allAlike_self rest hsub)
  | .projection _ type :: rest, hsub => by
    simp only [TypeProjection.partsOfAll, List.append_subset] at hsub
    exact .projection (TreeType.alike_self type hsub.1)
      (TypeProjection.allAlike_self rest hsub.2)

end

theorem types_self {ts : List TreeType} (h : TreePart.types ts ⊆ parts) :
    List.Forall₂ (TreeType.Alike (among parts)) ts ts :=
  List.forall₂_same.2 fun t ht => t.alike_self fun _ hp => h (List.mem_flatMap.2 ⟨t, ht, hp⟩)

theorem type?_self {t : Option TreeType} (h : TreePart.type? t ⊆ parts) :
    Option.Rel (TreeType.Alike (among parts)) t t :=
  Option.rel_self fun a ha => a.alike_self
    fun _ hp => h (List.mem_flatMap.2 ⟨a, Option.mem_toList.2 ha, hp⟩)

theorem Access.alike_self {a : Access} (hsub : a.parts ⊆ parts) :
    Access.Alike (among parts) g a a := by
  simp only [Access.parts, List.cons_subset, List.append_subset] at hsub
  exact ⟨rfl, part?_self hsub.2.1.1, part?_self hsub.2.1.2, types_self hsub.2.2⟩

theorem DeclKind.alike_self {k : DeclKind} (hsub : k.parts ⊆ parts) :
    DeclKind.Alike (among parts) g k k := by
  have hsymbols : ∀ ids, List.Forall₂ (among parts).symbol ids ids := fun _ =>
    List.forall₂_same.2 fun _ _ => rfl
  cases k <;> simp only [DeclKind.parts, List.append_subset, List.cons_subset] at hsub
  case classLike d =>
    exact .classLike (decls_self hsub.1.1) (types_self hsub.1.2) (decls_self hsub.2)
  case function d =>
    obtain ⟨⟨⟨⟨⟨⟨hts, hdr⟩, her⟩, hps⟩, hr⟩, _⟩, hb⟩ := hsub
    exact .function (decls_self hts) (type?_self hdr) (type?_self her) (decls_self hps)
      (TreeType.alike_self _ hr) (part?_self hb) (hsymbols _)
  case constructor d =>
    obtain ⟨⟨⟨hps, hr⟩, hc⟩, hb⟩ := hsub
    exact .constructor (decls_self hps) (TreeType.alike_self _ hr) (part?_self hc) (part?_self hb)
  case property d =>
    obtain ⟨⟨⟨⟨⟨⟨⟨hts, hr⟩, hdr⟩, her⟩, hi⟩, hd⟩, hx⟩, hy⟩ := hsub
    exact .property (TreeType.alike_self _ hr) (type?_self hdr) (type?_self her) (decls_self hts)
      (part?_self hi) (part?_self hd) (decl?_self hx) (decl?_self hy)
  case accessor d =>
    obtain ⟨_, ⟨hps, hr⟩, hb⟩ := hsub
    exact .accessor rfl (TreeType.alike_self _ hr) (decls_self hps) (part?_self hb)
  case initializer body => exact .initializer (part_self hsub.1)
  case typeParameter d => exact .typeParameter (types_self hsub)
  case valueParameter d =>
    exact .valueParameter (TreeType.alike_self _ hsub.1.1) (part?_self hsub.1.2)
      (Option.rel_self fun _ _ => rfl)
  case typeAlias d => exact .typeAlias (decls_self hsub.1) (TreeType.alike_self _ hsub.2)

theorem Decl.alike_self (d : Decl) : Decl.Alike (among d.parts) g d d := by
  have hsub := List.append_subset.1 (List.Subset.refl d.parts)
  exact ⟨rfl, rfl, exprs_self hsub.1, DeclKind.alike_self hsub.2⟩

/-- An expression is like itself where its parts stand for themselves. The subject of a safe call
names an expression that is none of its parts. -/
theorem ExprKind.alike_self {k : ExprKind} (hsub : k.parts ⊆ parts)
    (hk : ∀ receiver, k ≠ .safeCallSubject receiver) : ∃ g, ExprKind.Alike (among parts) g k k := by
  cases k <;> simp only [ExprKind.parts, List.append_subset, List.cons_subset] at hsub
  case literal | thisRef | unit | malformed => exact ⟨[], by constructor⟩
  case block statements =>
    refine ⟨[], .block (List.forall₂_same.2 fun s hs => ?_)⟩
    have hpart := hsub (List.mem_map_of_mem hs)
    cases s with
    | declaration id => exact .declaration ⟨rfl, hpart⟩
    | expression id => exact .expression (part_self hpart)
  case read a => exact ⟨[], .read (Access.alike_self hsub)⟩
  case call a slots => exact ⟨[], .call (Access.alike_self hsub.1) (slots_self hsub.2)⟩
  case delegatedCall => exact ⟨[], .delegatedCall rfl (slots_self hsub.2)⟩
  case assignment a value =>
    exact ⟨[], .assignment (Access.alike_self hsub.1) (part_self hsub.2.1)⟩
  case intrinsic => exact ⟨[], .intrinsic (operands_self hsub)⟩
  case concatenation => exact ⟨[], .concatenation (operands_self hsub)⟩
  case elvis => exact ⟨[], .elvis (part_self hsub.1) (part_self hsub.2.1)⟩
  case typeOperation =>
    exact ⟨[], .typeOperation (part_self hsub.1) (TreeType.alike_self _ hsub.2)⟩
  case choice whenRef subject subjectVariable branches =>
    obtain ⟨⟨⟨_, hs⟩, hv⟩, hb⟩ := hsub
    have hbranches : ∀ inside,
        List.Forall₂ (WhenBranch.Alike (among parts) inside []) branches branches := by
      refine fun inside => List.forall₂_same.2 fun b hmem => ?_
      have hparts : b.parts ⊆ parts := fun _ hp => hb (List.mem_flatMap.2 ⟨b, hmem, hp⟩)
      simp only [WhenBranch.parts, List.append_subset, List.cons_subset] at hparts
      exact ⟨part?_self hparts.1, part_self hparts.2.1⟩
    cases whenRef with
    | none => exact ⟨[], .plainChoice (part?_self hs) (decl?_self hv) (hbranches _)⟩
    | some r => exact ⟨[], .choice rfl (part?_self hs) (decl?_self hv) (hbranches _)⟩
  case whenSubject r =>
    exact ⟨[(.choice r, .choice r)], .whenSubject rfl List.mem_cons_self⟩
  case whileLoop => exact ⟨[], .whileLoop rfl (part_self hsub.2.1) (part_self hsub.2.2.1)⟩
  case doWhile => exact ⟨[], .doWhile rfl (part_self hsub.2.1) (part_self hsub.2.2.1)⟩
  case breakJump t => exact ⟨[(.loop t, .loop t)], .breakJump rfl List.mem_cons_self⟩
  case continueJump t => exact ⟨[(.loop t, .loop t)], .continueJump rfl List.mem_cons_self⟩
  case returnJump t value =>
    exact ⟨[(.function t, .function t)],
      .returnJump rfl List.mem_cons_self (part_self hsub.2.1)⟩
  case throwing => exact ⟨[], .throwing (part_self hsub.1)⟩
  case tryCatch body catches finalizer =>
    refine ⟨[], .tryCatch (part_self hsub.1) (List.forall₂_same.2 fun c hc => ?_)
      (part?_self hsub.2.2)⟩
    have hparts : ∀ p ∈ [TreePart.decl c.parameter, .expr c.body], p ∈ parts := fun p hp =>
      hsub.2.1 (List.mem_flatMap.2 ⟨c, hc, hp⟩)
    exact ⟨⟨rfl, hparts _ (by simp)⟩, part_self (hparts _ (by simp))⟩
  case superRef => exact ⟨[], .superRef (type?_self hsub)⟩
  case classReference => exact ⟨[], .classReference rfl⟩
  case callableReference => exact ⟨[], .callableReference (Access.alike_self hsub)⟩
  case lambda => exact ⟨[], .lambda ⟨rfl, hsub.1⟩⟩
  case anonymousObject => exact ⟨[], .anonymousObject ⟨rfl, hsub.1⟩⟩
  case safeCall =>
    exact ⟨[], .safeCall (part_self hsub.1) (part_self hsub.2.1) (part_self hsub.2.2.1)⟩
  case safeCallSubject receiver => exact (hk receiver rfl).elim
  case vararg => exact ⟨[], .vararg (operands_self hsub)⟩
  case spread => exact ⟨[], .spread (part_self hsub.1)⟩
  case delegateField => exact ⟨[], .delegateField rfl (part?_self hsub.2)⟩

end self

namespace Fragment

open Print

def Agree (plain : Prop) (r r' : Inner) : TreePart → Prop
  | .expr id => Inline plain (r.expr id) (r'.expr id)
  | .decl id => Inline plain (r.decl id) (r'.decl id)
  | _ => True

section agree

variable {plain : Prop} {f : Fragment} (hf : plain → ∀ name ∈ f.names, OneLine name) {r r' : Inner}
  {parts : List TreePart} {part : TreePart}

include hf

theorem prints_of_agree (h : ∀ part ∈ parts, Agree plain r r' part) :
    (among parts).Prints plain f f r r' where
  symbol := by
    rintro a _ rfl
    exact ⟨rfl, fun hp => oneLine_nameOf (hf hp) a⟩
  holder := by
    rintro a _ rfl
    exact Option.rel_self fun l hl => ⟨rfl, fun hp => hf hp l (mem_names_of_labelOf hl)⟩
  part := by
    rintro g a _ (hfalse | ⟨rfl, ha⟩)
    · cases hfalse
    · exact h _ ha
  decl := by
    rintro g a _ ⟨rfl, ha⟩
    exact h _ ha

theorem agree_value {id : DeclId} (hid : Agree plain r r' (.decl id))
    (h : ∀ part ∈ f.store.below (.decl id), Agree plain r r' part) :
    Inline plain (f.printFunctionValue r id) (f.printFunctionValue r' id) := by
  unfold printFunctionValue
  split
  next s o n d hd =>
    have hparts : f.store.below (.decl id) = Decl.parts ⟨s, o, n, .function d⟩ := by
      simp [Store.below, hd]
    exact (prints_of_agree hf (hparts ▸ h)).lambda (Decl.alike_self (g := []) _).kind
      (Option.rel_self fun l hl => ⟨rfl, fun hp => hf hp l (mem_names_of_decl hd hl)⟩)
  next => exact hid

/-- A node prints the same one step deeper if what is inside of it does. A function value prints
the parts of a declaration at the depth of the declaration itself. -/
theorem agree_succ {j k : Nat}
    (h : ∀ child ∈ f.store.below part, Agree plain (f.inner j) (f.inner k) child)
    (hnext : ∀ child ∈ f.store.below part, ∀ next ∈ f.store.below child,
      Agree plain (f.inner j) (f.inner k) next) :
    Agree plain (f.inner (j + 1)) (f.inner (k + 1)) part := by
  cases part with
  | decl id =>
    refine .given (Option.rel_self fun x hx => ?_)
    have hparts : f.store.below (.decl id) = x.parts := by simp [Store.below, Option.mem_def.1 hx]
    exact (prints_of_agree hf (hparts ▸ h)).declWith (g := []) x.alike_self
  | expr id =>
    refine .given (Option.rel_self fun x hx => ?_)
    have hparts : f.store.below (.expr id) = x.parts := by simp [Store.below, Option.mem_def.1 hx]
    rw [hparts] at h hnext
    have hp := prints_of_agree hf h
    have hsub := List.append_subset.1 (List.Subset.refl x.parts)
    refine .seq (hp.annotations (exprs_self (List.append_subset.1 hsub.1).2)) ?_
    by_cases hk : ∃ receiver, x.kind = .safeCallSubject receiver
    · obtain ⟨receiver, hk⟩ := hk
      rw [hk]
      exact .text rfl
    · obtain ⟨g, halike⟩ := ExprKind.alike_self hsub.2 fun receiver hr => hk ⟨receiver, hr⟩
      refine hp.exprKind halike
        (fun label hl => Option.rel_self fun l hl' => ⟨rfl, fun hp => ?_⟩) ?_
      · exact hf hp l (mem_names_of_expr hx (by rw [hl]; exact hl'))
      · rintro _ a _ ⟨rfl, ha⟩
        exact agree_value hf (h _ ha) (hnext _ ha)
  | _ => trivial

/-- What is nested less deep prints the same at every greater depth. -/
theorem agree_of_within (h : f.store.Within n part) {j k : Nat} (hj : n ≤ j) (hk : n ≤ k) :
    Agree plain (f.inner j) (f.inner k) part := by
  induction n generalizing part j k with
  | zero =>
    cases part with
    | expr id =>
      have hnone : f.store.expr? id = none := by simpa [Store.Within, Store.Stands] using h
      have hpure : ∀ i, (f.inner i).expr id = pure () := fun i => by
        cases i <;> simp [inner, hnone, Print.given]
      change Inline plain _ _
      rw [hpure, hpure]
      exact .pure
    | decl id =>
      have hnone : f.store.decl? id = none := by simpa [Store.Within, Store.Stands] using h
      have hpure : ∀ i, (f.inner i).decl id = pure () := fun i => by
        cases i <;> simp [inner, hnone, Print.given]
      change Inline plain _ _
      rw [hpure, hpure]
      exact .pure
    | _ => trivial
  | succ n ih =>
    obtain ⟨i, rfl⟩ : ∃ i, j = i + 1 := Nat.exists_eq_succ_of_ne_zero (by omega)
    obtain ⟨l, rfl⟩ : ∃ l, k = l + 1 := Nat.exists_eq_succ_of_ne_zero (by omega)
    exact agree_succ hf (fun child hc => ih (h child hc) (by omega) (by omega))
      fun child hc next hn => ih ((h child hc).below hn) (by omega) (by omega)

end agree

variable {f f' : Fragment}

/-- Where nothing stands below itself, nothing is cut off when it is printed. -/
theorem inner_eq (h : f.store.Acyclic) (more : Nat) :
    f.inner (f.depth + more) = f.inner f.depth := by
  have hagree : ∀ part, Agree False (f.inner (f.depth + more)) (f.inner f.depth) part := fun part =>
    agree_of_within nofun (h.within part) (Nat.le_add_right _ _) (Nat.le_refl _)
  have hdecl : (f.inner (f.depth + more)).decl = (f.inner f.depth).decl :=
    funext fun id => (hagree (.decl id) 0).eq
  have hexpr : (f.inner (f.depth + more)).expr = (f.inner f.depth).expr :=
    funext fun id => (hagree (.expr id) 0).eq
  generalize f.inner (f.depth + more) = r at hdecl hexpr ⊢
  generalize f.inner f.depth = r' at hdecl hexpr ⊢
  obtain ⟨decl, expr⟩ := r
  obtain ⟨decl', expr'⟩ := r'
  cases hdecl
  cases hexpr
  rfl

theorem renderDecl_eq {C : Correspondence} (h : C.Bisimulates f f')
    (hf : f.store.Acyclic) (hf' : f'.store.Acyclic) {g : Region} {a b : DeclId}
    (hab : C.decl g a b) : f.renderDecl a = f'.renderDecl b := by
  -- Both sides print at one depth, which is enough for either of them.
  have hdecl := ((h.prints (f.depth + f'.depth)).decl hab 0).eq
  rw [inner_eq hf, Nat.add_comm, inner_eq hf'] at hdecl
  simp only [renderDecl, printDecl, printDeclLine, hdecl]

end Fragment

end TypedTree
