import TypedTree.Proofs.Ledger.Sound

namespace TypedTree

theorem getElem?_push_of_some {α : Type} {xs : Array α} {i : Nat} {a b : α}
    (h : xs[i]? = some a) : (xs.push b)[i]? = some a := by
  have hi := (Array.getElem?_eq_some_iff.1 h).1
  rw [Array.getElem?_push, if_neg (by omega), h]

namespace Store

theorem mentions_addExpr (s : Store) (x : Expr) (part : TreePart) :
    (s.addExpr x).2.mentions part =
      if part = .expr ⟨s.exprs.size⟩ then x.mentions else s.mentions part := by
  cases part with
  | expr id =>
    obtain ⟨i⟩ := id
    by_cases hi : i = s.exprs.size <;>
      simp [mentions, addExpr, expr?, Array.getElem?_push, hi]
  | _ => simp [mentions, addExpr, decl?]

theorem mentions_addDecl (s : Store) (x : Decl) (part : TreePart) :
    (s.addDecl x).2.mentions part =
      if part = .decl ⟨s.decls.size⟩ then x.mentions else s.mentions part := by
  cases part with
  | decl id =>
    obtain ⟨i⟩ := id
    by_cases hi : i = s.decls.size <;>
      simp [mentions, addDecl, decl?, Array.getElem?_push, hi]
  | _ => simp [mentions, addDecl, expr?]

theorem expr?_annotateExpr (s : Store) (id e : ExprId) (calls : List ExprId) :
    (s.annotateExpr id calls).expr? e = if e = id
      then (s.expr? e).map fun x => { x with annotations := x.annotations ++ calls }
      else s.expr? e := by
  obtain ⟨i⟩ := id
  obtain ⟨j⟩ := e
  by_cases h : j = i
  · simp [annotateExpr, expr?, Array.getElem?_modify, h]
  · simp [annotateExpr, expr?, Array.getElem?_modify, h, Ne.symm h]

theorem mem_mentions_annotateExpr (s : Store) {id : ExprId} {calls : List ExprId} {x : Expr}
    (hx : s.expr? id = some x) {part : TreePart} {m : Mention} :
    m ∈ (s.annotateExpr id calls).mentions part ↔
      m ∈ s.mentions part ∨ part = .expr id ∧ m ∈ Mention.annotations calls := by
  cases part with
  | expr e =>
    by_cases h : e = id
    · subst h
      simp [mentions, expr?_annotateExpr, hx, Expr.mentions, Mention.annotations]
      grind
    · simp [mentions, expr?_annotateExpr, h]
  | _ => simp [mentions, annotateExpr, decl?]

end Store

namespace Entries

variable {n n' : Entries} {σ : Setting} {strict : Bool}

/-- One node is new, and what it owns was there before. -/
theorem Sound.newNode (h : n.Sound σ strict) (hle : n.Le n') {new : TreePart}
    (hnew : ¬ n.Present new) (hold : ∀ part, part ≠ new → n'.mentions part = n.mentions part)
    (hfit : ∀ m ∈ n'.mentions new, n'.Allows new m ∧ ∀ c, m.node? = some c → n.Present c) :
    (∀ part, ∀ m ∈ n'.mentions part, n'.Allows part m) ∧ WellFounded n'.Owns := by
  constructor
  · intro part m hm
    by_cases hp : part = new
    · subst hp
      exact (hfit m hm).1
    · rw [hold part hp] at hm
      exact hle.allows (h.allows part m hm)
  · refine wellFounded_of_stable (S := fun p => p ≠ new) h.wellFounded ?_ ?_
    · rintro p c hp ⟨m, hm, hc⟩
      rw [hold p hp] at hm
      have ho : n.Owns c p := ⟨m, hm, hc⟩
      exact ⟨fun he => hnew (he ▸ h.present ho), ho⟩
    · rintro p c ⟨m, hm, hc⟩
      by_cases hp : p = new
      · subst hp
        exact .inr fun he => hnew (he ▸ (hfit m hm).2 c hc)
      · rw [hold p hp] at hm
        exact .inl ⟨m, hm, hc⟩

def addExpr (n : Entries) (x : Expr) (t : Tint) : Entries :=
  { n with state.store := (n.state.store.addExpr x).2, tints := n.tints.push t }

def nextExpr (n : Entries) : ExprId := ⟨n.state.store.exprs.size⟩

theorem le_addExpr (n : Entries) (x : Expr) (t : Tint) : n.Le (n.addExpr x t) where
  tint h := getElem?_push_of_some h
  mark h := h
  settled _ h := getElem?_push_of_some h
  decl h := h
  mentions part m hm := by
    simp only [mentions, addExpr, Store.mentions_addExpr]
    split
    next he => simp [mentions, he, Store.mentions, Store.expr?] at hm
    next => exact hm
  targets := .of_same rfl rfl rfl
  table := .refl _

theorem Sound.not_present_nextExpr (h : n.Sound σ strict) : ¬ n.Present (.expr n.nextExpr) := by
  simp [Present, tint?, nextExpr, h.tints_size]

theorem Sound.addExpr (h : n.Sound σ strict) {x : Expr} {t : Tint}
    (hfit : ∀ m ∈ x.mentions, (n.addExpr x t).Allows (.expr n.nextExpr) m ∧
      ∀ c, m.node? = some c → n.Present c) : (n.addExpr x t).Sound σ strict := by
  have hle := n.le_addExpr x t
  have hmentions : ∀ part, (n.addExpr x t).mentions part =
      if part = .expr n.nextExpr then x.mentions else n.mentions part :=
    n.state.store.mentions_addExpr x
  obtain ⟨hallows, hwf⟩ := h.newNode hle h.not_present_nextExpr
    (fun part hp => by rw [hmentions, if_neg hp])
    (fun m hm => hfit m (by rwa [hmentions, if_pos rfl] at hm))
  exact {
    tints_size := by simp [Entries.addExpr, Store.addExpr, h.tints_size]
    marks_size := h.marks_size
    allows := hallows
    wellFounded := hwf
    guarded := h.guarded.keep hle rfl (fun _ hh => hh) fun _ => rfl
    targets := h.targets
    classes := fun hx => hle.confines (h.classes hx)
    owners := h.owners
    table := h.table
    types := fun ht => (h.types ht).mono hle
    counted := h.counted }

@[simp] theorem tint?_addExpr_nextExpr (h : n.Sound σ strict) (x : Expr) (t : Tint) :
    (n.addExpr x t).tint? n.nextExpr = some t := by
  simp [tint?, addExpr, nextExpr, ← h.tints_size]

@[simp] theorem expr?_addExpr_nextExpr (n : Entries) (x : Expr) (t : Tint) :
    (n.addExpr x t).expr? n.nextExpr = some x := by
  simp [expr?, addExpr, nextExpr, Store.addExpr, Store.expr?]

theorem Sound.addSettled (h : n.Sound σ strict) {x : Expr}
    (hfit : ∀ m ∈ x.mentions, n.Settles m) : (n.addExpr x .settled).Sound σ strict := by
  refine h.addExpr fun m hm => ⟨?_, fun c hc => (hfit m hm).present hc⟩
  simp only [Allows, tint?_addExpr_nextExpr h]
  exact (n.le_addExpr x .settled).settles (hfit m hm)

theorem Sound.addCode (h : n.Sound σ strict) {x : Expr} {g : List Holder}
    (hfit : ∀ m ∈ x.mentions, n.Fits g (.expr n.nextExpr) m) :
    (n.addExpr x (.code g)).Sound σ strict := by
  refine h.addExpr fun m hm => ⟨?_, fun c hc => (hfit m hm).present hc⟩
  simp only [Allows, tint?_addExpr_nextExpr h]
  exact (n.le_addExpr x (.code g)).fits (hfit m hm)

def annotate (n : Entries) (id : ExprId) (calls : List ExprId) : Entries :=
  { n with state.store := n.state.store.annotateExpr id calls }

theorem le_annotate {id : ExprId} (ht : n.tint? id = some (.code g)) {x : Expr}
    (hx : n.expr? id = some x) (calls : List ExprId) : n.Le (n.annotate id calls) where
  tint h := h
  mark h := h
  settled {e _} hs h := by
    have he : e ≠ id := fun he => by simp [Settled, he, ht] at hs
    simpa [expr?, annotate, Store.expr?_annotateExpr, he] using h
  decl h := h
  mentions part m hm := (n.state.store.mem_mentions_annotateExpr hx).2 (.inl hm)
  targets := .of_same rfl rfl rfl
  table := .refl _

/-- Annotations are settled, and what they go on is not, so no circle arises. -/
theorem Sound.annotate (h : n.Sound σ strict) {id : ExprId} {g : List Holder}
    (ht : n.tint? id = some (.code g)) {x : Expr} (hx : n.expr? id = some x)
    {calls : List ExprId} (hcalls : ∀ e ∈ calls, n.Settled e) :
    (n.annotate id calls).Sound σ strict := by
  have hle := le_annotate ht hx calls
  have hmentions : ∀ {part m}, m ∈ (n.annotate id calls).mentions part →
      m ∈ n.mentions part ∨ part = .expr id ∧ m ∈ Mention.annotations calls :=
    fun hm => (n.state.store.mem_mentions_annotateExpr hx).1 hm
  have hsettled : ∀ e, n.Settled e → TreePart.expr e ≠ .expr id := by
    rintro e he hid
    cases hid
    simp [Settled, ht] at he
  refine ⟨?_, h.marks_size, fun part m hm => ?_, ?_, h.guarded.keep hle rfl (fun _ hh => hh)
    fun _ => rfl, h.targets, fun hy => hle.confines (h.classes hy), h.owners, h.table,
    fun hτ => (h.types hτ).mono hle, h.counted⟩
  · simp [Entries.annotate, Store.annotateExpr, h.tints_size]
  · rcases hmentions hm with hm | ⟨rfl, hnote⟩
    · exact hle.allows (h.allows part m hm)
    · obtain ⟨e, he, rfl⟩ := List.mem_map.1 hnote
      simp only [Allows, hle.tint ht]
      exact hle.tint (hcalls e he)
  · refine wellFounded_of_stable (S := fun p => ∃ e, p = .expr e ∧ n.Settled e) h.wellFounded ?_ ?_
    · rintro p c ⟨e, rfl, he⟩ ⟨m, hm, hc⟩
      rcases hmentions hm with hm | ⟨hid, _⟩
      · exact ⟨h.settled_child he ⟨m, hm, hc⟩, m, hm, hc⟩
      · exact (hsettled e he hid).elim
    · rintro p c ⟨m, hm, hc⟩
      rcases hmentions hm with hm | ⟨rfl, hnote⟩
      · exact .inl ⟨m, hm, hc⟩
      · obtain ⟨e, he, rfl⟩ := List.mem_map.1 hnote
        cases hc
        exact .inr ⟨e, rfl, hcalls e he⟩

def addDecl (n : Entries) (x : Decl) (m : Mark) : Entries :=
  { n with state.store := (n.state.store.addDecl x).2, marks := n.marks.push m }

def nextDecl (n : Entries) : DeclId := ⟨n.state.store.decls.size⟩

theorem le_addDecl (n : Entries) (x : Decl) (m : Mark) : n.Le (n.addDecl x m) where
  tint h := h
  mark h := getElem?_push_of_some h
  settled _ h := h
  decl h := getElem?_push_of_some h
  mentions part m hm := by
    simp only [mentions, addDecl, Store.mentions_addDecl]
    split
    next he => simp [mentions, he, Store.mentions, Store.decl?] at hm
    next => exact hm
  targets := .of_same rfl rfl rfl
  table := .refl _

theorem Sound.not_present_nextDecl (h : n.Sound σ strict) : ¬ n.Present (.decl n.nextDecl) := by
  simp [Present, mark?, nextDecl, h.marks_size]

theorem mark?_addDecl_nextDecl (h : n.Sound σ strict) (x : Decl) (m : Mark) :
    (n.addDecl x m).mark? n.nextDecl = some m := by
  simp [mark?, addDecl, nextDecl, ← h.marks_size]

theorem mark?_addDecl_of_ne (h : n.Sound σ strict) (x : Decl) (m : Mark) {id : DeclId}
    (hne : id ≠ n.nextDecl) : (n.addDecl x m).mark? id = n.mark? id := by
  have hi : id.index ≠ n.marks.size := by
    rw [h.marks_size]
    exact fun he => hne (by cases id; cases he; rfl)
  simp [mark?, addDecl, Array.getElem?_push, hi]

theorem decl?_addDecl_nextDecl (n : Entries) (x : Decl) (m : Mark) :
    (n.addDecl x m).decl? n.nextDecl = some x := by
  simp [decl?, addDecl, nextDecl, Store.addDecl, Store.decl?]

theorem mentions_addDecl (n : Entries) (x : Decl) (m : Mark) (part : TreePart) :
    (n.addDecl x m).mentions part =
      if part = .decl n.nextDecl then x.mentions else n.mentions part :=
  n.state.store.mentions_addDecl x part

theorem decl?_addDecl_cases (hy : (n.addDecl x m).decl? d = some y) :
    n.decl? d = some y ∨ y = x := by
  simp only [decl?, addDecl, Store.addDecl, Store.decl?, Array.getElem?_push] at hy
  split at hy
  next => exact .inr (Option.some.inj hy).symm
  next => exact .inl hy

theorem Sound.addDecl (h : n.Sound σ strict) {x : Decl} {g : List Holder}
    (hfit : ∀ m ∈ x.mentions, n.Fits g (.decl n.nextDecl) m) (hclass : n.Confines x) :
    (n.addDecl x ⟨g, none⟩).Sound σ strict := by
  have hle := n.le_addDecl x ⟨g, none⟩
  have hmark := mark?_addDecl_nextDecl h x ⟨g, none⟩
  obtain ⟨hallows, hwf⟩ := h.newNode hle h.not_present_nextDecl
    (fun part hp => by rw [mentions_addDecl, if_neg hp]) fun m hm => by
      rw [mentions_addDecl, if_pos rfl] at hm
      refine ⟨?_, fun c hc => (hfit m hm).present hc⟩
      simp only [Allows, hmark]
      exact hle.fits (hfit m hm)
  exact {
    tints_size := h.tints_size
    marks_size := by simp [Entries.addDecl, Store.addDecl, h.marks_size]
    allows := hallows
    wellFounded := hwf
    guarded := h.guarded.keep hle rfl (fun _ hh => hh) fun _ => rfl
    targets := fun {d mark t} hm ht => by
      by_cases hd : d = n.nextDecl
      · subst hd
        rw [hmark] at hm
        cases hm
        cases ht
      · rw [mark?_addDecl_of_ne h _ _ hd] at hm
        obtain ⟨ho, y, hy, hc⟩ := h.targets hm ht
        exact ⟨ho, y, hle.decl hy, hc⟩
    classes := fun hy => hle.confines <| (decl?_addDecl_cases hy).elim h.classes fun he =>
      he ▸ hclass
    owners := fun hx hd => by
      obtain ⟨m, hm⟩ := Option.isSome_iff_exists.1 (h.owners hx hd)
      exact Option.isSome_iff_exists.2 ⟨m, hle.mark hm⟩
    table := h.table
    types := fun ht => (h.types ht).mono hle
    counted := h.counted }

end Entries

end TypedTree
