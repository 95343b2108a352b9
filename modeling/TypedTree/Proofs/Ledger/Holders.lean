import TypedTree.Proofs.Ledger.Growth

namespace TypedTree

/-- The kind of node that a holder can stand for. -/
def Holder.Suits : Holder → TreePart → Prop
  | .function _, .decl _ | .loop _, .expr _ | .choice _, .expr _ => True
  | _, _ => False

def Store.own (s : Store) : Holder → TreePart → Store
  | .function t, .decl id =>
    { s with functionTargets := s.functionTargets.modify t.index ({ · with owner := some id }) }
  | .loop t, .expr id =>
    { s with loopTargets := s.loopTargets.modify t.index ({ · with owner := some id }) }
  | .choice r, .expr id =>
    { s with whenRefs := s.whenRefs.modify r.index ({ · with owner := some id }) }
  | _, _ => s

namespace Store

@[simp] theorem exprs_own (s : Store) (h : Holder) (part : TreePart) :
    (s.own h part).exprs = s.exprs := by
  unfold own
  split <;> rfl

@[simp] theorem decls_own (s : Store) (h : Holder) (part : TreePart) :
    (s.own h part).decls = s.decls := by
  unfold own
  split <;> rfl

theorem mentions_own (s : Store) (h : Holder) (part q : TreePart) :
    (s.own h part).mentions q = s.mentions q := by
  cases q <;> simp [mentions, decl?, expr?]

theorem functionTarget?_own_of_ne (s : Store) {h : Holder} {t : FunctionTargetId}
    (hne : .function t ≠ h) (part : TreePart) :
    (s.own h part).functionTarget? t = s.functionTarget? t := by
  unfold own
  split
  next t' id =>
    have ht : t'.index ≠ t.index := fun he => hne (by cases t; cases t'; cases he; rfl)
    simp [functionTarget?, Array.getElem?_modify, ht]
  all_goals rfl

theorem loopTarget?_own_of_ne (s : Store) {h : Holder} {t : LoopTargetId}
    (hne : .loop t ≠ h) (part : TreePart) : (s.own h part).loopTarget? t = s.loopTarget? t := by
  unfold own
  split
  next => rfl
  next t' id =>
    have ht : t'.index ≠ t.index := fun he => hne (by cases t; cases t'; cases he; rfl)
    simp [loopTarget?, Array.getElem?_modify, ht]
  all_goals rfl

theorem whenRef?_own_of_ne (s : Store) {h : Holder} {r : WhenRefId}
    (hne : .choice r ≠ h) (part : TreePart) : (s.own h part).whenRef? r = s.whenRef? r := by
  unfold own
  split
  next => rfl
  next => rfl
  next r' id =>
    have hr : r'.index ≠ r.index := fun he => hne (by cases r; cases r'; cases he; rfl)
    simp [whenRef?, Array.getElem?_modify, hr]
  next => rfl

theorem has_own (s : Store) (h : Holder) (part : TreePart) (holder : Holder) :
    (s.own h part).Has holder ↔ s.Has holder := by
  unfold own
  split <;> cases holder <;> simp [Has, functionTarget?, loopTarget?, whenRef?]

theorem owner?_own_of_ne (s : Store) {h holder : Holder} (hne : holder ≠ h) (part : TreePart) :
    (s.own h part).owner? holder = s.owner? holder := by
  cases holder with
  | function t => simp [owner?, functionTarget?_own_of_ne _ hne]
  | loop t => simp [owner?, loopTarget?_own_of_ne _ hne]
  | choice r => simp [owner?, whenRef?_own_of_ne _ hne]

theorem owner?_own (s : Store) {h : Holder} (hh : s.Has h) {part : TreePart}
    (hs : h.Suits part) : (s.own h part).owner? h = some part := by
  cases h with
  | function t =>
    cases part with
    | decl id =>
      obtain ⟨x, hx⟩ := Option.isSome_iff_exists.1 hh
      simp only [functionTarget?] at hx
      simp [own, owner?, functionTarget?, Array.getElem?_modify, hx]
    | _ => exact hs.elim
  | loop t =>
    cases part with
    | expr id =>
      obtain ⟨x, hx⟩ := Option.isSome_iff_exists.1 hh
      simp only [loopTarget?] at hx
      simp [own, owner?, loopTarget?, Array.getElem?_modify, hx]
    | _ => exact hs.elim
  | choice r =>
    cases part with
    | expr id =>
      obtain ⟨x, hx⟩ := Option.isSome_iff_exists.1 hh
      simp only [whenRef?] at hx
      simp [own, owner?, whenRef?, Array.getElem?_modify, hx]
    | _ => exact hs.elim

theorem targetsLe_own {s : Store} (ho : s.owner? h = none) (part : TreePart) :
    s.TargetsLe (s.own h part) where
  function {t x} hx := by
    by_cases he : .function t = h
    · subst he
      have hnone : x.owner = none := by simpa [owner?, hx] using ho
      simp only [functionTarget?] at hx
      cases part with
      | decl id =>
        exact ⟨{ x with owner := some id },
          by simp [own, functionTarget?, Array.getElem?_modify, hx], rfl, rfl, by simp [hnone]⟩
      | _ => exact ⟨x, hx, rfl, rfl, fun _ h => h⟩
    · exact ⟨x, by rwa [functionTarget?_own_of_ne _ he], rfl, rfl, fun _ h => h⟩
  loop {t x} hx := by
    by_cases he : .loop t = h
    · subst he
      have hnone : x.owner = none := by simpa [owner?, hx] using ho
      simp only [loopTarget?] at hx
      cases part with
      | expr id =>
        exact ⟨{ x with owner := some id },
          by simp [own, loopTarget?, Array.getElem?_modify, hx], rfl, by simp [hnone]⟩
      | _ => exact ⟨x, hx, rfl, fun _ h => h⟩
    · exact ⟨x, by rwa [loopTarget?_own_of_ne _ he], rfl, fun _ h => h⟩
  choice {r x} hx := by
    by_cases he : .choice r = h
    · subst he
      have hnone : x.owner = none := by simpa [owner?, hx] using ho
      simp only [whenRef?] at hx
      cases part with
      | expr id =>
        exact ⟨{ x with owner := some id },
          by simp [own, whenRef?, Array.getElem?_modify, hx], by simp [hnone]⟩
      | _ => exact ⟨x, hx, fun _ h => h⟩
    · exact ⟨x, by rwa [whenRef?_own_of_ne _ he], fun _ h => h⟩

end Store

namespace Entries

variable {n n' : Entries} {σ : Setting} {strict : Bool}

def close (n : Entries) (h : Holder) (part : TreePart) (rest : List Holder) : Entries :=
  { n with state.store := n.state.store.own h part, opens := rest }

theorem decl?_close (h : Holder) (part : TreePart) (rest : List Holder) (d : DeclId) :
    (n.close h part rest).decl? d = n.decl? d := by
  simp [decl?, Store.decl?, close]

theorem le_close (ho : n.owner? h = none) (part : TreePart) (rest : List Holder) :
    n.Le (n.close h part rest) where
  tint h := h
  mark h := h
  settled _ h := by simpa [expr?, close, Store.expr?] using h
  decl h := by simpa [decl?, close, Store.decl?] using h
  mentions q m hm := by rwa [mentions, close, Store.mentions_own]
  targets := Store.targetsLe_own ho part
  table := .refl _

/-- A node that a holder stands for, once that is bound: it fits, and nothing else changes. -/
theorem Sound.addOwner (h : n.Sound σ strict) {holder : Holder} {rest : List Holder}
    (ho : n.opens = holder :: rest) (hs : holder.Suits (.expr n.nextExpr)) {x : Expr}
    {g : List Holder} (hx : .holds holder ∈ x.mentions)
    (hfit : ∀ m ∈ x.mentions, m = .holds holder ∨ n.Fits g (.expr n.nextExpr) m) :
    ((n.addExpr x (.code g)).close holder (.expr n.nextExpr) rest).Sound σ strict := by
  obtain ⟨hhas, hnone⟩ := h.guarded.opens holder (by simp [ho])
  have hle1 := n.le_addExpr x (.code g)
  have hle2 := le_close (n := n.addExpr x (.code g)) hnone (.expr n.nextExpr) rest
  have hle := hle1.trans hle2
  have howner := (n.addExpr x (.code g)).state.store.owner?_own (hle1.has hhas) hs
  have hmentions : ∀ part, ((n.addExpr x (.code g)).close holder (.expr n.nextExpr) rest).mentions
      part = if part = .expr n.nextExpr then x.mentions else n.mentions part := fun part =>
    ((n.addExpr x (.code g)).state.store.mentions_own holder _ part).trans
      (n.state.store.mentions_addExpr x part)
  obtain ⟨hallows, hwf⟩ := h.newNode hle h.not_present_nextExpr
    (fun part hp => by rw [hmentions, if_neg hp]) fun m hm => by
      rw [hmentions, if_pos rfl] at hm
      simp only [Allows, hle2.tint (tint?_addExpr_nextExpr h x (.code g))]
      rcases hfit m hm with rfl | hm
      · exact ⟨howner, fun c hc => by cases hc⟩
      · exact ⟨hle.fits hm, fun c hc => hm.present hc⟩
  exact {
    tints_size := by simp [close, Entries.addExpr, Store.addExpr, h.tints_size]
    marks_size := by simpa [close, Entries.addExpr, Store.addExpr] using h.marks_size
    allows := hallows
    wellFounded := hwf
    guarded := h.guarded.close hle ho rfl
      (fun k hk => ((n.addExpr x (.code g)).state.store.has_own holder _ k).1 hk)
      (fun k hk => (n.addExpr x (.code g)).state.store.owner?_own_of_ne hk _) howner
      (by rw [Holds, hmentions, if_pos rfl]; exact hx)
    targets := fun hm ht => by
      obtain ⟨ho, y, hy, hc⟩ := h.targets hm ht
      exact ⟨hle.owner ho, y, hle.decl hy, hc⟩
    classes := fun hy => hle.confines (h.classes (by rwa [decl?_close] at hy))
    owners := h.owners
    table := h.table
    types := fun ht => (h.types ht).mono hle
    counted := h.counted }

theorem Sound.addCallable (h : n.Sound σ strict) {t : FunctionTargetId} {rest : List Holder}
    (ho : n.opens = .function t :: rest) {x : Decl} (hc : x.kind.isCallable) {g : List Holder}
    (hfit : ∀ m ∈ x.mentions, n.Fits (.function t :: g) (.decl n.nextDecl) m) :
    ((n.addDecl x ⟨g, some t⟩).close (.function t) (.decl n.nextDecl) rest).Sound σ strict := by
  obtain ⟨hhas, hnone⟩ := h.guarded.opens (.function t) (by simp [ho])
  have hle1 := n.le_addDecl x ⟨g, some t⟩
  have hle2 := le_close (n := n.addDecl x ⟨g, some t⟩) (h := .function t) hnone
    (.decl n.nextDecl) rest
  have hle := hle1.trans hle2
  have hmark := mark?_addDecl_nextDecl h x ⟨g, some t⟩
  have hsuits : (Holder.function t).Suits (.decl n.nextDecl) := trivial
  have howner := (n.addDecl x ⟨g, some t⟩).state.store.owner?_own (hle1.has hhas) hsuits
  have hmentions : ∀ part, ((n.addDecl x ⟨g, some t⟩).close (.function t) (.decl n.nextDecl)
      rest).mentions part = if part = .decl n.nextDecl then x.mentions else n.mentions part :=
    fun part => ((n.addDecl x ⟨g, some t⟩).state.store.mentions_own _ _ part).trans
      (n.mentions_addDecl x ⟨g, some t⟩ part)
  obtain ⟨hallows, hwf⟩ := h.newNode hle h.not_present_nextDecl
    (fun part hp => by rw [hmentions, if_neg hp]) fun m hm => by
      rw [hmentions, if_pos rfl] at hm
      simp only [Allows, hle2.mark hmark]
      exact ⟨hle.fits (hfit m hm), fun c hc => (hfit m hm).present hc⟩
  exact {
    tints_size := by simpa [close, Entries.addDecl, Store.addDecl] using h.tints_size
    marks_size := by simp [close, Entries.addDecl, Store.addDecl, h.marks_size]
    allows := hallows
    wellFounded := hwf
    guarded := h.guarded.close hle ho rfl
      (fun k hk => ((n.addDecl x ⟨g, some t⟩).state.store.has_own _ _ k).1 hk)
      (fun k hk => (n.addDecl x ⟨g, some t⟩).state.store.owner?_own_of_ne hk _) howner
      ⟨⟨g, some t⟩, t, hmark, rfl, rfl⟩
    targets := fun {d mark t'} hm ht => by
      by_cases hd : d = n.nextDecl
      · subst hd
        cases hmark.symm.trans hm
        cases ht
        exact ⟨howner, x, hle2.decl (n.decl?_addDecl_nextDecl x _), hc⟩
      · obtain ⟨ho, y, hy, hc⟩ :=
          h.targets ((mark?_addDecl_of_ne h x ⟨g, some t⟩ hd).symm.trans hm) ht
        exact ⟨hle.owner ho, y, hle.decl hy, hc⟩
    classes := fun hy => hle.confines <| by
      rw [decl?_close] at hy
      rcases decl?_addDecl_cases hy with hy | rfl
      · exact h.classes hy
      · intro c hk
        simp [hk, DeclKind.isCallable] at hc
    owners := fun hx hd => by
      obtain ⟨m, hm⟩ := Option.isSome_iff_exists.1 (h.owners hx hd)
      exact Option.isSome_iff_exists.2 ⟨m, hle.mark hm⟩
    table := h.table
    types := fun ht => (h.types ht).mono hle
    counted := h.counted }

theorem Sound.retarget (h : n.Sound σ strict) (hle : n.Le n') (hg : n'.Guarded)
    (htints : n'.tints = n.tints) (hmarks : n'.marks = n.marks)
    (hexprs : n'.state.store.exprs = n.state.store.exprs)
    (hdecls : n'.state.store.decls = n.state.store.decls)
    (htable : n'.state.table = n.state.table) (htypes : n'.state.types = n.state.types)
    (hstats : n'.state.stats = n.state.stats) :
    n'.Sound σ strict := by
  have hmentions : ∀ part, n'.mentions part = n.mentions part := fun part => by
    cases part <;> simp [mentions, Store.mentions, Store.expr?, Store.decl?, hexprs, hdecls]
  have hmark : ∀ id, n'.mark? id = n.mark? id := fun id => by rw [mark?, hmarks]; rfl
  have howns : n'.Owns = n.Owns := by
    funext c p
    simp only [Owns, hmentions]
  exact {
    tints_size := by rw [htints, hexprs, h.tints_size]
    marks_size := by rw [hmarks, hdecls, h.marks_size]
    allows := fun part m hm => hle.allows (h.allows part m (hmentions part ▸ hm))
    wellFounded := howns ▸ h.wellFounded
    guarded := hg
    targets := fun hm ht => by
      obtain ⟨ho, y, hy, hc⟩ := h.targets (hmark _ ▸ hm) ht
      exact ⟨hle.owner ho, y, hle.decl hy, hc⟩
    classes := fun hy => hle.confines (h.classes (by rwa [decl?, Store.decl?, hdecls] at hy))
    owners := fun hx hd => by
      rw [hmark]
      exact h.owners (by rwa [symbol?, htable] at hx) hd
    table := htable ▸ h.table
    types := fun ht => (h.types (htypes ▸ ht)).mono hle
    counted := by rw [htable, hstats, h.counted] }

def beginFunction (n : Entries) (label : Option Name) (isLambda : Bool) : Entries :=
  { n with
    state.store := (n.state.store.addFunctionTarget label isLambda).2
    opens := .function ⟨n.state.store.functionTargets.size⟩ :: n.opens }

def beginLoop (n : Entries) (label : Option Name) : Entries :=
  { n with
    state.store := (n.state.store.addLoopTarget label).2
    opens := .loop ⟨n.state.store.loopTargets.size⟩ :: n.opens }

def beginChoice (n : Entries) : Entries :=
  { n with
    state.store := n.state.store.addWhenRef.2
    opens := .choice ⟨n.state.store.whenRefs.size⟩ :: n.opens }

theorem le_beginFunction (n : Entries) (label : Option Name) (isLambda : Bool) :
    n.Le (n.beginFunction label isLambda) where
  tint h := h
  mark h := h
  settled _ h := h
  decl h := h
  mentions part := by cases part <;> exact List.Subset.refl _
  targets := ⟨fun {_ x} hx => ⟨x, getElem?_push_of_some hx, rfl, rfl, fun _ h => h⟩,
    fun {_ x} hx => ⟨x, hx, rfl, fun _ h => h⟩, fun {_ x} hx => ⟨x, hx, fun _ h => h⟩⟩
  table := .refl _

theorem le_beginLoop (n : Entries) (label : Option Name) : n.Le (n.beginLoop label) where
  tint h := h
  mark h := h
  settled _ h := h
  decl h := h
  mentions part := by cases part <;> exact List.Subset.refl _
  targets := ⟨fun {_ x} hx => ⟨x, hx, rfl, rfl, fun _ h => h⟩,
    fun {_ x} hx => ⟨x, getElem?_push_of_some hx, rfl, fun _ h => h⟩,
    fun {_ x} hx => ⟨x, hx, fun _ h => h⟩⟩
  table := .refl _

theorem le_beginChoice (n : Entries) : n.Le n.beginChoice where
  tint h := h
  mark h := h
  settled _ h := h
  decl h := h
  mentions part := by cases part <;> exact List.Subset.refl _
  targets := ⟨fun {_ x} hx => ⟨x, hx, rfl, rfl, fun _ h => h⟩,
    fun {_ x} hx => ⟨x, hx, rfl, fun _ h => h⟩,
    fun {_ x} hx => ⟨x, getElem?_push_of_some hx, fun _ h => h⟩⟩
  table := .refl _

theorem Sound.beginFunction (h : n.Sound σ strict) (label : Option Name) (isLambda : Bool) :
    (n.beginFunction label isLambda).Sound σ strict := by
  have hle := n.le_beginFunction label isLambda
  refine h.retarget hle (h.guarded.begin hle rfl ?_ ?_ ?_ ?_ ?_) rfl rfl rfl rfl rfl rfl rfl
  · simp [Has, Store.Has, Store.functionTarget?]
  · simp [Has, Store.Has, Store.functionTarget?, Entries.beginFunction, Store.addFunctionTarget]
  · rintro (⟨⟨i⟩⟩ | t | r) hne hhas
    · have hi : i ≠ n.state.store.functionTargets.size := fun he => hne (by rw [he])
      simpa [Has, Store.Has, Store.functionTarget?, Entries.beginFunction,
        Store.addFunctionTarget, Array.getElem?_push, hi] using hhas
    · exact hhas
    · exact hhas
  · simp [owner?, Store.owner?, Store.functionTarget?, Entries.beginFunction,
      Store.addFunctionTarget]
  · rintro (⟨⟨i⟩⟩ | t | r) hne
    · have hi : i ≠ n.state.store.functionTargets.size := fun he => hne (by rw [he])
      simp [owner?, Store.owner?, Store.functionTarget?, Entries.beginFunction,
        Store.addFunctionTarget, Array.getElem?_push, hi]
    · rfl
    · rfl

theorem Sound.beginLoop (h : n.Sound σ strict) (label : Option Name) :
    (n.beginLoop label).Sound σ strict := by
  have hle := n.le_beginLoop label
  refine h.retarget hle (h.guarded.begin hle rfl ?_ ?_ ?_ ?_ ?_) rfl rfl rfl rfl rfl rfl rfl
  · simp [Has, Store.Has, Store.loopTarget?]
  · simp [Has, Store.Has, Store.loopTarget?, Entries.beginLoop, Store.addLoopTarget]
  · rintro (t | ⟨⟨i⟩⟩ | r) hne hhas
    · exact hhas
    · have hi : i ≠ n.state.store.loopTargets.size := fun he => hne (by rw [he])
      simpa [Has, Store.Has, Store.loopTarget?, Entries.beginLoop, Store.addLoopTarget,
        Array.getElem?_push, hi] using hhas
    · exact hhas
  · simp [owner?, Store.owner?, Store.loopTarget?, Entries.beginLoop, Store.addLoopTarget]
  · rintro (t | ⟨⟨i⟩⟩ | r) hne
    · rfl
    · have hi : i ≠ n.state.store.loopTargets.size := fun he => hne (by rw [he])
      simp [owner?, Store.owner?, Store.loopTarget?, Entries.beginLoop, Store.addLoopTarget,
        Array.getElem?_push, hi]
    · rfl

theorem Sound.beginChoice (h : n.Sound σ strict) : n.beginChoice.Sound σ strict := by
  have hle := n.le_beginChoice
  refine h.retarget hle (h.guarded.begin hle rfl ?_ ?_ ?_ ?_ ?_) rfl rfl rfl rfl rfl rfl rfl
  · simp [Has, Store.Has, Store.whenRef?]
  · simp [Has, Store.Has, Store.whenRef?, Entries.beginChoice, Store.addWhenRef]
  · rintro (t | t | ⟨⟨i⟩⟩) hne hhas
    · exact hhas
    · exact hhas
    · have hi : i ≠ n.state.store.whenRefs.size := fun he => hne (by rw [he])
      simpa [Has, Store.Has, Store.whenRef?, Entries.beginChoice, Store.addWhenRef,
        Array.getElem?_push, hi] using hhas
  · simp [owner?, Store.owner?, Store.whenRef?, Entries.beginChoice, Store.addWhenRef]
  · rintro (t | t | ⟨⟨i⟩⟩) hne
    · rfl
    · rfl
    · have hi : i ≠ n.state.store.whenRefs.size := fun he => hne (by rw [he])
      simp [owner?, Store.owner?, Store.whenRef?, Entries.beginChoice, Store.addWhenRef,
        Array.getElem?_push, hi]

end Entries

end TypedTree
