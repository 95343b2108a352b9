import TypedTree.Lowering.Types
import TypedTree.Proofs.AlikeMention
import TypedTree.Proofs.InRange
import TypedTree.Proofs.Ledger.Entries

namespace TypedTree

/-- The kind of symbol that stands for the classifier of a type. -/
def Descriptor.classifierKind? (d : Descriptor) : Option SymbolKind :=
  match d.kind with
  | .classLike _ => some .classLike
  | .typeParameter _ => some .typeParameter
  | _ => none

/-- Facts that a tree may be asked to show. -/
inductive Wanted where
  | symbol (kind : SymbolKind) (desc : DescId)
  | type (id : TypeId)
  | projections (arguments : List SourceTypeArgument)
  | constant (value : Constant) (expected : Option TypeId)
  | constants (values : List Constant)
  | annotationUse (use : AnnotationUse)
  | annotationUses (uses : List AnnotationUse)
  | slots (parameters : List DescId) (arguments : List (Name × Constant))

/-- The form in which a tree shows them. -/
inductive Made where
  | symbol (id : SymbolId)
  | type (type : TreeType)
  | projections (arguments : List TypeProjection)
  | content (content : Option (TreeType × ExprKind))
  | exprs (ids : List ExprId)
  | slots (ids : List (Option ExprId))

/-- A settled expression with the given type and form. -/
def Entries.Stands (n : Entries) (content : TreeType × ExprKind) (id : ExprId) : Prop :=
  n.Settled id ∧ n.expr? id = some ⟨content.1, [], content.2⟩

/-- How a tree shows a fact. What is made for a fact is the same up to the ids in it, so this says
all that two trees have in common. -/
inductive Realizes (σ : Setting) (n : Entries) : Wanted → Made → Prop
  | symbol {kind desc d c} : σ.world.descriptor? desc = some d → σ.world.Fits kind desc →
      n.cached? kind desc = some c → Realizes σ n (.symbol kind desc) (.symbol c)
  | flexible {id lower upper τ} : σ.world.type? id = some (.flexible lower upper) →
      Realizes σ n (.type upper) (.type τ) → Realizes σ n (.type id) (.type τ)
  | simple {id simple d kind c ps xs} : σ.world.type? id = some (.simple simple) →
      σ.world.descriptor? simple.classifier = some d → d.classifierKind? = some kind →
      n.cached? kind simple.classifier = some c →
      Realizes σ n (.projections simple.arguments) (.projections ps) →
      Realizes σ n (.annotationUses simple.annotations) (.exprs xs) →
      Realizes σ n (.type id) (.type ⟨c, simple.nullable, ps, xs⟩)
  | noProjections : Realizes σ n (.projections []) (.projections [])
  | star {as ps} : Realizes σ n (.projections as) (.projections ps) →
      Realizes σ n (.projections (.star :: as)) (.projections (.star :: ps))
  | projection {v id τ as ps} : Realizes σ n (.type id) (.type τ) →
      Realizes σ n (.projections as) (.projections ps) →
      Realizes σ n (.projections (.projection v id :: as)) (.projections (.projection v τ :: ps))
  | scalar {value : Scalar} {expected : Option TypeId} {τ} :
      Realizes σ n (.type (expected.getD value.type)) (.type τ) →
      Realizes σ n (.constant (.scalar value) expected)
        (.content (some (τ, .literal value.literal.1 value.literal.2)))
  | array {elements id expected xs τ} : Realizes σ n (.constants elements) (.exprs xs) →
      Realizes σ n (.type id) (.type τ) →
      Realizes σ n (.constant (.array elements id) expected) (.content (some (τ, .vararg xs)))
  | leftOut {entry id expected} : σ.config.literals = .unsupported →
      Realizes σ n (.constant (.enumEntry entry id) expected) (.content none)
  | enumEntry {entry id expected τ d c} : σ.config.literals = .complete →
      Realizes σ n (.type id) (.type τ) → σ.world.descriptor? entry = some d →
      n.cached? .classLike entry = some c →
      Realizes σ n (.constant (.enumEntry entry id) expected)
        (.content (some (τ, .read (.plain c))))
  | nested {use expected x} : Realizes σ n (.annotationUse use) (.content x) →
      Realizes σ n (.constant (.nested use) expected) (.content x)
  | leftOutLiteral {referenced id expected} : σ.config.literals = .unsupported →
      Realizes σ n (.constant (.classLiteral referenced id) expected) (.content none)
  | failedLiteral {referenced id expected message} : σ.config.literals = .complete →
      σ.world.type? referenced = some (.failed message) →
      Realizes σ n (.constant (.classLiteral referenced id) expected) (.content none)
  | classLiteral {referenced id expected ρ τ} : σ.config.literals = .complete →
      Realizes σ n (.type referenced) (.type ρ) → Realizes σ n (.type id) (.type τ) →
      Realizes σ n (.constant (.classLiteral referenced id) expected)
        (.content (some (τ, .classReference ρ.classifier)))
  | failed {message expected} : Realizes σ n (.constant (.failed message) expected) (.content none)
  | noConstants : Realizes σ n (.constants []) (.exprs [])
  | constants {c cs x e xs} : Realizes σ n (.constant c none) (.content x) →
      Option.Rel n.Stands x e → Realizes σ n (.constants cs) (.exprs xs) →
      Realizes σ n (.constants (c :: cs)) (.exprs (e.toList ++ xs))
  | noCall {use source} : σ.world.type? use.type = some source →
      (∀ simple, source ≠ .simple simple) → Realizes σ n (.annotationUse use) (.content none)
  | noClass {use simple d} : σ.world.type? use.type = some (.simple simple) →
      σ.world.descriptor? simple.classifier = some d → d.class? = none →
      Realizes σ n (.annotationUse use) (.content none)
  | call {use simple d info constructor parent τ c xs} :
      σ.world.type? use.type = some (.simple simple) →
      σ.world.descriptor? simple.classifier = some d → d.class? = some info →
      info.mainConstructor? = some constructor → Realizes σ n (.type use.type) (.type τ) →
      n.cached? .constructor constructor = some c →
      σ.world.descriptor? constructor = some parent →
      Realizes σ n (.slots parent.valueParameters use.arguments) (.slots xs) →
      Realizes σ n (.annotationUse use) (.content (some (τ, .call (.plain c) xs)))
  | noAnnotations : Realizes σ n (.annotationUses []) (.exprs [])
  | annotations {use uses x e xs} : Realizes σ n (.annotationUse use) (.content x) →
      Option.Rel n.Stands x e → Realizes σ n (.annotationUses uses) (.exprs xs) →
      Realizes σ n (.annotationUses (use :: uses)) (.exprs (e.toList ++ xs))
  | noSlots {arguments} : Realizes σ n (.slots [] arguments) (.slots [])
  | emptySlot {p ps arguments d xs} : σ.world.descriptor? p = some d →
      arguments.lookup d.name = none → Realizes σ n (.slots ps arguments) (.slots xs) →
      Realizes σ n (.slots (p :: ps) arguments) (.slots (none :: xs))
  | slot {p ps arguments d value x e xs} : σ.world.descriptor? p = some d →
      arguments.lookup d.name = some value →
      Realizes σ n (.constant value (d.valueParameter?.map (·.type))) (.content x) →
      Option.Rel n.Stands x e → Realizes σ n (.slots ps arguments) (.slots xs) →
      Realizes σ n (.slots (p :: ps) arguments) (.slots (e :: xs))

variable {σ : Setting} {n n' : Entries}

theorem Entries.Stands.mono (h : n.Le n') {x : TreeType × ExprKind} {id : ExprId}
    (hx : n.Stands x id) : n'.Stands x id :=
  ⟨h.tint hx.1, h.settled hx.1 hx.2⟩

/-- What a tree shows another one shows, too, that has its keys and the expressions that stand for
facts. -/
theorem Realizes.imp
    (hkey : ∀ {kind desc id}, n.cached? kind desc = some id → n'.cached? kind desc = some id)
    (hstands : ∀ x id, n.Stands x id → n'.Stands x id) {x : Wanted} {m : Made}
    (hx : Realizes σ n x m) : Realizes σ n' x m := by
  have hs : ∀ {x e}, Option.Rel n.Stands x e → Option.Rel n'.Stands x e := Option.rel_imp hstands
  induction hx with
  | symbol hd hf hc => exact .symbol hd hf (hkey hc)
  | flexible ht _ ih => exact .flexible ht ih
  | simple ht hd hk hc _ _ ihp ihx => exact .simple ht hd hk (hkey hc) ihp ihx
  | noProjections => exact .noProjections
  | star _ ih => exact .star ih
  | projection _ _ iht ihp => exact .projection iht ihp
  | scalar _ ih => exact .scalar ih
  | array _ _ ihx iht => exact .array ihx iht
  | leftOut hl => exact .leftOut hl
  | enumEntry hl _ hd hc iht => exact .enumEntry hl iht hd (hkey hc)
  | nested _ ih => exact .nested ih
  | leftOutLiteral hl => exact .leftOutLiteral hl
  | failedLiteral hl ht => exact .failedLiteral hl ht
  | classLiteral hl _ _ ihr iht => exact .classLiteral hl ihr iht
  | failed => exact .failed
  | noConstants => exact .noConstants
  | constants _ he _ ihc ihx => exact .constants ihc (hs he) ihx
  | noCall ht hn => exact .noCall ht hn
  | noClass ht hd hn => exact .noClass ht hd hn
  | call ht hd hi hm _ hc hp _ iht ihx => exact .call ht hd hi hm iht (hkey hc) hp ihx
  | noAnnotations => exact .noAnnotations
  | annotations _ he _ ihu ihx => exact .annotations ihu (hs he) ihx
  | noSlots => exact .noSlots
  | emptySlot hd hn _ ih => exact .emptySlot hd hn ih
  | slot hd hv _ he _ ihc ihx => exact .slot hd hv ihc (hs he) ihx

theorem Realizes.mono (h : n.Le n') {x : Wanted} {m : Made} (hx : Realizes σ n x m) :
    Realizes σ n' x m :=
  hx.imp h.cached fun _ _ => Entries.Stands.mono h

/-- Ids of two trees that show the same: symbols of one key, and expressions of one fact. -/
def Entries.shown (σ : Setting) (n n' : Entries) : Correspondence where
  symbol a b := ∃ kind desc, n.cached? kind desc = some a ∧ n'.cached? kind desc = some b
  note a b := ∃ x c c', Realizes σ n x (.content (some c)) ∧ n.Stands c a ∧
    Realizes σ n' x (.content (some c')) ∧ n'.Stands c' b
  expr _ _ _ := False
  decl _ _ _ := False
  holder _ _ := False
  expr_weaken _ h := h
  decl_weaken _ h := h

/-- Forms that agree up to ids that stand for each other. -/
inductive Made.Alike (C : Correspondence) : Made → Made → Prop
  | symbol {a b} : C.symbol a b → Made.Alike C (.symbol a) (.symbol b)
  | type {a b} : TreeType.Alike C a b → Made.Alike C (.type a) (.type b)
  | projections {a b} : TypeProjection.AllAlike C a b →
      Made.Alike C (.projections a) (.projections b)
  | content {a b} :
      Option.Rel (fun x y => TreeType.Alike C x.1 y.1 ∧ ExprKind.Alike C [] x.2 y.2) a b →
      Made.Alike C (.content a) (.content b)
  | exprs {a b} : List.Forall₂ C.note a b → Made.Alike C (.exprs a) (.exprs b)
  | slots {a b} : List.Forall₂ (Option.Rel C.note) a b → Made.Alike C (.slots a) (.slots b)

/-- An expression of a fact stands for the other tree's expression of that fact. -/
theorem note_of_stands (h : Realizes σ n x (.content c)) (h' : Realizes σ n' x (.content c'))
    (hc : Made.Alike (Entries.shown σ n n') (.content c) (.content c')) {e e' : Option ExprId}
    (he : Option.Rel n.Stands c e) (he' : Option.Rel n'.Stands c' e') :
    Option.Rel (Entries.shown σ n n').note e e' := by
  cases hc with
  | content hrel =>
    cases hrel with
    | none =>
      cases he
      cases he'
      exact .none
    | some _ =>
      cases he with
      | some he =>
        cases he' with
        | some he' => exact .some ⟨x, _, _, h, he, h', he'⟩

theorem access_plain_shown (ha : n.cached? kind desc = some a)
    (hb : n'.cached? kind desc = some b) :
    Access.Alike (Entries.shown σ n n') [] (.plain a) (.plain b) :=
  ⟨⟨kind, desc, ha, hb⟩, .none, .none, .nil⟩

theorem Realizes.alike (h : Realizes σ n x m) (h' : Realizes σ n' x m') :
    Made.Alike (Entries.shown σ n n') m m' := by
  induction h generalizing m' with
  | symbol hd hf hc =>
    cases h' with
    | symbol _ _ hc' => exact .symbol ⟨_, _, hc, hc'⟩
  | flexible ht _ ih =>
    cases h' with
    | flexible ht' hu => cases ht.symm.trans ht'; exact ih hu
    | simple ht' => cases ht.symm.trans ht'
  | simple ht hd hk hc _ _ ihp ihx =>
    cases h' with
    | flexible ht' hu => cases ht.symm.trans ht'
    | simple ht' hd' hk' hc' hp hx =>
      cases ht.symm.trans ht'
      cases hd.symm.trans hd'
      cases hk.symm.trans hk'
      cases ihp hp with
      | projections hp =>
        cases ihx hx with
        | exprs hx => exact .type (.mk ⟨_, _, hc, hc'⟩ hp hx)
  | noProjections => cases h'; exact .projections .nil
  | star _ ih =>
    cases h' with
    | star hp =>
      cases ih hp with
      | projections hp => exact .projections (.star hp)
  | projection _ _ iht ihp =>
    cases h' with
    | projection ht hp =>
      cases iht ht with
      | type ht =>
        cases ihp hp with
        | projections hp => exact .projections (.projection ht hp)
  | scalar _ ih =>
    cases h' with
    | scalar ht =>
      cases ih ht with
      | type ht => exact .content (.some ⟨ht, .literal⟩)
  | array _ _ ihx iht =>
    cases h' with
    | array hx ht =>
      cases ihx hx with
      | exprs hx =>
        cases iht ht with
        | type ht => exact .content (.some ⟨ht, .vararg (hx.imp fun _ _ => .inr)⟩)
  | leftOut hl =>
    cases h' with
    | leftOut => exact .content .none
    | enumEntry hl' => cases hl.symm.trans hl'
  | enumEntry hl _ _ hc iht =>
    cases h' with
    | leftOut hl' => cases hl.symm.trans hl'
    | enumEntry _ ht _ hc' =>
      cases iht ht with
      | type ht => exact .content (.some ⟨ht, .read (access_plain_shown hc hc')⟩)
  | nested _ ih =>
    cases h' with
    | nested hu => exact ih hu
  | leftOutLiteral hl =>
    cases h' with
    | leftOutLiteral => exact .content .none
    | failedLiteral => exact .content .none
    | classLiteral hl' => cases hl.symm.trans hl'
  | failedLiteral hl hf =>
    cases h' with
    | leftOutLiteral => exact .content .none
    | failedLiteral => exact .content .none
    | classLiteral _ hr =>
      cases hr with
      | flexible ht => cases hf.symm.trans ht
      | simple ht => cases hf.symm.trans ht
  | classLiteral hl hr _ ihr iht =>
    cases h' with
    | leftOutLiteral hl' => cases hl.symm.trans hl'
    | failedLiteral _ hf =>
      cases hr with
      | flexible ht => cases hf.symm.trans ht
      | simple ht => cases hf.symm.trans ht
    | classLiteral _ hr' ht =>
      cases ihr hr' with
      | type hr' =>
        cases iht ht with
        | type ht =>
          cases hr' with
          | mk hc _ _ => exact .content (.some ⟨ht, .classReference hc⟩)
  | failed => cases h'; exact .content .none
  | noConstants => cases h'; exact .exprs .nil
  | constants hc he _ ihc ihx =>
    cases h' with
    | constants hc' he' hx =>
      cases ihx hx with
      | exprs hx =>
        have hnote := note_of_stands hc hc' (ihc hc') he he'
        exact .exprs (List.rel_append (Option.forall₂_toList hnote) hx)
  | noCall ht hn =>
    cases h' with
    | noCall => exact .content .none
    | noClass => exact .content .none
    | call ht' => exact (hn _ (Option.some.inj (ht.symm.trans ht'))).elim
  | noClass ht hd hn =>
    cases h' with
    | noCall => exact .content .none
    | noClass => exact .content .none
    | call ht' hd' hi =>
      cases ht.symm.trans ht'
      cases hd.symm.trans hd'
      cases hn.symm.trans hi
  | call ht hd hi hm _ hc hp _ iht ihx =>
    cases h' with
    | noCall ht' hn => exact (hn _ (Option.some.inj (ht'.symm.trans ht))).elim
    | noClass ht' hd' hn =>
      cases ht.symm.trans ht'
      cases hd.symm.trans hd'
      cases hn.symm.trans hi
    | call ht' hd' hi' hm' hτ hc' hp' hx =>
      cases ht.symm.trans ht'
      cases hd.symm.trans hd'
      cases hi.symm.trans hi'
      cases hm.symm.trans hm'
      cases hp.symm.trans hp'
      cases iht hτ with
      | type hτ =>
        cases ihx hx with
        | slots hx =>
          exact .content (.some ⟨hτ, .call (access_plain_shown hc hc')
            (hx.imp fun _ _ => Option.rel_imp fun _ _ => .inr)⟩)
  | noAnnotations => cases h'; exact .exprs .nil
  | annotations hu he _ ihu ihx =>
    cases h' with
    | annotations hu' he' hx =>
      cases ihx hx with
      | exprs hx =>
        have hnote := note_of_stands hu hu' (ihu hu') he he'
        exact .exprs (List.rel_append (Option.forall₂_toList hnote) hx)
  | noSlots => cases h'; exact .slots .nil
  | emptySlot hd hn _ ih =>
    cases h' with
    | emptySlot _ _ hx =>
      cases ih hx with
      | slots hx => exact .slots (.cons .none hx)
    | slot hd' hv =>
      cases hd.symm.trans hd'
      cases hn.symm.trans hv
  | slot hd hv hc he _ ihc ihx =>
    cases h' with
    | emptySlot hd' hn =>
      cases hd.symm.trans hd'
      cases hn.symm.trans hv
    | slot hd' hv' hc' he' hx =>
      cases hd.symm.trans hd'
      cases hv.symm.trans hv'
      cases ihx hx with
      | slots hx => exact .slots (.cons (note_of_stands hc hc' (ihc hc') he he') hx)

end TypedTree
