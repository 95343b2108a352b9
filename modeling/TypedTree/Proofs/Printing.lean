import TypedTree.Proofs.Layout

namespace TypedTree

open Print Fragment

/-- What stands for each other prints the same in two fragments. -/
structure Correspondence.Prints (C : Correspondence) (plain : Prop) (f f' : Fragment)
    (r r' : Inner) : Prop where
  symbol : ∀ {a b}, C.symbol a b → Word plain (f.nameOf a) (f'.nameOf b)
  holder : ∀ {a b}, C.holder a b → Option.Rel (Word plain) (f.labelOf a) (f'.labelOf b)
  part : ∀ {g a b}, C.part g a b → Inline plain (r.expr a) (r'.expr b)
  decl : ∀ {g a b}, C.decl g a b → Inline plain (r.decl a) (r'.decl b)

theorem Option.rel_self {α : Type} {R : α → α → Prop} {x : Option α} (h : ∀ a ∈ x, R a a) :
    Option.Rel R x x := by
  cases x with
  | none => exact .none
  | some a => exact .some (h a rfl)

theorem isEmpty_congr {α β : Type} {R : α → β → Prop} {as : List α} {bs : List β}
    (h : List.Forall₂ R as bs) : as.isEmpty = bs.isEmpty := by
  cases h <;> rfl

theorem varianceText_oneLine (v : Variance) : OneLine (varianceText v) := by
  cases v <;> decide

namespace Correspondence.Prints

variable {C : Correspondence} {plain : Prop} {f f' : Fragment} {r r' : Inner} {g : Region}

theorem annotations (h : C.Prints plain f f' r r') {xs ys : List ExprId}
    (hx : List.Forall₂ C.note xs ys) :
    Inline plain (printAnnotations r xs) (printAnnotations r' ys) :=
  .each (hx.imp fun _ _ hab => .lead rfl (.trail (h.part (g := []) (.inr hab)) rfl))

mutual

theorem type (h : C.Prints plain f f' r r') {s t : TreeType} :
    TreeType.Alike C s t → Inline plain (f.printType r s) (f'.printType r' t)
  | .mk hc hs hx => by
    rw [printType, printType]
    refine .seq (h.annotations hx) (.seq (.write (h.symbol hc)) ?_)
    cases hs with
    | nil => exact .cond .rfl (.text rfl) .pure
    | star hs =>
      exact .lead rfl (.lead rfl (.seq (h.further hs) (.lead rfl (.cond .rfl (.text rfl) .pure))))
    | projection ht hs =>
      exact .lead rfl (.seq (.seq (.word (varianceText_oneLine _)) (h.type ht))
        (.seq (h.further hs) (.lead rfl (.cond .rfl (.text rfl) .pure))))

theorem further (h : C.Prints plain f f' r r') {as bs : List TypeProjection} :
    TypeProjection.AllAlike C as bs → Inline plain (f.printFurther r as) (f'.printFurther r' bs)
  | .nil => .pure
  | .star hs => .lead rfl (.lead rfl (h.further hs))
  | .projection ht hs =>
    .lead rfl (.seq (.seq (.word (varianceText_oneLine _)) (h.type ht)) (h.further hs))

end

variable (h : C.Prints plain f f' r r')

include h

theorem types {ss ts : List TreeType} (ht : List.Forall₂ (TreeType.Alike C) ss ts) :
    Inline plain (f.printTypes r ss) (f'.printTypes r' ts) :=
  .between (ht.imp fun _ _ => h.type) (.literal rfl)

section parts

variable {x y : ExprId} {d e : DeclId} {xs ys : List ExprId} {ds es : List DeclId}

theorem exprs (hx : List.Forall₂ (C.part g) xs ys) {separator : String}
    (hs : OneLine separator) :
    Inline plain (between separator r.expr xs) (between separator r'.expr ys) :=
  .between (hx.imp fun _ _ => h.part) hs

theorem decls (hd : List.Forall₂ (C.decl g) ds es) :
    Inline plain (between ", " r.decl ds) (between ", " r'.decl es) :=
  .between (hd.imp fun _ _ => h.decl) (.literal rfl)

theorem after (hx : C.part g x y) {before : List Char} (hs : before.contains '\n' = false) :
    Inline plain (printAfter r (.ofList before) x) (printAfter r' (.ofList before) y) :=
  .lead hs (h.part hx)

theorem afterGiven {x y : Option ExprId} (hx : Option.Rel (C.part g) x y) {before : List Char}
    (hs : before.contains '\n' = false) :
    Inline plain (given (printAfter r (.ofList before)) x)
      (given (printAfter r' (.ofList before)) y) :=
  .given (Option.rel_imp (fun _ _ hab => h.after hab hs) hx)

theorem declLine (hd : C.decl g d e) : Lines plain (printDeclLine r d) (printDeclLine r' e) :=
  .single (h.decl hd)

theorem typeParameters (hd : List.Forall₂ (C.decl g) ds es) :
    Inline plain (printTypeParameters r ds) (printTypeParameters r' es) :=
  .cond (by rw [isEmpty_congr hd]) (.lead rfl (.trail (h.decls hd) rfl)) .pure

theorem valueParameters (hd : List.Forall₂ (C.decl g) ds es) :
    Inline plain (printValueParameters r ds) (printValueParameters r' es) :=
  .lead rfl (.trail (h.decls hd) rfl)

theorem receiverType {s t : Option TreeType} (ht : Option.Rel (TreeType.Alike C) s t) :
    Inline plain (given (f.printReceiverType r) s) (given (f'.printReceiverType r') t) :=
  .given (Option.rel_imp (fun _ _ hab => .trail (h.type hab) rfl) ht)

/-- The line of an accessor is ended and then open again. -/
theorem accessorBelow {x y : Option DeclId} (hx : Option.Rel (C.decl g) x y) :
    Inline plain (given (printAccessorBelow r) x) (given (printAccessorBelow r') y) :=
  .given (Option.rel_imp (fun _ _ hab level =>
    .seq .newline (.seq (h.declLine hab level) .eraseLast)) hx)

theorem receiver {x y : Option ExprId} (hx : Option.Rel (C.part g) x y) :
    Inline plain (given (printReceiver r) x) (given (printReceiver r') y) :=
  .given (Option.rel_imp (fun _ _ hab => .trail (h.part hab) rfl) hx)

omit h in
theorem receiver_alike {a b : Access} (ha : Access.Alike C g a b) :
    Option.Rel (C.part g) a.receiver? b.receiver? := by
  obtain ⟨callee, dispatch, extension, typeArguments⟩ := a
  obtain ⟨callee', dispatch', extension', typeArguments'⟩ := b
  obtain ⟨_, hd, hx, _⟩ := ha
  cases hx with
  | some hx => exact .some hx
  | none => exact hd

theorem access {a b : Access} (ha : Access.Alike C g a b) :
    Inline plain (f.printAccess r a) (f'.printAccess r' b) := by
  refine .seq (h.receiver (receiver_alike ha)) (.seq (.write (h.symbol ha.callee)) ?_)
  exact .cond (by rw [isEmpty_congr ha.typeArguments])
    (.lead rfl (.trail (h.types ha.typeArguments) rfl)) .pure

theorem arguments {xs ys : List (Option ExprId)}
    (hx : List.Forall₂ (Option.Rel (C.part g)) xs ys) :
    Inline plain (printArguments r xs) (printArguments r' ys) := by
  refine .lead rfl (.trail (.between (hx.imp fun a b hab => ?_) (.literal rfl)) rfl)
  cases hab with
  | none => exact .text rfl
  | some hab => exact h.part hab

theorem block {ss ts : List Statement} (hs : List.Forall₂ (Statement.Alike C g) ss ts) :
    Inline plain (printBlock r ss) (printBlock r' ts) := by
  refine .cond (by rw [isEmpty_congr hs]) (.text rfl) (.braced (hs.imp fun a b hab => ?_))
  cases hab with
  | declaration hd => exact h.declLine hd
  | expression he => exact .single (h.part he)

theorem intrinsic {op : Intrinsic} (hx : List.Forall₂ (C.part g) xs ys) :
    Inline plain (printIntrinsic r op xs) (printIntrinsic r' op ys) := by
  have hop : OneLine (" " ++ op.spelling ++ " ") := by cases op <;> decide
  have hall : Inline plain (do write "("; between (" " ++ op.spelling ++ " ") r.expr xs; write ")")
      (do write "("; between (" " ++ op.spelling ++ " ") r'.expr ys; write ")") :=
    .lead rfl (.trail (h.exprs hx hop) rfl)
  unfold printIntrinsic
  cases hx with
  | nil => cases op <;> exact hall
  | cons hab hrest =>
    cases hrest with
    | nil =>
      cases op with
      | not => exact h.after hab rfl
      | checkNotNull => exact .trail (h.part hab) rfl
      | _ => exact hall
    | cons => cases op <;> exact hall

theorem branches {bs cs : List WhenBranch} {inside : Region}
    (hb : List.Forall₂ (WhenBranch.Alike C inside g) bs cs) :
    Inline plain (braced (printBranch r) bs) (braced (printBranch r') cs) := by
  refine .braced (hb.imp fun a b hab level => .seq .startLine ?_)
  obtain ⟨condition, result⟩ := a
  obtain ⟨condition', result'⟩ := b
  obtain ⟨hc, hr⟩ := hab
  have hrest : Lays plain ⟨level, false⟩ ⟨level, true⟩ (do write " -> "; r.expr result; newline)
      (do write " -> "; r'.expr result'; newline) :=
    .seq (.write fun _ => by decide) (.seq (h.part hr level) .newline)
  cases hc with
  | none => exact .seq (.write fun _ => by decide) hrest
  | some hc => exact .seq (h.part hc level) hrest

theorem subject {x y : Option ExprId} {d e : Option DeclId} (hx : Option.Rel (C.part g) x y)
    (hd : Option.Rel (C.decl g) d e) :
    Inline plain (printSubject r x d) (printSubject r' y e) := by
  cases hd with
  | some hd => cases hx <;> exact .lead rfl (.trail (h.decl hd) rfl)
  | none =>
    cases hx with
    | none => exact .pure
    | some hx => exact .lead rfl (.trail (h.part hx) rfl)

theorem catches {cs ds : List Catch} (hc : List.Forall₂ (Catch.Alike C g) cs ds) :
    Inline plain (each (printCatch r) cs) (each (printCatch r') ds) :=
  .each (hc.imp fun _ _ hab =>
    .lead rfl (.seq (h.decl hab.parameter) (.lead rfl (h.part hab.body))))

omit h in
theorem labelText {x y : Option Name} (hl : Option.Rel (Word plain) x y) :
    Word plain (Fragment.labelText x) (Fragment.labelText y) := by
  cases hl with
  | none => exact .literal rfl
  | some hl => exact .append (.literal rfl) hl

theorem loopLabel {t t' : LoopTargetId} (ht : C.holder (.loop t) (.loop t')) :
    Inline plain (f.printLoopLabel t) (f'.printLoopLabel t') :=
  .given (Option.rel_imp (fun _ _ hl => .write (.append hl (.literal rfl))) (h.holder ht))

end parts

theorem exprKind {k k' : ExprKind} (hk : ExprKind.Alike C g k k')
    (hthis : ∀ label, k = .thisRef label → Option.Rel (Word plain) label label)
    (hvalue : ∀ {g a b}, C.decl g a b →
      Inline plain (f.printFunctionValue r a) (f'.printFunctionValue r' b)) :
    Inline plain (f.printExprKind r k) (f'.printExprKind r' k') := by
  cases hk with
  | unit | whenSubject | safeCallSubject => exact .text rfl
  | literal => exact .word (.literalText _ _)
  | malformed =>
    exact .write (.append (.append (.literal rfl) (.same (.quotedText _))) (.literal rfl))
  | thisRef => exact .write (.append (.literal rfl) (labelText (hthis _ rfl)))
  | block hs => exact h.block hs
  | read ha => exact h.access ha
  | call ha hx => exact .seq (h.access ha) (h.arguments hx)
  | @delegatedCall _ _ kind _ _ _ hx =>
    exact .seq (.word (by cases kind <;> exact .literal rfl)) (h.arguments hx)
  | assignment ha hv => exact .seq (h.access ha) (h.after hv rfl)
  | intrinsic hx => exact h.intrinsic hx
  | concatenation hx => exact .lead rfl (.trail (h.exprs hx (.literal rfl)) rfl)
  | elvis hl hr => exact .seq (h.after hl rfl) (.trail (h.after hr rfl) rfl)
  | @typeOperation op _ _ _ _ hx ht =>
    exact .seq (h.after hx rfl) (.seq (.word (by cases op <;> decide)) (.trail (h.type ht) rfl))
  | plainChoice hs hv hb => exact .lead rfl (.seq (h.subject hs hv) (h.branches hb))
  | choice _ hs hv hb => exact .lead rfl (.seq (h.subject hs hv) (h.branches hb))
  | whileLoop ht hc hb => exact .seq (h.loopLabel ht) (.seq (h.after hc rfl) (h.after hb rfl))
  | doWhile ht hc hb =>
    exact .seq (h.loopLabel ht) (.seq (h.after hb rfl) (.trail (h.after hc rfl) rfl))
  | breakJump ht => exact .write (.append (.literal rfl) (labelText (h.holder ht)))
  | continueJump ht => exact .write (.append (.literal rfl) (labelText (h.holder ht)))
  | returnJump ht _ hv =>
    have hlabel := labelText (h.holder ht)
    exact .seq (.write (.append (.append (.literal rfl) hlabel) (.literal rfl))) (h.part hv)
  | throwing hx => exact h.after hx rfl
  | tryCatch hb hc hf => exact .seq (h.after hb rfl) (.seq (h.catches hc) (h.afterGiven hf rfl))
  | superRef ht =>
    cases ht with
    | none => exact .text rfl
    | some ht => exact .lead rfl (.trail (h.type ht) rfl)
  | classReference hc => exact .write (.append (h.symbol hc) (.literal rfl))
  | callableReference ha =>
    exact .seq (.given (Option.rel_imp (fun _ _ => h.part) (receiver_alike ha)))
      (.write (.append (.literal rfl) (h.symbol ha.callee)))
  | lambda hd => exact hvalue hd
  | anonymousObject hd => exact h.decl hd
  | safeCall hr _ hx => exact .seq (h.part hr) (.trail (h.after hx rfl) rfl)
  | vararg hx => exact .lead rfl (.trail (h.exprs hx (.literal rfl)) rfl)
  | spread hx => exact h.after hx rfl
  | delegateField hs hr =>
    exact .seq (h.receiver hr) (.write (.append (h.symbol hs) (.literal rfl)))

theorem expr {x y : Expr} (hx : Expr.Alike C g x y)
    (hthis : ∀ label, x.kind = .thisRef label → Option.Rel (Word plain) label label)
    (hvalue : ∀ {g a b}, C.decl g a b →
      Inline plain (f.printFunctionValue r a) (f'.printFunctionValue r' b)) :
    Inline plain (f.printExprWith r x) (f'.printExprWith r' y) :=
  .seq (h.annotations hx.annotations) (h.exprKind hx.kind hthis hvalue)

theorem declWith {x y : Decl} (hx : Decl.Alike C g x y) :
    Inline plain (f.printDeclWith r x) (f'.printDeclWith r' y) := by
  obtain ⟨s, origin, calls, k⟩ := x
  obtain ⟨s', origin', calls', k'⟩ := y
  obtain ⟨hs, rfl, hcalls, hk⟩ := hx
  have hname := h.symbol hs
  rw [printDeclWith, printDeclWith]
  refine .flag rfl (.seq (h.annotations hcalls) ?_)
  cases hk with
  | @classLike kind _ _ _ _ _ _ _ _ _ _ _ hts hss hds =>
    have hshown : kind ≠ .enumEntry ∨ f.nameOf s ≠ "" ↔ kind ≠ .enumEntry ∨ f'.nameOf s' ≠ "" := by
      rw [hname.1]
    have hkeyword : OneLine kind.keyword := by cases kind <;> decide
    unfold printClass
    refine .flag rfl (.flag rfl (.seq (.word hkeyword) ?_))
    refine .optional hshown (.write (.append (.literal rfl) hname)) (.seq (h.typeParameters hts) ?_)
    refine .cond (by rw [isEmpty_congr hss]) (.lead rfl (.seq (h.types hss) ?_)) ?_
    all_goals
      exact .cond (by rw [isEmpty_congr hds])
        (.lead rfl (.braced (hds.imp fun _ _ => h.declLine))) .pure
  | function hts _ her hps hr hb _ =>
    refine .lead rfl (.seq (h.typeParameters hts) ?_)
    refine .optional (by rw [isEmpty_congr hts]) (.text rfl) ?_
    exact .seq (h.receiverType her) (.seq (.write hname) (.seq (h.valueParameters hps)
      (.lead rfl (.seq (h.type hr) (h.afterGiven hb rfl)))))
  | constructor hps _ hc hb =>
    exact .lead rfl (.seq (h.valueParameters hps)
      (.seq (h.afterGiven hc rfl) (h.afterGiven hb rfl)))
  | property hr _ her _ hi hf hx hy =>
    unfold printProperty
    refine .flag rfl (.flag rfl (.seq (.word (by split <;> exact .literal rfl)) ?_))
    refine .seq (h.receiverType her) (.seq (.write hname) (.lead rfl (.seq (h.type hr) ?_)))
    refine .seq (h.afterGiven hi rfl) (.seq (h.afterGiven hf rfl) fun level => .seq .indent ?_)
    exact .seq (h.accessorBelow hx _) (.seq (h.accessorBelow hy _) .dedent)
  | accessor _ _ hps hb =>
    exact .seq (.word (by split <;> exact .literal rfl))
      (.seq (h.valueParameters hps) (h.afterGiven hb rfl))
  | initializer hb => exact h.after hb rfl
  | typeParameter hbs =>
    unfold printTypeParameter
    refine .flag rfl (.seq (.word (varianceText_oneLine _)) (.seq (.write hname) ?_))
    exact .cond (by rw [isEmpty_congr hbs]) (.lead rfl (h.types hbs)) .pure
  | valueParameter ht hv _ =>
    unfold printValueParameter
    refine .flag rfl (.seq (.write hname) (.lead rfl (.seq (h.type ht) ?_)))
    exact h.afterGiven hv rfl
  | typeAlias hts he =>
    exact .lead rfl (.seq (.write hname) (.seq (h.typeParameters hts) (.lead rfl (h.type he))))

theorem lambda {d e : FunctionDecl} (hd : DeclKind.Alike C g (.function d) (.function e))
    (hlabel : Option.Rel (Word plain) d.label d.label) :
    Inline plain (printLambda r d) (printLambda r' e) := by
  cases hd with
  | function _ _ _ hps _ hb _ =>
    refine .seq (.given (Option.rel_imp (fun _ _ hl => .write (.append hl (.literal rfl))) hlabel))
      (.lead rfl ?_)
    have hbody := Option.rel_imp (fun _ _ => h.part) hb
    refine .cond (by rw [isEmpty_congr hps]) (.seq (h.decls hps) (.lead rfl ?_)) ?_
    all_goals exact .trail (.given hbody) rfl

end Correspondence.Prints

/-- Nodes of two trees that stand for each other have parts that do. -/
structure Correspondence.Bisimulates (C : Correspondence) (f f' : Fragment) : Prop where
  symbol : ∀ {a b}, C.symbol a b → f.nameOf a = f'.nameOf b
  holder : ∀ {a b}, C.holder a b → f.labelOf a = f'.labelOf b
  part : ∀ {g a b}, C.part g a b → ∃ x y g', f.store.expr? a = some x ∧
    f'.store.expr? b = some y ∧ Expr.Alike C g' x y
  decl : ∀ {g a b}, C.decl g a b → ∃ x y g', f.store.decl? a = some x ∧
    f'.store.decl? b = some y ∧ Decl.Alike C g' x y

namespace Correspondence.Bisimulates

variable {C : Correspondence} {f f' : Fragment} (h : C.Bisimulates f f')

include h

theorem value {r r' : Inner} (hp : C.Prints False f f' r r') {g : Region} {a b : DeclId}
    (hab : C.decl g a b) :
    Inline False (f.printFunctionValue r a) (f'.printFunctionValue r' b) := by
  obtain ⟨⟨s, o, n, k⟩, ⟨s', o', n', k'⟩, g', hx, hy, hxy⟩ := h.decl hab
  have hk : DeclKind.Alike C g' k k' := hxy.kind
  simp only [printFunctionValue, hx, hy]
  cases hk with
  | function hts hr he hps hτ hb hos =>
    exact hp.lambda (.function hts hr he hps hτ hb hos) (Option.rel_self fun _ _ => ⟨rfl, nofun⟩)
  | _ => exact hp.decl hab

/-- What stands for each other prints the same, however deep it is cut off. -/
theorem prints (n : Nat) : C.Prints False f f' (f.inner n) (f'.inner n) := by
  have hsymbol : ∀ {a b}, C.symbol a b → Word False (f.nameOf a) (f'.nameOf b) := fun hab =>
    ⟨h.symbol hab, nofun⟩
  have hholder : ∀ {a b}, C.holder a b → Option.Rel (Word False) (f.labelOf a) (f'.labelOf b) :=
    fun hab => by
      rw [h.holder hab]
      exact Option.rel_self fun _ _ => ⟨rfl, nofun⟩
  induction n with
  | zero => exact ⟨hsymbol, hholder, fun _ => .pure, fun _ => .pure⟩
  | succ n ih =>
    refine ⟨hsymbol, hholder, fun {g a b} hab => ?_, fun {g a b} hab => ?_⟩
    · obtain ⟨x, y, g', hx, hy, hxy⟩ := h.part hab
      simp only [Fragment.inner, hx, hy, Print.given]
      exact ih.expr hxy (fun _ _ => Option.rel_self fun _ _ => ⟨rfl, nofun⟩) (h.value ih)
    · obtain ⟨x, y, g', hx, hy, hxy⟩ := h.decl hab
      simp only [Fragment.inner, hx, hy, Print.given]
      exact ih.declWith hxy

end Correspondence.Bisimulates

end TypedTree
