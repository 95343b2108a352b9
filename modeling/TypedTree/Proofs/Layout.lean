import TypedTree.Fragment.Printer
import TypedTree.Proofs.AlikeDecl

namespace TypedTree

/-- A text that does not end a line. -/
abbrev OneLine (s : String) : Prop := '\n' ∉ s.toList

namespace OneLine

variable {s t : String} {cs : List Char}

theorem append (hs : OneLine s) (ht : OneLine t) : OneLine (s ++ t) := by
  simp_all [OneLine]

theorem ofList (h : '\n' ∉ cs) : OneLine (String.ofList cs) := by simp_all [OneLine]

theorem literal (h : cs.contains '\n' = false) : OneLine (String.ofList cs) :=
  ofList (by simpa using h)

theorem digitChar_ne (n : Nat) : '\n' ≠ n.digitChar := by
  have hsmall : ∀ m < 16, '\n' ≠ Nat.digitChar m := by decide
  by_cases hn : n < 16
  · exact hsmall n hn
  · unfold Nat.digitChar
    repeat rw [if_neg (by omega)]
    decide

theorem toDigits {b : Nat} (hb : 1 < b) (n : Nat) : '\n' ∉ Nat.toDigits b n := by
  induction n using Nat.strongRecOn with
  | ind n ih =>
    rw [Nat.toDigits_eq_if hb]
    split
    next => simp [digitChar_ne n]
    next hn =>
      have hlt : n / b < n := Nat.div_lt_self (by omega) hb
      simp [ih _ hlt, digitChar_ne]

theorem integer (n : Int) : OneLine (toString n) := by
  have hrepr : ∀ n : Nat, OneLine n.repr := fun n => by
    rw [Nat.repr_eq_ofList_toDigits]
    exact ofList (toDigits (by decide) n)
  cases n with
  | ofNat n => exact hrepr n
  | negSucc n => exact append (by decide) (hrepr (n + 1))

theorem quotedChar {quote c : Char} : '\n' ∉ TypedTree.quotedChar quote c := by
  unfold TypedTree.quotedChar
  by_cases hc : c = '\n'
  · simp [hc]
  · have hne : '\n' ≠ c := Ne.symm hc
    repeat' split
    all_goals simp [hne, codePointEscape, toDigits]

theorem quotedText (s : String) : OneLine (TypedTree.quotedText s) :=
  ofList (by simp [quotedChar])

theorem positionalText (places : Nat) (d : Decimal) :
    OneLine (TypedTree.positionalText places d) := by
  have hzeros (n : Nat) : '\n' ∉ List.replicate n '0' := by simp [List.mem_replicate]
  have hdigits (a b : Nat) : '\n' ∉
      List.replicate a '0' ++ (Nat.toDigits 10 d.digits ++ List.replicate b '0') := by
    simp [toDigits, hzeros]
  refine ofList ?_
  split
  next => exact mt List.mem_of_mem_take (hdigits _ _)
  next =>
    simp only [List.mem_append, List.mem_cons, not_or]
    exact ⟨mt List.mem_of_mem_take (hdigits _ _), by decide,
      mt List.mem_of_mem_drop (hdigits _ _), hzeros _⟩

theorem exponentText (first : Int) (d : Decimal) : OneLine (TypedTree.exponentText first d) := by
  have hdigits : '\n' ∉ Nat.toDigits 10 d.digits := toDigits (by decide) _
  refine append (append (ofList ?_) (by decide)) (integer first)
  split
  next => exact hdigits
  next =>
    simp only [List.mem_append, List.mem_cons, not_or]
    exact ⟨mt List.mem_of_mem_take hdigits, by decide, mt List.mem_of_mem_drop hdigits⟩

theorem number (format : NumberFormat) (x : Double) : OneLine (x.text format) := by
  unfold Double.text
  split
  next => decide
  next => split <;> decide
  next =>
    have htext (p : Prop) [Decidable p] (places : Nat) (first : Int) (d : Decimal) :
        OneLine (if p then TypedTree.positionalText places d
          else TypedTree.exponentText first d) := by
      split
      next => exact positionalText places d
      next => exact exponentText first d
    dsimp only
    split
    next => exact append (by decide) (htext _ _ _ _)
    next => exact htext _ _ _ _

theorem literalText (kind : LiteralKind) (value : LiteralValue) :
    OneLine (TypedTree.literalText kind value) := by
  unfold TypedTree.literalText
  split
  next => exact quotedText _
  next => exact append (integer _) (by decide)
  next => exact append (integer _) (by decide)
  next => exact append (integer _) (by decide)
  next => exact integer _
  next => exact append (number _ _) (by decide)
  next => exact number _ _
  next => split <;> decide
  next => exact ofList (by simp [quotedChar])
  next => decide

end OneLine

def DeclKind.label? : DeclKind → Option Name
  | .function d => d.label
  | _ => none

def ExprKind.label? : ExprKind → Option Name
  | .thisRef label => label
  | _ => none

namespace Fragment

def labelOf (f : Fragment) : Holder → Option Name
  | .function t => f.functionLabel t
  | .loop t => f.loopLabel t
  | .choice _ => none

def names (f : Fragment) : List Name :=
  f.symbols.toList.map (·.name) ++ f.store.functionTargets.toList.filterMap (·.label) ++
    f.store.loopTargets.toList.filterMap (·.label) ++
    f.store.decls.toList.filterMap (·.kind.label?) ++ f.store.exprs.toList.filterMap (·.kind.label?)

variable {f : Fragment} {label : Name}

theorem oneLine_nameOf (h : ∀ name ∈ f.names, OneLine name) (id : SymbolId) :
    OneLine (f.nameOf id) := by
  unfold nameOf
  cases hx : f.symbol? id with
  | none => decide
  | some x =>
    have hmem := Array.mem_of_getElem? hx
    exact h x.name (by simp only [names, List.mem_append]; grind)

theorem mem_names_of_labelOf {h : Holder} (hl : f.labelOf h = some label) : label ∈ f.names := by
  cases h with
  | function t | loop t =>
    obtain ⟨x, hx, hl⟩ := Option.bind_eq_some_iff.1 hl
    have hmem := Array.mem_of_getElem? hx
    simp only [names, List.mem_append, List.mem_filterMap]
    grind
  | choice => cases hl

theorem mem_names_of_decl {id : DeclId} {x : Decl} (hx : f.store.decl? id = some x)
    (hl : x.kind.label? = some label) : label ∈ f.names := by
  have hmem := Array.mem_of_getElem? hx
  simp only [names, List.mem_append, List.mem_filterMap]
  grind

theorem mem_names_of_expr {id : ExprId} {x : Expr} (hx : f.store.expr? id = some x)
    (hl : x.kind.label? = some label) : label ∈ f.names := by
  have hmem := Array.mem_of_getElem? hx
  simp only [names, List.mem_append, List.mem_filterMap]
  grind

end Fragment

/-- Where a page stands: the level of its lines, and whether the last of them was just ended. -/
structure Cursor where
  level : Nat
  ended : Bool

namespace Print

/-- Two printers take the same steps, and the page stays in order: a line is started where one was
ended, a level is left where one was entered, and what is taken back is the end of a line. Where
`plain` holds, no line is ended but by the step for it. -/
inductive Lays (plain : Prop) : Cursor → Cursor → Print Unit → Print Unit → Prop
  | pure {c} : Lays plain c c (pure ()) (pure ())
  | seq {c c1 c2 m m' k k'} : Lays plain c c1 m m' → Lays plain c1 c2 (k ()) (k' ()) →
      Lays plain c c2 (m >>= k) (m' >>= k')
  | write {level s} : (plain → OneLine s) →
      Lays plain ⟨level, false⟩ ⟨level, false⟩ (write s) (write s)
  | startLine {level} : Lays plain ⟨level, true⟩ ⟨level, false⟩ startLine startLine
  | newline {level} : Lays plain ⟨level, false⟩ ⟨level, true⟩ newline newline
  | indent {level ended} : Lays plain ⟨level, ended⟩ ⟨level + 1, ended⟩ indent indent
  | dedent {level ended} : Lays plain ⟨level + 1, ended⟩ ⟨level, ended⟩ dedent dedent
  | eraseLast {level} : Lays plain ⟨level, true⟩ ⟨level, false⟩ eraseLast eraseLast

theorem Lays.eq {plain : Prop} {c c' : Cursor} {m m' : Print Unit} (h : Lays plain c c' m m') :
    m = m' := by
  induction h with
  | @seq _ _ _ _ _ k k' _ _ ihm ihk =>
    have hk : k = k' := funext fun _ => ihk
    rw [ihm, hk]
  | _ => rfl

/-- One text, which ends no line where `plain` holds. -/
def Word (plain : Prop) (s s' : String) : Prop := s = s' ∧ (plain → OneLine s)

theorem Word.same {plain : Prop} {s : String} (h : OneLine s) : Word plain s s :=
  ⟨rfl, fun _ => h⟩

theorem Word.literal {plain : Prop} {cs : List Char} (h : cs.contains '\n' = false) :
    Word plain (.ofList cs) (.ofList cs) :=
  .same (.literal h)

theorem Word.append {plain : Prop} {s s' t t' : String} (hs : Word plain s s')
    (ht : Word plain t t') : Word plain (s ++ t) (s' ++ t') :=
  ⟨by rw [hs.1, ht.1], fun hp => (hs.2 hp).append (ht.2 hp)⟩

/-- The printers stay within a line, apart from lines of their own inside of it. -/
def Inline (plain : Prop) (m m' : Print Unit) : Prop :=
  ∀ level, Lays plain ⟨level, false⟩ ⟨level, false⟩ m m'

/-- The printers add whole lines. -/
def Lines (plain : Prop) (m m' : Print Unit) : Prop :=
  ∀ level, Lays plain ⟨level, true⟩ ⟨level, true⟩ m m'

variable {plain : Prop} {m m' : Print Unit} {k k' : Unit → Print Unit} {α β : Type}
  {p : α → Print Unit} {q : β → Print Unit} {xs : List α} {ys : List β}

namespace Inline

theorem pure : Inline plain (Pure.pure ()) (Pure.pure ()) := fun _ => .pure

theorem seq (h : Inline plain m m') (hk : Inline plain (k ()) (k' ())) :
    Inline plain (m >>= k) (m' >>= k') := fun level => .seq (h level) (hk level)

theorem write {s s' : String} (h : Word plain s s') : Inline plain (write s) (write s') := by
  obtain ⟨rfl, hs⟩ := h
  exact fun _ => .write hs

theorem word {s : String} (h : OneLine s) : Inline plain (Print.write s) (Print.write s) :=
  write (.same h)

theorem cond {b b' : Prop} [Decidable b] [Decidable b'] {n n' : Print Unit} (hb : b ↔ b')
    (h : Inline plain m m') (hn : Inline plain n n') :
    Inline plain (if b then m else n) (if b' then m' else n') := by
  by_cases hc : b
  · rwa [if_pos hc, if_pos (hb.1 hc)]
  · rwa [if_neg hc, if_neg (mt hb.2 hc)]

theorem optional {b b' : Prop} [Decidable b] [Decidable b'] (hb : b ↔ b') (h : Inline plain m m')
    (hk : Inline plain (k ()) (k' ())) :
    Inline plain (if b then m >>= k else k ()) (if b' then m' >>= k' else k' ()) :=
  .cond hb (h.seq hk) hk

section literal

-- Whether a text of the printer itself ends a line is a matter of computation.
variable {cs : List Char} (hcs : cs.contains '\n' = false)

include hcs

theorem text : Inline plain (Print.write (.ofList cs)) (Print.write (.ofList cs)) :=
  write (.literal hcs)

theorem lead (hk : Inline plain (k ()) (k' ())) :
    Inline plain (Print.write (.ofList cs) >>= k) (Print.write (.ofList cs) >>= k') :=
  (text hcs).seq hk

omit hcs in
theorem trail (h : Inline plain m m') (hcs : cs.contains '\n' = false) :
    Inline plain (m >>= fun _ => Print.write (.ofList cs))
      (m' >>= fun _ => Print.write (.ofList cs)) :=
  h.seq (text hcs)

theorem flag {b : Prop} [Decidable b] (hk : Inline plain (k ()) (k' ())) :
    Inline plain (if b then Print.write (.ofList cs) >>= k else k ())
      (if b then Print.write (.ofList cs) >>= k' else k' ()) :=
  .optional .rfl (text hcs) hk

end literal

theorem given {x : Option α} {y : Option β}
    (h : Option.Rel (fun a b => Inline plain (p a) (q b)) x y) :
    Inline plain (given p x) (given q y) := by
  cases h with
  | none => exact pure
  | some hab => exact hab

theorem each (h : List.Forall₂ (fun a b => Inline plain (p a) (q b)) xs ys) :
    Inline plain (each p xs) (each q ys) := by
  induction h with
  | nil => exact pure
  | cons hab _ ih => exact hab.seq ih

theorem between (h : List.Forall₂ (fun a b => Inline plain (p a) (q b)) xs ys) {separator : String}
    (hs : OneLine separator) :
    Inline plain (between separator p xs) (between separator q ys) := by
  induction h with
  | nil => exact pure
  | @cons a b xs ys hab hrest ih =>
    cases hrest with
    | nil => exact hab
    | cons => exact hab.seq (.seq (.word hs) ih)

theorem braced (h : List.Forall₂ (fun a b => Lines plain (p a) (q b)) xs ys) :
    Inline plain (braced p xs) (braced q ys) := by
  have heach : Lines plain (Print.each p xs) (Print.each q ys) := by
    induction h with
    | nil => exact fun _ => .pure
    | cons hab _ ih => exact fun level => .seq (hab level) (ih level)
  intro level
  refine .seq (.write fun _ => by decide) (.seq .newline (.seq .indent (.seq (heach _) ?_)))
  exact .seq .dedent (.seq .startLine (.write fun _ => by decide))

end Inline

theorem Lines.single (h : Inline plain m m') :
    Lines plain (do startLine; m; newline) (do startLine; m'; newline) :=
  fun level => .seq .startLine (.seq (h level) .newline)

end Print

end TypedTree
