import TypedTree.Proofs.Depth

namespace TypedTree

namespace Print

/-- A text with a margin of some levels behind the end of each line. -/
def shift (k : Nat) (s : String) : String :=
  String.ofList (s.toList.flatMap fun c => if c = '\n' then c :: (margin k).toList else [c])

theorem shift_append (k : Nat) (s t : String) : shift k (s ++ t) = shift k s ++ shift k t := by
  simp [shift]

theorem shift_of_oneLine {s : String} (h : OneLine s) (k : Nat) : shift k s = s := by
  have hchars : ∀ c ∈ s.toList, (if c = '\n' then c :: (margin k).toList else [c]) = [c] := by
    intro c hc
    rw [if_neg]
    rintro rfl
    exact h hc
  rw [shift, List.flatMap_congr hchars, List.flatMap_singleton', String.ofList_toList]

theorem margin_add (k level : Nat) : margin k ++ margin level = margin (level + k) := by
  rw [margin, margin, ← String.ofList_append, ← List.replicate_add, margin]
  congr 2
  omega

theorem shift_margin (k level : Nat) :
    shift k ("\n" ++ margin level) = "\n" ++ margin (level + k) := by
  have hblank : OneLine (margin level) := by simp [OneLine, margin]
  have hend : shift k "\n" = "\n" ++ margin k := by simp [shift]
  rw [shift_append, shift_of_oneLine hblank, hend, String.append_assoc, margin_add]

theorem shift_zero (s : String) : shift 0 s = s := by
  simp [shift, margin]

end Print

/-- The page of a cursor behind some text, some levels further in. -/
def Cursor.page (c : Cursor) (k : Nat) (text : String) : Page :=
  ⟨text ++ if c.ended then "\n" else "", c.level + k⟩

namespace Print

/-- What is added to a page depends on its level only, which adds to the margins. -/
theorem Lays.run_page {c c' : Cursor} {m m' : Print Unit} (h : Lays True c c' m m') :
    ∃ added, ∀ k text, (m.run (c.page k text)).2 = c'.page k (text ++ shift k added) := by
  have hnone : ∀ k text, text ++ shift k "" = text := by simp [shift]
  induction h with
  | pure => exact ⟨"", fun k text => by rw [hnone]; rfl⟩
  | @seq _ _ _ m _ n _ _ _ ihm ihn =>
    obtain ⟨u, hm⟩ := ihm
    obtain ⟨v, hn⟩ := ihn
    refine ⟨u ++ v, fun k text => ?_⟩
    change ((n ()).run (m.run _).2).2 = _
    rw [hm, hn, shift_append, String.append_assoc]
  | @write level s hs =>
    refine ⟨s, fun k text => ?_⟩
    rw [shift_of_oneLine (hs trivial)]
    change (⟨text ++ "" ++ s, level + k⟩ : Page) = ⟨text ++ s ++ "", level + k⟩
    rw [String.append_empty, String.append_empty]
  | @startLine level =>
    refine ⟨"\n" ++ margin level, fun k text => ?_⟩
    rw [shift_margin]
    change (⟨text ++ "\n" ++ margin (level + k), level + k⟩ : Page) =
      ⟨text ++ ("\n" ++ margin (level + k)) ++ "", level + k⟩
    rw [String.append_empty, String.append_assoc]
  | @newline level =>
    refine ⟨"", fun k text => ?_⟩
    rw [hnone]
    change (⟨text ++ "" ++ "\n", level + k⟩ : Page) = ⟨text ++ "\n", level + k⟩
    rw [String.append_empty]
  | indent =>
    refine ⟨"", fun k text => ?_⟩
    rw [hnone, Cursor.page, Cursor.page, Nat.add_right_comm]
    rfl
  | @dedent level _ =>
    refine ⟨"", fun k text => ?_⟩
    rw [hnone, Cursor.page, Cursor.page, Nat.add_right_comm]
    rfl
  | @eraseLast level =>
    refine ⟨"", fun k text => ?_⟩
    rw [hnone]
    change (⟨String.ofList (text ++ "\n").toList.dropLast, level + k⟩ : Page) =
      ⟨text ++ "", level + k⟩
    simp

/-- What is added to an empty page. -/
def emitted (m : Print Unit) (level : Nat) : String := (m.run ⟨"", level⟩).2.text

/-- Wherever it is printed, the text is the same but for the margins of its lines, and the level
comes to be what it was, by steps that leave only levels they entered. -/
structure Shifts (m : Print Unit) : Prop where
  lays : Inline True m m
  run : ∀ text level, (m.run ⟨text, level⟩).2 = ⟨text ++ emitted m level, level⟩
  shift : ∀ level k, emitted m (level + k) = shift k (emitted m level)

theorem Inline.shifts {m : Print Unit} (h : Inline True m m) : Shifts m := by
  have hpage : ∀ level, ∃ added, ∀ k text,
      (m.run ⟨text, level + k⟩).2 = ⟨text ++ Print.shift k added, level + k⟩ := by
    intro level
    obtain ⟨added, hadded⟩ := (h level).run_page
    refine ⟨added, fun k text => ?_⟩
    simpa [Cursor.page] using hadded k text
  refine ⟨h, fun text level => ?_, fun level k => ?_⟩
  · obtain ⟨added, hadded⟩ := hpage level
    have h0 := hadded 0
    simp only [Nat.add_zero, shift_zero] at h0
    rw [h0, emitted, h0]
    simp
  · obtain ⟨added, hadded⟩ := hpage level
    have h0 := hadded 0 ""
    rw [Nat.add_zero, shift_zero] at h0
    rw [emitted, emitted, hadded, h0]
    simp

end Print

namespace Fragment

open Print

theorem agree_self {f : Fragment} (hf : ∀ name ∈ f.names, OneLine name) (depth : Nat)
    (part : TreePart) :
    Agree True (f.inner depth) (f.inner depth) part := by
  induction depth generalizing part with
  | zero =>
    cases part with
    | decl | expr => exact .pure
    | _ => trivial
  | succ depth ih =>
    exact agree_succ (fun _ => hf) (fun child _ => ih child) fun _ _ next _ => ih next

/-- Expressions and declarations print the same at every level but for the margins of their lines.
What is taken back behind an accessor is the end of its line. -/
theorem printing_shifts (f : Fragment) (hf : ∀ name ∈ f.names, OneLine name) (depth : Nat) :
    (∀ id, Shifts ((f.inner depth).expr id)) ∧
    ∀ id, Shifts ((f.inner depth).decl id) ∧ ∀ p : Page,
      let text := p.text ++ "\n" ++ margin p.level ++ emitted ((f.inner depth).decl id) p.level
      ((do newline; printDeclLine (f.inner depth) id : Print Unit).run p).2 =
          ⟨text ++ "\n", p.level⟩ ∧
        ((printAccessorBelow (f.inner depth) id).run p).2 = ⟨text, p.level⟩ := by
  refine ⟨fun id => Inline.shifts (agree_self hf depth (.expr id)), fun id => ?_⟩
  have hdecl := Inline.shifts (agree_self hf depth (.decl id))
  refine ⟨hdecl, fun p => ?_⟩
  intro text
  have hline : ((do newline; printDeclLine (f.inner depth) id : Print Unit).run p).2 =
      ⟨text ++ "\n", p.level⟩ := by
    change (newline.run (((f.inner depth).decl id).run
      ⟨p.text ++ "\n" ++ margin p.level, p.level⟩).2).2 = _
    rw [hdecl.run]
    rfl
  refine ⟨hline, ?_⟩
  change (eraseLast.run ((do newline; printDeclLine (f.inner depth) id : Print Unit).run p).2).2 = _
  rw [hline]
  change (⟨String.ofList (text ++ "\n").toList.dropLast, p.level⟩ : Page) = ⟨text, p.level⟩
  simp

/-- The property `val a: Int` with a getter that returns a constant. -/
def getterTree : Fragment where
  name := "main"
  files := []
  external := []
  symbols := #[⟨.property, .unqualified "a", none⟩, ⟨.classLike, .unqualified "Int", none⟩]
  store :=
    { decls := #[
        ⟨⟨0⟩, .source, [], .property ⟨.everywhere, .final, false, false, false, false,
          ⟨⟨1⟩, false, [], []⟩, none, none, [], none, none, some ⟨1⟩, none⟩⟩,
        ⟨⟨0⟩, .source, [], .accessor ⟨⟨0⟩, false, .everywhere, ⟨⟨1⟩, false, [], []⟩, [], some ⟨0⟩⟩⟩]
      exprs := #[
        ⟨⟨⟨1⟩, false, [], []⟩, [], .block [.expression ⟨1⟩]⟩,
        ⟨⟨⟨1⟩, false, [], []⟩, [], .literal .int (.integer 1)⟩] }

theorem printing_shifts_getterTree :
    (∀ name ∈ getterTree.names, OneLine name) ∧
      emitted ((getterTree.inner 4).decl ⟨0⟩) 2 =
        shift 2 "val a: Int\n    get() \x7b\n        1\n    \x7d" := by
  have hnames : ∀ name ∈ getterTree.names, OneLine name := by decide
  have hshift := ((printing_shifts getterTree hnames 4).2 ⟨0⟩).1.shift 0 2
  have htext : emitted ((getterTree.inner 4).decl ⟨0⟩) 0 =
      "val a: Int\n    get() \x7b\n        1\n    \x7d" := by decide +kernel
  rw [Nat.zero_add, htext] at hshift
  exact ⟨hnames, hshift⟩

end Fragment

end TypedTree
