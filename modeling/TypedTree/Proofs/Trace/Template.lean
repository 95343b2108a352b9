import TypedTree.Proofs.Trace.Call

namespace TypedTree

open Desk Token Carries

instance : Carries String := ⟨fun _ => 0, inferInstance⟩

@[simp] theorem tokens_string (text : String) : tokens text = 0 := rfl

def Carries.ofPiece : Lower.Piece → Multiset Token
  | .text _ => 0
  | .value e => tokens e

instance : Carries Lower.Piece where
  tokens := ofPiece
  quiet piece := by
    cases piece with
    | text => exact inferInstanceAs (Quiet 0)
    | value e => exact quiet e

@[simp] theorem tokens_text (text : String) : tokens (Lower.Piece.text text) = 0 := rfl

@[simp] theorem tokens_value (e : ExprId) : tokens (Lower.Piece.value e) = tokens e := rfl

theorem Lower.literalText?_eq_some :
    literalText? kind = some text ↔ kind = .literal .string (.text text) := by
  unfold literalText?
  split <;> simp_all

theorem World.names_anyToString (w : World) : w.Names (.function, Builtin.anyToString) := by
  have hd : w.descriptor? Builtin.anyToString =
      Builtin.descriptors[Builtin.anyToString.index]? := by
    unfold World.descriptor?
    rw [if_pos (by decide)]
  intro d hd'
  rw [hd] at hd'
  revert d
  decide

namespace Lower.Piece

/-- The letters of a text, and values in between. -/
def letters : Piece → List (Char ⊕ ExprId)
  | .text t => t.toList.map .inl
  | .value e => [.inr e]

/-- What pieces come to when they are put together. -/
def spell (pieces : List Piece) : List (Char ⊕ ExprId) := pieces.flatMap (·.letters)

theorem inr_mem_spell : .inr e ∈ spell pieces ↔ .value e ∈ pieces := by
  rw [spell, List.mem_flatMap]
  constructor
  · rintro ⟨piece, hpiece, he⟩
    cases piece with
    | text t => simp [letters] at he
    | value v =>
      cases List.mem_singleton.1 he
      exact hpiece
  · exact fun h => ⟨_, h, List.mem_singleton.2 rfl⟩

theorem letters_append (a b : String) :
    letters (.text (a ++ b)) = letters (.text a) ++ letters (.text b) := by
  simp [letters]

theorem spell_append (a b : List Piece) : spell (a ++ b) = spell a ++ spell b :=
  List.flatMap_append

def text? : Piece → Option String
  | .text t => some t
  | .value _ => none

end Lower.Piece

open Lower.Piece (spell letters)

/-- An expression as a piece of a template. -/
def Store.piece (s : Store) (e : ExprId) : Lower.Piece := (s.text? e).elim (.value e) .text

/-- What an entry comes to: its text, or what its node is lowered to between the two states. -/
def TemplateEntry.Comes (σ : Setting) (d : Descent) (scope : Scope) (s s' : State) :
    TemplateEntry → Lower.Piece → Prop
  | .literal text, piece | .escape text, piece => piece = .text text
  | .expression node, piece => ∃ e s1 s2, s.Le s1 ∧
      (d.expr scope node).runFrom σ s1 = (.ok e, s2) ∧ s2.Le s' ∧ (s2.store.kind? e).isSome ∧
      piece = s2.store.piece e

theorem TemplateEntry.Comes.within {s0 s' : State} {entry : TemplateEntry}
    (h : entry.Comes σ d scope s s' piece) (h0 : s0.Le s) (h' : s'.Le s'') :
    entry.Comes σ d scope s0 s'' piece := by
  cases entry with
  | literal text | escape text => exact h
  | expression node =>
    obtain ⟨e, s1, s2, h1, hrun, h2, he⟩ := h
    exact ⟨e, s1, s2, h0.trans h1, hrun, h2.trans h', he⟩

/-- The parts so far, of which the last one is a value. -/
structure Store.Lined (s : Store) (parts : List ExprId) : Prop where
  present : ∀ part ∈ parts, (s.kind? part).isSome
  nonempty : some "" ∉ parts.map s.text?
  apart : (parts.map s.text?).IsChain fun a b => a = none ∨ b = none
  last : ∀ part ∈ parts.getLast?, s.text? part = none

/-- The literal of a text, unless it is empty. -/
inductive Store.Literal (s : Store) : String → List ExprId → Prop
  | empty : s.Literal "" []
  | literal {text e} : text ≠ "" → s.text? e = some text → s.Literal text [e]

namespace Store

variable {s : Store} {parts literals : List ExprId} {text : String} {value e : ExprId}

theorem kind?_isSome_of_text? (h : s.text? e = some text) : (s.kind? e).isSome := by
  obtain ⟨k, hk, _⟩ := Option.bind_eq_some_iff.1 h
  simp [hk]

theorem Literal.spell_eq (h : s.Literal text literals) :
    spell (literals.map s.piece) = letters (.text text) := by
  cases h with
  | empty => rfl
  | literal _ he => simp [spell, piece, he]

theorem Literal.present (h : s.Literal text literals) : ∀ e ∈ literals, (s.kind? e).isSome := by
  cases h with
  | empty => simp
  | literal _ he => simpa using kind?_isSome_of_text? he

theorem Lined.nonempty_append (h : s.Lined parts) (hl : s.Literal text literals) :
    some "" ∉ (parts ++ literals).map s.text? := by
  rw [List.map_append, List.mem_append]
  rintro (hmem | hmem)
  · exact h.nonempty hmem
  · cases hl with
    | empty => simp at hmem
    | literal hne he => exact hne (by simpa [he, eq_comm] using hmem)

theorem Lined.apart_append (h : s.Lined parts) (hl : s.Literal text literals) :
    ((parts ++ literals).map s.text?).IsChain fun a b => a = none ∨ b = none := by
  rw [List.map_append]
  refine h.apart.append ?_ fun a ha b _ => .inl ?_
  · cases hl with
    | empty => exact .nil
    | literal => exact .singleton _
  · rw [List.getLast?_map] at ha
    obtain ⟨part, hpart, rfl⟩ := Option.map_eq_some_iff.1 ha
    exact h.last part hpart

theorem Lined.snoc (h : s.Lined parts) (hl : s.Literal text literals)
    (hpresent : (s.kind? value).isSome) (hvalue : s.text? value = none) :
    s.Lined (parts ++ literals ++ [value]) where
  present part hpart := by
    simp only [List.mem_append, List.mem_singleton] at hpart
    rcases hpart with (hpart | hpart) | rfl
    · exact h.present part hpart
    · exact hl.present part hpart
    · exact hpresent
  nonempty hmem := by
    rw [List.map_append, List.mem_append] at hmem
    rcases hmem with hmem | hmem
    · exact h.nonempty_append hl hmem
    · simp [hvalue] at hmem
  apart := by
    rw [List.map_append]
    refine (h.apart_append hl).append (.singleton _) fun a _ b hb => .inr ?_
    simpa [hvalue, eq_comm] using hb
  last part hpart := by
    rw [List.getLast?_concat] at hpart
    cases hpart
    exact hvalue

/-- Parts that are not empty make a concatenation with the text after them. -/
theorem Lined.joined (h : s.Lined parts) (hl : s.Literal text literals) (hne : parts ≠ []) :
    s.Joined (parts ++ literals) where
  present part hpart := by
    rcases List.mem_append.1 hpart with hpart | hpart
    · exact h.present part hpart
    · exact hl.present part hpart
  nonempty := h.nonempty_append hl
  apart := h.apart_append hl
  value := by
    refine List.mem_map.2 ⟨parts.getLast hne, by simp, ?_⟩
    exact h.last _ (List.getLast?_eq_some_getLast hne)

end Store

theorem Store.text?_piece (s : Store) (e : ExprId) : (s.piece e).text? = s.text? e := by
  unfold piece
  cases s.text? e <;> rfl

namespace Store

variable {s : Store} {parts : List ExprId}

theorem piece_eq_value (h : s.piece e = .value v) : e = v ∧ s.text? e = none := by
  unfold piece at h
  cases htext : s.text? e with
  | some text =>
    rw [htext] at h
    cases h
  | none =>
    rw [htext] at h
    cases h
    exact ⟨rfl, rfl⟩

/-- Where no text is empty, every part has a letter. -/
theorem length_le_length_spell (h : some "" ∉ parts.map s.text?) :
    parts.length ≤ (spell (parts.map s.piece)).length := by
  induction parts with
  | nil => exact Nat.zero_le _
  | cons part parts ih =>
    rw [List.map_cons, List.mem_cons, not_or] at h
    have hletter : 1 ≤ (s.piece part).letters.length := by
      unfold piece
      cases htext : s.text? part with
      | none => exact Nat.le_refl 1
      | some text =>
        rw [htext] at h
        have hne : text ≠ "" := fun he => h.1 (by rw [he])
        simpa [letters, Nat.one_le_iff_ne_zero] using hne
    have hrest := ih h.2
    simp only [spell, List.map_cons, List.flatMap_cons, List.length_append, List.length_cons]
      at hrest ⊢
    omega

end Store

namespace State

variable {s s' : State} {e : ExprId} {es : List ExprId}

theorem Le.piece_eq (h : s.Le s') (he : (s.store.kind? e).isSome) :
    s'.store.piece e = s.store.piece e := by
  rw [Store.piece, Store.piece, h.text?_eq he]

theorem Le.map_piece (h : s.Le s') (hes : ∀ e ∈ es, (s.store.kind? e).isSome) :
    es.map s'.store.piece = es.map s.store.piece :=
  List.map_congr_left fun e he => h.piece_eq (hes e he)

theorem Le.lined (h : s.Le s') (hl : s.store.Lined es) : s'.store.Lined es where
  present part hpart := h.kind?_isSome (hl.present part hpart)
  nonempty := by rw [h.map_text? hl.present]; exact hl.nonempty
  apart := by rw [h.map_text? hl.present]; exact hl.apart
  last part hpart := by
    rw [h.text?_eq (hl.present part (List.mem_of_getLast? hpart))]
    exact hl.last part hpart

/-- A part of a concatenation: a literal, or the text of a value. -/
inductive Part (s : State) (toText : SymbolId) : ExprId → Lower.Piece → Prop
  | text {e text} : s.store.kind? e = some (.literal .string (.text text)) →
      s.Part toText e (.text text)
  | value {e v} : s.store.kind? e = some (.call ⟨toText, some v, none, []⟩ []) →
      s.Part toText e (.value v)

variable {toText : SymbolId} {piece : Lower.Piece}

theorem Part.mono (h : s.Part toText e piece) (hle : s.Le s') : s'.Part toText e piece := by
  cases h with
  | text h => exact .text (hle.kind? h)
  | value h => exact .value (hle.kind? h)

theorem Part.present (h : s.Part toText e piece) : (s.store.kind? e).isSome := by
  cases h with
  | text h | value h => simp [h]

theorem Part.text?_eq (h : s.Part toText e piece) : s.store.text? e = piece.text? := by
  cases h with
  | text h | value h => simp [Store.text?, h, Lower.literalText?, Lower.Piece.text?]

/-- Only the texts of the parts matter. -/
theorem joined_of_parts (hparts : s.store.Joined parts)
    (h : List.Forall₂ (s'.Part toText) es (parts.map s.store.piece)) : s'.store.Joined es := by
  have htexts : es.map s'.store.text? = parts.map s.store.text? := by
    have hpieces : es.map s'.store.text? = (parts.map s.store.piece).map (·.text?) := by
      rw [← List.forall₂_eq_eq_eq, List.forall₂_map_left_iff, List.forall₂_map_right_iff]
      exact h.imp fun _ _ => Part.text?_eq
    rw [hpieces, List.map_map]
    exact List.map_congr_left fun part _ => s.store.text?_piece part
  refine ⟨fun e he => ?_, htexts ▸ hparts.nonempty, htexts ▸ hparts.apart, htexts ▸ hparts.value⟩
  obtain ⟨piece, _, hpart⟩ := Ledger.exists_of_mem_forall₂ h he
  exact hpart.present

end State

/-- What the pieces of a template become: one literal if there are no values, the value itself if
there is nothing else and it is a string, and else a concatenation, which is new. -/
inductive State.Spells (s : State) (string : TreeType) (pieces : List Lower.Piece) (e : ExprId) :
    Prop
  | literal {text} : s.store.kind? e = some (.literal .string (.text text)) →
      spell pieces = letters (.text text) → s.Spells string pieces e
  | value {x} : s.store.expr? e = some x → x.type = string → spell pieces = [.inr e] →
      s.Spells string pieces e
  | concatenation {toText parts ps} :
      s.table.cached? .function Builtin.anyToString = some toText →
      s.store.kind? e = some (.concatenation parts) → List.Forall₂ (s.Part toText) parts ps →
      spell ps = spell pieces → .value e ∉ pieces →
      (∀ v x, spell pieces = [.inr v] → s.store.expr? v = some x → x.type ≠ string) →
      s.Spells string pieces e

theorem TemplateEntry.Comes.value {s' : State} {entry : TemplateEntry}
    (h : entry.Comes σ d scope s s' (.value v)) :
    (s'.store.kind? v).isSome ∧ s'.store.text? v = none := by
  cases entry with
  | literal text | escape text => cases h
  | expression node =>
    obtain ⟨e, s1, s2, _, _, h2, he, hpiece⟩ := h
    obtain ⟨rfl, htext⟩ := Store.piece_eq_value hpiece.symm
    exact ⟨h2.kind?_isSome he, (h2.text?_eq he).trans htext⟩

namespace Does

variable {σ : Setting} {s : State} {d : Descent} {scope : Scope} {τ : TreeType}

theorem textLiteral (hτ : s.Fits τ) {text : String} :
    Does σ s 0 (Lower.textLiteral τ text)
      (fun s e => s.store.kind? e = some (.literal .string (.text text))) tokens :=
  addKind hτ (by simp) (by simp)

theorem pendingLiteral (hτ : s.Fits τ) {text : String} :
    Does σ s 0 (Lower.pendingLiteral τ text) (fun s es => s.store.Literal text es) tokens := by
  unfold Lower.pendingLiteral
  split
  next h =>
    obtain rfl := String.isEmpty_iff.1 h
    exact pure .empty (by simp)
  next h =>
    refine Does.seq (textLiteral hτ) fun _ _ _ he => pure (.literal ?_ ?_) (by simp)
    · simpa using h
    · simp [Store.text?, he, Lower.literalText?]

theorem concatenated (hτ : s.Fits τ) {toText : SymbolId} {part : ExprId} :
    Does σ s (tokens part) (Lower.concatenated τ toText part)
      (fun s' e => s'.Part toText e (s.store.piece part)) tokens := by
  refine expr_bind fun x hx => ?_
  have hkind : s.store.kind? part = some x.kind := by simp [Store.kind?, hx]
  unfold Store.piece Store.text?
  rw [hkind, Option.bind_some]
  split
  next text htext =>
    rw [htext]
    refine pure (.text ?_) le_rfl
    rw [hkind, Lower.literalText?_eq_some.1 htext]
  next htext =>
    rw [htext]
    exact (addKind hτ (by simp) (by simp)).imp (fun _ _ _ => .value) fun _ => le_rfl

theorem concatenate (hτ : s.Fits τ) {parts : List ExprId} (hparts : s.store.Joined parts) :
    Does σ s (tokens parts) (Lower.lowerTemplate.concatenate τ parts)
      (fun s' e => s.store.expr? e = none ∧ ∃ toText parts',
        s'.table.cached? .function Builtin.anyToString = some toText ∧
        s'.store.kind? e = some (.concatenation parts') ∧
        List.Forall₂ (s'.Part toText) parts' (parts.map s.store.piece)) tokens := by
  refine Does.seq (symbolOf_cached fun _ => σ.world.names_anyToString)
    fun s1 toText h1 hcached => ?_
  refine Does.bind (R := 0) (mapM_taking (P := fun part s' e => s'.Part toText e
    (s.store.piece part)) (E := tokens) (fun hle h => h.mono hle) fun part hpart s' h' => ?_)
    (by simp; rfl) fun s2 parts' h2 hparts' => ?_
  · rw [← (h1.trans h').piece_eq (hparts.present part hpart)]
    exact concatenated ((h1.trans h').fits hτ)
  · have hforall : List.Forall₂ (s2.Part toText) parts' (parts.map s.store.piece) :=
      List.forall₂_map_right_iff.2 hparts'.flip
    have hadmits : s2.Admits τ (.concatenation parts') := State.joined_of_parts hparts hforall
    rw [← gives_eq_tokens (k := .concatenation parts') (by simp)]
    refine (addExprGiving ((h1.trans h2).fits hτ) (by simp) hadmits (by simp)).imp
      (fun s3 e h3 he => ?_) fun _ => le_rfl
    exact ⟨(h1.trans h2).expr?_eq_none he.1, toText, parts',
      (h2.trans h3).table.cached hcached, he.2, hforall.imp fun _ _ h => h.mono h3⟩

variable (hd : Descends σ d)

include hd

theorem lowerEntry :
    Does σ s 0 (Lower.lowerEntry d scope entry) (entry.Comes σ d scope s) tokens := by
  unfold Lower.lowerEntry
  split
  next => exact pure rfl (by simp)
  next => exact pure rfl (by simp)
  next node =>
    refine Does.seq hd.expr.ran fun s1 e h1 ⟨_, hrun⟩ => expr_bind fun x hx => ?_
    have hkind : s1.store.kind? e = some x.kind := by simp [Store.kind?, hx]
    have hcomes {piece : Lower.Piece} (h : piece = s1.store.piece e) :
        TemplateEntry.Comes σ d scope s s1 (.expression node) piece :=
      ⟨e, s, s1, .refl s, hrun, .refl s1, by simp [hkind], h⟩
    split
    next text htext =>
      refine pure (hcomes ?_) (Multiset.zero_le _)
      simp [Store.piece, Store.text?, hkind, htext]
    next htext =>
      refine pure (hcomes ?_) (by simp)
      simp [Store.piece, Store.text?, hkind, htext]

/-- The parts, and the text after them, spell what the entries come to. -/
theorem lowerEntries (hτ : s.Fits τ) {entries : List TemplateEntry} {parts : List ExprId}
    (hparts : s.store.Lined parts) {pending : String} : Does σ s (tokens parts)
      (Lower.lowerEntries d scope τ entries parts pending)
      (fun s' p => s'.store.Lined p.1 ∧ ∃ pieces,
        List.Forall₂ (TemplateEntry.Comes σ d scope s s') entries pieces ∧
        spell (p.1.map s'.store.piece) ++ letters (.text p.2) =
          spell (parts.map s.store.piece) ++ letters (.text pending) ++ spell pieces)
      tokens := by
  induction entries generalizing s parts pending with
  | nil => exact pure ⟨hparts, [], .nil, by simp [spell]⟩ (by simp)
  | cons entry entries ih =>
    refine Does.seq (lowerEntry hd) fun s1 piece h1 hpiece => ?_
    split
    next text =>
      refine ((ih (h1.fits hτ) (h1.lined hparts)).imp (fun s2 p h2 hp => ?_)
        fun _ => le_rfl).weaken (by simp)
      obtain ⟨hlined, pieces, hpieces, hspell⟩ := hp
      refine ⟨hlined, .text text :: pieces, .cons (hpiece.within (.refl s) h2)
        (hpieces.imp fun _ _ h => h.within h1 (.refl s2)), ?_⟩
      rw [hspell, h1.map_piece hparts.present]
      simp [spell, Lower.Piece.letters_append]
    next value =>
      obtain ⟨hpresent, hvalue⟩ := hpiece.value
      refine Does.seq (pendingLiteral (h1.fits hτ)) fun s2 literals h2 hliterals => ?_
      have hlined := (h2.lined (h1.lined hparts)).snoc hliterals (h2.kind?_isSome hpresent)
        ((h2.text?_eq hpresent).trans hvalue)
      refine ((ih ((h1.trans h2).fits hτ) hlined).imp (fun s3 p h3 hp => ?_)
        fun _ => le_rfl).weaken (le_of_eq (by simp; abel))
      obtain ⟨hlined', pieces, hpieces, hspell⟩ := hp
      refine ⟨hlined', .value value :: pieces, .cons (hpiece.within (.refl s) (h2.trans h3))
        (hpieces.imp fun _ _ h => h.within (h1.trans h2) (.refl s3)), ?_⟩
      have hvalue' : s2.store.piece value = .value value := by
        rw [Store.piece, h2.text?_eq hpresent, hvalue]
        rfl
      rw [hspell, List.map_append, List.map_append, Lower.Piece.spell_append,
        Lower.Piece.spell_append, hliterals.spell_eq, (h1.trans h2).map_piece hparts.present]
      simp [spell, hvalue', letters]

omit hd in
/-- Pieces that do not make a single string. -/
theorem spells_concatenate (hτ : s.Fits τ) {parts : List ExprId} (hparts : s.store.Joined parts)
    {pieces : List Lower.Piece} (hspell : spell (parts.map s.store.piece) = spell pieces)
    (hmany : ∀ v x, spell pieces = [.inr v] → s.store.expr? v = some x → x.type ≠ τ) :
    Does σ s (tokens parts) (Lower.lowerTemplate.concatenate τ parts)
      (fun s' e => s'.Spells τ pieces e) tokens := by
  have hpresent {v : ExprId} (hv : .value v ∈ pieces) : ∃ x, s.store.expr? v = some x := by
    rw [← Lower.Piece.inr_mem_spell, ← hspell, Lower.Piece.inr_mem_spell] at hv
    obtain ⟨part, hpart, hpiece⟩ := List.mem_map.1 hv
    obtain ⟨rfl, _⟩ := Store.piece_eq_value hpiece
    have hsome := hparts.present part hpart
    rw [Store.kind?, Option.isSome_map] at hsome
    exact Option.isSome_iff_exists.1 hsome
  refine (concatenate hτ hparts).imp (fun s' e hle he => ?_) fun _ => le_rfl
  obtain ⟨hnew, toText, parts', hcached, hkind, hforall⟩ := he
  refine .concatenation hcached hkind hforall hspell (fun hv => ?_) fun v x hlone hx => ?_
  · obtain ⟨x, hx⟩ := hpresent hv
    cases hnew.symm.trans hx
  · have hv : .value v ∈ pieces := by simp [← Lower.Piece.inr_mem_spell, hlone]
    obtain ⟨y, hy⟩ := hpresent hv
    obtain ⟨z, hz, hyz⟩ := hle.expr hy
    cases hx.symm.trans hz
    exact hyz.type ▸ hmany v y hlone hy

theorem spells_lowerTemplate :
    Does σ s 0 (Lower.lowerTemplate d scope entries) (fun s' e => ∃ string pieces s0,
      Lower.stringType.runFrom σ s = (.ok string, s0) ∧
      List.Forall₂ (TemplateEntry.Comes σ d scope s s') entries pieces ∧
      s'.Spells string pieces e) tokens := by
  refine Does.seq convert.ran fun s1 τ h1 ⟨hτ, hstring⟩ => ?_
  have hnil : s1.store.Lined [] := ⟨by simp, by simp, .nil, by simp⟩
  refine Does.bind (R := 0) (lowerEntries hd hτ hnil) (by simp) fun s2 p h2 hp => ?_
  obtain ⟨parts, pending⟩ := p
  obtain ⟨hlined, pieces, hpieces, hspell⟩ := hp
  replace hspell : spell (parts.map s2.store.piece) ++ letters (.text pending) = spell pieces := by
    simpa [spell, letters] using hspell
  have hτ2 := h2.fits hτ
  have hdone {s' : State} {e : ExprId} (hle : s2.Le s') (h : s'.Spells τ pieces e) :
      ∃ string pieces s0, Lower.stringType.runFrom σ s = (.ok string, s0) ∧
        List.Forall₂ (TemplateEntry.Comes σ d scope s s') entries pieces ∧
        s'.Spells string pieces e :=
    ⟨τ, pieces, s1, hstring, hpieces.imp fun _ _ h => h.within h1 hle, h⟩
  dsimp only
  split
  next hempty =>
    obtain rfl := List.isEmpty_iff.1 hempty
    refine ((textLiteral hτ2).imp (fun s3 e h3 he => hdone h3 (.literal he ?_))
      fun _ => le_rfl).weaken (Multiset.zero_le _)
    exact hspell.symm
  next hempty =>
    have hne : parts ≠ [] := fun h => hempty (List.isEmpty_iff.2 h)
    refine Does.seq (pendingLiteral hτ2) fun s3 literals h3 hliterals => ?_
    have hτ3 := h3.fits hτ2
    have hlined3 := h3.lined hlined
    have hjoined := hlined3.joined hliterals hne
    have hspell3 : spell ((parts ++ literals).map s3.store.piece) = spell pieces := by
      rw [List.map_append, Lower.Piece.spell_append, hliterals.spell_eq,
        h3.map_piece hlined.present, hspell]
    split
    next single hsingle =>
      -- the value is the last of the parts, so that there is no text behind it
      have hparts : parts = [single] ∧ literals = [] := by
        rcases List.append_eq_singleton_iff.1 hsingle with ⟨h, _⟩ | h
        · exact (hne h).elim
        · exact h
      have hvalue : s3.store.piece single = .value single := by
        rw [Store.piece, hlined3.last single (by simp [hparts.1])]
        rfl
      have hlone : spell pieces = [.inr single] := by
        rw [← hspell3, hsingle]
        simp [spell, hvalue, letters]
      have htokens : tokens single = tokens parts + tokens literals := by
        rw [← tokens_append, hsingle]
        simp
      simp only [Lower.exprType, bind_assoc, pure_bind]
      refine expr_bind fun x hx => ?_
      split
      next hstring =>
        exact pure (hdone h3 (.value hx hstring hlone)) (by simp [htokens, add_comm])
      next hstring =>
        refine ((spells_concatenate hτ3 hjoined hspell3 fun v y hv hy => ?_).imp
          (fun s4 e h4 he => hdone (h3.trans h4) he) fun _ => le_rfl).weaken (by simp [add_comm])
        cases hlone.symm.trans hv
        cases hx.symm.trans hy
        exact hstring
    next hmany =>
      refine ((spells_concatenate hτ3 hjoined hspell3 fun v y hv hy => ?_).imp
        (fun s4 e h4 he => hdone (h3.trans h4) he) fun _ => le_rfl).weaken (by simp [add_comm])
      have hlength := Store.length_le_length_spell hjoined.nonempty
      rw [hspell3, hv] at hlength
      obtain ⟨first, rest, hfirst⟩ := List.exists_cons_of_ne_nil
        (List.append_ne_nil_of_left_ne_nil hne literals)
      rw [hfirst, List.length_cons] at hlength
      have hrest : rest = [] := List.eq_nil_of_length_eq_zero (by simpa using hlength)
      exact (hmany first (hfirst.trans (by rw [hrest]))).elim

theorem lowerTemplate : Does σ s 0 (Lower.lowerTemplate d scope entries) anything tokens :=
  (spells_lowerTemplate hd).imp (fun _ _ _ _ => trivial) fun _ => le_rfl

end Does

end TypedTree
