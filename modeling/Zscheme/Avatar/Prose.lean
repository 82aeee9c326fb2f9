import Zscheme.Avatar.Spans
import Zscheme.Lib.Relate

/-!
# The parts of a text

A text has literals and, between them, spans in parentheses: a literal goes on to the next
opening parenthesis, and a span to the next closing one. So every text has one layout
(`Layout.existsUnique`), and `prose->parts` gives the parts of it.

* `spanToForm_eq`: a span in a span has no blank, so that it is its head alone, and
  `span->form` ends;
* `proseToParts_layout`: no prose is lost or moved.
-/

namespace Zscheme

namespace Avatar

open Prim Stdlib Zscheme.Runtime

/-! ## Layouts -/

/-- A literal has no opening parenthesis. -/
@[ext] structure Literal where
  /-- Its characters. -/
  chars : List Char
  /-- They open no span. -/
  opening : '(' ∉ chars

/-- What is inside a span has no closing parenthesis. -/
@[ext] structure Inside where
  /-- Its characters. -/
  chars : List Char
  /-- They do not end the span. -/
  closing : ')' ∉ chars

theorem Literal.ne_append (l : Literal) (a b : List Char) : l.chars ≠ a ++ '(' :: b := fun h =>
  l.opening (h ▸ List.mem_append_right a List.mem_cons_self)

theorem Inside.ne_append (s : Inside) (a b : List Char) : s.chars ≠ a ++ ')' :: b := fun h =>
  s.closing (h ▸ List.mem_append_right a List.mem_cons_self)

/-- A literal ends where a parenthesis opens. -/
theorem Literal.eq_of_append {l l' : Literal} {a a' : List Char}
    (h : l.chars ++ '(' :: a = l'.chars ++ '(' :: a') : l = l' ∧ a = a' := by
  obtain rfl := Literal.ext (eq_of_append_cons l.opening l'.opening h)
  exact ⟨rfl, (List.cons.inj (List.append_cancel_left h)).2⟩

/-- A span ends where a parenthesis closes. -/
theorem Inside.eq_of_append {s s' : Inside} {a a' : List Char}
    (h : s.chars ++ ')' :: a = s'.chars ++ ')' :: a') : s = s' ∧ a = a' := by
  obtain rfl := Inside.ext (eq_of_append_cons s.closing s'.closing h)
  exact ⟨rfl, (List.cons.inj (List.append_cancel_left h)).2⟩

/-- The literals and the spans of a text. -/
inductive Layout
  /-- The last literal. -/
  | last (l : Literal)
  /-- A literal, and a parenthesis after it that nothing closes. -/
  | unbalanced (l : Literal) (tail : Inside)
  /-- A literal, the span after it, and what follows. -/
  | span (l : Literal) (s : Inside) (rest : Layout)

namespace Layout

/-- The text. -/
def chars : Layout → List Char
  | last l => l.chars
  | unbalanced l tail => l.chars ++ '(' :: tail.chars
  | span l s rest => l.chars ++ '(' :: (s.chars ++ ')' :: rest.chars)

/-- Every parenthesis that opens a span is closed. -/
def balanced : Layout → Bool
  | last _ => true
  | unbalanced _ _ => false
  | span _ _ rest => rest.balanced

theorem exists_chars (cs : List Char) : ∃ l : Layout, l.chars = cs := by
  induction hlen : cs.length using Nat.strongRecOn generalizing cs with
  | _ n ih =>
  by_cases hopen : '(' ∈ cs
  · obtain ⟨lit, tail, rfl, hlit⟩ := List.eq_append_cons_of_mem hopen
    by_cases hclose : ')' ∈ tail
    · obtain ⟨s, rest, rfl, hs⟩ := List.eq_append_cons_of_mem hclose
      have hless : rest.length < n := by
        simp only [List.length_append, List.length_cons] at hlen
        omega
      obtain ⟨l, rfl⟩ := ih rest.length hless rest rfl
      exact ⟨.span ⟨lit, hlit⟩ ⟨s, hs⟩ l, rfl⟩
    · exact ⟨.unbalanced ⟨lit, hlit⟩ ⟨tail, hclose⟩, rfl⟩
  · exact ⟨.last ⟨cs, hopen⟩, rfl⟩

theorem chars_injective : Function.Injective chars := by
  intro l
  induction l with
  | last l =>
    intro l' h
    cases l' with
    | last l' => exact congrArg last (Literal.ext h)
    | unbalanced l' tail => exact absurd h (l.ne_append _ _)
    | span l' s rest => exact absurd h (l.ne_append _ _)
  | unbalanced l tail =>
    intro l' h
    cases l' with
    | last l' => exact absurd h.symm (l'.ne_append _ _)
    | unbalanced l' tail' =>
      obtain ⟨rfl, htail⟩ := Literal.eq_of_append h
      rw [Inside.ext htail]
    | span l' s rest => exact absurd (Literal.eq_of_append h).2 (tail.ne_append _ _)
  | span l s rest ih =>
    intro l' h
    cases l' with
    | last l' => exact absurd h.symm (l'.ne_append _ _)
    | unbalanced l' tail => exact absurd (Literal.eq_of_append h).2.symm (tail.ne_append _ _)
    | span l' s' rest' =>
      obtain ⟨rfl, hafter⟩ := Literal.eq_of_append h
      obtain ⟨rfl, hrest⟩ := Inside.eq_of_append hafter
      rw [ih hrest]

/-- Every text has one layout. -/
theorem existsUnique (cs : List Char) : ∃! l : Layout, l.chars = cs := by
  obtain ⟨l, rfl⟩ := exists_chars cs
  exact ⟨l, rfl, fun l' h => chars_injective h⟩

end Layout

/-! ## Forms -/

variable [Evaluator]

/-- The form of a span in a span: it has no blank, so that it is its head. -/
def headForm (head : String) : Except String SchemeVal :=
  if head = "" then throw "empty trigger expression" else return .list [.str (":" ++ head)]

/-- The value of a word after the head of a span. -/
def argForm (w : String) : Except String SchemeVal := do
  if ← enclosed? w "\"" "\"" then return .str (← substring w 1 (stringLength w - 1))
  else if ← enclosed? w "(" ")" then headForm (← substring w 1 (stringLength w - 1))
  else if ← triggerPrefix? w ":" then return .str w
  else match ← stringToNumber w with
    | some n => return n
    | none => throw ("invalid trigger expression token: " ++ w)

/-- The form of a span. -/
def spanForm (span : String) : Except String SchemeVal := do
  match ← stringSplit span " " with
  | [] => throw "empty trigger expression"
  | head :: words =>
    if head = "" then throw "empty trigger expression"
    else return .list (.str (":" ++ head) :: (← words.mapM argForm))

/-- A span without a blank is its head. -/
theorem spanToForm_head {cs : List Char} (h : ' ' ∉ cs) (fuel : Nat) :
    spanToForm (fuel + 1) (.ofList cs) = headForm (.ofList cs) := by
  rw [spanToForm, stringSplit_blank, List.splitOn_eq_singleton h]
  simp only [List.map_cons, List.map_nil, bind, Except.bind, headForm]
  split
  · rfl
  · cases fuel <;> rfl

theorem spanArgToValue_eq {cs : List Char} (h : ' ' ∉ cs) (fuel : Nat) :
    spanArgToValue (fuel + 2) (.ofList cs) = argForm (.ofList cs) := by
  have hinner (stop : Nat) : (do spanToForm (fuel + 1) (← substring (.ofList cs) 1 stop)) =
      (do headForm (← substring (.ofList cs) 1 stop)) := by
    rcases hsub : substring (.ofList cs) 1 stop with e | inner
    · rfl
    · have hblank : ' ' ∉ inner.toList := fun hmem => h (by simpa using substring_subset hsub hmem)
      simpa [bind, Except.bind] using spanToForm_head hblank fuel
  rw [spanArgToValue, argForm]
  rcases enclosed? (.ofList cs) "\"" "\"" with e | (_ | _)
  · rfl
  · rcases enclosed? (.ofList cs) "(" ")" with e | (_ | _)
    · rfl
    · rfl
    · exact hinner _
  · rfl

theorem spanArgsToValues_eq {words : List (List Char)} (h : ∀ w ∈ words, ' ' ∉ w) {fuel : Nat}
    (hfuel : words.length + 1 < fuel ∨ words = []) :
    spanArgsToValues fuel (words.map .ofList) = (words.map .ofList).mapM argForm := by
  induction words generalizing fuel with
  | nil => cases fuel <;> rfl
  | cons w words ih =>
    obtain ⟨hw, hwords⟩ := List.forall_mem_cons.1 h
    have hfuel := hfuel.resolve_right (List.cons_ne_nil w words)
    rw [List.length_cons] at hfuel
    obtain ⟨fuel, rfl⟩ : ∃ n, fuel = n + 3 := ⟨fuel - 3, by omega⟩
    rw [List.map_cons, spanArgsToValues, spanArgToValue_eq hw, List.mapM_cons,
      ih hwords (.inl (by omega))]

/-- `span->form` ends. -/
theorem spanToForm_eq {cs : List Char} {fuel : Nat} (hfuel : 2 * bytes cs + 2 ≤ fuel) :
    spanToForm fuel (.ofList cs) = spanForm (.ofList cs) := by
  obtain ⟨fuel, rfl⟩ : ∃ n, fuel = n + 1 := ⟨fuel - 1, by omega⟩
  obtain ⟨hblank, hlength⟩ := splitOn_pieces ' ' cs
  rw [spanToForm, spanForm, stringSplit_blank]
  rcases hsplit : cs.splitOn ' ' with _ | ⟨head, words⟩
  · rfl
  rw [hsplit, List.length_cons] at hlength
  rw [hsplit] at hblank
  have hargs : spanArgsToValues fuel (words.map .ofList) = (words.map .ofList).mapM argForm := by
    refine spanArgsToValues_eq (List.forall_mem_cons.1 hblank).2 ?_
    rcases words with _ | ⟨w, words⟩
    · exact .inr rfl
    · rw [List.length_cons] at hlength ⊢
      exact .inl (by omega)
  simp only [List.map_cons, bind, Except.bind, hargs]

/-! ## Parts -/

/-- A piece of a text. -/
inductive Piece
  | literal (l : Literal)
  | span (s : Inside)

/-- The piece, as it is written. -/
def Piece.chars : Piece → List Char
  | literal l => l.chars
  | span s => '(' :: (s.chars ++ [')'])

/-- The part that it becomes. -/
def Piece.part : Piece → Except String SchemeVal
  | literal l => .ok (.str (.ofList l.chars))
  | span s => spanForm (.ofList s.chars)

/-- A literal is a piece if it is not empty. -/
def Literal.pieces (l : Literal) : List Piece := if l.chars = [] then [] else [.literal l]

namespace Layout

/-- The literals that are not empty and the spans, in order. -/
def pieces : Layout → List Piece
  | last l => l.pieces
  | unbalanced l _ => l.pieces
  | span l s rest => l.pieces ++ .span s :: rest.pieces

/-- The parts of the pieces, if every parenthesis is closed. -/
def parts (l : Layout) : Except String (List SchemeVal) := do
  let parts ← l.pieces.mapM Piece.part
  if l.balanced then return parts else throw "unbalanced ( in trigger text"

omit [Evaluator] in
theorem chars_pieces_literal (l : Literal) : l.pieces.flatMap Piece.chars = l.chars := by
  rw [Literal.pieces]
  split
  · next h => rw [h, List.flatMap_nil]
  · rw [List.flatMap_singleton, Piece.chars]

omit [Evaluator] in
/-- The pieces make up the text. -/
theorem flatMap_pieces {l : Layout} (h : l.balanced = true) :
    l.pieces.flatMap Piece.chars = l.chars := by
  induction l with
  | last l => exact chars_pieces_literal l
  | unbalanced l tail => cases h
  | span l s rest ih =>
    rw [pieces, List.flatMap_append, List.flatMap_cons, chars_pieces_literal, ih h, chars,
      Piece.chars, List.cons_append, List.append_assoc]
    rfl

theorem mapM_pieces_literal (l : Literal) : l.pieces.mapM Piece.part =
    .ok (if l.chars = [] then [] else [.str (.ofList l.chars)]) := by
  rw [Literal.pieces]
  split <;> rfl

theorem parts_span (l : Literal) (s : Inside) (rest : Layout) : (span l s rest).parts = (do
    let form ← spanForm (.ofList s.chars)
    let parts ← rest.parts
    return (if l.chars = [] then [] else [.str (.ofList l.chars)]) ++ form :: parts) := by
  rw [parts, parts, pieces, List.mapM_append, mapM_pieces_literal, List.mapM_cons, Piece.part,
    balanced]
  rcases spanForm (.ofList s.chars) with e | form
  · rfl
  rcases rest.pieces.mapM Piece.part with e | parts
  · rfl
  cases rest.balanced <;> rfl

theorem parts_eq_ok {l : Layout} {parts : List SchemeVal} :
    l.parts = .ok parts ↔ l.balanced = true ∧ l.pieces.mapM Piece.part = .ok parts := by
  rw [Layout.parts]
  rcases l.pieces.mapM Piece.part with e | parts'
  · exact iff_of_false nofun fun h => nomatch h.2
  · simp only [bind, Except.bind]
    split
    · next h => simp [h, pure, Except.pure]
    · next h => exact iff_of_false nofun fun h' => h h'.1

/-- A text with parts has no span without a form. -/
theorem part_of_parts {l : Layout} {parts : List SchemeVal} (h : l.parts = .ok parts) {p : Piece}
    (hp : p ∈ l.pieces) : ∃ part, p.part = .ok part := by
  rcases mapM_cases Piece.part l.pieces with ⟨hall, -⟩ | ⟨-, -, e, -, he⟩
  · exact hall p hp
  · cases (parts_eq_ok.1 h).2.symm.trans he

end Layout

/-- Nothing closes the parenthesis after a literal. -/
theorem proseToPartsLoop_unbalanced {p tail : List Char} (hp : '(' ∉ p) (htail : ')' ∉ tail)
    (fuel : Nat) (acc : List SchemeVal) :
    proseToPartsLoop (fuel + 1) (.ofList (p ++ '(' :: tail)) acc =
      .error "unbalanced ( in trigger text" := by
  have hopen : stringIndex (.ofList (p ++ '(' :: tail)) "(" = some (bytes p) :=
    stringIndex_append hp _
  have hclose : stringIndex (.ofList tail) ")" = none := stringIndex_eq_none htail
  have hp' : bytes p + 1 = bytes (p ++ ['(']) := (bytes_concat p '(').symm
  rw [proseToPartsLoop, hopen]
  simp only [stringLength_ofList, hp', substring_after, substring_before, hclose, bind, Except.bind]
  rfl

/-- The loop gives the parts of a layout, after those that it has. -/
theorem proseToPartsLoop_layout (l : Layout) {fuel : Nat} (hfuel : bytes l.chars < fuel)
    (acc : List SchemeVal) :
    proseToPartsLoop fuel (.ofList l.chars) acc = (acc.reverse ++ ·) <$> l.parts := by
  induction l generalizing fuel acc with
  | last l =>
    obtain ⟨fuel, rfl⟩ : ∃ n, fuel = n + 1 := ⟨fuel - 1, by omega⟩
    rw [Layout.parts, Layout.pieces, Layout.mapM_pieces_literal, Layout.chars,
      proseToPartsLoop_prose l.opening]
    rfl
  | unbalanced l tail =>
    obtain ⟨fuel, rfl⟩ : ∃ n, fuel = n + 1 := ⟨fuel - 1, by omega⟩
    rw [Layout.parts, Layout.pieces, Layout.mapM_pieces_literal, Layout.chars,
      proseToPartsLoop_unbalanced l.opening tail.closing]
    rfl
  | span l s rest ih =>
    obtain ⟨fuel, rfl⟩ : ∃ n, fuel = n + 1 := ⟨fuel - 1, by omega⟩
    have hless : bytes rest.chars < fuel := by
      have hone : ('(').utf8Size = 1 := rfl
      rw [Layout.chars] at hfuel
      simp only [bytes_append, bytes_cons] at hfuel
      omega
    rw [Layout.chars, proseToPartsLoop_span l.opening s.closing, spanToForm_eq (Nat.le_refl _),
      Layout.parts_span]
    rcases spanForm (.ofList s.chars) with e | form
    · rfl
    simp only [bind, Except.bind]
    rw [ih hless]
    rcases rest.parts with e | parts
    · rfl
    · refine congrArg Except.ok ?_
      split <;> simp

/-- The loop gives the parts of a text, however many turns it may take. -/
theorem proseToPartsLoop_eq {text : String} {l : Layout} (h : l.chars = text.toList) {fuel : Nat}
    (hfuel : stringLength text < fuel) : proseToPartsLoop fuel text [] = l.parts := by
  have hbytes : bytes l.chars < fuel := by rwa [h, bytes_toList]
  have := proseToPartsLoop_layout l hbytes []
  rw [h, String.ofList_toList] at this
  rw [this]
  cases l.parts <;> rfl

theorem proseToParts_eq {text : String} {l : Layout} (h : l.chars = text.toList) :
    proseToParts text = l.parts := proseToPartsLoop_eq h (Nat.lt_succ_self _)

/-- A text without parts is empty. -/
theorem eq_empty_of_proseToParts {text : String} (h : proseToParts text = .ok []) : text = "" := by
  obtain ⟨l, hl⟩ := Layout.exists_chars text.toList
  obtain ⟨hbalanced, hmap⟩ := Layout.parts_eq_ok.1 ((proseToParts_eq hl).symm.trans h)
  have hpieces : l.pieces = [] := by
    rcases hpieces : l.pieces with _ | ⟨p, ps⟩
    · rfl
    rw [hpieces, List.mapM_cons] at hmap
    rcases hp : p.part with e | part
    · rw [hp] at hmap
      cases hmap
    · rcases hps : ps.mapM Piece.part with e | parts <;> rw [hp, hps] at hmap <;> cases hmap
  rw [← String.toList_eq_nil_iff, ← hl, ← Layout.flatMap_pieces hbalanced, hpieces,
    List.flatMap_nil]

/-- A text has one layout, and `prose->parts` gives the parts of its pieces and loses
    nothing, or raises. Neither the loop nor the forms of the spans need more turns than
    there are bytes. -/
theorem proseToParts_layout (text : String) :
    ∃ l : Layout, l.chars = text.toList ∧ (∀ l' : Layout, l'.chars = text.toList → l' = l) ∧
      (∀ fuel, stringLength text < fuel → proseToPartsLoop fuel text [] = l.parts) ∧
      (∀ s, .span s ∈ l.pieces → ∀ fuel, 2 * bytes s.chars + 2 ≤ fuel →
        spanToForm fuel (.ofList s.chars) = spanForm (.ofList s.chars)) ∧
      (∀ parts, proseToParts text = .ok parts → l.balanced = true ∧
        l.pieces.mapM Piece.part = .ok parts ∧ l.pieces.flatMap Piece.chars = text.toList) ∧
      (l.balanced = false ∨ (∃ s, .span s ∈ l.pieces ∧ ∃ e, spanForm (.ofList s.chars) = .error e) →
        ∃ e, proseToParts text = .error e) := by
  obtain ⟨l, hl, hunique⟩ := Layout.existsUnique text.toList
  have hparts := proseToParts_eq hl
  refine ⟨l, hl, hunique, fun _ => proseToPartsLoop_eq hl, fun _ _ _ => spanToForm_eq, ?_, ?_⟩
  · intro parts h
    obtain ⟨hbalanced, hmap⟩ := Layout.parts_eq_ok.1 (hparts.symm.trans h)
    exact ⟨hbalanced, hmap, hl ▸ Layout.flatMap_pieces hbalanced⟩
  · intro h
    rcases hresult : proseToParts text with e | parts
    · exact ⟨e, rfl⟩
    · rw [hparts] at hresult
      rcases h with h | ⟨s, hs, e, he⟩
      · rw [(Layout.parts_eq_ok.1 hresult).1] at h
        cases h
      · obtain ⟨part, hpart⟩ := Layout.part_of_parts hresult hs
        cases hpart.symm.trans he

end Avatar

end Zscheme
