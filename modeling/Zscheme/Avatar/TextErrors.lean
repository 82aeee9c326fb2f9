import Zscheme.Avatar.Prose
import Zscheme.Scheme.Strings

/-!
# The errors of a text

What `prose->parts` raises is an error that says what is wrong with the text
(`TextError`), or one of `substring`. A word of a span is examined by its first and by its
last byte, so that `substring` cuts a character if there is one of several bytes there,
and raises where the evaluator has it raise on a cut (`CutWord`).

* `Layout.parts_error`: every other error is a `TextError`;
* `Layout.parts_of_cut`: a text is cut if a word is that is read before an error.
-/

namespace Zscheme

namespace Avatar

open Prim Stdlib Zscheme.Runtime

/-- The errors that say what is wrong with a text. -/
inductive TextError : String → Prop
  | unbalanced : TextError "unbalanced ( in trigger text"
  | empty : TextError "empty trigger expression"
  | token (w : String) : TextError ("invalid trigger expression token: " ++ w)

variable [Evaluator]

/-- A word that is refused where it is examined, as this would cut it: it begins with a
    character of several bytes, or it ends with one, and begins with a quotation mark or a
    parenthesis. -/
def CutWord (cs : List Char) : Prop :=
  Evaluator.cutRaises = true ∧ ((∃ c ∈ cs.head?, c.utf8Size ≠ 1) ∨
    (cs.head? = some '"' ∨ cs.head? = some '(') ∧ ∃ d ∈ cs.getLast?, d.utf8Size ≠ 1)

/-- The errors of `substring`. -/
def Cuts (e : String) : Prop := ∃ args, e = Evaluator.primError "substring" args

/-! ## Words -/

section Raising

variable (hraises : Evaluator.cutRaises = true)

include hraises

theorem substring_error {s : String} {start stop : Nat} (h : slice s start stop = none) :
    ∃ e, Cuts e ∧ substring s start stop = .error e :=
  ⟨_, ⟨_, rfl⟩, by rw [substring_of_cut h, if_pos hraises]; rfl⟩

/-- A first character of several bytes is cut. -/
theorem triggerPrefix?_wide {c d : Char} (hc : c.utf8Size = 1) (hd : d.utf8Size ≠ 1)
    (cs : List Char) :
    ∃ e, Cuts e ∧ triggerPrefix? (.ofList (d :: cs)) (.singleton c) = .error e := by
  have hpos : 0 < d.utf8Size := d.utf8Size_pos
  have hlength : stringLength (String.singleton c) = 1 := (stringLength_singleton c).trans hc
  have hslice : slice (.ofList (d :: cs)) 0 1 = none :=
    slice_of_cut hd [] cs (Nat.le_refl 0) (by rw [bytes_nil]; omega)
  obtain ⟨e, he, hsub⟩ := substring_error hraises hslice
  refine ⟨e, he, ?_⟩
  rw [triggerPrefix?, hlength, if_pos (by rw [stringLength_ofList, bytes_cons]; omega), hsub]
  rfl

theorem enclosed?_wide {c d : Char} (hc : c.utf8Size = 1) (hd : d.utf8Size ≠ 1) (cs : List Char)
    (closing : String) :
    ∃ e, Cuts e ∧ enclosed? (.ofList (d :: cs)) (.singleton c) closing = .error e := by
  have hpos : 0 < d.utf8Size := d.utf8Size_pos
  obtain ⟨e, he, hfirst⟩ := triggerPrefix?_wide hraises hc hd cs
  refine ⟨e, he, ?_⟩
  rw [enclosed?, if_pos (by rw [stringLength_ofList, bytes_cons]; omega), hfirst]
  rfl

/-- So is a last one, after the opening character. -/
theorem enclosed?_wide_last {c d : Char} (hc : c.utf8Size = 1) (hd : d.utf8Size ≠ 1)
    (cs : List Char) (closing : String) :
    ∃ e, Cuts e ∧ enclosed? (.ofList (c :: (cs ++ [d]))) (.singleton c) closing = .error e := by
  have hpos : 0 < d.utf8Size := d.utf8Size_pos
  have hlength : stringLength (.ofList (c :: (cs ++ [d]))) = bytes (c :: cs) + d.utf8Size := by
    rw [stringLength_ofList, ← List.cons_append, bytes_concat]
  have hslice : slice (.ofList (c :: (cs ++ [d]))) (bytes (c :: cs) + d.utf8Size - 1)
      (bytes (c :: cs) + d.utf8Size) = none := by
    have := slice_of_cut hd (c :: cs) [] (i := bytes (c :: cs) + d.utf8Size - 1) (by omega)
      (by omega)
    rwa [Nat.sub_add_cancel (by omega)] at this
  obtain ⟨e, he, hsub⟩ := substring_error hraises hslice
  refine ⟨e, he, ?_⟩
  have htwo : 2 ≤ bytes (c :: cs) + d.utf8Size := by
    rw [bytes_cons, hc]
    omega
  rw [enclosed?, hlength, if_pos htwo, triggerPrefix?_cons hc hc, hsub]
  simp only [decide_true, bind, Except.bind, if_true]

end Raising

section Giving

variable (hgives : Evaluator.cutRaises ≠ true)

include hgives

/-- Where a cut does not raise, every range has its text. -/
theorem substring_total (s : String) (start stop : Nat) : ∃ t, substring s start stop = .ok t := by
  rcases h : slice s start stop with _ | t
  · exact ⟨"", by rw [substring_of_cut h, if_neg hgives]⟩
  · exact ⟨t, substring_eq_ok.2 (.inl h)⟩

theorem triggerPrefix?_total (s p : String) : ∃ b, triggerPrefix? s p = .ok b := by
  obtain ⟨t, ht⟩ := substring_total hgives s 0 (stringLength p)
  rw [triggerPrefix?]
  split
  · exact ⟨_, by rw [ht]; rfl⟩
  · exact ⟨_, rfl⟩

theorem enclosed?_total (w opening closing : String) :
    ∃ b, enclosed? w opening closing = .ok b := by
  obtain ⟨b, hb⟩ := triggerPrefix?_total hgives w opening
  obtain ⟨t, ht⟩ := substring_total hgives w (stringLength w - 1) (stringLength w)
  rw [enclosed?]
  split
  · rw [hb, ht]
    cases b <;> exact ⟨_, rfl⟩
  · exact ⟨_, rfl⟩

end Giving

/-- Any other word is examined. -/
theorem enclosed?_of_not_cut {cs : List Char} (h : ¬ CutWord cs) {c d : Char}
    (hc : c = '"' ∨ c = '(') : ∃ b, enclosed? (.ofList cs) (.singleton c) (.singleton d) = .ok b ∧
      (b = true →
        ∃ inner, substring (.ofList cs) 1 (stringLength (.ofList cs) - 1) = .ok inner) := by
  by_cases hraises : Evaluator.cutRaises = true
  case neg =>
    obtain ⟨b, hb⟩ := enclosed?_total hraises (.ofList cs) (.singleton c) (.singleton d)
    exact ⟨b, hb, fun _ => substring_total hraises _ _ _⟩
  have hone : c.utf8Size = 1 := by rcases hc with rfl | rfl <;> rfl
  rcases cs with _ | ⟨x, cs⟩
  · exact ⟨false, rfl, nofun⟩
  have hx : x.utf8Size = 1 := by
    by_contra hx
    exact h ⟨hraises, .inl ⟨x, rfl, hx⟩⟩
  by_cases hne : x = c
  · subst hne
    rcases List.eq_nil_or_concat' cs with rfl | ⟨cs, y, rfl⟩
    · refine ⟨false, ?_, nofun⟩
      rw [enclosed?, if_neg]
      · rfl
      · rw [stringLength_ofList, bytes_cons, hx]
        decide
    · have hy : y.utf8Size = 1 := by
        by_contra hy
        refine h ⟨hraises, .inr ⟨hc.imp (congrArg some) (congrArg some), y, ?_, hy⟩⟩
        rw [← List.cons_append, List.getLast?_concat]
        rfl
      exact ⟨_, enclosed?_append hx hy cs d, fun _ => ⟨_, substring_inner hx hy cs⟩⟩
  · exact ⟨false, enclosed?_of_ne hone hx hne cs, nofun⟩

theorem triggerPrefix?_of_not_cut {cs : List Char} (h : ¬ CutWord cs) :
    ∃ b, triggerPrefix? (.ofList cs) ":" = .ok b := by
  by_cases hraises : Evaluator.cutRaises = true
  case neg => exact triggerPrefix?_total hraises _ _
  rcases cs with _ | ⟨x, cs⟩
  · exact ⟨false, rfl⟩
  have hx : x.utf8Size = 1 := by
    by_contra hx
    exact h ⟨hraises, .inl ⟨x, rfl, hx⟩⟩
  exact ⟨_, begins_with_colon hx cs⟩

omit [Evaluator] in
theorem headForm_error {head e : String} (h : headForm head = .error e) : TextError e := by
  rw [headForm] at h
  split at h <;> cases h
  exact .empty

/-- What is wrong with a word that is not cut. -/
theorem argForm_of_not_cut {cs : List Char} (h : ¬ CutWord cs) {e : String}
    (he : argForm (.ofList cs) = .error e) : TextError e := by
  obtain ⟨quoted, hquoted, hinner⟩ := enclosed?_of_not_cut h (c := '"') (d := '"') (.inl rfl)
  obtain ⟨nested, hnested, hinner'⟩ := enclosed?_of_not_cut h (c := '(') (d := ')') (.inr rfl)
  obtain ⟨atom, hatom⟩ := triggerPrefix?_of_not_cut h
  have hquoted : enclosed? (.ofList cs) "\"" "\"" = .ok quoted := hquoted
  have hnested : enclosed? (.ofList cs) "(" ")" = .ok nested := hnested
  have hnumber : stringToNumber (.str (.ofList cs)) = .ok (Evaluator.readNumber (.ofList cs)) := rfl
  rw [argForm] at he
  simp only [hquoted, hnested, hatom, hnumber, bind, Except.bind] at he
  cases quoted with
  | true =>
    obtain ⟨inner, hinner⟩ := hinner rfl
    rw [hinner] at he
    cases he
  | false =>
    cases nested with
    | true =>
      obtain ⟨inner, hinner'⟩ := hinner' rfl
      rw [hinner'] at he
      exact headForm_error he
    | false =>
      cases atom with
      | true => cases he
      | false =>
        simp only [Bool.false_eq_true, if_false] at he
        split at he <;> cases he
        exact .token _

/-- What is wrong with one that is. -/
theorem argForm_of_cut {cs : List Char} (h : CutWord cs) :
    ∃ e, Cuts e ∧ argForm (.ofList cs) = .error e := by
  obtain ⟨hraises, h⟩ := h
  rw [argForm]
  rcases cs with _ | ⟨x, cs⟩
  · rcases h with ⟨c, hc, -⟩ | ⟨hc | hc, -⟩ <;> cases hc
  by_cases hx : x.utf8Size = 1
  · have hhead : ¬ ∃ c, (x :: cs).head? = some c ∧ c.utf8Size ≠ 1 := by
      rintro ⟨c, hc, hc'⟩
      exact hc' (Option.some.inj hc ▸ hx)
    obtain ⟨hx', y, hy, hy'⟩ := h.resolve_left hhead
    rcases List.eq_nil_or_concat' cs with rfl | ⟨cs, z, rfl⟩
    · exact absurd (Option.some.inj hy ▸ hx) hy'
    rw [← List.cons_append, List.getLast?_concat] at hy
    obtain rfl := Option.some.inj hy
    rcases hx' with hx' | hx' <;> cases hx'
    · obtain ⟨e, he, herr⟩ := enclosed?_wide_last hraises (c := '"') rfl hy' cs "\""
      have herr : enclosed? (.ofList ('"' :: (cs ++ [z]))) "\"" "\"" = .error e := herr
      exact ⟨e, he, by simp only [herr, bind, Except.bind]⟩
    · obtain ⟨e, he, herr⟩ := enclosed?_wide_last hraises (c := '(') rfl hy' cs ")"
      have herr : enclosed? (.ofList ('(' :: (cs ++ [z]))) "(" ")" = .error e := herr
      refine ⟨e, he, ?_⟩
      simp only [not_quoted (c := '(') rfl (by decide), herr, bind, Except.bind]
      rfl
  · obtain ⟨e, he, herr⟩ := enclosed?_wide hraises (c := '"') rfl hx cs "\""
    have herr : enclosed? (.ofList (x :: cs)) "\"" "\"" = .error e := herr
    exact ⟨e, he, by simp only [herr, bind, Except.bind]⟩

/-! ## Spans and texts -/

/-- A word of the span is cut, and none before it is refused. -/
def CutSpan (cs : List Char) : Prop :=
  ∃ head before w after, cs.splitOn ' ' = head :: (before ++ w :: after) ∧ head ≠ [] ∧
    (∀ w' ∈ before, ∃ v, argForm (.ofList w') = .ok v) ∧ CutWord w

/-- A span of the text is cut, and none before it is refused. -/
def CutText (l : Layout) : Prop :=
  ∃ before s after, l.pieces = before ++ .span s :: after ∧
    (∀ p ∈ before, ∃ part, p.part = .ok part) ∧ CutSpan s.chars

/-- A span with a head has the form of its words. -/
theorem spanForm_cons {cs head : List Char} {words : List (List Char)}
    (hsplit : cs.splitOn ' ' = head :: words) (hhead : head ≠ []) :
    spanForm (.ofList cs) = (do
      return .list (.str (":" ++ .ofList head) :: (← words.mapM (argForm ∘ .ofList)))) := by
  have hne : String.ofList head ≠ "" := mt String.ofList_eq_empty_iff.1 hhead
  rw [spanForm, stringSplit_blank, hsplit, ← List.mapM_map]
  simp only [List.map_cons, bind, Except.bind, if_neg hne]

theorem spanForm_of_cut {cs : List Char} (h : CutSpan cs) :
    ∃ e, Cuts e ∧ spanForm (.ofList cs) = .error e := by
  obtain ⟨head, before, w, after, hsplit, hhead, hbefore, hw⟩ := h
  obtain ⟨e, he, hform⟩ := argForm_of_cut hw
  have hwords : (before ++ w :: after).mapM (argForm ∘ .ofList) = .error e :=
    mapM_eq_error.2 ⟨before, w, after, rfl, hbefore, hform⟩
  exact ⟨e, he, by rw [spanForm_cons hsplit hhead, hwords]; rfl⟩

theorem spanForm_of_not_cut {cs : List Char} (h : ¬ CutSpan cs) {e : String}
    (he : spanForm (.ofList cs) = .error e) : TextError e := by
  obtain ⟨head, words, hsplit⟩ := List.exists_cons_of_ne_nil (List.splitOn_ne_nil ' ' cs)
  by_cases hhead : head = []
  · subst hhead
    rw [spanForm, stringSplit_blank, hsplit] at he
    cases he
    exact .empty
  · rw [spanForm_cons hsplit hhead] at he
    rcases hwords : words.mapM (argForm ∘ .ofList) with e' | vs
    · rw [hwords] at he
      cases he
      obtain ⟨before, w, after, rfl, hbefore, hw⟩ := mapM_eq_error.1 hwords
      refine argForm_of_not_cut (fun hcut => h ?_) hw
      exact ⟨head, before, w, after, hsplit, hhead, hbefore, hcut⟩
    · rw [hwords] at he
      cases he

namespace Layout

/-- A text that is cut raises an error of `substring`. -/
theorem parts_of_cut {l : Layout} (h : CutText l) : ∃ e, Cuts e ∧ l.parts = .error e := by
  obtain ⟨before, s, after, hpieces, hbefore, hs⟩ := h
  obtain ⟨e, he, hform⟩ := spanForm_of_cut hs
  have hmap : l.pieces.mapM Piece.part = .error e :=
    mapM_eq_error.2 ⟨before, .span s, after, hpieces, hbefore, hform⟩
  exact ⟨e, he, by rw [parts, hmap]; rfl⟩

/-- Any other error says what is wrong with the text. -/
theorem parts_error {l : Layout} (h : ¬ CutText l) {e : String} (he : l.parts = .error e) :
    TextError e := by
  rw [parts] at he
  rcases hmap : l.pieces.mapM Piece.part with e' | parts
  · rw [hmap] at he
    cases he
    obtain ⟨before, p, after, hpieces, hbefore, hp⟩ := mapM_eq_error.1 hmap
    cases p with
    | literal l => cases hp
    | span s => exact spanForm_of_not_cut (fun hs => h ⟨before, s, after, hpieces, hbefore, hs⟩) hp
  · rw [hmap] at he
    simp only [bind, Except.bind] at he
    split at he <;> cases he
    exact .unbalanced

end Layout

/-- What a text raises says what is wrong with it, or that it is cut. -/
theorem proseToParts_error {text e : String} (h : proseToParts text = .error e) :
    TextError e ∨ Cuts e := by
  obtain ⟨l, hl⟩ := Layout.exists_chars text.toList
  rw [proseToParts_eq hl] at h
  by_cases hcut : CutText l
  · obtain ⟨e', he', hparts⟩ := Layout.parts_of_cut hcut
    rw [h] at hparts
    cases hparts
    exact .inr he'
  · exact .inl (Layout.parts_error hcut h)

end Avatar

end Zscheme
