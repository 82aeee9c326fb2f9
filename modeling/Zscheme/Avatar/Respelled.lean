import Zscheme.Avatar.TextErrors
import Zscheme.Scheme.Numerals

/-!
# A text with other numerals

Between two blanks a text may have a numeral, and another text another numeral of the same
number in its place (`Transcribed`). In a span it is a whole argument, and stands for the number
either way; outside the spans it is prose. So both texts are refused with the same error, or
they have the same parts if and only if they are the same outside their spans
(`proseToParts_alike`).
-/

namespace Zscheme

namespace Avatar

open Prim Stdlib Zscheme.Runtime

variable [Evaluator]

/-- Two texts in which the words that begin after a blank and end before one may be
    different numerals of one number. The flag says whether a word begins. -/
inductive Transcribed : Bool → List Char → List Char → Prop
  | nil (b : Bool) : Transcribed b [] []
  | cons (b : Bool) (c : Char) {cs cs' : List Char} (h : Transcribed (decide (c = ' ')) cs cs') :
    Transcribed b (c :: cs) (c :: cs')
  | numeral {t t' : String} {v : SchemeVal} {cs cs' : List Char}
    (ht : Evaluator.readNumber t = some v) (ht' : Evaluator.readNumber t' = some v)
    (hend : ∀ c ∈ cs.head?, c = ' ') (h : Transcribed false cs cs') :
    Transcribed true (t.toList ++ cs) (t'.toList ++ cs')

namespace Transcribed

variable {b : Bool} {cs cs' : List Char}

/-- In the middle of a word, the texts go on alike. -/
theorem head?_eq (h : Transcribed false cs cs') : cs.head? = cs'.head? := by
  cases h <;> rfl

theorem symm (h : Transcribed b cs cs') : Transcribed b cs' cs := by
  induction h with
  | nil b => exact .nil b
  | cons b c _ ih => exact .cons b c ih
  | numeral ht ht' hend h ih => exact .numeral ht' ht (h.head?_eq ▸ hend) ih

theorem eq_nil (hnumerals : PlainNumerals) (h : Transcribed b cs cs') : cs = [] ↔ cs' = [] := by
  have haux {b : Bool} {cs cs' : List Char} (h : Transcribed b cs cs') (hcs : cs = []) :
      cs' = [] := by
    cases h with
    | nil => rfl
    | cons => cases hcs
    | numeral ht =>
      have hnil := String.toList_eq_nil_iff.1 (List.append_eq_nil_iff.1 hcs).1
      exact absurd hnil (hnumerals _ _ ht).1
  exact ⟨haux h, haux h.symm⟩

/-- A parenthesis is in no numeral, so that both texts have it in the same place. -/
theorem split (hnumerals : PlainNumerals) {c : Char} (hc : c = '(' ∨ c = ')')
    {x y : List Char} (h : Transcribed b (x ++ c :: y) cs') :
    ∃ x' y', cs' = x' ++ c :: y' ∧ Transcribed b x x' ∧ Transcribed false y y' := by
  have hblank : c ≠ ' ' := by rcases hc with rfl | rfl <;> decide
  generalize hz : x ++ c :: y = cs at h
  induction h generalizing x with
  | nil => simp at hz
  | @cons b d cs cs' h ih =>
    rcases x with _ | ⟨d', x⟩
    · obtain ⟨rfl, rfl⟩ := List.cons.inj hz
      exact ⟨[], cs', rfl, .nil b, by simpa only [decide_eq_false hblank] using h⟩
    · obtain ⟨rfl, hz'⟩ := List.cons.inj hz
      obtain ⟨x', y', rfl, hx, hy⟩ := ih hz'
      exact ⟨d' :: x', y', rfl, .cons b d' hx, hy⟩
  | @numeral t t' v cs cs' ht ht' hend h ih =>
    have hmem : c ∉ t.toList := fun hmem => by
      have hplain := ((hnumerals _ _ ht).2 c hmem).2
      rcases hc with rfl | rfl <;> exact hplain (by decide)
    rcases List.append_eq_append_iff.1 hz with ⟨a, ha, hrest⟩ | ⟨a, rfl, rfl⟩
    · rcases a with _ | ⟨d, a⟩
      · rw [List.nil_append] at hrest
        exact absurd (hend c (by rw [← hrest]; rfl)) hblank
      · obtain ⟨rfl, -⟩ := List.cons.inj hrest
        exact absurd (ha ▸ by simp) hmem
    · obtain ⟨x', y', rfl, hx, hy⟩ := ih rfl
      refine ⟨t'.toList ++ x', y', by rw [List.append_assoc], .numeral ht ht' ?_ hx, hy⟩
      rcases a with _ | ⟨d, a⟩
      · exact nofun
      · exact hend

theorem not_mem (hnumerals : PlainNumerals) {c : Char} (hc : c = '(' ∨ c = ')')
    (h : Transcribed b cs cs') (hno : c ∉ cs) : c ∉ cs' := by
  intro hmem
  obtain ⟨x, y, rfl⟩ := List.append_of_mem hmem
  obtain ⟨x', y', rfl, -⟩ := h.symm.split hnumerals hc
  exact hno (by simp)

end Transcribed

/-! ## Spans -/

/-- Two words that are one, or numerals of one number. -/
def SameWord (t t' : String) : Prop :=
  t = t' ∨ ∃ v, Evaluator.readNumber t = some v ∧ Evaluator.readNumber t' = some v

omit [Evaluator] in
theorem splitOn_append {a : List Char} (ha : ' ' ∉ a) (cs : List Char) :
    (a ++ cs).splitOn ' ' = (cs.splitOn ' ').modifyHead (a ++ ·) := by
  induction a with
  | nil => exact (congrFun List.modifyHead_id _).symm
  | cons c a ih =>
    obtain ⟨hc, ha⟩ := not_or.1 (mt List.mem_cons.2 ha)
    have hne : (c == ' ') = false := beq_false_of_ne (Ne.symm hc)
    rw [List.cons_append, List.splitOn_cons_eq_if_modifyHead, hne, ih ha]
    simp [List.modifyHead_modifyHead, Function.comp_def]

/-- The words of alike texts: the first is the same if it has begun before. -/
theorem Transcribed.splitOn (hnumerals : PlainNumerals) {b : Bool} {cs cs' : List Char}
    (h : Transcribed b cs cs') : ∃ t t' ts ts',
      cs.splitOn ' ' = t :: ts ∧ cs'.splitOn ' ' = t' :: ts' ∧
      SameWord (.ofList t) (.ofList t') ∧ (b = false → t = t') ∧
      List.Forall₂ (fun t t' => SameWord (.ofList t) (.ofList t')) ts ts' := by
  induction h with
  | nil => exact ⟨[], [], [], [], rfl, rfl, .inl rfl, fun _ => rfl, .nil⟩
  | @cons b c cs cs' h ih =>
    obtain ⟨t, t', ts, ts', hcs, hcs', hword, hfirst, hwords⟩ := ih
    rw [List.splitOn_cons_eq_if_modifyHead, List.splitOn_cons_eq_if_modifyHead, hcs, hcs']
    by_cases hc : c = ' '
    · have hc : (c == ' ') = true := beq_iff_eq.2 hc
      rw [hc]
      exact ⟨[], [], _, _, rfl, rfl, .inl rfl, fun _ => rfl, .cons hword hwords⟩
    · obtain rfl := hfirst (decide_eq_false hc)
      rw [beq_false_of_ne hc]
      exact ⟨c :: t, c :: t, ts, ts', rfl, rfl, .inl rfl, fun _ => rfl, hwords⟩
  | @numeral t t' v cs cs' ht ht' hend h ih =>
    have hno {t : String} (ht : Evaluator.readNumber t = some v) : ' ' ∉ t.toList := fun hmem =>
      ((hnumerals _ _ ht).2 _ hmem).2 (by decide)
    obtain ⟨u, u', ts, ts', hcs, hcs', -, hfirst, hwords⟩ := ih
    obtain rfl := hfirst rfl
    -- the numeral ends where it is: the word that follows it is empty
    obtain rfl : u = [] := by
      rcases cs with _ | ⟨c, cs⟩
      · exact (List.cons.inj hcs).1.symm
      · obtain rfl := hend c rfl
        rw [List.splitOn_cons_eq_if_modifyHead] at hcs
        exact (List.cons.inj hcs).1.symm
    refine ⟨t.toList, t'.toList, ts, ts', ?_, ?_, .inr ⟨v, ?_, ?_⟩, nofun, hwords⟩
    · rw [splitOn_append (hno ht), hcs, List.modifyHead_cons, List.append_nil]
    · rw [splitOn_append (hno ht'), hcs', List.modifyHead_cons, List.append_nil]
    · rwa [String.ofList_toList]
    · rwa [String.ofList_toList]

/-- A numeral is an argument that stands for its number. -/
theorem argForm_numeral (hnumerals : PlainNumerals) {t : String} {v : SchemeVal}
    (h : Evaluator.readNumber t = some v) : argForm t = .ok v := by
  have hno : ' ' ∉ t.toList := fun hmem => ((hnumerals _ _ h).2 ' ' hmem).2 (by decide)
  have hplain : (Arg.number ⟨t, v, h⟩).Flat := trivial
  have hflat := spanArgToValue_flat hnumerals 1 hplain
  rw [Arg.chars, spanArgToValue_eq hno, String.ofList_toList] at hflat
  exact hflat

theorem SameWord.argForm (hnumerals : PlainNumerals) {t t' : String} (h : SameWord t t') :
    Avatar.argForm t = Avatar.argForm t' := by
  rcases h with rfl | ⟨v, ht, ht'⟩
  · rfl
  · rw [argForm_numeral hnumerals ht, argForm_numeral hnumerals ht']

/-- Transcribed spans have the same form, or the same error. -/
theorem spanForm_alike (hnumerals : PlainNumerals) {cs cs' : List Char}
    (h : Transcribed false cs cs') : spanForm (.ofList cs) = spanForm (.ofList cs') := by
  obtain ⟨t, t', ts, ts', hcs, hcs', -, hfirst, hwords⟩ := h.splitOn hnumerals
  obtain rfl := hfirst rfl
  have hargs : (ts.map String.ofList).mapM argForm = (ts'.map String.ofList).mapM argForm := by
    clear hcs hcs'
    induction hwords with
    | nil => rfl
    | cons hword _ ih =>
      rw [List.map_cons, List.map_cons, List.mapM_cons, List.mapM_cons, ih, hword.argForm hnumerals]
  rw [spanForm, spanForm, stringSplit_blank, stringSplit_blank, hcs, hcs', List.map_cons,
    List.map_cons]
  simp only [bind, Except.bind, hargs]

/-! ## Texts -/

/-- The characters of a text outside its spans. The flag says whether a span is open. -/
def outside : Bool → List Char → List Char
  | _, [] => []
  | true, c :: cs => outside (decide (c ≠ ')')) cs
  | false, c :: cs => c :: outside (decide (c = '(')) cs

/-- Whether a span is open after a text. -/
def spanOpen : Bool → List Char → Bool
  | inside, [] => inside
  | true, c :: cs => spanOpen (decide (c ≠ ')')) cs
  | false, c :: cs => spanOpen (decide (c = '(')) cs

section

omit [Evaluator]

theorem outside_append (inside : Bool) (cs rest : List Char) :
    outside inside (cs ++ rest) = outside inside cs ++ outside (spanOpen inside cs) rest := by
  induction cs generalizing inside with
  | nil => simp [outside, spanOpen]
  | cons c cs ih => cases inside <;> simp [outside, spanOpen, ih]

/-- A literal is outside. -/
theorem outside_literal {cs : List Char} (h : '(' ∉ cs) :
    outside false cs = cs ∧ spanOpen false cs = false := by
  induction cs with
  | nil => exact ⟨rfl, rfl⟩
  | cons c cs ih =>
    obtain ⟨hc, hcs⟩ := not_or.1 (mt List.mem_cons.2 h)
    obtain ⟨hout, hopen⟩ := ih hcs
    have hne : decide (c = '(') = false := decide_eq_false (Ne.symm hc)
    exact ⟨by rw [outside, hne, hout], by rw [spanOpen, hne, hopen]⟩

/-- What does not close a span is in it. -/
theorem outside_inside {cs : List Char} (h : ')' ∉ cs) :
    outside true cs = [] ∧ spanOpen true cs = true := by
  induction cs with
  | nil => exact ⟨rfl, rfl⟩
  | cons c cs ih =>
    obtain ⟨hc, hcs⟩ := not_or.1 (mt List.mem_cons.2 h)
    obtain ⟨hout, hopen⟩ := ih hcs
    have hne : decide (c ≠ ')') = true := decide_eq_true (Ne.symm hc)
    exact ⟨by rw [outside, hne, hout], by rw [spanOpen, hne, hopen]⟩

/-- Outside a span there is what is before it and what is after it. -/
theorem outside_span (l : Literal) (s : Inside) (rest : List Char) :
    outside false (l.chars ++ '(' :: (s.chars ++ ')' :: rest)) =
      l.chars ++ '(' :: outside false rest := by
  obtain ⟨hlit, hopen⟩ := outside_literal l.opening
  obtain ⟨hs, hopen'⟩ := outside_inside s.closing
  rw [outside_append, hlit, hopen, outside, decide_eq_true rfl, outside_append, hs, hopen', outside]
  rfl

/-- A literal is the part that it is. -/
theorem literal_part_inj {a b : List Char} :
    (if a = [] then [] else [SchemeVal.str (.ofList a)]) =
      (if b = [] then [] else [SchemeVal.str (.ofList b)]) ↔ a = b := by
  by_cases ha : a = [] <;> by_cases hb : b = [] <;> simp [ha, hb]
  exact ⟨fun h => String.ofList_injective h, congrArg _⟩

end

/-- Two texts are refused with the same error, or both have parts, which are the same if the
    texts are the same outside their spans. -/
theorem parts_alike (hnumerals : PlainNumerals) (l : Layout) {b : Bool} {l' : Layout}
    (h : Transcribed b l.chars l'.chars) : (∃ e, l.parts = .error e ∧ l'.parts = .error e) ∨
      ∃ parts parts', l.parts = .ok parts ∧ l'.parts = .ok parts' ∧
        (parts = parts' ↔ outside false l.chars = outside false l'.chars) := by
  induction l generalizing b l' with
  | last l =>
    let lit : Literal := ⟨l'.chars, h.not_mem hnumerals (.inl rfl) l.opening⟩
    have hl' : l' = .last lit := Layout.chars_injective rfl
    have hparts (l : Literal) : (Layout.last l).parts =
        .ok (if l.chars = [] then [] else [.str (.ofList l.chars)]) := by
      rw [Layout.parts, Layout.pieces, Layout.mapM_pieces_literal]
      rfl
    rw [hl']
    refine .inr ⟨_, _, hparts l, hparts lit, literal_part_inj.trans ?_⟩
    rw [Layout.chars, Layout.chars, (outside_literal l.opening).1, (outside_literal lit.opening).1]
  | unbalanced l tail =>
    obtain ⟨x, y, hchars, hx, hy⟩ := h.split hnumerals (.inl rfl)
    let lit : Literal := ⟨x, hx.not_mem hnumerals (.inl rfl) l.opening⟩
    let tail' : Inside := ⟨y, hy.not_mem hnumerals (.inr rfl) tail.closing⟩
    have hl' : l' = .unbalanced lit tail' := Layout.chars_injective hchars
    have hparts (l : Literal) (tail : Inside) :
        (Layout.unbalanced l tail).parts = .error "unbalanced ( in trigger text" := by
      rw [Layout.parts, Layout.pieces, Layout.mapM_pieces_literal]
      rfl
    rw [hl']
    exact .inl ⟨_, hparts l tail, hparts lit tail'⟩
  | span l s rest ih =>
    obtain ⟨x, y, hchars, hx, hy⟩ := h.split hnumerals (.inl rfl)
    obtain ⟨z, r, rfl, hz, hr⟩ := hy.split hnumerals (.inr rfl)
    obtain ⟨rest', rfl⟩ := Layout.exists_chars r
    let lit : Literal := ⟨x, hx.not_mem hnumerals (.inl rfl) l.opening⟩
    let s' : Inside := ⟨z, hz.not_mem hnumerals (.inr rfl) s.closing⟩
    have hl' : l' = .span lit s' rest' := Layout.chars_injective hchars
    rw [hl', Layout.parts_span, Layout.parts_span, spanForm_alike hnumerals hz]
    rcases spanForm (.ofList s'.chars) with e | form
    · exact .inl ⟨e, rfl, rfl⟩
    rcases ih hr with ⟨e, hrest, hrest'⟩ | ⟨parts, parts', hrest, hrest', hiff⟩ <;>
      rw [hrest, hrest']
    · exact .inl ⟨e, rfl, rfl⟩
    refine .inr ⟨_, _, rfl, rfl, ?_⟩
    have hlength : (if l.chars = [] then [] else [SchemeVal.str (.ofList l.chars)]).length =
        (if lit.chars = [] then [] else [SchemeVal.str (.ofList lit.chars)]).length := by
      simp only [hx.eq_nil hnumerals, lit]
      split <;> rfl
    rw [Layout.chars, Layout.chars, outside_span, outside_span]
    constructor
    · intro heq
      obtain ⟨hlit, hrest⟩ := List.append_inj heq hlength
      rw [literal_part_inj.1 hlit, hiff.1 (List.cons.inj hrest).2]
    · intro heq
      obtain ⟨hlit, hrest⟩ := Literal.eq_of_append heq
      rw [congrArg Literal.chars hlit, hiff.2 hrest]

/-! ## Words -/

/-- The words outside the spans of a text have the same characters. The flag says whether a
    span is open before the words. -/
def OutsideAlike : Bool → List String → List String → Prop
  | inside, t :: ts, t' :: ts' =>
    (inside = false → t = t') ∧ OutsideAlike (spanOpen inside t.toList) ts ts'
  | _, _, _ => True

section

omit [Evaluator]

theorem toList_intercalate_cons (t u : String) (ts : List String) :
    (" ".intercalate (t :: u :: ts)).toList =
      t.toList ++ ' ' :: (" ".intercalate (u :: ts)).toList := by
  rw [String.intercalate_cons_cons, String.toList_append, String.toList_append, List.append_assoc]
  rfl

end

/-- Words that are joined are alike. -/
theorem alike_of_words {ts ts' : List String} (h : List.Forall₂ SameWord ts ts') :
    Transcribed true (" ".intercalate ts).toList (" ".intercalate ts').toList := by
  -- the same characters may stand before what is alike
  have happend {cs cs' : List Char} (h : Transcribed true cs cs') (a : List Char) (b : Bool) :
      Transcribed b (a ++ ' ' :: cs) (a ++ ' ' :: cs') := by
    induction a generalizing b with
    | nil => exact .cons b ' ' h
    | cons c a ih => exact .cons b c (ih _)
  have hrefl (a : List Char) (b : Bool) : Transcribed b a a := by
    induction a generalizing b with
    | nil => exact .nil b
    | cons c a ih => exact .cons b c (ih _)
  induction h with
  | nil => exact .nil true
  | @cons t t' ts ts' hword hwords ih =>
    cases hwords with
    | nil =>
      rcases hword with rfl | ⟨v, ht, ht'⟩
      · exact hrefl _ _
      · have h := Transcribed.numeral ht ht' (by simp) (.nil false)
        simpa using h
    | @cons u u' us us' hword' hwords =>
      rw [toList_intercalate_cons, toList_intercalate_cons]
      rcases hword with rfl | ⟨v, ht, ht'⟩
      · exact happend ih _ _
      · exact .numeral ht ht' (by rintro c ⟨⟩; rfl) (.cons false ' ' ih)

/-- Numerals have no parentheses: what is outside does not depend on how they are spelled
    in a span. -/
theorem outside_words (hnumerals : PlainNumerals) {ts ts' : List String}
    (h : List.Forall₂ SameWord ts ts') (inside : Bool) :
    outside inside (" ".intercalate ts).toList = outside inside (" ".intercalate ts').toList ↔
      OutsideAlike inside ts ts' := by
  -- a numeral is all outside, or all inside
  have hnumeral {t : String} {v : SchemeVal} (ht : Evaluator.readNumber t = some v)
      (inside : Bool) : spanOpen inside t.toList = inside ∧
        outside inside t.toList = if inside then [] else t.toList := by
    have hno (c : Char) (hc : c = '(' ∨ c = ')') : c ∉ t.toList := fun hmem => by
      have hplain := ((hnumerals _ _ ht).2 c hmem).2
      rcases hc with rfl | rfl <;> exact hplain (by decide)
    cases inside with
    | true => exact (outside_inside (hno ')' (.inr rfl))).symm
    | false => exact (outside_literal (hno '(' (.inl rfl))).symm
  have hblank {t : String} {v : SchemeVal} (ht : Evaluator.readNumber t = some v) :
      ' ' ∉ t.toList := fun hmem => ((hnumerals _ _ ht).2 ' ' hmem).2 (by decide)
  induction h generalizing inside with
  | nil => exact iff_of_true rfl trivial
  | @cons t t' ts ts' hword hwords ih =>
    rw [OutsideAlike]
    cases hwords with
    | nil =>
      simp only [String.intercalate_singleton, OutsideAlike, and_true]
      rcases hword with rfl | ⟨v, ht, ht'⟩
      · exact iff_of_true rfl fun _ => rfl
      · rw [(hnumeral ht inside).2, (hnumeral ht' inside).2]
        cases inside <;> simp [String.toList_inj]
    | @cons u u' us us' hword' hwords =>
      rw [toList_intercalate_cons, toList_intercalate_cons, outside_append, outside_append]
      -- a blank is outside or not, and opens and closes nothing
      have hstep (inside : Bool) (cs : List Char) : outside inside (' ' :: cs) =
          if inside then outside inside cs else ' ' :: outside inside cs := by
        cases inside <;> rfl
      rcases hword with rfl | ⟨v, ht, ht'⟩
      · rw [List.append_cancel_left_eq, hstep, hstep, and_iff_right fun _ => rfl]
        refine Iff.trans ?_ (ih _)
        cases spanOpen inside t.toList <;> simp
      · obtain ⟨hopen, hout⟩ := hnumeral ht inside
        obtain ⟨hopen', hout'⟩ := hnumeral ht' inside
        rw [hopen, hopen', hout, hout', hstep, hstep]
        refine Iff.trans ?_ (and_congr_right' (ih inside))
        cases inside with
        | true => simp
        | false =>
          simp only [Bool.false_eq_true, if_false, forall_const]
          constructor
          · intro heq
            have htext := eq_of_append_cons (hblank ht) (hblank ht') heq
            rw [htext] at heq
            exact ⟨String.toList_inj.1 htext, (List.cons.inj (List.append_cancel_left heq)).2⟩
          · rintro ⟨rfl, heq⟩
            rw [heq]

/-- Words with other numerals in their places are refused with the same error as they are,
    or they have parts, which are the same if and only if no word outside a span is
    spelled in another way. -/
theorem proseToParts_alike (hnumerals : PlainNumerals) {ts ts' : List String}
    (h : List.Forall₂ SameWord ts ts') :
    (∃ e, proseToParts (" ".intercalate ts) = .error e ∧
      proseToParts (" ".intercalate ts') = .error e) ∨
    ∃ parts parts', proseToParts (" ".intercalate ts) = .ok parts ∧
      proseToParts (" ".intercalate ts') = .ok parts' ∧
        (parts = parts' ↔ OutsideAlike false ts ts') := by
  obtain ⟨l, hl⟩ := Layout.exists_chars (" ".intercalate ts).toList
  obtain ⟨l', hl'⟩ := Layout.exists_chars (" ".intercalate ts').toList
  rw [proseToParts_eq hl, proseToParts_eq hl', ← outside_words hnumerals h, ← hl, ← hl']
  exact parts_alike hnumerals l (by rw [hl, hl']; exact alike_of_words h)

end Avatar

end Zscheme
