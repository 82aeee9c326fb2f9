import Zscheme.Avatar.Run
import Zscheme.Scheme.Words

/-!
# Spans in the text of a trigger

The text of a rule is prose with spans in it. A span has a head and arguments, and an
argument is a quoted text, an atom, a number or a span. The scan takes the first closing
parenthesis for the end of a span, and every blank in it for the end of a word. So it
reads a text if and only if its spans are flat (`proseToParts_iff`).
-/

namespace Zscheme

namespace Avatar

open Prim Stdlib Zscheme.Runtime

/-! ## The grammar -/

/-- A name: characters that are no blank, parenthesis or quotation mark. -/
structure Name where
  /-- Its characters. -/
  chars : List Char
  /-- There is one. -/
  nonempty : chars ≠ []
  /-- They are plain. -/
  plain : ∀ c ∈ chars, c ∉ [' ', '(', ')', '"']

theorem Name.no_blank (name : Name) : ' ' ∉ name.chars := fun h => name.plain ' ' h (by decide)

theorem Name.no_closing (name : Name) : ')' ∉ name.chars := fun h => name.plain ')' h (by decide)

/-- What stands between two quotation marks. -/
structure Quoted where
  /-- Its characters. -/
  chars : List Char
  /-- They do not end it. -/
  closed : '"' ∉ chars

/-- Prose has no parentheses. -/
structure Prose where
  /-- Its characters. -/
  chars : List Char
  /-- They open no span. -/
  opening : '(' ∉ chars
  /-- Nor do they close one. -/
  closing : ')' ∉ chars

variable [Evaluator]

/-- A text that reads as a number. -/
structure Numeral where
  /-- The text. -/
  text : String
  /-- The number. -/
  value : SchemeVal
  /-- It is what the text reads as. -/
  reads : Evaluator.readNumber text = some value

/-- An argument of a span. -/
inductive Arg
  | text (quoted : Quoted)
  | atom (name : Name)
  | number (numeral : Numeral)
  | span (head : Name) (args : List Arg)

mutual

/-- An argument, as it is written. -/
def Arg.chars : Arg → List Char
  | .text quoted => '"' :: (quoted.chars ++ ['"'])
  | .atom name => ':' :: name.chars
  | .number numeral => numeral.text.toList
  | .span head args => '(' :: (head.chars ++ (argsChars args ++ [')']))

/-- Arguments, each after a blank. -/
def argsChars : List Arg → List Char
  | [] => []
  | arg :: args => ' ' :: (arg.chars ++ argsChars args)

end

mutual

/-- The value of an argument. -/
def Arg.value : Arg → SchemeVal
  | .text quoted => .str (.ofList quoted.chars)
  | .atom name => .str (.ofList (':' :: name.chars))
  | .number numeral => numeral.value
  | .span head args => .list (.str (.ofList (':' :: head.chars)) :: argsValues args)

/-- The values of arguments. -/
def argsValues : List Arg → List SchemeVal
  | [] => []
  | arg :: args => arg.value :: argsValues args

end

/-- A span in a text. -/
structure Span where
  /-- Its first word. -/
  head : Name
  /-- The words after it. -/
  args : List Arg

/-- What stands between the parentheses of a span. -/
def Span.chars (s : Span) : List Char := s.head.chars ++ argsChars s.args

/-- The head, as an atom, and the values of the arguments. -/
def Span.value (s : Span) : SchemeVal :=
  .list (.str (.ofList (':' :: s.head.chars)) :: argsValues s.args)

/-- Prose, and then spans, each with the prose after it. -/
def textChars (p : Prose) : List (Span × Prose) → List Char
  | [] => p.chars
  | (s, p') :: rest => p.chars ++ '(' :: (s.chars ++ ')' :: textChars p' rest)

/-- Prose as a part, if there is any. -/
def Prose.parts (p : Prose) : List SchemeVal :=
  if p.chars = [] then [] else [.str (.ofList p.chars)]

/-- The pieces of prose and the spans, in order. -/
def textParts (p : Prose) : List (Span × Prose) → List SchemeVal
  | [] => p.parts
  | (s, p') :: rest => p.parts ++ s.value :: textParts p' rest

/-- The argument is no span, and no blank or closing parenthesis is quoted. -/
def Arg.Flat : Arg → Prop
  | .text quoted => ' ' ∉ quoted.chars ∧ ')' ∉ quoted.chars
  | .atom _ | .number _ => True
  | .span _ _ => False

/-- All arguments are. -/
def Span.Flat (s : Span) : Prop := ∀ arg ∈ s.args, arg.Flat

/-- What the evaluator says of numerals: their characters have one byte each, and are no
    blank, parenthesis, quotation mark or colon. -/
def PlainNumerals : Prop := ∀ text n, Evaluator.readNumber text = some n →
  text ≠ "" ∧ ∀ c ∈ text.toList, c.utf8Size = 1 ∧ c ∉ [' ', '(', ')', '"', ':']

/-! ## Words -/

omit [Evaluator] in
theorem singleton_inj {c d : Char} : String.singleton c = String.singleton d ↔ c = d :=
  ⟨fun h => by simpa using congrArg String.toList h, fun h => h ▸ rfl⟩

/-- A character of one byte is a prefix if it is the first one. -/
theorem triggerPrefix?_cons {c d : Char} (hc : c.utf8Size = 1) (hd : d.utf8Size = 1)
    (cs : List Char) :
    triggerPrefix? (.ofList (d :: cs)) (.singleton c) = .ok (decide (d = c)) := by
  have hlength : stringLength (String.singleton c) = 1 := (stringLength_singleton c).trans hc
  have hle : 1 ≤ stringLength (.ofList (d :: cs)) := by
    rw [stringLength_ofList, bytes_cons, hd]
    omega
  have hfirst : substring (.ofList (d :: cs)) 0 1 = .ok (.singleton d) := by
    have := substring_append [] [d] cs
    rwa [List.nil_append, bytes_cons, hd] at this
  rw [triggerPrefix?, hlength, if_pos hle, hfirst]
  simp only [bind, Except.bind, pure, Except.pure, singleton_inj]

/-- A word that begins with the opening character is enclosed if it ends with the closing
    one. -/
theorem enclosed?_append {c d : Char} (hc : c.utf8Size = 1) (hd : d.utf8Size = 1)
    (cs : List Char) (e : Char) :
    enclosed? (.ofList (c :: (cs ++ [d]))) (.singleton c) (.singleton e) =
      .ok (decide (d = e)) := by
  have hlength : stringLength (.ofList (c :: (cs ++ [d]))) = bytes (c :: cs) + 1 := by
    rw [stringLength_ofList, ← List.cons_append, bytes_concat, hd]
  have htwo : 2 ≤ bytes (c :: cs) + 1 := by
    rw [bytes_cons, hc]
    omega
  have hlast : substring (.ofList (c :: (cs ++ [d]))) (bytes (c :: cs)) (bytes (c :: cs) + 1) =
      .ok (.singleton d) := by
    have := substring_append (c :: cs) [d] []
    rw [List.append_nil, bytes_append, bytes_cons d, hd] at this
    exact this
  rw [enclosed?, hlength, if_pos htwo, triggerPrefix?_cons hc hc, Nat.add_sub_cancel, hlast]
  simp only [bind, Except.bind, pure, Except.pure, decide_true, if_true, singleton_inj]

/-- A word with another first character is not enclosed. -/
theorem enclosed?_of_ne {b c d : Char} (hc : c.utf8Size = 1) (hb : b.utf8Size = 1) (hne : b ≠ c)
    (cs : List Char) : enclosed? (.ofList (b :: cs)) (.singleton c) (.singleton d) = .ok false := by
  rw [enclosed?, triggerPrefix?_cons hc hb, decide_eq_false hne]
  split <;> rfl

/-- Nor is a word that nothing closes. -/
theorem enclosed?_of_not_mem {c d : Char} (hc : c.utf8Size = 1) {cs : List Char} (h : d ∉ cs) :
    enclosed? (.ofList (c :: cs)) (.singleton c) (.singleton d) ≠ .ok true := by
  intro heq
  rw [enclosed?, triggerPrefix?_cons hc hc, decide_eq_true rfl] at heq
  split at heq
  case isFalse => cases heq
  case isTrue htwo =>
  have hlength : stringLength (.ofList (c :: cs)) = bytes (c :: cs) := rfl
  rw [hlength] at htwo heq
  rcases hlast : substring (.ofList (c :: cs)) (bytes (c :: cs) - 1) (bytes (c :: cs)) with e | last
  · rw [hlast] at heq
    cases heq
  rw [hlast] at heq
  have hd : last = .singleton d := of_decide_eq_true (Except.ok.inj heq)
  -- what is before the closing character is not empty
  have hslice := (substring_eq_ok.1 hlast).resolve_right fun h => by simp [hd] at h
  obtain ⟨a, b, rest, hcs, ha, -, hb⟩ := slice_eq_some hslice
  rw [String.toList_ofList] at hcs
  obtain rfl : b = [d] := by
    rw [← String.toList_ofList (l := b), ← hb, hd, String.toList_singleton]
  rcases a with _ | ⟨x, a⟩
  · rw [bytes_nil] at ha
    omega
  · rw [List.cons_append, List.cons_append] at hcs
    exact h ((List.cons.inj hcs).2 ▸ by simp)

theorem not_quoted {c : Char} (hc : c.utf8Size = 1) (hne : c ≠ '"') (cs : List Char) :
    enclosed? (.ofList (c :: cs)) "\"" "\"" = .ok false :=
  enclosed?_of_ne (c := '"') (d := '"') rfl hc hne cs

theorem not_nested {c : Char} (hc : c.utf8Size = 1) (hne : c ≠ '(') (cs : List Char) :
    enclosed? (.ofList (c :: cs)) "(" ")" = .ok false :=
  enclosed?_of_ne (c := '(') (d := ')') rfl hc hne cs

theorem begins_with_colon {c : Char} (hc : c.utf8Size = 1) (cs : List Char) :
    triggerPrefix? (.ofList (c :: cs)) ":" = .ok (decide (c = ':')) :=
  triggerPrefix?_cons (c := ':') rfl hc cs

/-- What is inside a word without its first and its last character. -/
theorem substring_inner {c d : Char} (hc : c.utf8Size = 1) (hd : d.utf8Size = 1) (cs : List Char) :
    substring (.ofList (c :: (cs ++ [d]))) 1 (stringLength (.ofList (c :: (cs ++ [d]))) - 1) =
      .ok (.ofList cs) := by
  have := substring_append [c] cs [d]
  rw [stringLength_ofList, ← List.cons_append, bytes_append (c :: cs), bytes_cons d, hd]
  rw [bytes_cons, hc] at this
  exact this

/-- The argument of a quoted text is the text. -/
theorem spanArgToValue_text (fuel : Nat) (cs : List Char) :
    spanArgToValue (fuel + 1) (.ofList ('"' :: (cs ++ ['"']))) = .ok (.str (.ofList cs)) := by
  have hquote : ('"').utf8Size = 1 := rfl
  have hinner := substring_inner hquote hquote cs
  rw [spanArgToValue]
  simp only [bind, Except.bind]
  rw [show "\"" = String.singleton '"' from rfl, enclosed?_append hquote hquote, hinner]
  rfl

/-- What is not enclosed is an atom or a number. -/
theorem spanArgToValue_plain (fuel : Nat) {c : Char} (hc : c.utf8Size = 1) (hquote : c ≠ '"')
    (hopen : c ≠ '(') (cs : List Char) :
    spanArgToValue (fuel + 1) (.ofList (c :: cs)) =
      if c = ':' then .ok (.str (.ofList (c :: cs)))
      else match Evaluator.readNumber (.ofList (c :: cs)) with
        | some n => .ok n
        | none => .error ("invalid trigger expression token: " ++ .ofList (c :: cs)) := by
  have hnumber : stringToNumber (.str (.ofList (c :: cs))) =
      .ok (Evaluator.readNumber (.ofList (c :: cs))) := rfl
  rw [spanArgToValue]
  simp only [bind, Except.bind, not_quoted hc hquote, not_nested hc hopen, begins_with_colon hc,
    hnumber, Bool.false_eq_true, if_false, decide_eq_true_eq]
  rfl

/-- A flat argument stands for its value. -/
theorem spanArgToValue_flat (hnumerals : PlainNumerals) (fuel : Nat) {arg : Arg} (h : arg.Flat) :
    spanArgToValue (fuel + 1) (.ofList arg.chars) = .ok arg.value := by
  cases arg with
  | text quoted =>
    rw [Arg.chars, Arg.value]
    exact spanArgToValue_text fuel quoted.chars
  | atom name =>
    rw [Arg.chars, spanArgToValue_plain fuel rfl (by decide) (by decide), if_pos rfl, Arg.value]
  | number numeral =>
    obtain ⟨hne, hplain⟩ := hnumerals _ _ numeral.reads
    obtain ⟨c, cs, hcs⟩ := List.exists_cons_of_ne_nil (mt String.toList_eq_nil_iff.1 hne)
    have htext : numeral.text = .ofList (c :: cs) := by rw [← hcs, String.ofList_toList]
    obtain ⟨hc, hspecial⟩ := hplain c (hcs ▸ List.mem_cons_self)
    simp only [List.mem_cons, List.not_mem_nil, or_false, not_or] at hspecial
    rw [Arg.chars, hcs, spanArgToValue_plain fuel hc hspecial.2.2.2.1 hspecial.2.1,
      if_neg hspecial.2.2.2.2, ← htext, numeral.reads]
    rfl
  | span _ _ => exact h.elim

/-- The character that closes what the other one opens. -/
def Closes (d c : Char) : Prop := c = '"' ∧ d = '"' ∨ c = '(' ∧ d = ')'

/-- A word that does not close what it opens is enclosed by nothing. -/
theorem Closes.not_enclosed {c d : Char} (hd : Closes d c) {cs : List Char} (h : d ∉ cs) :
    enclosed? (.ofList (c :: cs)) "\"" "\"" ≠ .ok true ∧
      enclosed? (.ofList (c :: cs)) "(" ")" ≠ .ok true := by
  rcases hd with ⟨rfl, rfl⟩ | ⟨rfl, rfl⟩
  · refine ⟨enclosed?_of_not_mem (c := '"') (d := '"') rfl h, ?_⟩
    rw [not_nested rfl (by decide)]
    exact nofun
  · refine ⟨?_, enclosed?_of_not_mem (c := '(') (d := ')') rfl h⟩
    rw [not_quoted rfl (by decide)]
    exact nofun

/-- A word that does not close what it opens is no argument. -/
theorem spanArgToValue_unclosed (hnumerals : PlainNumerals) (fuel : Nat) {c d : Char}
    (hd : Closes d c) {cs : List Char} (h : d ∉ cs) :
    ∃ e, spanArgToValue fuel (.ofList (c :: cs)) = .error e := by
  rcases fuel with _ | fuel
  · exact ⟨_, rfl⟩
  have hspecial : c = '"' ∨ c = '(' := hd.imp And.left And.left
  have hc : c.utf8Size = 1 := by rcases hspecial with rfl | rfl <;> rfl
  have hno : Evaluator.readNumber (.ofList (c :: cs)) = none := by
    rw [Option.eq_none_iff_forall_ne_some]
    intro n hn
    have hplain := (hnumerals _ _ hn).2
    rw [String.toList_ofList] at hplain
    rcases hspecial with rfl | rfl <;>
      exact (hplain _ List.mem_cons_self).2 (by decide)
  obtain ⟨hquoted, hspan⟩ := hd.not_enclosed h
  have hatom : triggerPrefix? (.ofList (c :: cs)) ":" = .ok false := by
    rw [begins_with_colon hc]
    rcases hspecial with rfl | rfl <;> rfl
  have hnumber : stringToNumber (.str (.ofList (c :: cs))) = .ok none := by
    rw [← hno]
    rfl
  rw [spanArgToValue]
  simp only [bind, Except.bind, hatom, hnumber]
  rcases hquote : enclosed? (.ofList (c :: cs)) "\"" "\"" with e | (_ | _)
  · exact ⟨e, rfl⟩
  · rcases hopen : enclosed? (.ofList (c :: cs)) "(" ")" with e | (_ | _)
    · exact ⟨e, rfl⟩
    · exact ⟨_, rfl⟩
    · exact absurd hopen hspan
  · exact absurd hquote hquoted

theorem spanArgsToValues_error {w : String} (h : ∀ fuel, ∃ e, spanArgToValue fuel w = .error e)
    {ws : List String} (hw : w ∈ ws) (fuel : Nat) : ∃ e, spanArgsToValues fuel ws = .error e := by
  induction ws generalizing fuel with
  | nil => cases hw
  | cons w' ws ih =>
    rcases fuel with _ | fuel
    · exact ⟨_, rfl⟩
    rw [spanArgsToValues]
    rcases hv : spanArgToValue fuel w' with e | v
    · exact ⟨e, rfl⟩
    rcases List.mem_cons.1 hw with rfl | hw
    · obtain ⟨e, he⟩ := h fuel
      exact nomatch he.symm.trans hv
    · obtain ⟨e, he⟩ := ih hw fuel
      exact ⟨e, by rw [he]; rfl⟩

/-! ## Flat spans -/

theorem Arg.Flat.plain (hnumerals : PlainNumerals) {arg : Arg} (h : arg.Flat) :
    ' ' ∉ arg.chars ∧ ')' ∉ arg.chars := by
  cases arg with
  | text quoted =>
    have hblank := h.1
    have hclose := h.2
    simp [Arg.chars, hblank, hclose]
  | atom name =>
    simp [Arg.chars, name.no_blank, name.no_closing]
  | number numeral =>
    have hplain := (hnumerals _ _ numeral.reads).2
    exact ⟨fun hmem => (hplain _ hmem).2 (by decide), fun hmem => (hplain _ hmem).2 (by decide)⟩
  | span _ _ => exact h.elim

section Flat

variable {args : List Arg} (hnumerals : PlainNumerals) (hflat : ∀ arg ∈ args, arg.Flat)

include hnumerals hflat

/-- Nothing in flat arguments closes a span. -/
theorem not_mem_argsChars : ')' ∉ argsChars args := by
  induction args with
  | nil => exact List.not_mem_nil
  | cons arg args ih =>
    obtain ⟨harg, hargs⟩ := List.forall_mem_cons.1 hflat
    simp [argsChars, (harg.plain hnumerals).2, ih hargs]

/-- Flat arguments are split at the blanks before them. -/
theorem splitOn_args {first : List Char} (hfirst : ' ' ∉ first) :
    (first ++ argsChars args).splitOn ' ' = first :: args.map Arg.chars := by
  induction args generalizing first with
  | nil => simpa [argsChars] using List.splitOn_eq_singleton hfirst
  | cons arg args ih =>
    obtain ⟨harg, hargs⟩ := List.forall_mem_cons.1 hflat
    rw [argsChars, List.splitOn_append_cons_self_of_not_mem hfirst,
      ih hargs (harg.plain hnumerals).1, List.map_cons]

theorem spanArgsToValues_flat {fuel : Nat} (hfuel : args.length < fuel) :
    spanArgsToValues fuel ((args.map Arg.chars).map .ofList) = .ok (argsValues args) := by
  induction args generalizing fuel with
  | nil => cases fuel <;> rfl
  | cons arg args ih =>
    obtain ⟨harg, hargs⟩ := List.forall_mem_cons.1 hflat
    obtain ⟨fuel, rfl⟩ : ∃ n, fuel = n + 2 := ⟨fuel - 2, by rw [List.length_cons] at hfuel; omega⟩
    rw [List.map_cons, List.map_cons, spanArgsToValues, spanArgToValue_flat hnumerals fuel harg,
      ih hargs (by rw [List.length_cons] at hfuel; omega)]
    rfl

end Flat

/-- A span is split at its blanks. -/
theorem stringSplit_blank (cs : List Char) :
    stringSplit (.ofList cs) " " = .ok ((cs.splitOn ' ').map .ofList) := by
  have := stringSplit_eq (.ofList cs) ' '
  rwa [String.toList_ofList] at this

theorem Span.Flat.no_closing (hnumerals : PlainNumerals) {s : Span} (h : s.Flat) :
    ')' ∉ s.chars := by
  simp [Span.chars, s.head.no_closing, not_mem_argsChars hnumerals h]

/-- A flat span stands for its value. -/
theorem spanToForm_flat (hnumerals : PlainNumerals) {s : Span} (hflat : s.Flat)
    {fuel : Nat} (hfuel : s.args.length + 1 < fuel) :
    spanToForm fuel (.ofList s.chars) = .ok s.value := by
  obtain ⟨fuel, rfl⟩ : ∃ n, fuel = n + 1 := ⟨fuel - 1, by omega⟩
  have hne : String.ofList s.head.chars ≠ "" :=
    mt String.ofList_eq_empty_iff.1 s.head.nonempty
  rw [spanToForm, stringSplit_blank, Span.chars, splitOn_args hnumerals hflat s.head.no_blank]
  simp only [List.map_cons, bind, Except.bind]
  rw [if_neg hne, spanArgsToValues_flat hnumerals hflat (by omega), Span.value, String.ofList_cons]
  rfl

/-! ## Spans that are not flat -/

/-- The characters begin with a word that does not close what it opens. -/
inductive Unclosed : List Char → Prop
  | mk {c d : Char} {word rest : List Char} : Closes d c → ' ' ∉ word → d ∉ word →
    (rest = [] ∨ ∃ more, rest = ' ' :: more) → Unclosed (c :: (word ++ rest))

omit [Evaluator] in
/-- The first word, up to a blank. -/
theorem exists_word (cs : List Char) :
    ∃ word rest, cs = word ++ rest ∧ ' ' ∉ word ∧ (rest = [] ∨ ∃ more, rest = ' ' :: more) := by
  by_cases h : ' ' ∈ cs
  · obtain ⟨word, more, hcs, hword⟩ := List.eq_append_cons_of_mem h
    exact ⟨word, _, hcs, hword, .inr ⟨more, rfl⟩⟩
  · exact ⟨cs, [], (List.append_nil _).symm, h, .inl rfl⟩

theorem spanToForm_unclosed (hnumerals : PlainNumerals) {cs : List Char} (h : Unclosed cs)
    (a : List Char) (fuel : Nat) :
    ∃ e, spanToForm fuel (.ofList (a ++ ' ' :: cs)) = .error e := by
  rcases fuel with _ | fuel
  · exact ⟨_, rfl⟩
  obtain ⟨hd, hblank, hopen, hrest⟩ := h
  rename_i c d word rest
  obtain ⟨more, hmore⟩ : ∃ more, (c :: (word ++ rest)).splitOn ' ' = (c :: word) :: more := by
    have hword : ' ' ∉ c :: word := by
      rintro (_ | ⟨_, hmem⟩)
      · rcases hd with ⟨h, _⟩ | ⟨h, _⟩ <;> exact absurd h (by decide)
      · exact hblank hmem
    rcases hrest with rfl | ⟨more, rfl⟩
    · exact ⟨[], by rw [List.append_nil, List.splitOn_eq_singleton hword]⟩
    · exact ⟨_, List.splitOn_append_cons_self_of_not_mem hword more⟩
  obtain ⟨head, args, hhead⟩ := List.exists_cons_of_ne_nil (List.splitOn_ne_nil ' ' a)
  have hword : String.ofList (c :: word) ∈ (args ++ (c :: word) :: more).map String.ofList :=
    List.mem_map_of_mem (List.mem_append_right _ List.mem_cons_self)
  obtain ⟨e, he⟩ := spanArgsToValues_error
    (fun fuel => spanArgToValue_unclosed hnumerals fuel hd hopen) hword fuel
  rw [spanToForm, stringSplit_blank, List.splitOn_append_cons_self, hhead, hmore]
  simp only [List.cons_append, List.map_cons, bind, Except.bind]
  split
  · exact ⟨_, rfl⟩
  · exact ⟨e, by rw [he]⟩

omit [Evaluator] in
/-- What a character ends that is not before it ends there. -/
theorem eq_of_append_cons {a b a' b' : List Char} {d : Char} (ha : d ∉ a) (ha' : d ∉ a')
    (h : a ++ d :: b = a' ++ d :: b') : a = a' := by
  have hsplit := congrArg (List.splitOn d) h
  rw [List.splitOn_append_cons_self_of_not_mem ha,
    List.splitOn_append_cons_self_of_not_mem ha'] at hsplit
  exact (List.cons.inj hsplit).1

/-- Up to the next closing parenthesis, an argument that is not flat closes nothing. -/
theorem Arg.unclosed {arg : Arg} (h : ¬ arg.Flat) {after : List Char} (hafter : ')' ∈ after) :
    ∃ cs more, arg.chars ++ after = cs ++ ')' :: more ∧ ')' ∉ cs ∧ Unclosed cs := by
  cases arg with
  | text quoted =>
    obtain ⟨cs, more, hcs, hclose⟩ := List.eq_append_cons_of_mem
      (List.mem_append_right quoted.chars (List.mem_cons_of_mem '"' hafter))
    obtain ⟨word, rest, rfl, hblank, hrest⟩ := exists_word cs
    refine ⟨'"' :: (word ++ rest), more, ?_, ?_, .mk (.inl ⟨rfl, rfl⟩) hblank ?_ hrest⟩
    · simp [Arg.chars, ← hcs]
    · simpa using hclose
    -- a quotation mark in the word would end the text, which has a blank or a parenthesis
    · intro hquote
      obtain ⟨before, more', hword, hbefore⟩ := List.eq_append_cons_of_mem hquote
      have heq : before ++ '"' :: (more' ++ rest ++ ')' :: more) =
          quoted.chars ++ '"' :: after := by
        rw [hcs, hword]
        simp
      obtain rfl := eq_of_append_cons hbefore quoted.closed heq
      have hsub : ∀ c ∈ quoted.chars, c ∈ word := by
        rw [hword]
        exact fun c => List.mem_append_left _
      exact h ⟨fun hmem => hblank (hsub _ hmem),
        fun hmem => hclose (List.mem_append_left _ (hsub _ hmem))⟩
  | atom _ => exact absurd trivial h
  | number _ => exact absurd trivial h
  | span head args =>
    obtain ⟨cs, more, hcs, hclose⟩ := List.eq_append_cons_of_mem
      (List.mem_append_right (head.chars ++ (argsChars args ++ [')'])) hafter)
    obtain ⟨word, rest, rfl, hblank, hrest⟩ := exists_word cs
    refine ⟨'(' :: (word ++ rest), more, ?_, ?_, .mk (.inr ⟨rfl, rfl⟩) hblank ?_ hrest⟩
    · rw [Arg.chars, List.cons_append, hcs]
      rfl
    · simpa using hclose
    · exact fun hmem => hclose (List.mem_append_left _ hmem)

/-- Up to the next closing parenthesis, arguments that are not all flat have a word that
    closes nothing. -/
theorem exists_unclosed (hnumerals : PlainNumerals) {args : List Arg}
    (h : ¬ ∀ arg ∈ args, arg.Flat) {before after : List Char} (hbefore : ')' ∉ before)
    (hafter : ')' ∈ after) :
    ∃ a cs more, before ++ (argsChars args ++ after) = a ++ ' ' :: (cs ++ ')' :: more) ∧
      ')' ∉ a ∧ ')' ∉ cs ∧ Unclosed cs := by
  induction args generalizing before with
  | nil => exact absurd nofun h
  | cons arg args ih =>
    by_cases harg : arg.Flat
    · have hargs : ¬ ∀ arg ∈ args, arg.Flat := fun hall =>
        h (List.forall_mem_cons.2 ⟨harg, hall⟩)
      have hclose : ')' ∉ before ++ ' ' :: arg.chars := by
        simp [hbefore, (harg.plain hnumerals).2]
      obtain ⟨a, cs, more, heq, hrest⟩ := ih hargs hclose
      refine ⟨a, cs, more, ?_, hrest⟩
      rw [← heq, argsChars]
      simp
    · obtain ⟨cs, more, heq, hclose, hcs⟩ :=
        Arg.unclosed harg (List.mem_append_right (argsChars args) hafter)
      refine ⟨before, cs, more, ?_, hbefore, hclose, hcs⟩
      rw [← heq, argsChars]
      simp

/-! ## The scan -/

/-- Every argument takes a byte, the blank before it. -/
theorem length_le_bytes (args : List Arg) : args.length ≤ bytes (argsChars args) := by
  induction args with
  | nil => exact Nat.le_refl 0
  | cons arg args ih =>
    have hone : (' ').utf8Size = 1 := rfl
    rw [List.length_cons, argsChars, bytes_cons, bytes_append]
    omega

/-- Prose at the end. -/
theorem proseToPartsLoop_prose {p : List Char} (hp : '(' ∉ p) (fuel : Nat)
    (acc : List SchemeVal) :
    proseToPartsLoop (fuel + 1) (.ofList p) acc =
      .ok (acc.reverse ++ if p = [] then [] else [.str (.ofList p)]) := by
  have hindex : stringIndex (.ofList p) "(" = none := stringIndex_eq_none hp
  rw [proseToPartsLoop, hindex]
  by_cases hempty : p = []
  · simp [hempty]
  · have hne : String.ofList p ≠ "" := mt String.ofList_eq_empty_iff.1 hempty
    simp [hempty, hne]

/-- Prose, and then what stands between the next two parentheses. -/
theorem proseToPartsLoop_span {p s : List Char} (hp : '(' ∉ p) (hs : ')' ∉ s) (rest : List Char)
    (fuel : Nat) (acc : List SchemeVal) :
    proseToPartsLoop (fuel + 1) (.ofList (p ++ '(' :: (s ++ ')' :: rest))) acc = (do
      let form ← spanToForm (2 * bytes s + 2) (.ofList s)
      proseToPartsLoop fuel (.ofList rest)
        (form :: if p = [] then acc else .str (.ofList p) :: acc)) := by
  have hopen : stringIndex (.ofList (p ++ '(' :: (s ++ ')' :: rest))) "(" = some (bytes p) :=
    stringIndex_append hp _
  have hclose : stringIndex (.ofList (s ++ ')' :: rest)) ")" = some (bytes s) :=
    stringIndex_append hs _
  have hp' : bytes p + 1 = bytes (p ++ ['(']) := (bytes_concat p '(').symm
  have hs' : bytes s + 1 = bytes (s ++ [')']) := (bytes_concat s ')').symm
  rw [proseToPartsLoop, hopen]
  simp only [stringLength_ofList, hp', hs', substring_after, substring_before, hclose, bind,
    Except.bind]
  simp only [String.ofList_eq_empty_iff]

theorem proseToPartsLoop_flat (hnumerals : PlainNumerals) (p : Prose) (rest : List (Span × Prose))
    (hflat : ∀ s ∈ rest, s.1.Flat) {fuel : Nat}
    (hfuel : bytes (textChars p rest) < fuel) (acc : List SchemeVal) :
    proseToPartsLoop fuel (.ofList (textChars p rest)) acc =
      .ok (acc.reverse ++ textParts p rest) := by
  induction rest generalizing p fuel acc with
  | nil =>
    obtain ⟨fuel, rfl⟩ : ∃ n, fuel = n + 1 := ⟨fuel - 1, by omega⟩
    exact proseToPartsLoop_prose p.opening fuel acc
  | cons sp rest ih =>
    obtain ⟨s, p'⟩ := sp
    obtain ⟨hspan, hrest⟩ := List.forall_mem_cons.1 hflat
    obtain ⟨fuel, rfl⟩ : ∃ n, fuel = n + 1 := ⟨fuel - 1, by omega⟩
    have hargs : s.args.length + 1 < 2 * bytes s.chars + 2 := by
      have hlength := length_le_bytes s.args
      rw [Span.chars, bytes_append]
      omega
    have hless : bytes (textChars p' rest) < fuel := by
      rw [textChars] at hfuel
      simp only [bytes_append, bytes_cons] at hfuel
      have hone : ('(').utf8Size = 1 := rfl
      omega
    rw [textChars, proseToPartsLoop_span p.opening (hspan.no_closing hnumerals),
      spanToForm_flat hnumerals hspan hargs]
    simp only [bind, Except.bind]
    rw [ih p' hrest hless, textParts, Prose.parts]
    split <;> simp

theorem proseToPartsLoop_error (hnumerals : PlainNumerals) (p : Prose) (rest : List (Span × Prose))
    (hflat : ¬ ∀ s ∈ rest, s.1.Flat) (fuel : Nat) (acc : List SchemeVal) :
    ∃ e, proseToPartsLoop fuel (.ofList (textChars p rest)) acc = .error e := by
  induction rest generalizing p fuel acc with
  | nil => exact absurd nofun hflat
  | cons sp rest ih =>
    obtain ⟨s, p'⟩ := sp
    rcases fuel with _ | fuel
    · exact ⟨_, rfl⟩
    rw [textChars]
    by_cases hspan : s.Flat
    · have hrest : ¬ ∀ s ∈ rest, s.1.Flat := fun hall =>
        hflat (List.forall_mem_cons.2 ⟨hspan, hall⟩)
      rw [proseToPartsLoop_span p.opening (hspan.no_closing hnumerals)]
      rcases spanToForm (2 * bytes s.chars + 2) (.ofList s.chars) with e | form
      · exact ⟨e, rfl⟩
      · exact ih p' hrest fuel _
    · obtain ⟨a, cs, more, heq, ha, hcs, hunclosed⟩ := exists_unclosed hnumerals hspan
        s.head.no_closing (List.mem_cons_self (a := ')') (l := textChars p' rest))
      have hclose : ')' ∉ a ++ ' ' :: cs := by simp [ha, hcs]
      obtain ⟨e, he⟩ := spanToForm_unclosed hnumerals hunclosed a (2 * bytes (a ++ ' ' :: cs) + 2)
      have htext : p.chars ++ '(' :: (s.chars ++ ')' :: textChars p' rest) =
          p.chars ++ '(' :: (a ++ ' ' :: cs ++ ')' :: more) := by
        rw [Span.chars, List.append_assoc, heq, List.append_assoc, List.cons_append]
      rw [htext, proseToPartsLoop_span p.opening hclose, he]
      exact ⟨e, rfl⟩

/-- A text is read as it is meant if and only if its spans are flat. -/
theorem proseToParts_iff (hnumerals : PlainNumerals) (p : Prose) (rest : List (Span × Prose)) :
    proseToParts (.ofList (textChars p rest)) = .ok (textParts p rest) ↔
      ∀ s ∈ rest, s.1.Flat := by
  constructor
  · intro h
    by_contra hflat
    obtain ⟨e, he⟩ := proseToPartsLoop_error hnumerals p rest hflat _ []
    exact nomatch he.symm.trans h
  · intro hflat
    exact proseToPartsLoop_flat hnumerals p rest hflat (Nat.lt_succ_self _) []

omit [Evaluator] in
/-- A text with a flat span. -/
theorem proseToParts_iff_visit :
    let _ : Evaluator := { scripted "did:ma:me" fun _ _ _ => .ok .nil with
      readNumber := fun s => if s = "3" then some (.int 3) else none }
    let p : Prose := ⟨"Visit ".toList, by decide, by decide⟩
    let head : Name := ⟨"did-counter".toList, by decide, by simp⟩
    let atom : Name := ⟨"arrive".toList, by decide, by simp⟩
    let s : Span := ⟨head, [.atom atom, .number ⟨"3", .int 3, rfl⟩, .text ⟨[], by decide⟩]⟩
    let rest : List (Span × Prose) := [(s, ⟨"!".toList, by decide, by decide⟩)]
    proseToParts (.ofList (textChars p rest)) = .ok (textParts p rest) := by
  intro _ p head atom s rest
  refine (proseToParts_iff (fun text n hn => ?_) p rest).2 ?_
  · rcases Option.ite_none_right_eq_some.1 hn with ⟨rfl, -⟩
    refine ⟨by decide, fun c hc => ?_⟩
    obtain rfl : c = '3' := by simpa using hc
    exact ⟨rfl, by decide⟩
  · simp [rest, s, Span.Flat, Arg.Flat]

omit [Evaluator] in
/-- Neither a span inside a span is read, nor a blank inside a quoted text. -/
theorem nested_not_read :
    let _ : Evaluator := (scripted "did:ma:me" fun _ _ _ => .ok .nil).toEvaluator
    let p : Prose := ⟨[], by decide, by decide⟩
    let head : Name := ⟨"did-counter".toList, by decide, by simp⟩
    let nested : Span := ⟨head, [.span head []]⟩
    let quoted : Span := ⟨head, [.text ⟨"good day".toList, by decide⟩]⟩
    proseToParts (.ofList (textChars p [(nested, p)])) ≠ .ok (textParts p [(nested, p)]) ∧
      proseToParts (.ofList (textChars p [(quoted, p)])) ≠ .ok (textParts p [(quoted, p)]) := by
  intro _ p head nested quoted
  exact ⟨by decide +kernel, by decide +kernel⟩

end Avatar

end Zscheme
