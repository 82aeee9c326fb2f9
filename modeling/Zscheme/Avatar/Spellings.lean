import Zscheme.Avatar.Respelled
import Zscheme.Avatar.Rules

/-!
# Spellings of a rule

The terminal delivers a word that is a numeral as the number. So a rule can be spelled with
texts and with numbers (`Respelled`), and `join-words` takes either for the other. What a
keyword's threshold is read with does not. So another spelling of a rule is parsed alike if
and only if it spells what is not joined to the text alike, and the words of the text that
are outside its spans (`parseTriggerRule_respelled_iff`).
-/

namespace Zscheme

namespace Avatar

open Prim Stdlib Zscheme.Runtime

variable [Evaluator]

/-- A word and another spelling of it. -/
inductive Respelled : SchemeVal → SchemeVal → Prop
  | same (w : SchemeVal) : Respelled w w
  /-- The number for a numeral. -/
  | read {text : String} {v : SchemeVal} : Evaluator.readNumber text = some v → Respelled text v
  /-- The text for a number. -/
  | written {v : SchemeVal} {text : String} : numberToString v = .ok text → Respelled v text

/-- Words after the id and the counter are spelled in another way. -/
structure RespelledRule (words words' : List SchemeVal) : Prop where
  front : words.take 2 = words'.take 2
  tail : List.Forall₂ Respelled (words.drop 2) (words'.drop 2)

/-- The word after `count`, `every` or `within`. -/
def thresholdWord : List SchemeVal → Option SchemeVal
  | keyword :: n :: _ =>
    if keyword = "count" ∨ keyword = "every" ∨ keyword = "within" then some n else none
  | _ => none

/-- The words outside the spans of the joined text have the same characters: each is
    written as `join-words` writes its other spelling. -/
def WordsAlike (words words' : List SchemeVal) : Prop :=
  ∀ texts texts', words.mapM wordText = .ok texts → words'.mapM wordText = .ok texts' →
    OutsideAlike false texts texts'

/-- The words have a text, and it is read. -/
def HasText (words : List SchemeVal) : Prop :=
  ∃ joined parts, joinWords words = .ok joined ∧ joined ≠ "" ∧ proseToParts joined = .ok parts

/-- What is not joined to the text is spelled alike, the DID and the method if there is a
    text, and so are the words of this text that are outside its spans. -/
structure SpelledAlike (tail tail' : List SchemeVal) : Prop where
  threshold : thresholdWord (takeDid tail).2 = thresholdWord (takeDid tail').2
  text : ∀ m words m' words', methodWords tail = m :: words → methodWords tail' = m' :: words' →
    HasText words → (takeDid tail).1 = (takeDid tail').1 ∧ m = m' ∧ WordsAlike words words'

/-! ## Words -/

/-- What is no numeral is not spelled in another way. -/
theorem Respelled.eq_iff (hlaws : NumeralLaws) {w w' : SchemeVal} (h : Respelled w w')
    {text : String} (hnone : Evaluator.readNumber text = none) : w = text ↔ w' = text := by
  cases h with
  | same => exact Iff.rfl
  | read hread =>
    refine iff_of_false ?_ ?_
    · rintro ⟨⟩
      exact nomatch hnone.symm.trans hread
    · rintro rfl
      exact nomatch hlaws.number _ _ hread
  | written hwritten =>
    refine iff_of_false ?_ ?_
    · rintro rfl
      cases hwritten
    · rintro ⟨⟩
      exact nomatch hnone.symm.trans (hlaws.read _ _ hwritten)

/-- Another spelling of a word is the number for a numeral, or the numeral for a number. -/
theorem Respelled.cases (hlaws : NumeralLaws) {w w' : SchemeVal} (h : Respelled w w') :
    w = w' ∨ ∃ text v, Evaluator.readNumber text = some v ∧ v.number? = true ∧
      (w = .str text ∧ w' = v ∨ w = v ∧ w' = .str text) := by
  cases h with
  | same => exact .inl rfl
  | read hread => exact .inr ⟨_, _, hread, hlaws.number _ _ hread, .inl ⟨rfl, rfl⟩⟩
  | written hwritten =>
    have hread := hlaws.read _ _ hwritten
    exact .inr ⟨_, _, hread, hlaws.number _ _ hread, .inr ⟨rfl, rfl⟩⟩

omit [Evaluator] in
theorem number_cases {v : SchemeVal} (h : v.number? = true) :
    (∃ n, v = .int n) ∨ ∃ bits, v = .float bits := by
  cases v with
  | int n => exact .inl ⟨n, rfl⟩
  | float bits => exact .inr ⟨bits, rfl⟩
  | str | bytes | bool | nil | list | map => cases h

/-- No number is a string. -/
theorem stringToNumber_number {v : SchemeVal} (h : v.number? = true) :
    stringToNumber v = .error (Evaluator.primError "string->number" [v]) := by
  rcases number_cases h with ⟨n, rfl⟩ | ⟨bits, rfl⟩ <;> rfl

/-- What is no word has one error. -/
theorem wordText_cases (v : SchemeVal) :
    (∃ text, wordText v = .ok text) ∨ wordText v = .error "join-words: not a word" := by
  cases v with
  | str text => exact .inl ⟨text, rfl⟩
  | int n => exact .inl ⟨_, rfl⟩
  | float bits => exact .inl ⟨_, rfl⟩
  | bool b => exact .inl ⟨_, rfl⟩
  | bytes | nil | list | map =>
    simp only [wordText]
    split
    · exact .inl ⟨"", rfl⟩
    · exact .inr rfl

theorem Respelled.wordText (hlaws : NumeralLaws) {w w' : SchemeVal} (h : Respelled w w') :
    (∃ text text', Stdlib.wordText w = .ok text ∧ Stdlib.wordText w' = .ok text' ∧
        SameWord text text') ∨
      Stdlib.wordText w = .error "join-words: not a word" ∧
        Stdlib.wordText w' = .error "join-words: not a word" := by
  -- the text of a number is a numeral for it
  have hnumber {v : SchemeVal} (hv : v.number? = true) :
      ∃ text, Stdlib.wordText v = .ok text ∧ Evaluator.readNumber text = some v := by
    rcases number_cases hv with ⟨n, rfl⟩ | ⟨bits, rfl⟩ <;> exact ⟨_, rfl, hlaws.read _ _ rfl⟩
  rcases h.cases hlaws with rfl | ⟨text, v, hread, hv, ⟨rfl, rfl⟩ | ⟨rfl, rfl⟩⟩
  · rcases wordText_cases w with ⟨text, h⟩ | h
    · exact .inl ⟨text, text, h, h, .inl rfl⟩
    · exact .inr ⟨h, h⟩
  · obtain ⟨text', h, hread'⟩ := hnumber hv
    exact .inl ⟨text, text', rfl, h, .inr ⟨w', hread, hread'⟩⟩
  · obtain ⟨text', h, hread'⟩ := hnumber hv
    exact .inl ⟨text', text, h, rfl, .inr ⟨w, hread', hread⟩⟩

/-- Words that are joined are in any spelling, and the error is the same. -/
theorem mapM_wordText_respelled (hlaws : NumeralLaws) {words words' : List SchemeVal}
    (h : List.Forall₂ Respelled words words') :
    (∃ texts texts', words.mapM wordText = .ok texts ∧ words'.mapM wordText = .ok texts' ∧
        List.Forall₂ SameWord texts texts') ∨
      words.mapM wordText = .error "join-words: not a word" ∧
        words'.mapM wordText = .error "join-words: not a word" := by
  induction h with
  | nil => exact .inl ⟨[], [], rfl, rfl, .nil⟩
  | cons hw hwords ih =>
    rw [List.mapM_cons, List.mapM_cons]
    rcases hw.wordText hlaws with ⟨text, text', hw, hw', hsame⟩ | ⟨hw, hw'⟩ <;> rw [hw, hw']
    · rcases ih with ⟨texts, texts', h, h', hall⟩ | ⟨h, h'⟩ <;> rw [h, h']
      · exact .inl ⟨_, _, rfl, rfl, .cons hsame hall⟩
      · exact .inr ⟨rfl, rfl⟩
    · exact .inr ⟨rfl, rfl⟩

/-! ## The text -/

/-- The parts of a text that is not empty. -/
def someParts (parts : Except String (List SchemeVal)) : Except String (List SchemeVal) := do
  let parts ← parts
  if parts.isEmpty then throw triggerUsage else return parts

theorem readText_of_joinWords {words : List SchemeVal} {joined : String}
    (h : joinWords words = .ok joined) : readText words = someParts (proseToParts joined) := by
  rw [readText, h]
  rfl

section

omit [Evaluator]

theorem someParts_ok {parts : List SchemeVal} (h : parts ≠ []) :
    someParts (.ok parts) = .ok parts := by
  have hsome : parts.isEmpty = false := List.isEmpty_eq_false_iff.2 h
  simp only [someParts, bind, Except.bind, hsome, Bool.false_eq_true, if_false]
  rfl

theorem someParts_error (e : String) : someParts (.error e) = .error e := rfl

end

theorem joinWords_cases (words : List SchemeVal) :
    (∃ joined, joinWords words = .ok joined) ∨
      joinWords words = .error "join-words: not a word" := by
  rw [joinWords]
  rcases mapM_cases wordText words with ⟨-, h⟩ | ⟨w, -, e, he, h⟩
  · rw [h]
    exact .inl ⟨_, rfl⟩
  · rcases wordText_cases w with ⟨text, hw⟩ | hw
    · cases he.symm.trans hw
    · obtain rfl := Except.error.inj (he.symm.trans hw)
      rw [h]
      exact .inr rfl

/-- Whatever is wrong with a text, no number was expected. -/
theorem readText_ne (hown : OwnErrors) (words args : List SchemeVal) :
    readText words ≠ .error (Evaluator.primError "string->number" args) := by
  intro h
  have hnumber : "string->number" ∈ rulePrims := by decide
  rcases joinWords_cases words with ⟨joined, hjoin⟩ | hjoin
  · rw [readText_of_joinWords hjoin] at h
    rcases hparts : proseToParts joined with e | parts
    · rw [hparts, someParts_error] at h
      obtain rfl := Except.error.inj h
      rcases proseToParts_error hparts with herr | ⟨args', herr⟩
      · exact hown.rule _ hnumber args (.inr herr)
      · exact hown.other _ hnumber "substring" (by decide) (by decide) args args' herr
    · rw [hparts] at h
      by_cases hempty : parts = []
      · subst hempty
        exact hown.rule _ hnumber args (.inl (Except.error.inj h).symm)
      · rw [someParts_ok hempty] at h
        cases h
  · rw [readText, hjoin] at h
    exact hown.join _ hnumber args (Except.error.inj h).symm

theorem hasText_iff {words : List SchemeVal} :
    HasText words ↔ ∃ parts, readText words = .ok parts := by
  constructor
  · rintro ⟨joined, parts, hjoin, hne, hparts⟩
    exact ⟨parts, readText_of_ne hjoin hne hparts⟩
  · rintro ⟨parts, h⟩
    rcases joinWords_cases words with ⟨joined, hjoin⟩ | hjoin
    · rw [readText_of_joinWords hjoin] at h
      rcases hparts : proseToParts joined with e | parts'
      · rw [hparts] at h
        cases h
      · refine ⟨joined, parts', hjoin, ?_, hparts⟩
        rintro rfl
        cases h
    · rw [readText, hjoin] at h
      cases h

/-- Words in two spellings are refused with the same error, or have texts, which have the
    same parts if and only if the words outside the spans are written alike. -/
theorem readText_respelled (hlaws : NumeralLaws) (hnumerals : PlainNumerals)
    {words words' : List SchemeVal} (h : List.Forall₂ Respelled words words') :
    (∃ e, readText words = .error e ∧ readText words' = .error e) ∨
    ∃ parts parts', readText words = .ok parts ∧ readText words' = .ok parts' ∧
      (parts = parts' ↔ WordsAlike words words') := by
  rcases mapM_wordText_respelled hlaws h with ⟨texts, texts', hmap, hmap', hall⟩ | ⟨hmap, hmap'⟩
  · have hjoin : joinWords words = .ok (" ".intercalate texts) := by
      rw [joinWords, hmap, ← stringJoin_eq]
      rfl
    have hjoin' : joinWords words' = .ok (" ".intercalate texts') := by
      rw [joinWords, hmap', ← stringJoin_eq]
      rfl
    rw [readText_of_joinWords hjoin, readText_of_joinWords hjoin']
    rcases proseToParts_alike hnumerals hall with ⟨e, he, he'⟩ | ⟨parts, parts', hp, hp', hiff⟩
    · exact .inl ⟨e, by rw [he]; rfl, by rw [he']; rfl⟩
    -- either text is empty if the other one is
    have hempty {ts ts' : List String} {parts parts' : List SchemeVal}
        (hall : List.Forall₂ SameWord ts ts') (hp : proseToParts (" ".intercalate ts) = .ok parts)
        (hp' : proseToParts (" ".intercalate ts') = .ok parts') (hparts : parts = []) :
        parts' = [] := by
      rw [hparts] at hp
      have htext := eq_empty_of_proseToParts hp
      have htext' := ((alike_of_words hall).eq_nil hnumerals).1 (by rw [htext]; rfl)
      rw [String.toList_eq_nil_iff.1 htext'] at hp'
      exact (Except.ok.inj hp').symm
    have hall' : List.Forall₂ SameWord texts' texts := by
      refine hall.flip.imp fun _ _ h => h.imp Eq.symm ?_
      rintro ⟨v, ht, ht'⟩
      exact ⟨v, ht', ht⟩
    rw [hp, hp']
    by_cases hparts : parts = []
    · rw [hparts, hempty hall hp hp' hparts]
      exact .inl ⟨_, rfl, rfl⟩
    · rw [someParts_ok hparts, someParts_ok (mt (hempty hall' hp' hp) hparts)]
      refine .inr ⟨_, _, rfl, rfl, hiff.trans ⟨fun h ts ts' hts hts' => ?_, fun h => ?_⟩⟩
      · obtain rfl := Except.ok.inj (hmap.symm.trans hts)
        obtain rfl := Except.ok.inj (hmap'.symm.trans hts')
        exact h
      · exact h _ _ hmap hmap'
  · refine .inl ⟨"join-words: not a word", ?_, ?_⟩
    · rw [readText, joinWords, hmap]
      rfl
    · rw [readText, joinWords, hmap']
      rfl

/-! ## What is before the text -/

/-- The condition where none is written. -/
def everyTime : List SchemeVal := ["every", .int 1]

theorem takeCondition_once (tail : List SchemeVal) :
    takeCondition ("once" :: tail) = .ok (["once"], tail) := by
  cases tail <;> rfl

theorem takeCondition_singleton {keyword : SchemeVal} (h : keyword ≠ "once") :
    takeCondition [keyword] = .ok (everyTime, [keyword]) := by
  rw [takeCondition, avatarCondition, if_neg h]
  rfl

/-- A keyword and a word that reads as a number are a condition. -/
theorem takeCondition_cons {keyword : SchemeVal} (h : keyword ≠ "once") (n : SchemeVal)
    (tail : List SchemeVal) : takeCondition (keyword :: n :: tail) =
      if keyword = "count" ∨ keyword = "every" ∨ keyword = "within" then do
        match ← stringToNumber n with
        | some v => .ok ([keyword, v], tail)
        | none => .ok (everyTime, keyword :: n :: tail)
      else .ok (everyTime, keyword :: n :: tail) := by
  rw [takeCondition, avatarCondition, if_neg h]
  split
  · rcases stringToNumber n with e | (_ | v) <;> rfl
  · rfl

/-- What is said of the reserved words: none of them is a numeral. -/
def NoNumerals : Prop := ∀ text : String, .str text ∈ reserved → Evaluator.readNumber text = none

section Slots

variable (hlaws : NumeralLaws) (hreserved : NoNumerals)

include hlaws hreserved

theorem Respelled.reserved {w w' : SchemeVal} (h : Respelled w w') {text : String}
    (htext : .str text ∈ reserved) : w = text ↔ w' = text := h.eq_iff hlaws (hreserved text htext)

/-- A keyword is the same in any spelling. -/
theorem Respelled.keyword {w w' : SchemeVal} (h : Respelled w w') :
    (w = "count" ∨ w = "every" ∨ w = "within") ↔ w' = "count" ∨ w' = "every" ∨ w' = "within" := by
  rw [h.reserved hlaws hreserved (by decide : .str "count" ∈ Avatar.reserved),
    h.reserved hlaws hreserved (by decide : .str "every" ∈ Avatar.reserved),
    h.reserved hlaws hreserved (by decide : .str "within" ∈ Avatar.reserved)]

theorem Respelled.eq_of_keyword {w w' : SchemeVal} (h : Respelled w w')
    (hw : w = "count" ∨ w = "every" ∨ w = "within") : w = w' := by
  rcases hw with rfl | rfl | rfl
  · exact ((h.reserved hlaws hreserved (by decide)).1 rfl).symm
  · exact ((h.reserved hlaws hreserved (by decide)).1 rfl).symm
  · exact ((h.reserved hlaws hreserved (by decide)).1 rfl).symm

variable {tail tail' : List SchemeVal} (h : List.Forall₂ Respelled tail tail')

include h

theorem takeDid_respelled : List.Forall₂ Respelled (takeDid tail).2 (takeDid tail').2 ∧
    (takeDid tail).1.length = (takeDid tail').1.length := by
  cases h with
  | nil => exact ⟨.nil, rfl⟩
  | @cons keyword keyword' _ _ hkeyword h =>
    cases h with
    | nil => exact ⟨.cons hkeyword .nil, rfl⟩
    | cons hdid h =>
      have hiff := hkeyword.reserved hlaws hreserved (by decide : .str "did" ∈ Avatar.reserved)
      simp only [takeDid, avatarDid]
      by_cases hw : keyword = "did"
      · rw [if_pos hw, if_pos (hiff.1 hw)]
        exact ⟨h, rfl⟩
      · rw [if_neg hw, if_neg (mt hiff.2 hw)]
        exact ⟨.cons hkeyword (.cons hdid h), rfl⟩

/-- A condition is the same in two spellings that have the same threshold. -/
theorem takeCondition_respelled (hthreshold : thresholdWord tail = thresholdWord tail') :
    (∃ e, takeCondition tail = .error e ∧ takeCondition tail' = .error e) ∨
      ∃ args rest rest', takeCondition tail = .ok (args, rest) ∧
        takeCondition tail' = .ok (args, rest') ∧ List.Forall₂ Respelled rest rest' := by
  cases h with
  | nil => exact .inl ⟨_, rfl, rfl⟩
  | @cons keyword keyword' _ _ hkeyword h =>
  have honce := hkeyword.reserved hlaws hreserved (by decide : .str "once" ∈ Avatar.reserved)
  by_cases hw : keyword = "once"
  · obtain rfl := hw
    obtain rfl := honce.1 rfl
    exact .inr ⟨_, _, _, takeCondition_once _, takeCondition_once _, h⟩
  have hw' : keyword' ≠ "once" := mt honce.2 hw
  cases h with
  | nil =>
    exact .inr ⟨_, _, _, takeCondition_singleton hw, takeCondition_singleton hw',
      .cons hkeyword .nil⟩
  | @cons n n' _ _ hn h =>
  rw [takeCondition_cons hw, takeCondition_cons hw']
  simp only [thresholdWord] at hthreshold
  have hiff := hkeyword.keyword hlaws hreserved
  split
  · next hk =>
    rw [if_pos hk, if_pos (hiff.1 hk)] at hthreshold
    obtain rfl := Option.some.inj hthreshold
    obtain rfl := hkeyword.eq_of_keyword hlaws hreserved hk
    rw [if_pos hk]
    rcases stringToNumber n with e | (_ | v)
    · exact .inl ⟨e, rfl, rfl⟩
    · exact .inr ⟨_, _, _, rfl, rfl, .cons hkeyword (.cons hn h)⟩
    · exact .inr ⟨_, _, _, rfl, rfl, h⟩
  · next hk =>
    rw [if_neg (mt hiff.2 hk)]
    exact .inr ⟨_, _, _, rfl, rfl, .cons hkeyword (.cons hn h)⟩

/-- Of two thresholds that are spelled differently, one is refused. -/
theorem takeCondition_of_ne (hthreshold : thresholdWord tail ≠ thresholdWord tail') :
    ∃ args p, (takeCondition tail = .ok p ∧
          takeCondition tail' = .error (Evaluator.primError "string->number" args)) ∨
        (takeCondition tail = .error (Evaluator.primError "string->number" args) ∧
          takeCondition tail' = .ok p) := by
  cases h with
  | nil => exact absurd rfl hthreshold
  | @cons keyword keyword' _ _ hkeyword h =>
  cases h with
  | nil => exact absurd rfl hthreshold
  | @cons n n' tail tail' hn h =>
  simp only [thresholdWord] at hthreshold
  have hiff := hkeyword.keyword hlaws hreserved
  by_cases hk : keyword = "count" ∨ keyword = "every" ∨ keyword = "within"
  · obtain rfl := hkeyword.eq_of_keyword hlaws hreserved hk
    have hw : keyword ≠ "once" := by rcases hk with rfl | rfl | rfl <;> decide
    rw [if_pos hk, if_pos hk] at hthreshold
    rw [takeCondition_cons hw, takeCondition_cons hw, if_pos hk, if_pos hk]
    rcases hn.cases hlaws with rfl | ⟨text, v, hread, hv, ⟨rfl, rfl⟩ | ⟨rfl, rfl⟩⟩
    · exact absurd rfl hthreshold
    · have htext : stringToNumber text = .ok (some n') := congrArg Except.ok hread
      rw [stringToNumber_number hv, htext]
      exact ⟨_, _, .inl ⟨rfl, rfl⟩⟩
    · have htext : stringToNumber text = .ok (some n) := congrArg Except.ok hread
      rw [stringToNumber_number hv, htext]
      exact ⟨_, _, .inr ⟨rfl, rfl⟩⟩
  · rw [if_neg hk, if_neg (mt hiff.2 hk)] at hthreshold
    exact absurd rfl hthreshold

end Slots

/-! ## The rule -/

/-- The rule that its slots make up. -/
theorem parseTriggerRule_of_takeCondition {id counter : SchemeVal} {tail args rest : List SchemeVal}
    (h : takeCondition (takeDid tail).2 = .ok (args, rest)) :
    parseTriggerRule (id :: counter :: tail) =
      (id :: counter :: ((takeDid tail).1 ++ args) ++ ·) <$> takeMethod rest := by
  rw [parseTriggerRule_cons, h]
  dsimp only [bind, Except.bind]
  cases takeMethod rest with
  | error e => rfl
  | ok method => exact congrArg Except.ok (by simp)

theorem parseTriggerRule_of_error {id counter : SchemeVal} {tail : List SchemeVal} {e : String}
    (h : takeCondition (takeDid tail).2 = .error e) :
    parseTriggerRule (id :: counter :: tail) = .error e := by
  rw [parseTriggerRule_cons, h]
  rfl

/-- Where a number was expected, nothing else is wrong. -/
theorem takeMethod_ne (hown : OwnErrors) (rest args : List SchemeVal) :
    takeMethod rest ≠ .error (Evaluator.primError "string->number" args) := by
  intro h
  rcases rest with _ | ⟨m, words⟩
  · exact hown.other "car" (by decide) "string->number" (by decide) (by decide) _ _
      (Except.error.inj h)
  · rw [takeMethod] at h
    rcases hread : readText words with e | parts <;> rw [hread] at h
    · obtain rfl := Except.error.inj h
      exact readText_ne hown words args hread
    · cases h

theorem parseTriggerRule_ne (hown : OwnErrors) {id counter : SchemeVal}
    {tail condArgs rest : List SchemeVal}
    (h : takeCondition (takeDid tail).2 = .ok (condArgs, rest)) (args : List SchemeVal) :
    parseTriggerRule (id :: counter :: tail) ≠
      .error (Evaluator.primError "string->number" args) := by
  intro heq
  rw [parseTriggerRule_of_takeCondition h] at heq
  rcases htake : takeMethod rest with e | method <;> rw [htake] at heq
  · obtain rfl := Except.error.inj heq
    exact takeMethod_ne hown rest args htake
  · cases heq

/-- A method and a text in two spellings, after as many other words. -/
theorem takeMethod_eq_iff (hlaws : NumeralLaws) (hnumerals : PlainNumerals)
    {front front' : List SchemeVal} (hlength : front.length = front'.length) {m m' : SchemeVal}
    {words words' : List SchemeVal} (h : List.Forall₂ Respelled words words') :
    (front ++ ·) <$> takeMethod (m :: words) = (front' ++ ·) <$> takeMethod (m' :: words') ↔
      (HasText words → front = front' ∧ m = m' ∧ WordsAlike words words') := by
  rw [hasText_iff, takeMethod, takeMethod]
  rcases readText_respelled hlaws hnumerals h with ⟨e, he, he'⟩ | ⟨parts, parts', hp, hp', hiff⟩
  · rw [he, he']
    exact iff_of_true rfl (by rintro ⟨_, h⟩; cases h)
  · rw [hp, hp', ← hiff]
    constructor
    · intro heq _
      obtain ⟨rfl, htail⟩ := List.append_inj (Except.ok.inj heq) hlength
      obtain ⟨rfl, rfl⟩ := List.cons.inj htail
      exact ⟨rfl, rfl, rfl⟩
    · intro hspelled
      obtain ⟨rfl, rfl, rfl⟩ := hspelled ⟨parts, rfl⟩
      rfl

theorem parseTriggerRule_eq_iff (hlaws : NumeralLaws) (hnumerals : PlainNumerals)
    (hreserved : NoNumerals) (hown : OwnErrors) (id counter : SchemeVal)
    {tail tail' : List SchemeVal} (h : List.Forall₂ Respelled tail tail') :
    parseTriggerRule (id :: counter :: tail) = parseTriggerRule (id :: counter :: tail') ↔
      SpelledAlike tail tail' := by
  obtain ⟨hrest, hlength⟩ := takeDid_respelled hlaws hreserved h
  by_cases hthreshold : thresholdWord (takeDid tail).2 = thresholdWord (takeDid tail').2
  · rcases takeCondition_respelled hlaws hreserved hrest hthreshold with
      ⟨e, he, he'⟩ | ⟨args, rest, rest', hc, hc', hr⟩
    · have hnone : methodWords tail = [] := by rw [methodWords, he]
      rw [parseTriggerRule_of_error he, parseTriggerRule_of_error he']
      exact iff_of_true rfl ⟨hthreshold, fun _ _ _ _ hm => absurd (hnone.symm.trans hm) (by simp)⟩
    · have hmethod : methodWords tail = rest := by rw [methodWords, hc]
      have hmethod' : methodWords tail' = rest' := by rw [methodWords, hc']
      rw [parseTriggerRule_of_takeCondition hc, parseTriggerRule_of_takeCondition hc']
      cases hr with
      | nil =>
        refine iff_of_true rfl ⟨hthreshold, fun _ _ _ _ hm => ?_⟩
        exact absurd (hmethod.symm.trans hm) (by simp)
      | @cons m m' words words' hm hwords =>
      have hfront : (id :: counter :: ((takeDid tail).1 ++ args)).length =
          (id :: counter :: ((takeDid tail').1 ++ args)).length := by
        simp only [List.length_cons, List.length_append, hlength]
      rw [takeMethod_eq_iff hlaws hnumerals hfront hwords, List.cons.injEq, List.cons.injEq,
        List.append_left_inj]
      constructor
      · intro halike
        refine ⟨hthreshold, fun m₁ words₁ m₂ words₂ h₁ h₂ htext => ?_⟩
        obtain ⟨rfl, rfl⟩ := List.cons.inj (hmethod.symm.trans h₁)
        obtain ⟨rfl, rfl⟩ := List.cons.inj (hmethod'.symm.trans h₂)
        exact (halike htext).imp_left fun hfront => hfront.2.2
      · intro hspelled htext
        exact (hspelled.text m words m' words' hmethod hmethod' htext).imp_left
          fun hdid => ⟨rfl, rfl, hdid⟩
  · refine iff_of_false (fun heq => ?_) fun halike => hthreshold halike.threshold
    obtain ⟨args, ⟨condition, rest⟩, ⟨hc, hc'⟩ | ⟨hc, hc'⟩⟩ :=
      takeCondition_of_ne hlaws hreserved hrest hthreshold
    · exact parseTriggerRule_ne hown hc args (heq.trans (parseTriggerRule_of_error hc'))
    · exact parseTriggerRule_ne hown hc' args (heq.symm.trans (parseTriggerRule_of_error hc))

theorem spelledAlike_nil : SpelledAlike [] [] :=
  have hnone : methodWords [] = [] := rfl
  ⟨rfl, fun _ _ _ _ hm => absurd (hnone.symm.trans hm) (by simp)⟩

/-- Two spellings of a rule are parsed alike if and only if what is not joined to the text is
    spelled alike, and the words of the text that are outside its spans. -/
theorem parseTriggerRule_respelled_iff (hlaws : NumeralLaws) (hnumerals : PlainNumerals)
    (hreserved : NoNumerals) (hown : OwnErrors) {words words' : List SchemeVal}
    (h : RespelledRule words words') :
    parseTriggerRule words = parseTriggerRule words' ↔
      SpelledAlike (words.drop 2) (words'.drop 2) := by
  obtain ⟨hfront, htail⟩ := h
  match words, words' with
  | id :: counter :: tail, id' :: counter' :: tail' =>
    obtain ⟨rfl, hcounter⟩ := List.cons.inj hfront
    obtain ⟨rfl, -⟩ := List.cons.inj hcounter
    exact parseTriggerRule_eq_iff hlaws hnumerals hreserved hown id counter htail
  | [], [] => exact iff_of_true rfl spelledAlike_nil
  | [id], [id'] => exact iff_of_true (congrArg parseTriggerRule hfront) spelledAlike_nil

section

omit [Evaluator]

theorem decimal_noNumerals : @NoNumerals decimal := by
  intro text htext
  simp only [reserved, List.mem_cons, List.not_mem_nil, or_false, SchemeVal.str.injEq] at htext
  rcases htext with rfl | rfl | rfl | rfl | rfl <;> decide +kernel

theorem decimal_plainNumerals : @PlainNumerals decimal := by
  intro text v h
  have h : readDecimal text = some v := h
  have hplain : ∀ c, c.isDigit = true ∨ c = '-' ∨ c = '#' →
      c.utf8Size = 1 ∧ c ∉ [' ', '(', ')', '"', ':'] := by
    rintro c (hc | rfl | rfl)
    · have hle := (Char.isDigit_iff_toNat.1 hc).2
      refine ⟨Char.utf8Size_eq_one_iff.2 ?_, fun hmem => ?_⟩
      · exact UInt32.le_iff_toNat_le.2 (hle.trans (by decide))
      · simp only [List.mem_cons, List.not_mem_nil, or_false] at hmem
        rcases hmem with rfl | rfl | rfl | rfl | rfl <;> exact absurd hc (by decide)
    · exact ⟨rfl, by decide⟩
    · exact ⟨rfl, by decide⟩
  have hdigits {cs : List Char} {n : Nat} (hread : readDigits cs = some n) :
      cs ≠ [] ∧ ∀ c ∈ cs, c.isDigit = true := by
    obtain ⟨⟨hne, hall⟩, -⟩ := Option.ite_none_right_eq_some.1 hread
    exact ⟨hne, List.all_eq_true.1 hall⟩
  have hchars : text.toList ≠ [] ∧ ∀ c ∈ text.toList, c.isDigit = true ∨ c = '-' ∨ c = '#' := by
    rw [readDecimal] at h
    split at h <;> obtain ⟨n, hread, -⟩ := Option.map_eq_some_iff.1 h
    · next cs htext =>
      rw [htext]
      refine ⟨List.cons_ne_nil _ _, List.forall_mem_cons.2 ⟨.inr (.inl rfl), fun c hc => ?_⟩⟩
      exact .inl ((hdigits hread).2 c hc)
    · next cs htext =>
      rw [htext]
      refine ⟨List.cons_ne_nil _ _, List.forall_mem_cons.2 ⟨.inr (.inr rfl), fun c hc => ?_⟩⟩
      exact .inl ((hdigits hread).2 c hc)
    · exact ⟨(hdigits hread).1, fun c hc => .inl ((hdigits hread).2 c hc)⟩
  exact ⟨mt String.toList_eq_nil_iff.2 hchars.1, fun c hc => hplain c (hchars.2 c hc)⟩

/-- A numeral that is not the text of its number, in a span of the text, and a number that is
    joined to it. -/
theorem parseTriggerRule_respelled_iff_joined :
    let _ := decimal
    let words : List SchemeVal :=
      ["x", ":arrive", "every", "2", "narrate", "5", "(roll", "05", "6)"]
    let words' : List SchemeVal :=
      ["x", ":arrive", "every", "2", "narrate", .int 5, "(roll", .int 5, "6)"]
    parseTriggerRule words = parseTriggerRule words' := by
  intro _ words words'
  have hspelled : RespelledRule words words' := by
    refine ⟨rfl, ?_⟩
    exact .cons (.same _) (.cons (.same _) (.cons (.same _) (.cons (.read (by decide +kernel))
      (.cons (.same _) (.cons (.read (by decide +kernel)) (.cons (.same _) .nil))))))
  refine (@parseTriggerRule_respelled_iff decimal decimal_laws decimal_plainNumerals
    decimal_noNumerals (@ownErrors_of_invalid decimal fun _ _ => rfl) words words' hspelled).2 ?_
  refine ⟨by decide +kernel, ?_⟩
  have htail : methodWords (words.drop 2) = .str "narrate" :: words.drop 5 := by decide +kernel
  have htail' : methodWords (words'.drop 2) = .str "narrate" :: words'.drop 5 := by decide +kernel
  have htexts : (words.drop 5).mapM wordText = .ok ["5", "(roll", "05", "6)"] := by decide +kernel
  have htexts' : (words'.drop 5).mapM wordText = .ok ["5", "(roll", "5", "6)"] := by decide +kernel
  intro m ws m' ws' hws hws' _
  obtain ⟨rfl, rfl⟩ := List.cons.inj (htail.symm.trans hws)
  obtain ⟨rfl, rfl⟩ := List.cons.inj (htail'.symm.trans hws')
  refine ⟨rfl, rfl, fun ts ts' hts hts' => ?_⟩
  obtain rfl := Except.ok.inj (htexts.symm.trans hts)
  obtain rfl := Except.ok.inj (htexts'.symm.trans hts')
  exact ⟨fun _ => rfl, fun _ => rfl, fun h => absurd h (by decide), fun _ => rfl, trivial⟩

/-- A threshold that is delivered as a number is refused. -/
theorem threshold_refused :
    let _ := decimal
    RespelledRule ["salute", ":arrive", "every", "2", "narrate", "Hei"]
        ["salute", ":arrive", "every", .int 2, "narrate", "Hei"] ∧
      parseTriggerRule ["salute", ":arrive", "every", "2", "narrate", "Hei"] =
        .ok ["salute", ":arrive", "every", .int 2, "narrate", "Hei"] ∧
      parseTriggerRule ["salute", ":arrive", "every", .int 2, "narrate", "Hei"] =
        .error "string->number: invalid arguments" := by
  intro _
  refine ⟨⟨rfl, ?_⟩, by decide +kernel, by decide +kernel⟩
  exact .cons (.same _) (.cons (.read (by decide +kernel)) (.cons (.same _) (.cons (.same _) .nil)))

end

end Avatar

end Zscheme
