import Zscheme.Avatar.TextErrors
import Zscheme.Scheme.Numerals

/-!
# The words of a rule

The words of `add-trigger` are an id and a counter, then perhaps a DID, perhaps a
condition, then a method and a text. Such words are parsed as what they mean
(`parseTriggerRule_words`). Other words are refused, and the error says why if a word is
left for the method and no word of the text is cut (`parseTriggerRule_iff`).
-/

namespace Zscheme

namespace Avatar

open Prim Stdlib Zscheme.Runtime

variable [Evaluator]

/-! ## In steps -/

/-- The arguments for the DID, and the words that are left. -/
def takeDid (tail : List SchemeVal) : List SchemeVal × List SchemeVal :=
  match avatarDid tail with
  | some (did, tail) => (["did", did], tail)
  | none => ([], tail)

/-- The arguments for the condition, and the words that are left. -/
def takeCondition (tail : List SchemeVal) : Except String (List SchemeVal × List SchemeVal) := do
  return (← avatarCondition tail).getD (["every", .int 1], tail)

/-- The parts of the text, of which there has to be one. -/
def readText (words : List SchemeVal) : Except String (List SchemeVal) := do
  let parts ← proseToParts (← joinWords words)
  if parts.isEmpty then throw triggerUsage else return parts

/-- The method, and the parts of the text. -/
def takeMethod : List SchemeVal → Except String (List SchemeVal)
  | [] => refuse "car" [.list []]
  | method :: words => do return method :: (← readText words)

/-- `parse-trigger-rule` takes the words from the front. -/
theorem parseTriggerRule_cons (id counter : SchemeVal) (tail : List SchemeVal) :
    parseTriggerRule (id :: counter :: tail) = (do
      let (condArgs, rest) ← takeCondition (takeDid tail).2
      return [id, counter] ++ (takeDid tail).1 ++ condArgs ++ (← takeMethod rest)) := by
  have hmethod (front rest : List SchemeVal) : (match rest with
      | [] => refuse "car" [.list []]
      | method :: words => do
        let parts ← proseToParts (← joinWords words)
        if parts.isEmpty then throw triggerUsage else return front ++ method :: parts) =
      (do return front ++ (← takeMethod rest)) := by
    rcases rest with _ | ⟨method, words⟩
    · rfl
    dsimp only [takeMethod, readText]
    rcases joinWords words with e | text
    · rfl
    dsimp only [bind, Except.bind]
    rcases proseToParts text with e | parts
    · rfl
    dsimp only
    cases parts.isEmpty <;> rfl
  rw [parseTriggerRule, takeCondition, takeDid]
  rcases avatarDid tail with _ | ⟨did, rest⟩
  · dsimp only
    rcases avatarCondition tail with e | (_ | ⟨args, rest⟩)
    · rfl
    · exact hmethod _ _
    · exact hmethod _ _
  · dsimp only
    rcases avatarCondition rest with e | (_ | ⟨args, rest⟩)
    · rfl
    · exact hmethod _ _
    · exact hmethod _ _

/-! ## What was written -/

/-- The words that a number comes after. -/
inductive Keyword
  | count
  | every
  | within

/-- The word. -/
def Keyword.word : Keyword → SchemeVal
  | count => "count"
  | every => "every"
  | within => "within"

/-- The condition of a rule. -/
inductive Condition
  /-- None is written. -/
  | always
  | once
  | threshold (keyword : Keyword) (n : Int64)

/-- The words of a condition. -/
def Condition.words : Condition → List SchemeVal
  | always => []
  | once => ["once"]
  | threshold keyword n => [keyword.word, toString n.toInt]

/-- The arguments that they become. -/
def Condition.args : Condition → List SchemeVal
  | always => ["every", .int 1]
  | once => ["once"]
  | threshold keyword n => [keyword.word, .int n]

/-- The words for a DID, which are its arguments too. -/
def didWords : Option SchemeVal → List SchemeVal
  | none => []
  | some did => ["did", did]

/-- The words that begin a DID or a condition. -/
def reserved : List SchemeVal := ["did", "once", "count", "every", "within"]

omit [Evaluator] in
theorem takeDid_words (did : Option SchemeVal) {rest : List SchemeVal}
    (h : ∀ w ∈ rest.head?, w ≠ "did") : takeDid (didWords did ++ rest) = (didWords did, rest) := by
  cases did with
  | some did => rfl
  | none =>
    rcases rest with _ | ⟨keyword, _ | ⟨did, tail⟩⟩
    · rfl
    · rfl
    · rw [didWords, List.nil_append, takeDid, avatarDid, if_neg (h keyword rfl)]

/-- A word that is not reserved begins no condition. -/
theorem avatarCondition_of_not_mem {m : SchemeVal} (hm : m ∉ reserved) (text : List SchemeVal) :
    avatarCondition (m :: text) = .ok none := by
  simp only [reserved, List.mem_cons, List.not_mem_nil, or_false, not_or] at hm
  rcases text with _ | ⟨n, text⟩
  · rw [avatarCondition, if_neg hm.2.1]
  · rw [avatarCondition, if_neg hm.2.1]
    simp only [hm.2.2, or_false, if_false]

theorem takeCondition_words (hread : ∀ n : Int64,
    Evaluator.readNumber (toString n.toInt) = some (.int n)) (condition : Condition) {m : SchemeVal}
    (hm : m ∉ reserved) (text : List SchemeVal) :
    takeCondition (condition.words ++ m :: text) = .ok (condition.args, m :: text) := by
  cases condition with
  | always =>
    rw [Condition.words, List.nil_append, takeCondition, avatarCondition_of_not_mem hm]
    rfl
  | once => rfl
  | threshold keyword n =>
    have hnumber : stringToNumber (toString n.toInt) = .ok (some (.int n)) :=
      congrArg Except.ok (hread n)
    have hcondition : avatarCondition ((Condition.threshold keyword n).words ++ m :: text) =
        .ok (some ((Condition.threshold keyword n).args, m :: text)) := by
      cases keyword <;> simp only [Condition.words, List.cons_append, List.nil_append,
        avatarCondition] <;> rw [if_neg (by decide), if_pos (by decide), hnumber] <;> rfl
    rw [takeCondition, hcondition]
    rfl

/-- A text that is not empty has parts, if it is read. -/
theorem readText_of_ne {text : List SchemeVal} {joined : String}
    (hjoin : joinWords text = .ok joined) (hne : joined ≠ "") {parts : List SchemeVal}
    (hparts : proseToParts joined = .ok parts) : readText text = .ok parts := by
  have hsome : parts.isEmpty = false := by
    rw [List.isEmpty_eq_false_iff]
    rintro rfl
    exact hne (eq_empty_of_proseToParts hparts)
  rw [readText, hjoin]
  simp only [bind, Except.bind, hparts, hsome, Bool.false_eq_true, if_false]
  rfl

/-- A rule is parsed as what was written, if there is a text. -/
theorem parseTriggerRule_words (hread : ∀ n : Int64,
    Evaluator.readNumber (toString n.toInt) = some (.int n)) (id counter : SchemeVal)
    (did : Option SchemeVal) (condition : Condition) {m : SchemeVal} (hm : m ∉ reserved)
    {text : List SchemeVal} {joined : String} (hjoin : joinWords text = .ok joined)
    (hne : joined ≠ "") {parts : List SchemeVal} (hparts : proseToParts joined = .ok parts) :
    parseTriggerRule (id :: counter :: (didWords did ++ (condition.words ++ m :: text))) =
      .ok (id :: counter :: (didWords did ++ (condition.args ++ m :: parts))) := by
  have hhead : ∀ w ∈ (condition.words ++ m :: text).head?, w ≠ "did" := by
    rintro w hw rfl
    cases condition with
    | always => exact hm (Option.some.inj hw ▸ by decide)
    | once => exact absurd (Option.some.inj hw) (by decide)
    | threshold keyword n => cases keyword <;> exact absurd (Option.some.inj hw) (by decide)
  rw [parseTriggerRule_cons, takeDid_words did hhead, takeCondition_words hread condition hm]
  simp only [bind, Except.bind, takeMethod, readText_of_ne hjoin hne hparts]
  simp [pure, Except.pure]

omit [Evaluator] in
/-- A rule with a DID and a threshold, and words of the text that look like others. -/
theorem parseTriggerRule_words_every :
    let _ := decimal
    parseTriggerRule ["joke", ":arrive", "did", "did:ma:bob", "every", "-20", "narrate", "did",
      "(did-counter", ":arrive)"] =
        .ok ["joke", ":arrive", "did", "did:ma:bob", "every", .int (-20), "narrate", "did ",
          .list [":did-counter", ":arrive"]] := by
  intro _
  exact parseTriggerRule_words readDecimal_int "joke" ":arrive" (some "did:ma:bob")
    (.threshold .every (-20)) (by decide) rfl (by decide) (by decide +kernel)

omit [Evaluator] in
/-- A rule whose text is one empty word is refused. -/
theorem parseTriggerRule_no_text :
    let _ := decimal
    proseToParts "" = .ok [] ∧
      parseTriggerRule ["joke", ":arrive", "narrate", ""] = .error triggerUsage := by
  decide +kernel

/-! ## Errors -/

/-- The errors that say what is wrong with a rule. -/
def RuleError (e : String) : Prop := e = triggerUsage ∨ TextError e

/-- What is computed, or an error that says why it is not. -/
def Explained {α : Type} (r : Except String α) : Prop := ∀ e, r = .error e → RuleError e

omit [Evaluator] in
theorem explained_ok {α : Type} (a : α) : Explained (.ok a) := nofun

omit [Evaluator] in
theorem explained_error {α : Type} {e : String} :
    Explained (.error e : Except String α) ↔ RuleError e :=
  ⟨fun h => h e rfl, fun h _ he => Except.error.inj he ▸ h⟩

/-- The primitives that a rule can make raise. -/
def rulePrims : List String := ["car", "string->number", "substring"]

/-- What is said of the errors of these primitives: each has errors of its own. -/
structure OwnErrors : Prop where
  rule : ∀ prim ∈ rulePrims, ∀ args, ¬ RuleError (Evaluator.primError prim args)
  join : ∀ prim ∈ rulePrims, ∀ args, Evaluator.primError prim args ≠ "join-words: not a word"
  other : ∀ prim ∈ rulePrims, ∀ prim' ∈ rulePrims, prim ≠ prim' → ∀ args args',
    Evaluator.primError prim args ≠ Evaluator.primError prim' args'

/-- The words that are left for the method and the text. -/
def methodWords (tail : List SchemeVal) : List SchemeVal :=
  match takeCondition (takeDid tail).2 with
  | .ok (_, rest) => rest
  | .error _ => []

omit [Evaluator] in
theorem takeDid_strings (tail : List String) :
    ∃ rest : List String, (takeDid (tail.map .str)).2 = rest.map .str := by
  rcases tail with _ | ⟨keyword, _ | ⟨did, tail⟩⟩
  · exact ⟨[], rfl⟩
  · exact ⟨[keyword], rfl⟩
  · simp only [List.map_cons, takeDid, avatarDid]
    by_cases h : SchemeVal.str keyword = "did"
    · exact ⟨tail, by rw [if_pos h]⟩
    · exact ⟨keyword :: did :: tail, by rw [if_neg h]; rfl⟩

theorem takeCondition_strings {tail : List String} (h : tail ≠ []) :
    ∃ args, ∃ rest : List String, takeCondition (tail.map .str) = .ok (args, rest.map .str) := by
  rcases tail with _ | ⟨keyword, _ | ⟨n, tail⟩⟩
  · exact absurd rfl h
  · rw [takeCondition, List.map_cons, List.map_nil, avatarCondition]
    split
    · exact ⟨_, [], rfl⟩
    · exact ⟨_, [keyword], rfl⟩
  · rw [takeCondition, List.map_cons, List.map_cons, avatarCondition]
    split
    · exact ⟨_, n :: tail, rfl⟩
    split
    · have hnumber : stringToNumber (.str n) = .ok (Evaluator.readNumber n) := rfl
      rw [hnumber]
      rcases Evaluator.readNumber n with _ | v
      · exact ⟨_, keyword :: n :: tail, rfl⟩
      · exact ⟨_, tail, rfl⟩
    · exact ⟨_, keyword :: n :: tail, rfl⟩

theorem joinWords_strings (text : List String) :
    joinWords (text.map .str) = .ok (" ".intercalate text) := by
  have hwords : (text.map SchemeVal.str).mapM wordText = .ok text := by
    rw [List.mapM_map]
    induction text with
    | nil => rfl
    | cons w text ih =>
      rw [List.mapM_cons, ih]
      rfl
  rw [joinWords, hwords, ← stringJoin_eq]
  rfl

/-- The text is read, or an error says what is wrong, if no word of it is cut. -/
theorem readText_strings (hown : OwnErrors) (text : List String) {l : Layout}
    (hl : l.chars = (" ".intercalate text).toList) :
    Explained (readText (text.map .str)) ↔ ¬ CutText l := by
  rw [readText, joinWords_strings]
  simp only [bind, Except.bind, proseToParts_eq hl]
  by_cases hcut : CutText l
  · obtain ⟨e, ⟨args, rfl⟩, he⟩ := Layout.parts_of_cut hcut
    rw [he]
    refine iff_of_false (fun h => ?_) fun h => h hcut
    exact hown.rule "substring" (by decide) args (explained_error.1 h)
  · refine iff_of_true ?_ hcut
    rcases hparts : l.parts with e | parts
    · exact explained_error.2 (.inr (Layout.parts_error hcut hparts))
    · dsimp only
      split
      · exact explained_error.2 (.inl rfl)
      · exact explained_ok parts

/-- A rule of strings is parsed, or an error says what is wrong with it, if and only if there
    are not even two words, or one is left for the method and no word of the text is cut. -/
theorem parseTriggerRule_iff (hown : OwnErrors) (words : List String) :
    Explained (parseTriggerRule (words.map .str)) ↔
      words.length < 2 ∨ ∃ method : String, ∃ text : List String,
        methodWords ((words.drop 2).map .str) = .str method :: text.map .str ∧
          ∀ l : Layout, l.chars = (" ".intercalate text).toList → ¬ CutText l := by
  have hcar (args : List SchemeVal) : ¬ Explained (.error (Evaluator.primError "car" args) :
      Except String (List SchemeVal)) := mt explained_error.1 (hown.rule "car" (by decide) args)
  rcases words with _ | ⟨id, _ | ⟨counter, tail⟩⟩
  · exact iff_of_true (explained_error.2 (.inl rfl)) (.inl (by decide))
  · exact iff_of_true (explained_error.2 (.inl rfl)) (.inl (Nat.lt_succ_self 1))
  rw [or_iff_right (by simp : ¬ (id :: counter :: tail).length < 2), List.map_cons, List.map_cons,
    parseTriggerRule_cons, List.drop_succ_cons, List.drop_succ_cons, List.drop_zero, methodWords]
  obtain ⟨rest, hrest⟩ := takeDid_strings tail
  rw [hrest]
  by_cases hempty : rest = []
  · -- No word is left for the condition.
    subst hempty
    exact iff_of_false (hcar _) fun ⟨_, _, h, _⟩ => nomatch h
  obtain ⟨args, rest, hcondition⟩ := takeCondition_strings hempty
  rw [hcondition]
  rcases rest with _ | ⟨method, text⟩
  · -- No word is left for the method.
    exact iff_of_false (hcar _) fun ⟨_, _, h, _⟩ => nomatch h
  obtain ⟨l, hl⟩ := Layout.exists_chars (" ".intercalate text).toList
  have htext : (∃ method' : String, ∃ text' : List String,
      (SchemeVal.str method :: text.map .str) = .str method' :: text'.map .str ∧
        ∀ l : Layout, l.chars = (" ".intercalate text').toList → ¬ CutText l) ↔ ¬ CutText l := by
    constructor
    · rintro ⟨method', text', h, hcut⟩
      have hinj := List.map_injective_iff.2
        fun a b (h : SchemeVal.str a = .str b) => SchemeVal.str.inj h
      obtain rfl := hinj (List.cons.inj h).2
      exact hcut l hl
    · intro hcut
      refine ⟨method, text, rfl, fun l' hl' => ?_⟩
      rwa [Layout.chars_injective (hl'.trans hl.symm)]
  rw [List.map_cons]
  dsimp only
  rw [htext, ← readText_strings hown text hl]
  simp only [bind, Except.bind, takeMethod]
  rcases readText (text.map .str) with e | parts
  · exact explained_error.trans explained_error.symm
  · exact iff_of_true (explained_ok _) (explained_ok parts)

section

omit [Evaluator]

/-- The first characters of errors that say what is wrong. -/
theorem RuleError.head {e : String} (h : RuleError e) :
    e.toList.head? ∈ ['u', 'e', 'i'].map some := by
  rcases h with rfl | (_ | _ | w)
  · decide +kernel
  · exact List.mem_cons_self
  · exact List.mem_cons_of_mem _ List.mem_cons_self
  · rw [String.toList_append]
    exact List.mem_cons_of_mem _ (List.mem_cons_of_mem _ List.mem_cons_self)

/-- Errors that name the primitive are its own. -/
theorem ownErrors_of_invalid [Evaluator]
    (hprim : ∀ prim args, Evaluator.primError prim args = prim ++ ": invalid arguments") :
    OwnErrors where
  rule := by
    intro prim hmem args h
    rw [hprim] at h
    have hhead : (prim ++ ": invalid arguments").toList.head? ∈ ['u', 'e', 'i'].map some := h.head
    simp only [rulePrims, List.mem_cons, List.not_mem_nil, or_false] at hmem
    rcases hmem with rfl | rfl | rfl <;> exact absurd hhead (by decide)
  join := by
    intro prim hmem args h
    rw [hprim] at h
    simp only [rulePrims, List.mem_cons, List.not_mem_nil, or_false] at hmem
    rcases hmem with rfl | rfl | rfl <;> exact absurd h (by decide)
  other := by
    intro prim _ prim' _ hne args args' h
    rw [hprim, hprim] at h
    exact hne ((String.append_left_inj _).1 h)

/-- Where a cut does not raise, a text with a word that begins with a character of two
    bytes is refused with an error that names the word. -/
theorem parseTriggerRule_iff_look :
    let _ : Evaluator := { decimal with cutRaises := false }
    Explained (parseTriggerRule (["x", "c", "narrate", "(look Østen)"].map .str)) := by
  intro _
  refine (parseTriggerRule_iff (ownErrors_of_invalid fun _ _ => rfl) _).2
    (.inr ⟨"narrate", ["(look Østen)"], by rfl, ?_⟩)
  rintro l - ⟨_, _, _, -, -, _, _, _, _, -, -, -, hcut, -⟩
  cases hcut

/-- Two words are used up by the id and the counter. -/
theorem parseTriggerRule_used_up :
    let _ := decimal
    parseTriggerRule ["x", "c"] = .error "car: invalid arguments" ∧
      ¬ RuleError "car: invalid arguments" := by
  refine ⟨by decide +kernel, fun h => ?_⟩
  exact absurd h.head (by decide)

end

end Avatar

end Zscheme
