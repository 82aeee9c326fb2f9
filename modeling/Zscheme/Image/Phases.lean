import Zscheme.Image.Altered

/-!
# The phase of a roll call

`roll-call` peels the phase off the end of its words, so that an object of several words
needs no quotes. It does so with `take`, and any `take` that takes words from the front
will do (`rollCallSplitWith_spells`). But in the image the name is the avatar's command
(`combined_take`). So words are split as they are spelled if and only if there is no phase to peel
(`rollCallSplit_iff`).
-/

namespace Zscheme

namespace Image

open Prim Stdlib Lambda Avatar Program

variable [Host] {words obj phase : List SchemeVal} {word : SchemeVal}

/-! ## Spelling -/

/-- A number, or a numeral. -/
def Seconds (word : SchemeVal) : Prop :=
  word.number? = true ∨ ∃ text n, word = .str text ∧ Evaluator.readNumber text = some n

/-- A phase, as it is spelled. -/
inductive Phase : List SchemeVal → Prop
  | finish : Phase ["end"]
  | start : Phase ["begin"]
  | timed {seconds : SchemeVal} : Seconds seconds → Phase ["begin", seconds]

/-- The words end in a phase. -/
def EndsInPhase (words : List SchemeVal) : Prop := ∃ obj phase, Phase phase ∧ words = obj ++ phase

/-- What words say: an object, and a phase, which is to begin if there is none. -/
inductive Spells : (words obj phase : List SchemeVal) → Prop
  | peeled {obj phase : List SchemeVal} : Phase phase → Spells (obj ++ phase) obj phase
  | whole {obj : List SchemeVal} : ¬ EndsInPhase obj → Spells obj obj ["begin"]

theorem rollCallSeconds?_eq (word : SchemeVal) :
    ∃ b, rollCallSeconds? word = .ok b ∧ (b = true ↔ Seconds word) := by
  rcases word with text | _ | _ | _ | _ | _ | _ | _
  case str =>
    refine ⟨(Evaluator.readNumber text).isSome, rfl, ?_⟩
    rw [Option.isSome_iff_exists]
    constructor
    · rintro ⟨n, hn⟩
      exact .inr ⟨text, n, rfl, hn⟩
    · rintro (hnumber | ⟨_, n, htext, hn⟩)
      · cases hnumber
      · exact ⟨n, SchemeVal.str.inj htext ▸ hn⟩
  case int => exact ⟨true, rfl, fun _ => .inl rfl, fun _ => rfl⟩
  case float => exact ⟨true, rfl, fun _ => .inl rfl, fun _ => rfl⟩
  all_goals exact ⟨false, rfl, nofun, by rintro (h | ⟨_, _, h, _⟩) <;> cases h⟩

/-! ## The last words -/

section Words

omit [Host]

theorem lastWord_one (l : List SchemeVal) (x : SchemeVal) : lastWord (l ++ [x]) 1 = x := by
  simp [lastWord]

theorem lastWord_two (l : List SchemeVal) (x y : SchemeVal) :
    lastWord (l ++ [x, y]) 1 = y ∧ lastWord (l ++ [x, y]) 2 = x := by
  simp [lastWord]

/-- The last word, if it is a string. -/
theorem append_of_lastWord_one {text : String} (h : lastWord words 1 = .str text) :
    ∃ obj, words = obj ++ [.str text] := by
  rcases words.eq_nil_or_concat with rfl | ⟨obj, x, rfl⟩
  · cases h
  · rw [List.concat_eq_append, lastWord_one] at h
    exact ⟨obj, by rw [h, List.concat_eq_append]⟩

/-- The last two words, if the first of them is a string. -/
theorem append_of_lastWord_two {text : String} (h : lastWord words 2 = .str text) :
    ∃ obj, words = obj ++ [.str text, lastWord words 1] := by
  rcases words.eq_nil_or_concat with rfl | ⟨l, y, rfl⟩
  · cases h
  rcases l.eq_nil_or_concat with rfl | ⟨obj, x, rfl⟩
  · cases h
  · simp only [List.concat_eq_append, List.append_assoc, List.singleton_append] at h ⊢
    obtain ⟨hy, hx⟩ := lastWord_two obj x y
    exact ⟨obj, by rw [hy, ← h, hx]⟩

end Words

/-! ## The split -/

/-- `roll-call-split`, with the procedure that `take` stands for. -/
def rollCallSplitWith (take : List SchemeVal → Act SchemeVal) (words : List SchemeVal) :
    Act (SchemeVal × List SchemeVal) := do
  let n := words.length
  if lastWord words 1 = "end" then
    return (← take [.int (.ofNat (n - 1)), .list words], ["end"])
  else if (← rollCallSeconds? (lastWord words 1)) ∧ lastWord words 2 = "begin" then
    return (← take [.int (.ofNat (n - 2)), .list words], ["begin", lastWord words 1])
  else if lastWord words 1 = "begin" then
    return (← take [.int (.ofNat (n - 1)), .list words], ["begin"])
  else return (.list words, ["begin"])

theorem rollCallSplit_eq (words : List SchemeVal) :
    rollCallSplit words = rollCallSplitWith Avatar.take words := rfl

/-- Where the last word is not `end`, it is the other tests that decide. -/
theorem rollCallSplitWith_of_not_end (take : List SchemeVal → Act SchemeVal) {b : Bool}
    (hb : rollCallSeconds? (lastWord words 1) = .ok b) (hend : lastWord words 1 ≠ "end") :
    rollCallSplitWith take words = (
      if b = true ∧ lastWord words 2 = "begin" then do
        return (← take [.int (.ofNat (words.length - 2)), .list words],
          ["begin", lastWord words 1])
      else if lastWord words 1 = "begin" then do
        return (← take [.int (.ofNat (words.length - 1)), .list words], ["begin"])
      else return (.list words, ["begin"]) : Act (SchemeVal × List SchemeVal)) := by
  have hlift : ∀ k : Bool → Act (SchemeVal × List SchemeVal),
      (liftM (rollCallSeconds? (lastWord words 1)) : Act Bool) >>= k = k b := fun k => by
    rw [hb]
    rfl
  rw [rollCallSplitWith, if_neg hend]
  exact hlift _

/-- Where there is a phase, one is peeled with `take`; where there is none, the words are
    left as they are. -/
theorem rollCallSplitWith_cases (take : List SchemeVal → Act SchemeVal) (words : List SchemeVal) :
    (∃ obj phase, Phase phase ∧ words = obj ++ phase ∧ rollCallSplitWith take words =
      take [.int (.ofNat obj.length), .list words] >>= fun v => pure (v, phase)) ∨
    (¬ EndsInPhase words ∧ rollCallSplitWith take words =
      (pure (.list words, ["begin"]) : Act (SchemeVal × List SchemeVal))) := by
  obtain ⟨b, hb, hseconds⟩ := rollCallSeconds?_eq (lastWord words 1)
  by_cases hend : lastWord words 1 = "end"
  · obtain ⟨obj, hwords⟩ := append_of_lastWord_one hend
    refine .inl ⟨obj, _, .finish, hwords, ?_⟩
    have hlength : words.length - 1 = obj.length := by rw [hwords]; simp
    rw [rollCallSplitWith, if_pos hend, hlength]
  have hsplit := rollCallSplitWith_of_not_end take hb hend
  by_cases htimed : b = true ∧ lastWord words 2 = "begin"
  · obtain ⟨obj, hwords⟩ := append_of_lastWord_two htimed.2
    refine .inl ⟨obj, _, .timed (hseconds.1 htimed.1), hwords, ?_⟩
    have hlength : words.length - 2 = obj.length := by rw [hwords]; simp
    rw [hsplit, if_pos htimed, hlength]
  rw [if_neg htimed] at hsplit
  by_cases hbegin : lastWord words 1 = "begin"
  · obtain ⟨obj, hwords⟩ := append_of_lastWord_one hbegin
    refine .inl ⟨obj, _, .start, hwords, ?_⟩
    have hlength : words.length - 1 = obj.length := by rw [hwords]; simp
    rw [hsplit, if_pos hbegin, hlength]
  refine .inr ⟨?_, hsplit.trans (if_neg hbegin)⟩
  rintro ⟨obj, phase, hphase, rfl⟩
  cases hphase with
  | finish => exact hend (lastWord_one obj _)
  | start => exact hbegin (lastWord_one obj _)
  | timed hs =>
    obtain ⟨hlast, hbefore⟩ := lastWord_two obj "begin" _
    exact htimed ⟨hseconds.2 (by rwa [hlast]), hbefore⟩

/-- A phase is read off in one way only. -/
theorem Phase.unique {obj' phase' : List SchemeVal} (h : Phase phase) (h' : Phase phase')
    (heq : obj ++ phase = obj' ++ phase') (hend : ¬ Seconds "end") (hbegin : ¬ Seconds "begin") :
    obj = obj' ∧ phase = phase' := by
  have hlast : lastWord (obj ++ phase) 1 = lastWord (obj' ++ phase') 1 := by rw [heq]
  cases h with
  | finish =>
    cases h' with
    | finish => exact List.append_inj' heq rfl
    | start => exact absurd (List.append_inj' heq rfl).2 (by decide)
    | timed hs =>
      rw [lastWord_one, (lastWord_two _ _ _).1] at hlast
      exact absurd (hlast ▸ hs) hend
  | start =>
    cases h' with
    | finish => exact absurd (List.append_inj' heq rfl).2 (by decide)
    | start => exact List.append_inj' heq rfl
    | timed hs =>
      rw [lastWord_one, (lastWord_two _ _ _).1] at hlast
      exact absurd (hlast ▸ hs) hbegin
  | timed hs =>
    cases h' with
    | finish =>
      rw [lastWord_one, (lastWord_two _ _ _).1] at hlast
      exact absurd (hlast ▸ hs) hend
    | start =>
      rw [lastWord_one, (lastWord_two _ _ _).1] at hlast
      exact absurd (hlast ▸ hs) hbegin
    | timed _ => exact List.append_inj' heq rfl

/-- With a procedure that takes words from the front, words are split as they are spelled. -/
theorem rollCallSplitWith_spells {take : List SchemeVal → Act SchemeVal}
    (htake : ∀ obj rest : List SchemeVal,
      take [.int (.ofNat obj.length), .list (obj ++ rest)] = pure (.list obj))
    (hend : ¬ Seconds "end") (hbegin : ¬ Seconds "begin") (h : Spells words obj phase) :
    rollCallSplitWith take words = (pure (.list obj, phase) : Act _) := by
  rcases rollCallSplitWith_cases take words with
    ⟨obj', phase', hphase', hwords, hsplit⟩ | ⟨hno, hsplit⟩
  · cases h with
    | peeled hphase =>
      obtain ⟨rfl, rfl⟩ := hphase.unique hphase' hwords hend hbegin
      rw [hsplit, htake, pure_bind]
    | whole hno => exact absurd ⟨obj', phase', hphase', hwords⟩ hno
  · cases h with
    | peeled hphase => exact absurd ⟨obj, phase, hphase, rfl⟩ hno
    | whole _ => exact hsplit

/-! ## The image -/

/-- In the image, words are split as they are spelled if and only if they end in no phase. -/
theorem rollCallSplit_iff (h : Spells words obj phase) (w : World) :
    ((rollCallSplit words).run w).1 = .ok (.list obj, phase) ↔ ¬ EndsInPhase words := by
  rw [rollCallSplit_eq]
  rcases rollCallSplitWith_cases Avatar.take words with
    ⟨obj', phase', hphase, hwords, hsplit⟩ | ⟨hno, hsplit⟩
  · have hne : words ≠ [] := by
      rintro rfl
      cases hphase <;> simp at hwords
    have hraises : ((rollCallSplitWith Avatar.take words).run w).1 =
        .error "join-words: not a word" := by
      rw [hsplit]
      refine (wp_iff_result _ (· = _)).1 ?_
      rw [wp_bind]
      refine ((wp_iff_result _ (· = _)).2 (take_refused _ hne w)).conseq ?_ ?_
      · exact fun _ _ _ h => nomatch h
      · exact fun e _ _ h => congrArg Except.error (Except.error.inj h)
    rw [hraises]
    exact ⟨nofun, fun hno => absurd ⟨obj', phase', hphase, hwords⟩ hno⟩
  · refine iff_of_true ?_ hno
    rw [hsplit]
    cases h with
    | peeled hphase => exact absurd ⟨obj, phase, hphase, rfl⟩ hno
    | whole _ => rfl

omit [Host] in
/-- An object without a phase. -/
theorem rollCallSplit_iff_lamp :
    let _ : Host := scripted "did:ma:me" fun _ _ _ => .ok .nil
    let w := World.entered "did:ma:room"
    ((rollCallSplit ["brass", "lamp"]).run w).1 =
      .ok (.list ["brass", "lamp"], ["begin"]) := by
  intro _ w
  have hno : ¬ EndsInPhase ["brass", "lamp"] := by
    rintro ⟨obj, phase, hphase, heq⟩
    have hlast := congrArg (lastWord · 1) heq
    have hbefore := congrArg (lastWord · 2) heq
    cases hphase with
    | finish => exact absurd (hlast.trans (lastWord_one obj _)) (by decide)
    | start => exact absurd (hlast.trans (lastWord_one obj _)) (by decide)
    | timed _ => exact absurd (hbefore.trans (lastWord_two obj _ _).2) (by decide)
  exact (rollCallSplit_iff (.whole hno) w).2 hno

omit [Host] in
/-- The end of a roll call cannot be said: its phase is not peeled but refused. -/
theorem end_not_peeled :
    let _ : Host := scripted "did:ma:me" fun _ _ _ => .ok .nil
    let w := World.entered "did:ma:room"
    let obj : List SchemeVal := ["brass", "lamp"]
    let phase : List SchemeVal := ["end"]
    Phase phase ∧ ((rollCallSplit (obj ++ phase)).run w).1 ≠ .ok (.list obj, phase) := by
  intro _ w obj phase
  exact ⟨.finish, by decide +kernel⟩

end Image

end Zscheme
