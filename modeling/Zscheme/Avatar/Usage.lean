import Mathlib.Data.List.TakeWhile
import Zscheme.Avatar.Reach

/-!
# Usage errors

A command that is used with a slot left empty, or without its keyword, is refused, and is
to change nothing: no actor hears of it, and what the avatar carries and waits for stays.
Most commands check their words first. `take` and `find` forget an equip that is under way
before they do; `forge` does not check that it is given a name. So exactly then a refused
command leaves a trace (`misused_refused_iff`).
-/

namespace Zscheme

namespace Avatar

open Prim Stdlib Zscheme.Runtime Program

/-! ## Splitting at a keyword -/

/-- The words leave the slot before or after the keyword empty, or lack it where it is
    required. -/
def Lacks (keyword : String) (required : Bool) (words : List SchemeVal) : Prop :=
  words.takeWhile (· ≠ .str keyword) = [] ∨ words.dropWhile (· ≠ .str keyword) = [.str keyword] ∨
    required = true ∧ .str keyword ∉ words

theorem wordsBeforeKeyword_eq [Evaluator] (keyword : String) (words : List SchemeVal) :
    wordsBeforeKeyword keyword words = words.takeWhile (· ≠ .str keyword) := by
  induction words with
  | nil => rfl
  | cons w words ih =>
    rw [wordsBeforeKeyword, List.takeWhile_cons, ih]
    by_cases h : w = .str keyword <;> simp [h]

theorem wordsAfterKeyword_eq [Evaluator] (keyword : String) (words : List SchemeVal) :
    wordsAfterKeyword keyword words = (words.dropWhile (· ≠ .str keyword)).tail? := by
  induction words with
  | nil => rfl
  | cons w words ih =>
    rw [wordsAfterKeyword, List.dropWhile_cons, ih]
    by_cases h : w = .str keyword <;> simp [h]

theorem Lacks.splitCommand! [Evaluator] {keyword : String} {required : Bool}
    {words : List SchemeVal} (h : Lacks keyword required words) (usage : String) :
    splitCommand! words keyword usage required = .error usage := by
  rw [Avatar.splitCommand!, wordsBeforeKeyword_eq, wordsAfterKeyword_eq]
  rcases h with h | h | ⟨hrequired, hw⟩
  · rw [h]
    rfl
  · rw [h]
    simp
  · have hafter : words.dropWhile (· ≠ .str keyword) = [] :=
      List.dropWhile_eq_nil_iff.2 fun w hmem => decide_eq_true fun heq => hw (heq ▸ hmem)
    rw [hafter, hrequired]
    simp

/-- The words are split at the first keyword, if there is one, and no slot is left empty. -/
inductive Splits (keyword : String) (required : Bool) (words : List SchemeVal) :
    List SchemeVal → Option (List SchemeVal) → Prop
  | whole (hwords : words ≠ []) (hno : .str keyword ∉ words) (hrequired : required = false) :
    Splits keyword required words words none
  | at_keyword {before after : List SchemeVal} (hwords : words = before ++ .str keyword :: after)
    (hbefore : before ≠ []) (hfirst : .str keyword ∉ before) (hafter : after ≠ []) :
    Splits keyword required words before (some after)

section Split

variable [Evaluator] {keyword usage : String} {required : Bool}
  {words before after : List SchemeVal}

theorem splitCommand!_of_not_mem (hno : .str keyword ∉ words) :
    splitCommand! words keyword usage required =
      if words = [] ∨ required = true then .error usage else .ok (words, none) := by
  have hall : ∀ w ∈ words, decide (w ≠ .str keyword) = true :=
    fun w hw => decide_eq_true fun heq => hno (heq ▸ hw)
  rw [Avatar.splitCommand!, wordsBeforeKeyword_eq, wordsAfterKeyword_eq,
    List.takeWhile_eq_self_iff.2 hall, List.dropWhile_eq_nil_iff.2 hall]
  cases required <;> cases words <;> rfl

theorem splitCommand!_append (hfirst : .str keyword ∉ before) :
    splitCommand! (before ++ .str keyword :: after) keyword usage required =
      if before = [] ∨ after = [] then .error usage else .ok (before, some after) := by
  have hall : ∀ w ∈ before, decide (w ≠ .str keyword) = true :=
    fun w hw => decide_eq_true fun heq => hfirst (heq ▸ hw)
  rw [Avatar.splitCommand!, wordsBeforeKeyword_eq, wordsAfterKeyword_eq,
    List.takeWhile_append_of_pos hall, List.dropWhile_append_of_pos hall]
  cases before <;> cases after <;> simp

theorem Splits.splitCommand! {rest : Option (List SchemeVal)}
    (h : Splits keyword required words before rest) (usage : String) :
    Avatar.splitCommand! words keyword usage required = .ok (before, rest) := by
  cases h with
  | whole hwords hno hrequired =>
    rw [splitCommand!_of_not_mem hno, if_neg (by simp [hwords, hrequired])]
  | at_keyword hwords hbefore hfirst hafter =>
    rw [hwords, splitCommand!_append hfirst, if_neg (by simp [hbefore, hafter])]

/-- What is not split is refused. -/
theorem splitCommand!_cases (words : List SchemeVal) (keyword usage : String) (required : Bool) :
    (∃ before after, Splits keyword required words before after) ∨
      splitCommand! words keyword usage required = .error usage := by
  by_cases hmem : .str keyword ∈ words
  · obtain ⟨before, after, rfl, hfirst⟩ := List.eq_append_cons_of_mem hmem
    by_cases hempty : before = [] ∨ after = []
    · exact .inr (by rw [splitCommand!_append hfirst, if_pos hempty])
    · obtain ⟨hbefore, hafter⟩ := not_or.1 hempty
      exact .inl ⟨before, some after, .at_keyword rfl hbefore hfirst hafter⟩
  · by_cases hempty : words = [] ∨ required = true
    · exact .inr (by rw [splitCommand!_of_not_mem hmem, if_pos hempty])
    · obtain ⟨hwords, hrequired⟩ := not_or.1 hempty
      exact .inl ⟨words, none, .whole hwords hmem (Bool.eq_false_iff.2 hrequired)⟩

/-- `split-command!` splits words where they are to be split, and refuses all others. -/
theorem splitCommand!_iff (words : List SchemeVal) (keyword usage : String) (required : Bool) :
    (∀ before after, splitCommand! words keyword usage required = .ok (before, after) ↔
      Splits keyword required words before after) ∧
    ((∀ before after, ¬ Splits keyword required words before after) →
      splitCommand! words keyword usage required = .error usage) := by
  have hcases := splitCommand!_cases words keyword usage required
  refine ⟨fun before after => ⟨fun h => ?_, fun h => h.splitCommand! usage⟩, fun hno => ?_⟩
  · rcases hcases with ⟨before', after', hsplits⟩ | herror
    · obtain ⟨rfl, rfl⟩ := Prod.mk.inj (Except.ok.inj (h.symm.trans (hsplits.splitCommand! usage)))
      exact hsplits
    · exact nomatch h.symm.trans herror
  · exact hcases.resolve_left fun ⟨before, after, hsplits⟩ => hno before after hsplits

end Split

/-- A keyword between words, and one with no words after it. -/
theorem splitCommand!_iff_lamp :
    let _ : Evaluator := Stdlib.plain
    splitCommand! ["lamp", "in", "bag"] "in" "usage" true = .ok (["lamp"], some ["bag"]) ∧
      splitCommand! ["lamp", "in"] "in" "usage" true = .error "usage" := by
  intro _
  refine ⟨((splitCommand!_iff _ _ _ _).1 _ _).2 (.at_keyword rfl ?_ ?_ ?_),
    (splitCommand!_iff _ _ _ _).2 fun before after h => ?_⟩
  · exact List.cons_ne_nil _ _
  · decide
  · exact List.cons_ne_nil _ _
  · cases h with
    | whole _ hno _ => exact hno (by decide)
    | at_keyword hwords hbefore _ hafter =>
      rcases before with _ | ⟨_, _ | ⟨_, _ | _⟩⟩ <;> simp at hwords
      exact hafter hwords.2

variable [Host]

/-- The command is used with a required slot empty or without a required keyword. -/
def Command.Misused : Command → List SchemeVal → Prop
  | .take, words | .equip, words => Lacks "from" false words
  | .drop, words => words ≠ [] ∧ Lacks "from" false words
  | .put, words => Lacks "in" true words
  | .recycle, words => Lacks "in" false words
  | .give, words | .tell, words => Lacks "to" true words
  | .lock, words | .unlock, words => Lacks "with" false words
  | .name, words | .describe, words | .nick, words => Lacks "as" true words
  | .find, [] => True
  | .find, [did] => startsWithDid? did ≠ .ok true
  | .forge, [] | .forge, [_] => True
  | .forge, _ :: keyword :: nameWords => keyword ≠ "named" ∨ nameWords = []
  | .fill, words | .go, words | .delve, words => joinWords words = .ok ""
  | _, _ => False

/-! ## Refusals -/

/-- Between the two states no actor was called, and what the avatar carries, waits for and
    has seen is as it was. -/
structure World.Untouched (w w' : World) : Prop where
  silent : ∀ e ∈ w.effects w', e.isCall = false
  held : w'.slots.held = w.slots.held
  inv : w'.slots.inv = w.slots.inv
  invEntry : w'.slots.invEntry = w.slots.invEntry
  equipPending : w'.slots.equipPending = w.slots.equipPending
  dropPending : w'.slots.dropPending = w.slots.dropPending
  pendingActions : w'.focus.pendingActions = w.focus.pendingActions
  lastRoom : w'.focus.lastRoom = w.focus.lastRoom

/-- The command raises, and leaves no trace. -/
def Command.Refused (c : Command) (args : List SchemeVal) (w : World) : Prop :=
  ((c.run args).run w).1.isOk = false ∧ w.Untouched ((c.run args).run w).2

variable {c : Command} {args : List SchemeVal} {w : World}

omit [Host] in
theorem World.untouched_self (w : World) : w.Untouched w :=
  ⟨by simp, rfl, rfl, rfl, rfl, rfl, rfl, rfl⟩

theorem refused_iff : c.Refused args w ↔
    (c.run args).wp (fun _ _ => False) (fun _ w' => w.Untouched w') w := by
  refine (wp_iff_outcome _ fun ok w' => ok = false ∧ w.Untouched w').symm.trans ?_
  simp only [Bool.true_eq_false, false_and, true_and]

/-- A command that raises at once. -/
theorem refused_of_throw (h : ∃ e, c.run args = throw e) : c.Refused args w := by
  obtain ⟨e, he⟩ := h
  rw [refused_iff, he]
  exact w.untouched_self

theorem directionWords_empty {words : List SchemeVal} (h : joinWords words = .ok "")
    (usage : String) : directionWords words usage = .error usage := by
  rw [directionWords, h]
  rfl

/-- `go` draws the id of a walk before it looks at its words. -/
theorem go_refused {words : List SchemeVal} (h : joinWords words = .ok "") :
    Command.go.Refused words w := by
  rw [refused_iff]
  refine (wp_view _).2 ?_
  simp only [go, newTraverseId, random, getFocus, emit, numberToString, view_bind, view_program,
    view_lift, view_pure, wp_bind, wp_get, wp_update, wp_pure, wp_lift, directionWords_empty h]
  refine ⟨fun e he => ?_, rfl, rfl, rfl, rfl, rfl, rfl, rfl⟩
  rw [World.effects_eq (l := [.random _]) rfl, List.mem_singleton] at he
  rw [he, Effect.isCall]

theorem lockRpc_refused {usage verb : String} (hrun : c.run args = liftM (lockRpc! usage verb args))
    (h : Lacks "with" false args) : c.Refused args w := by
  refine refused_of_throw ⟨usage, ?_⟩
  rw [hrun, lockRpc!, h.splitCommand!]
  rfl

theorem propAsSugar_refused {key : String} (hrun : c.run args = liftM (propAsSugar key args))
    (h : Lacks "as" true args) : c.Refused args w := by
  refine refused_of_throw ⟨"usage: " ++ key ++ " <target...> as <value...>", ?_⟩
  rw [hrun, propAsSugar]
  simp only [h.splitCommand!]
  rfl

/-- The commands that check their words before they do anything that counts. -/
theorem refused_of_misused (h : c.Misused args) (htake : c ≠ .take) (hfind : c ≠ .find)
    (hforge : c ≠ .forge) : c.Refused args w := by
  cases c
  case take => exact absurd rfl htake
  case find => exact absurd rfl hfind
  case forge => exact absurd rfl hforge
  case go => exact go_refused h
  case equip =>
    refine refused_of_throw ⟨equipUsage, ?_⟩
    change equip args = _
    rw [equip, h.splitCommand!]
    rfl
  case drop =>
    obtain ⟨hne, h⟩ := h
    refine refused_of_throw ⟨dropUsage, ?_⟩
    change drop args = _
    rw [drop, if_neg (by simpa using hne), h.splitCommand!]
    rfl
  case put =>
    refine refused_of_throw ⟨putUsage, ?_⟩
    change liftM (put args) = _
    rw [put, h.splitCommand!]
    rfl
  case recycle =>
    refine refused_of_throw ⟨recycleUsage, ?_⟩
    change liftM (recycle args) = _
    rw [recycle, h.splitCommand!]
    rfl
  case give =>
    refine refused_of_throw ⟨giveUsage, ?_⟩
    change liftM (give args) = _
    rw [give, h.splitCommand!]
    rfl
  case tell =>
    refine refused_of_throw ⟨tellUsage, ?_⟩
    change liftM (tell args) = _
    rw [tell, h.splitCommand!]
    rfl
  case lock => exact lockRpc_refused rfl h
  case unlock => exact lockRpc_refused rfl h
  case name => exact propAsSugar_refused rfl h
  case describe => exact propAsSugar_refused rfl h
  case nick => exact propAsSugar_refused rfl h
  case fill =>
    refine refused_of_throw ⟨fillUsage, ?_⟩
    change liftM (fill args) = _
    rw [fill, directionWords_empty h]
    rfl
  case delve =>
    refine refused_of_throw ⟨delveUsage, ?_⟩
    change liftM (delve args) = _
    rw [delve, directionWords_empty h]
    rfl
  all_goals exact h.elim

/-! ## `take` and `find` -/

/-- A command that forgets the pending equip before it raises leaves no trace if there is
    none. -/
theorem refused_of_clear {e : String}
    (h : c.run args = (do setEquipPending (.bool false); throw e)) :
    c.Refused args w ↔ w.slots.equipPending = .bool false := by
  rw [refused_iff, h, wp_bind, wp_setEquipPending, wp_throw]
  constructor
  · exact fun hsame => hsame.equipPending.symm
  · intro hnone
    refine ⟨?_, rfl, rfl, rfl, hnone.symm, rfl, rfl, rfl⟩
    simp [World.effects_slots]

theorem take_refused_iff {words : List SchemeVal} (h : Lacks "from" false words) :
    Command.take.Refused words w ↔ w.slots.equipPending = .bool false := by
  refine refused_of_clear (e := takeUsage) ?_
  change take words = _
  rw [take, h.splitCommand!]
  rfl

theorem find_refused_iff {did : SchemeVal} (h : startsWithDid? did ≠ .ok true) :
    Command.find.Refused [did] w ↔ w.slots.equipPending = .bool false := by
  rcases hdid : startsWithDid? did with e | (_ | _)
  · refine refused_of_clear (e := e) ?_
    change find did = _
    rw [find, hdid]
    rfl
  · refine refused_of_clear (e := "usage: find <did>") ?_
    change find did = _
    rw [find, hdid]
    rfl
  · exact absurd hdid h

/-! ## Forging nothing -/

/-- What is in the hand stays there when room is made: it is the equipped container. -/
def Slots.HandStays (s : Slots) : Prop := ∀ h, s.held = some h → .str h.actor = s.myInv

/-- An actor hears of a thing that is forged: the room can be called, or it is a word, and
    to resolve that an actor is called, or an actor is what it refers to. -/
def World.Heard (w : World) : Prop :=
  w.slots.HasRoom ∨ w.slots.HandStays ∧ ∃ word, w.slots.room = some word ∧
    startsWithDid? word = .ok false ∧ Reaches w.slots w.focus word

/-- Without a name `forge` goes on: the hand is freed and the room is asked. -/
theorem forge_nameless (kind : SchemeVal) : forge kind ["named"] = (do
    dropHeldToRoom!
    let room ← room
    display (← command room "forge" [.map (makeMap [("kind", kind), ("name", "")])])
    return .nil) := by
  rw [forge, if_neg (by simp)]
  rfl

theorem not_refused_of_called
    (h : (c.run args).wp (fun _ (w' : World) => Called w.focus w'.focus)
      (fun _ w' => Called w.focus w'.focus) w) : ¬ c.Refused args w := by
  rintro ⟨_, hsame⟩
  obtain ⟨l, hl, e, he, hcall⟩ := (wp_iff_end _ fun w' : World => Called w.focus w'.focus).1 h
  have hsilent := hsame.silent e (by rwa [World.effects_eq hl])
  exact nomatch hcall.symm.trans hsilent

theorem Slots.not_handStays {s : Slots} (h : ¬ s.HandStays) :
    ∃ item, s.held = some item ∧ .str item.actor ≠ s.myInv := by
  simpa [HandStays] using h

/-- With a hand that stays as it is there is nothing to drop. -/
theorem dropHeldToRoom!_stays (h : w.slots.HandStays) {Q : Unit → World → Prop}
    {E : String → World → Prop} : dropHeldToRoom!.wp Q E w ↔ Q () w := by
  simp only [dropHeldToRoom!]
  rw [wp_bind, wp_getSlots]
  rcases hheld : w.slots.held with _ | item
  · exact Iff.rfl
  · simp only
    rw [wp_bind, wp_myInvIfAny, wp_ite, if_neg (not_not.2 (h item hheld))]
    exact Iff.rfl

/-- The hand is freed of anything else, if there is a room. -/
theorem dropHeldToRoom!_called (h : ¬ w.slots.HandStays) (hroom : w.slots.HasRoom) :
    dropHeldToRoom!.wp (fun _ (w' : World) => Called w.focus w'.focus)
      (fun _ w' => Called w.focus w'.focus) w := by
  obtain ⟨item, hheld, hne⟩ := Slots.not_handStays h
  obtain ⟨r, hr, hact⟩ := hroom
  have hcalled : ∀ w', w ≤ w' → w.AsksRoom w' (.str item.actor) → Called w.focus w'.focus := by
    intro w' hle hasks
    obtain ⟨reply, he⟩ := hasks r hr hact
    exact ⟨_, World.trace_eq hle, _, he, rfl⟩
  exact (dropHeldToRoom!_asks (Slots.holds_iff.2 ⟨item, hheld, rfl⟩) hne).conseq
    (fun _ _ => hcalled _) fun _ _ => hcalled _

/-- Without a room it is not freed. -/
theorem dropHeldToRoom!_homeless (h : ¬ w.slots.HandStays) (hroom : ¬ w.slots.HasRoom) :
    dropHeldToRoom!.wp (fun _ _ => False) (fun _ w' => w' = w) w := by
  obtain ⟨item, hheld, hne⟩ := Slots.not_handStays h
  simp only [dropHeldToRoom!]
  rw [wp_bind, wp_getSlots, hheld]
  simp only
  rw [wp_bind, wp_myInvIfAny, wp_ite, if_pos hne, wp_bind]
  exact (relocateToRoom!_homeless hroom).conseq (fun _ _ _ h => h.elim) fun _ _ _ h => h

/-- A forge without a name is refused where nobody hears of it. -/
theorem forge_refused_iff (kind : SchemeVal) :
    Command.forge.Refused [kind, "named"] w ↔ ¬ w.Heard := by
  have hrun : Command.forge.run [kind, "named"] = _ := forge_nameless kind
  let ctx : Ctx := makeMap [("kind", kind), ("name", "")]
  constructor
  · refine fun hrefused hheard => not_refused_of_called ?_ hrefused
    rw [hrun, wp_bind]
    have hlater : ∀ {α : Type} {p : Act α} {w' : World}, Called w.focus w'.focus →
        p.wp (fun _ (w' : World) => Called w.focus w'.focus)
          (fun _ w' => Called w.focus w'.focus) w' := fun h =>
      wp_of_le (fun _ _ hle => h.later hle) fun _ _ hle => h.later hle
    by_cases hstays : w.slots.HandStays
    · -- the room is asked to forge
      have hcalled : ∃ word, w.slots.room = some word ∧
          (command word "forge" [.map ctx] w.slots).wp (fun _ => Called w.focus)
            (fun _ => Called w.focus) w.focus := by
        by_cases hroom : w.slots.HasRoom
        · obtain ⟨x, hx, hact⟩ := hroom
          refine ⟨.str x, hx, ?_⟩
          rw [command_address hact]
          exact wp_called_actorCall hact _ _
        · obtain ⟨-, word, hword, hdid, hreaches⟩ := hheard.resolve_left hroom
          refine ⟨word, hword, (command_reaches hroom hdid _ _).conseq (fun _ _ _ h => h.1) ?_⟩
          rintro e f' - (h | h)
          · exact h.1
          · exact absurd hreaches h.2
      obtain ⟨word, hword, hcalled⟩ := hcalled
      rw [dropHeldToRoom!_stays hstays, wp_bind]
      refine wp_room (fun r hr => ?_) fun _ hr => nomatch hr.symm.trans hword
      obtain rfl := Option.some.inj (hr.symm.trans hword)
      rw [wp_bind]
      exact (wp_view _).2 (hcalled.conseq (fun _ _ _ h => hlater h) fun _ _ _ h => h)
    · have hroom : w.slots.HasRoom := hheard.resolve_right fun h => hstays h.1
      exact (dropHeldToRoom!_called hstays hroom).conseq (fun _ _ _ h => hlater h) fun _ _ _ h => h
  · intro hheard
    have hroom : ¬ w.slots.HasRoom := fun h => hheard (.inl h)
    rw [refused_iff, hrun, wp_bind]
    by_cases hstays : w.slots.HandStays
    · rw [dropHeldToRoom!_stays hstays, wp_bind]
      refine wp_room (fun word hword => ?_) fun _ _ => w.untouched_self
      rw [wp_bind]
      have hno : startsWithDid? word = .ok false → ¬ Reaches w.slots w.focus word :=
        fun hdid hreaches => hheard (.inr ⟨hstays, word, hword, hdid, hreaches⟩)
      have hunreached := command_unreached hroom hword hno "forge" [.map ctx]
      refine (wp_view _).2 (hunreached.conseq (fun _ _ _ h => h.elim) ?_)
      rintro e f' - rfl
      exact w.untouched_self
    · exact (dropHeldToRoom!_homeless hstays hroom).conseq (fun _ _ _ h => h.elim)
        fun _ _ _ h => h ▸ w.untouched_self

/-! ## All commands -/

/-- The condition under which a misused command leaves no trace: `take` and `find` have no
    pending equip to forget, and nobody hears of a forge without a name. -/
def Command.Harmless : Command → List SchemeVal → World → Prop
  | .take, _, w | .find, [_], w => w.slots.equipPending = .bool false
  | .forge, [_, keyword], w => keyword = "named" → ¬ w.Heard
  | _, _, _ => True

theorem find_misused_iff (h : Command.find.Misused args) :
    Command.find.Refused args w ↔ Command.find.Harmless args w := by
  rcases args with _ | ⟨did, _ | ⟨more, rest⟩⟩
  · exact iff_of_true (refused_of_throw ⟨_, rfl⟩) trivial
  · exact find_refused_iff h
  · exact h.elim

theorem forge_misused_iff (h : Command.forge.Misused args) :
    Command.forge.Refused args w ↔ Command.forge.Harmless args w := by
  rcases args with _ | ⟨kind, _ | ⟨keyword, nameWords⟩⟩
  · exact iff_of_true (refused_of_throw ⟨_, rfl⟩) trivial
  · exact iff_of_true (refused_of_throw ⟨forgeUsage, rfl⟩) trivial
  by_cases hkeyword : keyword = "named"
  · obtain rfl : nameWords = [] := h.resolve_left (not_not.2 hkeyword)
    subst hkeyword
    exact (forge_refused_iff kind).trans (imp_iff_right rfl).symm
  · have hthrow : Command.forge.run (kind :: keyword :: nameWords) = throw forgeUsage :=
      if_pos hkeyword
    refine iff_of_true (refused_of_throw ⟨_, hthrow⟩) ?_
    rcases nameWords with _ | _
    · exact fun heq => absurd heq hkeyword
    · trivial

/-- A misused command raises and leaves no trace, in exactly these states. -/
theorem misused_refused_iff (h : c.Misused args) : c.Refused args w ↔ c.Harmless args w := by
  by_cases htake : c = .take
  · subst htake
    exact take_refused_iff h
  by_cases hfind : c = .find
  · subst hfind
    exact find_misused_iff h
  by_cases hforge : c = .forge
  · subst hforge
    exact forge_misused_iff h
  refine iff_of_true (refused_of_misused h htake hfind hforge) ?_
  cases c
  case take => exact absurd rfl htake
  case find => exact absurd rfl hfind
  case forge => exact absurd rfl hforge
  all_goals trivial

omit [Host] in
/-- A take without an item, with nothing pending. -/
theorem misused_refused_iff_take :
    let _ : Host := scripted "did:ma:me" fun _ _ _ => .ok .nil
    Command.take.Refused ["from", "box"] (World.entered "did:ma:room") ↔
      Command.take.Harmless ["from", "box"] (World.entered "did:ma:room") := by
  intro _
  exact misused_refused_iff (.inl rfl)

omit [Host] in
/-- A take without words forgets the chest that is being equipped, and a forge without a
    name drops the lamp that is held. -/
theorem take_forgets :
    let _ : Host := scripted "did:ma:me" fun _ method _ =>
      .ok (if method = "kind?" then "/ma/container/0.0.1" else .nil)
    (∃ w : World, (avatar Slots.Fresh).exec (World.entered "did:ma:room")
        [.command .equip ["did:ma:chest"]] = some w ∧
      Command.take.Misused [] ∧ ¬ Command.take.Refused [] w) ∧
    ∃ w : World, (avatar Slots.Fresh).exec (World.entered "did:ma:room")
        [.event ":parent" (.list [.map [("actor", "did:ma:lamp"), ("parent", "did:ma:me")]])] =
        some w ∧
      Command.forge.Misused ["torch", "named"] ∧ ¬ Command.forge.Refused ["torch", "named"] w := by
  intro _
  refine ⟨⟨_, exec_avatar _ _ _, .inl rfl, fun h => ?_⟩, _, exec_avatar _ _ _, .inr rfl,
    fun h => ?_⟩
  · exact absurd h.2.equipPending (by decide +kernel)
  · exact absurd h.2.silent (by decide +kernel)

end Avatar

end Zscheme
