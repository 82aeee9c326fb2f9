import Zscheme.Lib.System
import Zscheme.Avatar.Events
import Zscheme.Scheme.Strings

/-!
# Runs of the avatar

One operation of the avatar is a command with any words, or the delivery of an
event with any arguments. An operation that raises keeps what it has changed. A run
is any sequence of operations: which ones and with what arguments is in the labels,
what the actors answer is in the `Host`.
-/

namespace Zscheme

namespace Avatar

open Prim Zscheme.Runtime

/-- The commands of the avatar library. -/
inductive Command
  | go | dig | fill | delve | enter | leave | startHere
  | take | takeFrom | find | equip | unequip | keep | drop | put | putIn | forge | recycle
  | rollCall | say | emote | narrate | addTrigger | removeTrigger
  | claim | give | owner | lock | unlock | remove | tell | prop | name | describe | nick
  | here? | did? | who? | occupants? | things? | exits? | inv | help | look
  deriving DecidableEq

/-- One operation. -/
inductive Op
  | command (c : Command) (args : List SchemeVal)
  | event (event args : SchemeVal)

variable [Host]

/-- The view a command is, if it assigns no slot. -/
def Command.view? : Command → List SchemeVal → Option (View SchemeVal)
  | .go, words => some (Avatar.go words)
  | .dig, args => some (Avatar.dig args)
  | .fill, words => some (Avatar.fill words)
  | .delve, words => some (Avatar.delve words)
  | .leave, [] => some Avatar.leave
  | .startHere, [] => some Avatar.startHere
  | .keep, rest => some (Avatar.keep rest)
  | .put, words | .putIn, words => some (Avatar.put words)
  | .recycle, words => some (Avatar.recycle words)
  | .say, words => some (Avatar.say words)
  | .emote, words => some (Avatar.emote words)
  | .narrate, words => some (Avatar.narrate words)
  | .addTrigger, words => some (Avatar.addTrigger words)
  | .removeTrigger, [id] => some (Avatar.removeTrigger id)
  | .claim, args => some (Avatar.claim args)
  | .give, words => some (Avatar.give words)
  | .owner, [object] => some (Avatar.owner object)
  | .lock, words => some (Avatar.lock words)
  | .unlock, words => some (Avatar.unlock words)
  | .remove, words => some (Avatar.remove words)
  | .tell, words => some (Avatar.tell words)
  | .prop, target :: key :: valueWords => some (Avatar.prop target key valueWords)
  | .name, words => some (Avatar.name words)
  | .describe, words => some (Avatar.describe words)
  | .nick, words => some (Avatar.nick words)
  | .here?, [] => some room
  | .did?, rest => some (Avatar.did? rest)
  | .who?, [] => some Avatar.who?
  | .occupants?, [] => some Avatar.occupants?
  | .things?, [] => some Avatar.things?
  | .exits?, [] => some Avatar.exits?
  | .inv, rest => some (Avatar.inv rest)
  | .help, rest => some (Avatar.help rest)
  | .look, rest => some (Avatar.look rest)
  | _, _ => none

/-- A command with its arguments. -/
def Command.run : Command → List SchemeVal → Act SchemeVal
  | .enter, [target, word] => Avatar.enter target word
  | .take, words => Avatar.take words
  | .takeFrom, [container, item] => Avatar.takeFrom container item
  | .find, [did] => Avatar.find did
  | .equip, words => Avatar.equip words
  | .unequip, rest => Avatar.unequip rest
  | .drop, rest => Avatar.drop rest
  | .forge, kind :: rest => Avatar.forge kind rest
  | .rollCall, words => Avatar.rollCall words
  | c, args => match c.view? args with
    | some v => liftM v
    -- A wrong number of arguments.
    | none => liftM (refuse "apply" args : Except String SchemeVal)

/-- An operation. -/
def Op.run : Op → Act Unit
  | .command c args => do let _ ← c.run args
  | .event e args => onEvent e args

/-- The slots just after the libraries were loaded: an empty hand and nothing
    pending. The inventory is kept locally and may be there from before. -/
def Slots.Fresh (s : Slots) : Prop :=
  s.held = none ∧ s.invEntry = none ∧ s.equipPending = .bool false ∧ s.dropPending = []

/-- The avatar, from slots as given: every operation is possible in every state. -/
def avatar (start : Slots → Prop) : System World Op where
  init w := start w.slots
  next w op := some (op.run.run w).2

/-- The state after some operations. -/
def World.after (w : World) (ops : List Op) : World := ops.foldl (fun w op => (op.run.run w).2) w

theorem exec_avatar (start : Slots → Prop) (w : World) (ops : List Op) :
    (avatar start).exec w ops = some (w.after ops) := by
  induction ops generalizing w with
  | nil => rfl
  | cons op ops ih => exact ih _

/-! ## Scripted actors -/

/-- An avatar that has just entered a room. -/
def World.entered (room : String) : World :=
  ⟨⟨none, none, none, .bool false, [], some room, none⟩, ⟨none, [], []⟩⟩

/-- How the dot grammar keeps a text: its dots separate the parts of a path. -/
def slashed (s : String) : String := .ofList (s.toList.map fun c => if c = '.' then '/' else c)

omit [Host] in
/-- A text without a dot is kept. -/
theorem slashed_eq {s : String} (h : '.' ∉ s.toList) : slashed s = s := by
  have hmap : (s.toList.map fun c => if c = '.' then '/' else c) = s.toList.map id :=
    List.map_congr_left fun c hc => if_neg (ne_of_mem_of_not_mem hc h)
  rw [slashed, hmap, List.map_id, String.ofList_toList]

/-- A host on which runs can be evaluated: every DID without a dot is the address of an
    actor, and the actors answer as given, whatever went before. -/
@[reducible] def scripted (did : String)
    (reply : String → String → List SchemeVal → Except String SchemeVal) : Host where
  toEvaluator := Stdlib.plain
  did := did
  profileName := none
  profileDescription := none
  isActor s := 7 ≤ stringLength s && slice s 0 7 = some "did:ma:" && '.' ∉ s.toList
  isActor_did s hs := by
    obtain ⟨hl, hs⟩ := Bool.and_eq_true_iff.1 (Bool.and_eq_true_iff.1 hs).1
    simp only [startsWithDid?, substring, of_decide_eq_true hl, of_decide_eq_true hs, if_true]
    rfl
  setPath old v := .ok (match v with
    | .str s => some (.str (slashed s))
    | _ => old)
  setPath_actor old s hs := by
    have hdot : '.' ∉ s.toList := of_decide_eq_true (Bool.and_eq_true_iff.1 hs).2
    simp only [slashed_eq hdot]
  reply _ := reply
  msgSend _ _ _ := .ok .nil
  random _ := 0

end Avatar

end Zscheme
