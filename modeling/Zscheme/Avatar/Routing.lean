import Zscheme.Avatar.Custody
import Zscheme.Avatar.Target

/-!
# Where a proposal goes

Commands ask an actor to move to the avatar and return; the actor proposes itself later.
Where its proposal is to go is then read off two registers: `equip-pending`, the one
container that is booked for the inventory slot, and `drop-pending`, the items that are
to be dropped at once. Every other item goes to the hand.

What was requested is history (`Requests`): the latest request of each actor that was
neither refused nor reported to have failed, the booking, and the pending drops. The
booking is cancelled by every `take` and `find`, and replaced by every `equip` that
passes its checks. The registers agree with it in every reachable state
(`Current.step`). They do not always agree with the latest request: a failure that is
reported later leaves a pending drop behind, and `take-from` a booking. In every run in
which they agree with it whenever a proposal is acknowledged (`Agrees`), each proposal
goes where the latest request sent it (`proposal_routed`).
-/

namespace Zscheme

namespace Avatar

open Prim Zscheme.Runtime Program

/-- Where a command sends the actor it asks. -/
inductive Route
  | hand | inventory | room
  deriving DecidableEq

/-- A request that was not refused. -/
structure Request where
  /-- Where the actor is to go. -/
  route : Route
  /-- What the one that was asked has answered; the id of a move that goes on. -/
  answer : SchemeVal

/-- What was requested. -/
structure Requests where
  /-- The latest request of an actor. -/
  latest : String → Option Request
  /-- The container that is to be equipped, or false. -/
  booking : SchemeVal
  /-- The items that are to be dropped. -/
  dropping : String → Bool

/-- `x` was asked to move to the avatar: by its `hold`, or by the `take` of what it
    is in. -/
def Effect.asked (x : String) : Effect → Option SchemeVal
  | .call y method args (.ok v) =>
    if method = "hold" ∧ y = x ∨ method = "take" ∧ args = [.str x] then some v else none
  | _ => none

/-- Where the command of an operation sends what it asks. -/
def Op.route? : Op → Option Route
  | .command .take _ | .command .takeFrom _ | .command .find _ | .command .rollCall _ => some .hand
  | .command .equip _ => some .inventory
  | .command .drop _ => some .room
  | _ => none

/-- The id of the move that an event reports to have failed. -/
def Op.failed? : Op → Option SchemeVal
  | .event e (.list [.map c]) =>
    if (e = ":take-event" ∨ e = ":put-event") ∧ (Dict.get? c "status").getD "ok" ≠ "ok" then
      (Dict.get? c "id").filter (·.string?)
    else none
  | _ => none

variable [Host]

/-- `roll-call` ends in a phase, which it leaves out of its words with `take`. -/
def rollCallTakes (words : List SchemeVal) : Bool :=
  lastWord words 1 = "end" || match rollCallSeconds? (lastWord words 1) with
    | .ok seconds => seconds && lastWord words 2 = "begin" || lastWord words 1 = "begin"
    | .error _ => false

/-- What is booked after an operation that is no handshake. -/
def Op.booked (w : World) (ok : Bool) (booking : SchemeVal) : Op → SchemeVal
  | .command .take _ => .bool false
  | .command .find [_] => .bool false
  | .command .rollCall words => if rollCallTakes words then .bool false else booking
  | .command .equip words => bookedBy ((equipTarget words).answer w) ok booking
  | _ => booking

/-- Whether an item is to be dropped after an operation that is no handshake. -/
def Op.marked (w : World) (ok : Bool) (x : String) (before : Bool) : Op → Bool
  | .command .drop rest => markedBy ((dropTarget rest).answer w) ok x before
  | _ => before

/-- The handshake of the container that is booked was acknowledged. -/
def Requests.fulfilled (q : Requests) (op : Op) (l : List Effect) : Bool :=
  match q.booking with
  | .str x => op.proposes x && l.any (·.accepts x)
  | _ => false

/-- The requests after an operation. A booking is used up when it is fulfilled, a pending
    drop by the first proposal that the booking does not take, and the latest request by
    the first proposal that is acknowledged. -/
def Requests.after (q : Requests) (w : World) (op : Op) : Requests :=
  let r := op.run.run w
  let l := w.effects r.2
  { latest x :=
      if op.proposes x && l.any (·.accepts x) then none
      else match op.route?, l.findSome? (·.asked x) with
        | some route, some answer => some ⟨route, answer⟩
        | _, _ => (q.latest x).filter fun request => op.failed? ≠ some request.answer
    booking := if q.fulfilled op l then .bool false else op.booked w r.1.isOk q.booking
    dropping x := op.marked w r.1.isOk x (q.dropping x) && !(op.proposes x && q.booking ≠ .str x) }

/-- The avatar, with what was requested beside it. -/
def courier (start : Slots → Prop) : System (World × Requests) Op where
  init s := start s.1.slots ∧ s.2 = ⟨fun _ => none, .bool false, fun _ => false⟩
  next s op := some ((op.run.run s.1).2, s.2.after s.1 op)

variable {w w' w'' : World} {m : Ctx} {x : String} {op : Op}

/-! ## The registers after an operation -/

/-- `take` cancels the booking, whatever else it does. -/
theorem take_cancels (words : List SchemeVal) (w : World) :
    ((take words).run w).2.slots.equipPending = .bool false := by
  have h : (take words).run w =
      (take words).run { w with slots := { w.slots with equipPending := .bool false } } := rfl
  rw [h]
  exact (booking_stable (.bool false)).take_keeps (fun _ _ => rfl) words _ rfl

/-- `find` cancels the booking, whatever else it does. -/
theorem find_cancels (did : SchemeVal) (w : World) :
    ((find did).run w).2.slots.equipPending = .bool false := by
  have h : (find did).run w =
      (find did).run { w with slots := { w.slots with equipPending := .bool false } } := rfl
  rw [h]
  exact (booking_stable (.bool false)).find_keeps (fun _ _ => rfl) did _ rfl

/-- `roll-call` cancels the booking when it ends in a phase. -/
theorem rollCallSplit_booking (words : List SchemeVal) (w : World) :
    (rollCallSplit words).wp
      (fun _ w' => w'.slots.equipPending =
        if rollCallTakes words then .bool false else w.slots.equipPending)
      (fun _ w' => w'.slots.equipPending =
        if rollCallTakes words then .bool false else w.slots.equipPending) w := by
  -- a `take` clears the booking; without one it is left alone
  have htake : ∀ (l : List SchemeVal) (f : SchemeVal → SchemeVal × List SchemeVal),
      rollCallTakes words = true → (take l >>= fun a => pure (f a)).wp
        (fun _ w' => w'.slots.equipPending =
          if rollCallTakes words then .bool false else w.slots.equipPending)
        (fun _ w' => w'.slots.equipPending =
          if rollCallTakes words then .bool false else w.slots.equipPending) w := by
    intro l f h
    rw [h, wp_bind]
    exact (wp_iff_end _ _).2 (take_cancels l w)
  unfold rollCallSplit
  simp only
  split
  · next hend => exact htake _ _ (by simp [rollCallTakes, hend])
  next hend =>
  rw [wp_bind]
  refine wp_lift_of (fun seconds hs => ?_) fun e hs => ?_
  · split
    · next hb => exact htake _ _ (by simp [rollCallTakes, hs, hb])
    next hb =>
    split
    · next hbegin => exact htake _ _ (by rw [rollCallTakes, hs]; simp [hbegin])
    · next hbegin =>
      rw [if_neg]
      · rfl
      · simpa [rollCallTakes, hs, hend, hbegin] using hb
  · rw [if_neg]
    simp [rollCallTakes, hs, hend]

theorem rollCall_booking (words : List SchemeVal) (w : World) :
    ((rollCall words).run w).2.slots.equipPending =
      if rollCallTakes words then .bool false else w.slots.equipPending := by
  refine (wp_iff_end (rollCall words) fun w' => w'.slots.equipPending =
    if rollCallTakes words then .bool false else w.slots.equipPending).1 ?_
  refine (wp_bind (rollCallSplit words) _).2 ?_
  refine (rollCallSplit_booking words w).conseq (fun (objectWords, phaseArgs) w₁ _ h => ?_)
    fun _ _ _ h => h
  generalize (if rollCallTakes words then SchemeVal.bool false else w.slots.equipPending) = booking
    at h ⊢
  have hstable := booking_stable booking
  refine Within.keeps ?_ h
  simp only
  split
  · exact (hstable.view_keeps _).bind fun _ => (hstable.view_keeps _).bind fun _ => within_pure _
  · refine (within_lift _).bind fun _ => (within_lift _).bind fun _ => ?_
    exact (hstable.view_keeps _).bind fun _ => (hstable.view_keeps _).bind fun _ => within_pure _

/-- An operation that is a command ends as the command does. -/
theorem Op.run_command (c : Command) (args : List SchemeVal) (w : World) :
    ((Op.command c args).run.run w).2 = ((c.run args).run w).2 ∧
      ((Op.command c args).run.run w).1.isOk = ((c.run args).run w).1.isOk := by
  change (Program.run (Program.bind (c.run args) fun _ => Program.pure ()) w).2 = _ ∧
    (Program.run (Program.bind (c.run args) fun _ => Program.pure ()) w).1.isOk = _
  simp only [Program.bind]
  rcases (c.run args).run w with ⟨_ | _, _⟩ <;> exact ⟨rfl, rfl⟩

/-- What is booked changes with the four commands that may book or cancel, as their
    targets tell. -/
theorem Op.run_booking (hm : op.parentCtx? = none) (w : World) :
    (op.run.run w).2.slots.equipPending =
      op.booked w (op.run.run w).1.isOk w.slots.equipPending := by
  -- Every other operation leaves the booking alone: it is a stable property.
  have hkeep : ∀ op' : Op, op'.parentCtx? = none → op'.command? ≠ some .take →
      op'.command? ≠ some .find → op'.command? ≠ some .rollCall → op'.command? ≠ some .equip →
      (op'.run.run w).2.slots.equipPending = w.slots.equipPending := by
    intro op' hm' htake hfind hroll hequip
    refine Op.run_keeps (booking_stable w.slots.equipPending) ?_ ?_ w rfl
    · refine ⟨?_, fun h => absurd h hequip, fun _ _ _ h => h, fun _ => booking_unbookable _,
        fun _ _ _ _ h => h⟩
      rintro (h | h | h)
      · exact absurd h htake
      · exact absurd h hfind
      · exact absurd h hroll
    · rintro ctx rfl
      exact handleAvatarParent!_keeps fun m hctx => by subst hctx; cases hm'
  simp only [Op.booked]
  split
  · rw [(Op.run_command .take _ w).1]
    exact take_cancels _ w
  · rw [(Op.run_command .find _ w).1]
    exact find_cancels _ w
  · rw [(Op.run_command .rollCall _ w).1]
    exact rollCall_booking _ w
  · next words =>
    obtain ⟨hend, hok⟩ := Op.run_command .equip words w
    rw [hend, hok]
    exact (wp_iff_outcome (equip words) fun ok (w' : World) => Books _ ok w.slots w'.slots).1
      (equip_foretold words w)
  · next htake hfind hroll hequip =>
    rcases op with ⟨c, args⟩ | ⟨event, args⟩
    · by_cases hc : c = .find
      · -- `find` without its argument, or with more than that.
        subst hc
        rw [(Op.run_command .find args w).1]
        rcases args with _ | ⟨did, _ | ⟨_, _⟩⟩
        · rfl
        · exact absurd rfl (hfind did)
        · rfl
      · refine hkeep _ rfl ?_ (fun h => hc (Option.some.inj h)) ?_ ?_
        · exact fun h => htake args (by rw [Option.some.inj h])
        · exact fun h => hroll args (by rw [Option.some.inj h])
        · exact fun h => hequip args (by rw [Option.some.inj h])
    · exact hkeep _ hm nofun nofun nofun nofun

/-- What is to be dropped changes with `drop`, as its target tells. -/
theorem Op.run_marked (hm : op.parentCtx? = none) (w : World) (x : String) :
    (op.run.run w).2.slots.awaitsDrop x =
      op.marked w (op.run.run w).1.isOk x (w.slots.awaitsDrop x) := by
  by_cases hdrop : op.command? = some .drop
  · rcases op with ⟨c, rest⟩ | ⟨event, args⟩
    · obtain rfl := Option.some.inj hdrop
      obtain ⟨hend, hok⟩ := Op.run_command .drop rest w
      rw [hend, hok]
      exact (wp_iff_outcome (drop rest) fun ok (w' : World) => Marks _ ok w.slots w'.slots).1
        (drop_foretold rest w) x
    · cases hdrop
  -- Without `drop`, nothing marks an item, and only a handshake unmarks one.
  · have hkeep : (op.run.run w).2.slots.dropPending = w.slots.dropPending := by
      have hstable := marked_stable w.slots.dropPending
      refine Op.run_keeps hstable ⟨fun _ _ h => h, fun _ => ?_, fun h => absurd h hdrop,
        fun h => absurd h hdrop, fun _ _ _ _ h => h⟩ ?_ w rfl
      · exact hstable.equipPropose_keeps (fun _ h => h) fun _ h => h
      · rintro ctx rfl
        exact handleAvatarParent!_keeps fun m hctx => by subst hctx; cases hm
    have hmarked : op.marked w (op.run.run w).1.isOk x (w.slots.awaitsDrop x) =
        w.slots.awaitsDrop x := by
      simp only [Op.marked]
      split
      · exact absurd rfl hdrop
      · rfl
    rw [hmarked, Slots.awaitsDrop, hkeep]
    rfl

/-! ## The registers after a handshake -/

/-- The handshake of the container that is booked was acknowledged. -/
def World.Fulfilled (w w' : World) (m : Ctx) : Prop :=
  ∃ x, w.slots.equipPending = .str x ∧ Proposes m x ∧ w.Answered w' x

/-- What a handshake does to the registers. -/
structure Handled (m : Ctx) (w w' : World) : Prop where
  le : w ≤ w'
  cleared : w.Fulfilled w' m → w'.slots.equipPending = .bool false
  kept : ¬ w.Fulfilled w' m → w'.slots.equipPending = w.slots.equipPending
  dropping : ∀ x, w'.slots.awaitsDrop x =
    (w.slots.awaitsDrop x && !(Proposes m x && w.slots.equipPending ≠ .str x))

theorem Handled.display (h : Handled m w w') (text : String) :
    Handled m w (w'.push (.display text)) := by
  have hful : w.Fulfilled (w'.push (.display text)) m ↔ w.Fulfilled w' m := by
    simp only [World.Fulfilled, World.answered_display h.le]
  exact ⟨h.le.trans (World.le_push _ _), fun hf => h.cleared (hful.1 hf),
    fun hf => h.kept fun hf' => hf (hful.2 hf'), h.dropping⟩

/-- Dropping an actor changes what the avatar carries, and nothing else. -/
theorem World.Dropped.frame (h : w.Dropped (.str x) w') :
    ∃ h e i, w'.slots = { w.slots with held := h, invEntry := e, inv := i } := by
  rcases h with ⟨hs, _⟩ | ⟨_, hs⟩ <;> rw [hs]
  · exact w.slots.forget_frame _
  · split <;> exact ⟨_, _, _, rfl⟩

/-- A proposal that the booking does not take uses up the pending drop of the item. -/
theorem awaitsDrop_used (hx : Proposes m x) (hp : w.slots.equipPending ≠ .str x)
    (hs : ∀ y, w'.slots.awaitsDrop y = if y = x then false else w.slots.awaitsDrop y) (y : String) :
    w'.slots.awaitsDrop y =
      (w.slots.awaitsDrop y && !(Proposes m y && w.slots.equipPending ≠ .str y)) := by
  rw [hs]
  by_cases hy : y = x
  · subst hy
    simp [hx, hp]
  · have hny : ¬ Proposes m y := fun h => hy (h.eq hx)
    simp [hy, hny]

/-- Without a pending drop to use up, none is. -/
theorem awaitsDrop_unused
    (hf : ∀ y, Proposes m y → w.slots.equipPending ≠ .str y → w.slots.awaitsDrop y = false)
    (hs : w'.slots.dropPending = w.slots.dropPending) (y : String) : w'.slots.awaitsDrop y =
      (w.slots.awaitsDrop y && !(Proposes m y && w.slots.equipPending ≠ .str y)) := by
  have hsame : w'.slots.awaitsDrop y = w.slots.awaitsDrop y := by
    rw [Slots.awaitsDrop, hs]
    rfl
  rw [hsame]
  by_cases hy : Proposes m y ∧ w.slots.equipPending ≠ .str y
  · rw [hf y hy.1 hy.2]
    rfl
  · have hny : (decide (Proposes m y) && decide (w.slots.equipPending ≠ .str y)) = false := by
      simpa using hy
    rw [hny]
    simp

theorem Handshake.handled (hle : w ≤ w') (hh : Handshake m w w') : Handled m w w' := by
  -- A booking is fulfilled only by the item it names, and only if that item is answered.
  have hnot : ∀ x, Proposes m x → w.slots.equipPending ≠ .str x → ¬ w.Fulfilled w' m := by
    rintro x hx hp ⟨y, hy, hy', _⟩
    exact hp (hx.eq hy' ▸ hy)
  have hidle : ∀ l, Unanswered m l → l = w.effects w' → ¬ w.Fulfilled w' m := by
    rintro _ he rfl ⟨y, _, _, hans⟩
    exact he.not_answered hans
  cases hh with
  | idle hs he hf =>
    have hn := hidle _ he rfl
    exact ⟨hle, fun h => absurd h hn, fun _ => by rw [hs], awaitsDrop_unused hf (by rw [hs])⟩
  | booked x hs hx _ hp he =>
    have hans : w.Answered w' x := by
      obtain ⟨text, v, he⟩ := he
      simp [World.Answered, he, Effect.accepts]
    refine ⟨hle, fun _ => ?_, fun h => absurd ⟨x, hp, hx, hans⟩ h, awaitsDrop_unused ?_ ?_⟩
    · rw [hs]
      exact Slots.equipPending_release _
    · exact fun y hy hne => absurd (hy.eq hx ▸ hp) hne
    · rw [hs, Slots.release]
      split <;> rfl
  | unmarked x hs hx hp _ he =>
    have hn := hidle _ he rfl
    refine ⟨hle, fun h => absurd h hn, fun _ => by rw [hs], awaitsDrop_used hx hp fun y => ?_⟩
    rw [hs]
    exact w.slots.awaitsDrop_delete x y
  | dropped x w₁ hs₁ ho _ _ _ hx _ _ hp =>
    have hn := hnot x hx hp
    have hs : w'.slots.equipPending = w₁.slots.equipPending ∧
        w'.slots.dropPending = w₁.slots.dropPending := by
      rcases ho with ho | ho
      · obtain ⟨_, _, _, hf⟩ := ho.frame
        rw [hf]
        exact ⟨rfl, rfl⟩
      · rw [ho]
        exact ⟨rfl, rfl⟩
    refine ⟨hle, fun h => absurd h hn, fun _ => by rw [hs.1, hs₁], awaitsDrop_used hx hp ?_⟩
    intro y
    rw [Slots.awaitsDrop, hs.2, hs₁]
    exact w.slots.awaitsDrop_delete x y
  | refreshed x hs hx _ _ _ hp hmark =>
    refine ⟨hle, fun h => absurd h (hnot x hx hp), fun _ => by rw [hs],
      awaitsDrop_unused (fun y hy _ => ?_) (by rw [hs])⟩
    exact hy.eq hx ▸ Bool.eq_false_iff.2 hmark
  | held x _ hs hx _ _ _ _ _ hp hmark =>
    refine ⟨hle, fun h => absurd h (hnot x hx hp), fun _ => by rw [hs],
      awaitsDrop_unused (fun y hy _ => ?_) (by rw [hs])⟩
    exact hy.eq hx ▸ Bool.eq_false_iff.2 hmark
  | released x hs _ _ hparent =>
    have hn : ¬ w.Fulfilled w' m := by
      rintro ⟨_, _, hy, _⟩
      exact hparent hy.1
    exact ⟨hle, fun h => absurd h hn, fun _ => by rw [hs],
      awaitsDrop_unused (fun _ hy _ => absurd hy.1 hparent) (by rw [hs])⟩

/-! ## Where proposals go -/

/-- `x` went to the inventory slot. -/
def ToInventory (m : Ctx) (x : String) (s' : Slots) : Prop :=
  s'.inv = some (.str x) ∧ s'.invEntry = some m ∧ ¬ s'.InHand x

/-- `x` went to the hand. -/
def ToHand (m : Ctx) (x : String) (s s' : Slots) : Prop :=
  ∃ h : Held, h.ctx = m ∧ h.actor = x ∧ s' = { s with held := some h }

/-- The ctx of the equipped container was cached again. -/
def Refreshes (m : Ctx) (s s' : Slots) : Prop := s' = { s with invEntry := some m }

/-- `x` was acknowledged, and then relocated to the room: the room was asked, and took it
    or refused. -/
def ToRoom (m : Ctx) (x : String) (w w' : World) : Prop :=
  ∃ w₁, w ≤ w₁ ∧ w₁ ≤ w' ∧ w.Acked w₁ m x ∧
    w₁.slots = { w.slots with dropPending := w.slots.dropPending.delete x } ∧
    w₁.AsksRoom w' (.str x) ∧ (w₁.Dropped (.str x) w' ∨ w'.slots = w₁.slots)

/-- A proposal that is acknowledged goes where the registers say. -/
structure Placed (m : Ctx) (x : String) (w w' : World) : Prop where
  inventory : w.slots.equipPending = .str x → ToInventory m x w'.slots
  room : w.slots.equipPending ≠ .str x → w.slots.awaitsDrop x = true → ToRoom m x w w'
  hand : w.slots.equipPending ≠ .str x → w.slots.awaitsDrop x = false →
    if w.slots.myInv = .str x then Refreshes m w.slots w'.slots else ToHand m x w.slots w'.slots

theorem Handshake.placed (hx : Proposes m x) (hans : w.Answered w' x) (hh : Handshake m w w') :
    Placed m x w w' := by
  -- each way a handshake can end places the item as its last request asked
  cases hh with
  | idle _ he => exact absurd hans he.not_answered
  | booked y hs hy _ hp =>
    obtain rfl := hx.eq hy
    refine ⟨fun _ => ?_, fun hn => absurd hp hn, fun hn => absurd hp hn⟩
    rw [hs]
    refine ⟨rfl, rfl, ?_⟩
    rintro ⟨h, hheld, hactor⟩
    exact Slots.ne_of_held_release hheld (congrArg SchemeVal.str hactor)
  | unmarked y _ _ _ _ he => exact absurd hans he.not_answered
  | dropped y w₁ hs₁ ho hle hle' hasks hy _ hack hp hmark =>
    obtain rfl := hx.eq hy
    refine ⟨fun h => absurd h hp, fun _ _ => ⟨w₁, hle, hle', hack, hs₁, hasks, ho⟩, ?_⟩
    intro _ hfalse
    cases hmark.symm.trans hfalse
  | refreshed y hs hy _ hinv _ hp hmark =>
    obtain rfl := hx.eq hy
    refine ⟨fun h => absurd h hp, fun _ h => absurd h hmark, fun _ _ => ?_⟩
    rw [if_pos hinv]
    exact hs
  | held y h hs hy _ hactor hctx hinv _ hp hmark =>
    obtain rfl := hx.eq hy
    refine ⟨fun h => absurd h hp, fun _ h => absurd h hmark, fun _ _ => ?_⟩
    rw [if_neg hinv]
    exact ⟨h, hctx, hactor, hs⟩
  | released y _ _ _ hparent => exact absurd hx.1 hparent

theorem World.Dropped.later {t : SchemeVal} (h : w.Dropped t w') (hle : w ≤ w')
    (hle' : w' ≤ w'') (hs : w''.slots = w'.slots) : w.Dropped t w'' := by
  rcases h with ⟨hw', hu⟩ | ⟨ha, hw'⟩
  · exact .inl ⟨hs.trans hw', hu.later hle hle'⟩
  · exact .inr ⟨ha.later hle hle', hs.trans hw'⟩

/-- What a handshake does with the proposals that are acknowledged. -/
structure Delivered (m : Ctx) (w w' : World) : Prop where
  le : w ≤ w'
  placed : ∀ x, Proposes m x → w.Answered w' x → Placed m x w w'

theorem Delivered.display (h : Delivered m w w') (text : String) :
    Delivered m w (w'.push (.display text)) := by
  have hpush : w' ≤ w'.push (.display text) := World.le_push _ _
  refine ⟨h.le.trans hpush, fun x hx hans => ?_⟩
  have hp := h.placed x hx ((World.answered_display h.le text).1 hans)
  refine ⟨hp.inventory, fun hne hmark => ?_, hp.hand⟩
  obtain ⟨w₁, hle, hle', hack, hs₁, hasks, ho⟩ := hp.room hne hmark
  refine ⟨w₁, hle, hle'.trans hpush, hack, hs₁, hasks.later hle' hpush, ?_⟩
  exact ho.imp_left fun hd => hd.later hle' hpush rfl

/-! ## Runs -/

/-- The registers hold what is booked and what is to be dropped. -/
structure Current (s : World × Requests) : Prop where
  disciplined : s.1.slots.Disciplined
  booking : s.2.booking = s.1.slots.equipPending
  dropping : ∀ x, s.2.dropping x = s.1.slots.awaitsDrop x

theorem Current.fulfilled_iff {s : World × Requests} (h : Current s)
    (hm : op.parentCtx? = some m) :
    s.2.fulfilled op (s.1.effects w') = true ↔ s.1.Fulfilled w' m := by
  have hprop : ∀ y, op.proposes y = true ↔ Proposes m y := fun y => by
    rw [Op.proposes, hm]
    exact decide_eq_true_iff
  simp only [Requests.fulfilled, World.Fulfilled]
  rw [h.booking]
  rcases s.1.slots.equipPending with x | _ | _ | _ | _ | _ | _ | _
  case str => simp [hprop, World.Answered]
  all_goals simp

/-- Every operation keeps the registers current. -/
theorem Current.step {s : World × Requests} (h : Current s) (op : Op) :
    Current ((op.run.run s.1).2, s.2.after s.1 op) := by
  rcases hm : op.parentCtx? with _ | m
  · have hprop : ∀ x, op.proposes x = false := fun x => by
      rw [Op.proposes, hm]
      rfl
    have hful : ∀ l, s.2.fulfilled op l = false := fun l => by
      simp only [Requests.fulfilled]
      split <;> simp [hprop]
    refine ⟨op.run_disciplined h.disciplined, ?_, fun x => ?_⟩
    · simp only [Requests.after, hful, h.booking]
      exact (Op.run_booking hm s.1).symm
    · simp only [Requests.after, hprop, h.dropping, Bool.false_and, Bool.not_false, Bool.and_true]
      exact (Op.run_marked hm s.1 x).symm
  · have hend : Handled m s.1 (op.run.run s.1).2 :=
      Op.parentEvent_end hm h.disciplined.booking (fun _ text h => h.display text)
        fun _ hle hh => hh.handled hle
    have hprop : ∀ x, op.proposes x = decide (Proposes m x) := fun x => by
      rw [Op.proposes, hm]
      rfl
    -- A handshake is no command: only what is proposed changes what was requested.
    have hbooked : ∀ ok, op.booked s.1 ok s.2.booking = s.2.booking := by
      obtain rfl := Op.parentCtx?_eq hm
      exact fun _ => rfl
    have hmarked : ∀ ok x, op.marked s.1 ok x (s.2.dropping x) = s.2.dropping x := by
      obtain rfl := Op.parentCtx?_eq hm
      exact fun _ _ => rfl
    refine ⟨op.run_disciplined h.disciplined, ?_, fun x => ?_⟩
    · simp only [Requests.after, hbooked]
      split
      · next hful => exact (hend.cleared ((h.fulfilled_iff hm).1 hful)).symm
      · next hful =>
        rw [h.booking]
        exact (hend.kept fun hf => hful ((h.fulfilled_iff hm).2 hf)).symm
    · simp only [Requests.after, hmarked, hprop]
      rw [h.dropping, h.booking]
      exact (hend.dropping x).symm

theorem current_next {s s' : World × Requests} (h : Current s)
    (hs' : (courier Slots.Fresh).next s op = some s') : Current s' := by
  obtain rfl := Option.some.inj hs'
  exact h.step op

theorem current_init {s : World × Requests} (hs : (courier Slots.Fresh).init s) : Current s := by
  obtain ⟨hw, hq⟩ := hs
  have hdisciplined := disciplined_of_reachable (.init (Slots.Fresh.unarmed hw))
  refine ⟨hdisciplined, ?_, fun x => ?_⟩ <;> rw [hq]
  · exact hw.2.2.1.symm
  · rw [Slots.awaitsDrop, hw.2.2.2]
    rfl

/-- The operation is a proposal of `x` which is acknowledged, and `x` answers. -/
def Acknowledges (s : World × Requests) (op : Op) (m : Ctx) (x : String) : Prop :=
  op.parentCtx? = some m ∧ Proposes m x ∧ s.1.Answered (op.run.run s.1).2 x

/-- Where the latest request that stands sends `x`. -/
def Requests.routeOf (q : Requests) (x : String) : Option Route := (q.latest x).map Request.route

/-- What is booked and what is to be dropped agrees with the latest request for `x`. A
    request for the hand is not for the container that is equipped. -/
def Agrees (s : World × Requests) (x : String) : Prop :=
  match s.2.routeOf x with
  | some .inventory => s.2.booking = .str x
  | some .room => s.2.booking ≠ .str x ∧ s.2.dropping x = true
  | some .hand => s.2.booking ≠ .str x ∧ s.2.dropping x = false ∧ s.1.slots.myInv ≠ .str x
  | none => s.2.booking ≠ .str x ∧ s.2.dropping x = false

/-- `x` went where it was requested to go. Without a request nothing captures it: it goes
    to the hand, or it is equipped and stays where it is. -/
def Routed (route : Option Route) (m : Ctx) (x : String) (w w' : World) : Prop :=
  match route with
  | some .inventory => ToInventory m x w'.slots
  | some .room => ToRoom m x w w'
  | some .hand => ToHand m x w.slots w'.slots
  | none => if w.slots.myInv = .str x then Refreshes m w.slots w'.slots
    else ToHand m x w.slots w'.slots

theorem Placed.routed {s : World × Requests} (hp : Placed m x s.1 w') (hc : Current s)
    (hagrees : Agrees s x) : Routed (s.2.routeOf x) m x s.1 w' := by
  simp only [Agrees, hc.booking, hc.dropping] at hagrees
  generalize s.2.routeOf x = route at hagrees ⊢
  rcases route with _ | _ | _ | _
  case none => exact hp.hand hagrees.1 hagrees.2
  case hand =>
    have hhand := hp.hand hagrees.1 hagrees.2.1
    rwa [if_neg hagrees.2.2] at hhand
  case inventory => exact hp.inventory hagrees
  case room => exact hp.room hagrees.1 hagrees.2

/-- In every run in which the booking and the pending drops agree with the latest request
    of an actor whenever its proposal is acknowledged, each proposal that is acknowledged
    goes where the latest request sent it. -/
theorem proposal_routed {s : World × Requests} (hs : (courier Slots.Fresh).init s) {l : List Op}
    (h : (courier Slots.Fresh).Always (fun s op => ∀ m x, Acknowledges s op m x → Agrees s x)
      s l) :
    (courier Slots.Fresh).Always (fun s op => ∀ m x, Acknowledges s op m x →
      Routed (s.2.routeOf x) m x s.1 (op.run.run s.1).2) s l := by
  refine h.imp (I := Current) (fun _ _ _ hc hs' => current_next hc hs') ?_ (current_init hs)
  rintro s op hc hagrees m x ⟨hm, hx, hans⟩
  have hend : Delivered m s.1 (op.run.run s.1).2 :=
    Op.parentEvent_end hm hc.disciplined.booking (fun _ text h => h.display text)
      fun _ hle hh => ⟨hle, fun _ hx hans => hh.placed hx hans⟩
  exact (hend.placed x hx hans).routed hc (hagrees m x ⟨hm, hx, hans⟩)

omit [Host] in
/-- An item is taken, and its proposal is due. -/
theorem proposal_routed_take :
    let _ : Host := scripted "did:ma:me" fun _ _ _ => .ok .nil
    let coin : Ctx := [("actor", "did:ma:coin"), ("parent", "did:ma:me")]
    let start : World × Requests :=
      (World.entered "did:ma:room", ⟨fun _ => none, .bool false, fun _ => false⟩)
    ∃ s, (courier Slots.Fresh).exec start [.command .take ["did:ma:coin"]] = some s ∧
      ToHand coin "did:ma:coin" s.1.slots
        ((Op.event ":parent" (.list [.map coin])).run.run s.1).2.slots := by
  intro _ coin start
  refine ⟨_, rfl, ?_⟩
  have hrun := proposal_routed (s := start)
    (l := [.command .take ["did:ma:coin"], .event ":parent" (.list [.map coin])])
    ⟨⟨rfl, rfl, rfl, rfl⟩, rfl⟩ ?_
  · exact (hrun.2 _ rfl).1 coin "did:ma:coin" ⟨rfl, ⟨rfl, rfl⟩, _, List.mem_cons_self, by
      decide +kernel⟩
  · refine ⟨fun m x hack => ?_, fun s' hs' => ⟨fun m x hack => ?_, fun _ _ => trivial⟩⟩
    · cases hack.1
    · obtain rfl := Option.some.inj hs'
      obtain ⟨hm, ⟨_, hx⟩, _⟩ := hack
      obtain rfl := Option.some.inj hm
      obtain rfl := SchemeVal.str.inj hx
      exact ⟨by decide +kernel, by decide +kernel, by decide +kernel⟩

omit [Host] in
/-- The move of an item that is to be dropped fails later on. It is taken, and goes to the
    room. -/
theorem not_proposal_routed :
    let _ : Host := scripted "did:ma:me" fun _ method _ =>
      .ok (if method = "take" then "7" else .nil)
    let coin : Ctx := [("actor", "did:ma:coin"), ("parent", "did:ma:me")]
    let failed : Ctx := [("id", "7"), ("status", "failed")]
    let start : World × Requests :=
      (World.entered "did:ma:room", ⟨fun _ => none, .bool false, fun _ => false⟩)
    ∃ s, (courier Slots.Fresh).init start ∧
      (courier Slots.Fresh).exec start
        [.command .drop ["did:ma:coin", "from", "did:ma:chest"],
          .event ":take-event" (.list [.map failed]), .command .take ["did:ma:coin"]] = some s ∧
      s.2.routeOf "did:ma:coin" = some .hand ∧ s.1.slots.myInv = .bool false ∧
      let op := Op.event ":parent" (.list [.map coin])
      let w' := (op.run.run s.1).2
      Acknowledges s op coin "did:ma:coin" ∧ w'.slots.held = none ∧
      s.1.effects w' = [.call "did:ma:coin" "set-parent" ["did:ma:room"] (.ok .nil),
        .call "did:ma:room" "drop" ["did:ma:coin"] (.ok .nil),
        .call "did:ma:coin" "child" [.map coin] (.ok .nil)] := by
  intro _ coin failed start
  refine ⟨_, ⟨⟨rfl, rfl, rfl, rfl⟩, rfl⟩, rfl, ?_, ?_, ⟨rfl, ⟨rfl, rfl⟩, ?_⟩, ?_, ?_⟩
  · decide +kernel
  · decide +kernel
  · exact List.any_eq_true.1 (by decide +kernel)
  · rfl
  · rfl

end Avatar

end Zscheme
