import Zscheme.Avatar.Run

/-!
# Rules for the avatar's procedures

The rules of `Program.wp` for the primitives of views and acts, and what the shared
steps of the commands do: relocate an actor to the room, free the hand for the next
item, move the equipped container to the hand.

* `wp_view_of_le`: the frame rule: a view changes the focus, and only extends its trace;
* `World.effects`: what was done between two states;
* `relocateToRoom!_spec`, `dropHeldToRoom!_spec`, `dropTargetToRoom!_spec` and
  `unequipToHand!_spec`: one specification for each step.
-/

namespace Zscheme

namespace Avatar

open Prim Zscheme.Runtime Program

variable {α β : Type} {Q : α → World → Prop} {E : String → World → Prop} {w w' w'' : World}

/-! ## Views and acts -/

@[simp] theorem view_bind (p : View α) (f : α → View β) (s : Slots) :
    (p >>= f) s = p s >>= fun a => f a s := rfl

@[simp] theorem view_pure (a : α) (s : Slots) : (pure a : View α) s = pure a := rfl

@[simp] theorem view_read (s : Slots) : (read : View Slots) s = pure s := rfl

@[simp] theorem view_throw (e : String) (s : Slots) : (throw e : View α) s = throw e := rfl

@[simp] theorem view_tryCatch (p : View α) (f : String → View α) (s : Slots) :
    (tryCatch p f) s = tryCatch (p s) fun e => f e s := rfl

@[simp] theorem view_ite (c : Prop) [Decidable c] (p q : View α) (s : Slots) :
    (if c then p else q) s = if c then p s else q s := by split <;> rfl

@[simp] theorem view_program (p : Program String Focus α) (s : Slots) :
    (liftM p : View α) s = p := rfl

@[simp] theorem view_lift (x : Except String α) (s : Slots) : (liftM x : View α) s = liftM x := rfl

/-- A view sees the slots and leaves them as they are. -/
theorem wp_view (v : View α) : (liftM v : Act α).wp Q E w ↔
    (v w.slots).wp (fun a f => Q a { w with focus := f }) (fun e f => E e { w with focus := f })
      w.focus := wp_zoom _ _ _ _

/-- The frame rule: a view changes the focus, and only extends its trace. -/
theorem wp_view_of_le {v : View α} (hQ : ∀ a f, w.focus ≤ f → Q a { w with focus := f })
    (hE : ∀ e f, w.focus ≤ f → E e { w with focus := f }) : (liftM v : Act α).wp Q E w :=
  (wp_view v).2 (wp_of_le hQ hE)

/-- Reading the slots changes nothing. -/
@[simp] theorem wp_getSlots {Q : Slots → World → Prop} :
    (liftM getSlots : Act Slots).wp Q E w ↔ Q w.slots w := by
  rw [wp_view]
  exact Iff.rfl

/-- A change of the slots, and of nothing else. -/
@[simp] theorem wp_modifySlots {Q : Unit → World → Prop} (f : Slots → Slots) :
    (modifySlots f).wp Q E w ↔ Q () { w with slots := f w.slots } := Iff.rfl

section Assignments

variable {Q : Unit → World → Prop}

/-- The hand is emptied. -/
@[simp] theorem wp_heldClear :
    heldClear!.wp Q E w ↔ Q () { w with slots := { w.slots with held := none } } := Iff.rfl

/-- A context without an actor and a name leaves the hand as it is. -/
@[simp] theorem wp_heldAdd (ctx : Ctx) : (heldAdd! ctx).wp Q E w ↔
    Q () { w with slots := { w.slots with held := (Held.of? ctx).or w.slots.held } } := Iff.rfl

/-- The cached inventory entry is replaced. -/
@[simp] theorem wp_setInvEntry (ctx : Option Ctx) : (setInvEntry ctx).wp Q E w ↔
    Q () { w with slots := { w.slots with invEntry := ctx } } := Iff.rfl

/-- The inventory slot is emptied, the cached entry stays. -/
@[simp] theorem wp_deleteInv : deleteInv.wp Q E w ↔
    Q () { w with slots := { w.slots with inv := none } } := Iff.rfl

/-- An address is kept as it is. -/
theorem wp_setInv [Host] {x : String} (h : Host.isActor x = true) :
    (setInv (.str x)).wp Q E w ↔
      Q () { w with slots := { w.slots with inv := some (.str x) } } := by
  simp only [setInv, wp_bind, wp_getSlots, wp_lift, Host.setPath_actor _ _ h, wp_modifySlots]

/-- The room goes through the dot grammar, which may refuse it. -/
@[simp] theorem wp_setRoom [Host] (parent : SchemeVal) : (setRoom parent).wp Q E w ↔
    match Host.setPath w.slots.room parent with
      | .ok room => Q () { w with slots := { w.slots with room } }
      | .error e => E e w := by
  simp only [setRoom, wp_bind, wp_getSlots, wp_lift, wp_modifySlots]
  rcases Host.setPath w.slots.room parent with _ | _ <;> exact Iff.rfl

/-- What is kept of a nick is some nick. -/
theorem wp_setNick [Host] {nick : Option String}
    (hQ : ∀ nick, Q () { w with slots := { w.slots with nick } }) (hE : ∀ e, E e w) :
    (setNick nick).wp Q E w := by
  rcases nick with _ | nick
  · exact hQ none
  · simp only [setNick, wp_bind, wp_getSlots]
    exact wp_lift_of (fun nick _ => hQ nick) fun e _ => hE e

/-- The equipment mark is set to what it is given, nil included. -/
@[simp] theorem wp_setEquipPending (did : SchemeVal) : (setEquipPending did).wp Q E w ↔
    Q () { w with slots := { w.slots with equipPending := did } } := Iff.rfl

end Assignments

/-- What is kept of an entry is a room and a nick. -/
theorem wp_applyEntryCtx [Host] {Q : SchemeVal → World → Prop}
    {ctx : SchemeVal} (hQ : ∀ room nick, Q ctx { w with slots := { w.slots with room, nick } })
    (hE : ∀ e room nick, E e { w with slots := { w.slots with room, nick } }) :
    (applyEntryCtx! ctx).wp Q E w := by
  have hnick (m : Ctx) (room : Option SchemeVal) : (setNick (textAt m "nick")).wp
      (fun _ => Q ctx) E { w with slots := { w.slots with room } } :=
    wp_setNick (hQ room) fun e => hE e room w.slots.nick
  simp only [applyEntryCtx!]
  split
  · simp only [wp_bind, wp_ite, wp_pure, wp_setRoom]
    split
    · split
      · exact hnick _ _
      · exact hE _ _ _
    · exact hnick _ _
  · exact hQ _ _

/-! ## Effects -/

/-- What was done between two states, the latest effect first. -/
def World.effects (w w' : World) : List Effect :=
  w'.focus.trace.take (w'.focus.trace.length - w.focus.trace.length)

/-- The trace of a later state is what was done since, on top of what was done before. -/
theorem World.trace_eq (h : w ≤ w') : w'.focus.trace = w.effects w' ++ w.focus.trace := by
  obtain ⟨l, hl⟩ : w.focus.trace <:+ w'.focus.trace := h
  rw [effects, ← hl]
  simp

/-- What was done between two states, when the trace of the later one is known. -/
theorem World.effects_eq {l : List Effect} (h : w'.focus.trace = l ++ w.focus.trace) :
    w.effects w' = l := by
  rw [effects, h]
  simp

/-- Nothing is done between a state and itself. -/
@[simp] theorem World.effects_self (w : World) : w.effects w = [] := effects_eq rfl

/-- A change of the slots does nothing outside. -/
@[simp] theorem World.effects_slots (w : World) (s : Slots) :
    w.effects { w with slots := s } = [] := effects_eq rfl

/-- The latest effects come first. -/
theorem World.effects_trans (h : w ≤ w') (h' : w' ≤ w'') :
    w.effects w'' = w'.effects w'' ++ w.effects w' :=
  effects_eq (by rw [trace_eq h', trace_eq h, List.append_assoc])

/-- What was done early was done by the end. -/
theorem World.effects_left (h : w ≤ w') (h' : w' ≤ w'') {e : Effect} (he : e ∈ w.effects w') :
    e ∈ w.effects w'' := by
  rw [effects_trans h h']
  exact List.mem_append_right _ he

/-- What was done late was done since the start. -/
theorem World.effects_right (h : w ≤ w') (h' : w' ≤ w'') {e : Effect} (he : e ∈ w'.effects w'') :
    e ∈ w.effects w'' := by
  rw [effects_trans h h']
  exact List.mem_append_left _ he

/-- The state after one more effect. -/
def World.push (w : World) (e : Effect) : World :=
  { w with focus := { w.focus with trace := e :: w.focus.trace } }

@[simp] theorem World.push_slots (w : World) (e : Effect) : (w.push e).slots = w.slots := rfl

/-- An effect only adds to the trace. -/
theorem World.le_push (w : World) (e : Effect) : w ≤ w.push e := List.suffix_cons _ _

/-- One effect was done. -/
@[simp] theorem World.effects_push (w : World) (e : Effect) : w.effects (w.push e) = [e] :=
  effects_eq rfl

/-- An effect comes on top of those before it. -/
theorem World.effects_push_of_le (h : w ≤ w') (e : Effect) :
    w.effects (w'.push e) = e :: w.effects w' := by
  rw [effects_trans h (le_push _ _), effects_push]
  rfl

section Calls

variable [Host]

/-- The error of a call to what is no address. -/
def noActorError (x method : String) : String :=
  Evaluator.primError "apply" [.str (x ++ ":" ++ method)]

/-- A call raises before anything is sent, or an actor is called and its reply passed on. -/
theorem actorCall_cases (actor method : SchemeVal) (args : List SchemeVal) :
    (∃ e, actorCall actor method args = throw e) ∨
      ∃ x m, actor = .str x ∧ method = .str m ∧
        actorCall actor method args = (do
          let reply := Host.reply (← getFocus).trace x m args
          emit (.call x m args reply)
          liftM reply) := by
  rcases actor with x | _ | _ | _ | _ | _ | _ | _
  case str =>
    rcases method with m | _ | _ | _ | _ | _ | _ | _
    case str =>
      by_cases hx : Host.isActor x = true
      · exact .inr ⟨x, m, rfl, rfl, if_pos hx⟩
      · exact .inl ⟨_, if_neg hx⟩
    all_goals exact .inl ⟨_, rfl⟩
  all_goals exact .inl ⟨_, rfl⟩

/-- An actor call: it is sent to an address and answered, or it raises before it is
    sent. -/
theorem actorCall_wp {Q : SchemeVal → Focus → Prop} {E : String → Focus → Prop}
    {actor : SchemeVal} {method : String} {args : List SchemeVal} {s : Slots} {f : Focus}
    (hQ : ∀ x v, actor = .str x → Host.isActor x = true →
      Q v { f with trace := .call x method args (.ok v) :: f.trace })
    (hE : ∀ x e, actor = .str x → Host.isActor x = true →
      E e { f with trace := .call x method args (.error e) :: f.trace })
    (hN : ∀ e, (∀ x, actor = .str x → Host.isActor x = false ∧ e = noActorError x method) →
      E e f) :
    (actorCall actor method args s).wp Q E f := by
  rcases actor with x | _ | _ | _ | _ | _ | _ | _
  case str =>
    simp only [actorCall, asString, getFocus, emit, view_bind, view_lift, view_program, view_ite,
      view_throw, wp_bind, wp_lift, wp_get, wp_update, wp_throw, wp_ite]
    split
    · next hx =>
      rcases hr : Host.reply f.trace x method args with e | v
      · exact hE x e rfl hx
      · exact hQ x v rfl hx
    · next hx =>
      refine hN _ fun y hy => ?_
      obtain rfl : x = y := SchemeVal.str.inj hy
      exact ⟨Bool.eq_false_iff.2 hx, rfl⟩
  all_goals exact hN _ (by simp)

/-- A call is answered, or it fails, or it is never made: what is no actor is not called. -/
theorem wp_actorCall {Q : SchemeVal → World → Prop} {actor : SchemeVal} {method : String}
    {args : List SchemeVal}
    (hQ : ∀ x v, actor = .str x → Host.isActor x = true →
      Q v (w.push (.call x method args (.ok v))))
    (hE : ∀ x e, actor = .str x → Host.isActor x = true →
      E e (w.push (.call x method args (.error e))))
    (hN : ∀ e, (∀ x, actor = .str x → Host.isActor x = false ∧ e = noActorError x method) →
      E e w) :
    (liftM (actorCall actor method args) : Act SchemeVal).wp Q E w :=
  (wp_view _).2 (actorCall_wp hQ hE hN)

/-- A call to an address, with the reply to it. -/
theorem wp_actorCall_of_isActor {Q : SchemeVal → World → Prop} {x method : String}
    {args : List SchemeVal} (hx : Host.isActor x = true) :
    (liftM (actorCall (.str x) method args) : Act SchemeVal).wp Q E w ↔
      match Host.reply w.focus.trace x method args with
      | .ok v => Q v (w.push (.call x method args (.ok v)))
      | .error e => E e (w.push (.call x method args (.error e))) := by
  rw [wp_view]
  simp only [actorCall, asString, getFocus, emit, view_bind, view_lift, view_program, view_ite,
    view_throw, wp_bind, wp_lift, wp_get, wp_update, wp_throw, wp_ite, if_pos hx]
  rcases Host.reply w.focus.trace x method args with e | v <;> exact Iff.rfl

/-- Something is shown, and the slots stay. -/
@[simp] theorem wp_display {Q : Unit → World → Prop} (v : SchemeVal) :
    (liftM (display v) : Act Unit).wp Q E w ↔ Q () (w.push (.display (displayText v))) := by
  rw [wp_view]
  exact Iff.rfl

/-- The value of `my-inv-if-any`. -/
def Slots.myInv (s : Slots) : SchemeVal :=
  match s.inv with
  | some v => if startsWithDid? v = .ok true then v else .bool false
  | none => .bool false

/-- `my-inv-if-any` reads the inventory and never raises. -/
theorem myInvIfAny_wp {Q : SchemeVal → Focus → Prop} {E : String → Focus → Prop} (s : Slots)
    (f : Focus) : (myInvIfAny s).wp Q E f ↔ Q s.myInv f := by
  simp only [myInvIfAny, getSlots, view_tryCatch, view_bind, view_read, view_lift, view_pure,
    view_ite, wp_tryCatch, wp_bind, wp_pure, Slots.myInv]
  rcases s.inv with _ | v
  · exact Iff.rfl
  · simp only [localPath, view_pure, wp_pure]
    rcases startsWithDid? v with e | (_ | _) <;> simp

/-- The inventory, or nil when there is none. -/
@[simp] theorem wp_myInvIfAny {Q : SchemeVal → World → Prop} :
    (liftM myInvIfAny : Act SchemeVal).wp Q E w ↔ Q w.slots.myInv w := by
  rw [wp_view, myInvIfAny_wp]

end Calls

/-! ## Relocation -/

/-- The slots with the hand free of this actor. -/
def Slots.release (s : Slots) (actor : SchemeVal) : Slots :=
  if s.holds actor then { s with held := none } else s

/-- In the hand is the actor of what is held. -/
theorem Slots.holds_iff {s : Slots} {actor : SchemeVal} :
    s.holds actor = true ↔ ∃ h, s.held = some h ∧ .str h.actor = actor := by
  simp only [holds]
  rcases s.held with _ | h
  · exact ⟨nofun, fun ⟨_, hh, _⟩ => nomatch hh⟩
  · simp

variable [Host]

/-- The slots with the inventory slot free of this actor. -/
def Slots.unbook (s : Slots) (actor : SchemeVal) : Slots :=
  if actor = s.myInv then { s with invEntry := none, inv := none } else s

/-- The slots without this actor. -/
def Slots.forget (s : Slots) (actor : SchemeVal) : Slots := (s.release actor).unbook actor

/-- Forgetting an actor changes what the avatar carries, and nothing else. -/
theorem Slots.forget_frame (s : Slots) (t : SchemeVal) :
    ∃ h e i, s.forget t = { s with held := h, invEntry := e, inv := i } := by
  simp only [forget, unbook, release]
  split <;> split <;> exact ⟨_, _, _, rfl⟩

/-- An actor accepted to be moved to the room. -/
def World.Accepted (w w' : World) (actor : SchemeVal) : Prop :=
  ∃ x r v, actor = .str x ∧ w.slots.room = some r ∧
    .call x "set-parent" [r] (.ok v) ∈ w.effects w'

/-- The runtime no longer knows an actor: it was asked to move, and the error said so. Of
    what is no address the call itself raised such an error. -/
def World.Unknown (w w' : World) (actor : SchemeVal) : Prop :=
  ∀ x, actor = .str x →
    (∃ r e, unknownFragmentError? e = true ∧
      .call x "set-parent" [r] (.error e) ∈ w.effects w') ∨
    Host.isActor x = false ∧ unknownFragmentError? (noActorError x "set-parent") = true

/-- An actor that is unknown answered with an error that says so. -/
theorem World.Unknown.answered_error {x : String} (h : w.Unknown w' (.str x))
    (hx : Host.isActor x = true) : ∃ r e, unknownFragmentError? e = true ∧
      .call x "set-parent" [r] (.error e) ∈ w.effects w' := by
  rcases h x rfl with h | ⟨hn, _⟩
  · exact h
  · cases hx.symm.trans hn

/-- What was unknown is so in a longer run. -/
theorem World.Unknown.later {t : SchemeVal} (h : w.Unknown w' t) (hle : w ≤ w')
    (hle' : w' ≤ w'') : w.Unknown w'' t := by
  intro x ht
  refine (h x ht).imp_left fun ⟨r, e, hu, he⟩ => ⟨r, e, hu, effects_left hle hle' he⟩

/-- What is not known later was asked earlier. -/
theorem World.Unknown.earlier {t : SchemeVal} (h : w'.Unknown w'' t) (hle : w ≤ w')
    (hle' : w' ≤ w'') : w.Unknown w'' t := by
  intro x ht
  refine (h x ht).imp_left fun ⟨r, e, hu, he⟩ => ⟨r, e, hu, effects_right hle hle' he⟩

omit [Host] in
/-- What was accepted was so in a longer run. -/
theorem World.Accepted.later {t : SchemeVal} (h : w.Accepted w' t) (hle : w ≤ w')
    (hle' : w' ≤ w'') : w.Accepted w'' t := by
  obtain ⟨y, r, v, ht, hr, he⟩ := h
  exact ⟨y, r, v, ht, hr, effects_left hle hle' he⟩

omit [Host] in
/-- The hand lets go of the actor, if it holds it. -/
@[simp] theorem wp_releaseHand {Q : Unit → World → Prop} (actor : SchemeVal) :
    (releaseHand! actor).wp Q E w ↔ Q () { w with slots := w.slots.release actor } := by
  simp only [releaseHand!, Slots.release]
  simp only [wp_bind, wp_getSlots, wp_ite]
  split <;> exact Iff.rfl

/-- The inventory does not depend on the hand. -/
@[simp] theorem Slots.myInv_release (s : Slots) (actor : SchemeVal) :
    (s.release actor).myInv = s.myInv := by
  simp only [release]
  split <;> rfl

/-- The actor is the inventory no more, if it was. -/
@[simp] theorem wp_releaseInventory {Q : Unit → World → Prop} (actor : SchemeVal) :
    (releaseInventory! actor).wp Q E w ↔ Q () { w with slots := w.slots.unbook actor } := by
  simp only [releaseInventory!, Slots.unbook]
  simp only [wp_bind, wp_myInvIfAny, wp_ite]
  split <;> exact Iff.rfl

/-- The room the avatar is in, or an error. -/
theorem wp_room {Q : SchemeVal → World → Prop} (hQ : ∀ r, w.slots.room = some r → Q r w)
    (hE : ∀ e, w.slots.room = none → E e w) : (liftM room : Act SchemeVal).wp Q E w := by
  rw [wp_view]
  simp only [room, getSlots, view_bind, view_read, wp_bind, wp_pure]
  rcases h : w.slots.room with _ | r
  · exact hE _ h
  · exact hQ r h

/-- The slots forget the actor, also when the text of it then raises. -/
theorem forgetStaleSlots!_spec (t : SchemeVal) :
    (forgetStaleSlots! t).wp (fun _ w' => w'.slots = w.slots.forget t)
      (fun _ w' => w'.slots = w.slots.forget t ∧ t.string? = false) w := by
  simp only [forgetStaleSlots!]
  simp only [wp_bind, wp_releaseHand, wp_releaseInventory]
  refine wp_lift_of ?_ ?_
  · exact fun _ _ => rfl
  · intro e he
    refine ⟨rfl, ?_⟩
    rcases t with x | _ | _ | _ | _ | _ | _ | _
    case str => cases he
    all_goals rfl

/-- The end of a relocation: the actor accepted, or it is not known any more. -/
def World.Relocated (w : World) (t : SchemeVal) (ok : Bool) (w' : World) : Prop :=
  if ok then w'.slots = w.slots ∧ w.Accepted w' t
  else w'.slots = w.slots.forget t ∧ w.Unknown w' t

/-- A relocation that was refused; only of what is no actor at all can it be said that
    it is not known and yet fail. -/
def World.Refused (w : World) (t : SchemeVal) (w' : World) : Prop :=
  w'.slots = w.slots ∨ w'.slots = w.slots.forget t ∧ t.string? = false

/-- An item is relocated, or it refuses. -/
theorem setParentToRoom!_spec (t : SchemeVal) {r : SchemeVal} (hr : w.slots.room = some r) :
    (setParentToRoom! t).wp (w.Relocated t) (fun _ => w.Refused t) w := by
  simp only [setParentToRoom!]
  simp only [wp_bind, wp_tryCatch, wp_ite, wp_pure, wp_throw]
  refine wp_room (fun r' hr' => ?_) fun _ hn => ?_
  · refine wp_actorCall ?_ ?_ ?_
    -- the actor moved, it refused, or it is none
    · rintro x v rfl _
      refine ⟨rfl, x, r', v, rfl, hr', ?_⟩
      simp
    · rintro x e rfl _
      split
      · next he =>
        refine (forgetStaleSlots!_spec (.str x)).conseq ?_ ?_
        · rintro _ w' hle hw'
          refine ⟨hw', fun y hy => .inl ⟨r', e, he, ?_⟩⟩
          obtain rfl : x = y := SchemeVal.str.inj hy
          exact World.effects_left (World.le_push _ _) hle (by simp)
        · exact fun _ _ _ h => absurd h.2 (by simp [SchemeVal.string?])
      · exact .inl rfl
    · intro e hx
      split
      · next he =>
        refine (forgetStaleSlots!_spec t).conseq ?_ ?_
        · rintro _ w' _ hw'
          refine ⟨hw', fun y hy => .inr ?_⟩
          obtain ⟨hact, rfl⟩ := hx y hy
          exact ⟨hact, he⟩
        · exact fun _ _ _ h => .inr h
      · exact .inl rfl
  · rw [hr] at hn
    cases hn

/-- Relocation: the actor accepts, or it is not known any more and forgotten, or the
    refusal is raised. -/
theorem relocateToRoom!_spec (t : SchemeVal) :
    (relocateToRoom! t).wp (w.Relocated t) (fun _ => w.Refused t) w := by
  simp only [relocateToRoom!]
  simp only [wp_bind]
  refine wp_room (fun r hr => ?_) fun _ _ => .inl rfl
  refine wp_view_of_le (fun _ f hle => ?_) fun _ _ _ => .inl rfl
  refine (setParentToRoom!_spec t (w := { w with focus := f }) hr).conseq ?_ fun _ _ _ h => h
  rintro (_ | _) w' hle' ⟨hs, h⟩
  · exact ⟨hs, h.earlier hle hle'⟩
  · obtain ⟨x, r, v, hx, hr, h⟩ := h
    exact ⟨hs, x, r, v, hx, hr, World.effects_right hle hle' h⟩

/-! ## Freeing the hand -/

/-- The hand was freed for the next item: it was empty or holds the equipped container,
    or what it held was relocated. -/
def World.HandFreed (w w' : World) : Prop :=
  (w'.slots = w.slots ∧ ∀ h, w.slots.held = some h → .str h.actor = w.slots.myInv) ∨
    ∃ h ok, w.slots.held = some h ∧ .str h.actor ≠ w.slots.myInv ∧
      w.Relocated (.str h.actor) ok w'

/-- Freeing the hand changes what the avatar carries, and nothing else. -/
theorem World.HandFreed.frame (h : w.HandFreed w') :
    ∃ h e i, w'.slots = { w.slots with held := h, invEntry := e, inv := i } := by
  rcases h with ⟨hs, _⟩ | ⟨_, _ | _, _, _, hs, _⟩ <;> rw [hs]
  · exact ⟨_, _, _, rfl⟩
  · exact w.slots.forget_frame _
  · exact ⟨_, _, _, rfl⟩

/-- The hand is freed, or the slots stay. -/
theorem dropHeldToRoom!_spec :
    dropHeldToRoom!.wp (fun _ => w.HandFreed) (fun _ w' => w'.slots = w.slots) w := by
  simp only [dropHeldToRoom!]
  simp only [wp_bind, wp_getSlots]
  rcases hh : w.slots.held with _ | h
  · exact .inl ⟨rfl, fun h hh' => by rw [hh] at hh'; cases hh'⟩
  · simp only [wp_bind, wp_myInvIfAny, wp_ite, wp_pure]
    split
    · next hne =>
      refine (relocateToRoom!_spec (.str h.actor)).conseq ?_ ?_
      · exact fun ok w' _ hw' => .inr ⟨h, ok, hh, hne, hw'⟩
      · rintro _ w' _ (hw' | ⟨_, hstr⟩)
        · exact hw'
        · cases hstr
    · next hne =>
      refine .inl ⟨rfl, fun h' hh' => ?_⟩
      obtain rfl : h = h' := Option.some.inj (hh.symm.trans hh')
      exact not_not.1 hne

/-! ## Dropping a target -/

/-- The target was dropped to the room; the inventory slot no longer names it. -/
def World.Dropped (w : World) (t : SchemeVal) (w' : World) : Prop :=
  (w'.slots = w.slots.forget t ∧ w.Unknown w' t) ∨
    (w.Accepted w' t ∧
      w'.slots = if t = w.slots.myInv then { w.slots with inv := none } else w.slots)

/-- An actor that is forgotten is not the inventory either. -/
theorem Slots.unbook_forget (s : Slots) (t : SchemeVal) :
    (if t = (s.forget t).myInv then { s.forget t with inv := none } else s.forget t) =
      s.forget t := by
  split
  · next h =>
    simp only [forget, unbook] at h ⊢
    split
    · rfl
    · next hne =>
      rw [if_neg hne] at h
      exact absurd h hne
  · rfl

/-- An item is dropped, or it refuses. -/
theorem dropTargetToRoom!_spec (t : SchemeVal) :
    (dropTargetToRoom! t).wp (fun _ => w.Dropped t) (fun _ => w.Refused t) w := by
  simp only [dropTargetToRoom!]
  simp only [wp_bind, wp_myInvIfAny, wp_ite, wp_pure]
  refine (relocateToRoom!_spec t).conseq ?_ fun _ _ _ h => h
  rintro (_ | _) w' _ ⟨hs, hr⟩
  · have hf := Slots.unbook_forget w.slots t
    rw [hs]
    split
    · next ht =>
      rw [if_pos ht] at hf
      exact .inl ⟨by simp only [hs, hf], hr⟩
    · exact .inl ⟨hs, hr⟩
  · rw [hs]
    split
    · next ht => exact .inr ⟨hr, by simp only [hs, if_pos ht]⟩
    · next ht => exact .inr ⟨hr, by simp only [hs, if_neg ht]⟩

/-- The room was asked whether it takes the actor, if there is a room to ask. -/
def World.AsksRoom (w w' : World) (t : SchemeVal) : Prop :=
  ∀ r, w.slots.room = some (.str r) → Host.isActor r = true →
    ∃ reply, .call r "drop" [t] reply ∈ w.effects w'

/-- What was asked of the room was so in a longer run. -/
theorem World.AsksRoom.later {t : SchemeVal} (h : w.AsksRoom w' t) (hle : w ≤ w')
    (hle' : w' ≤ w'') : w.AsksRoom w'' t := by
  intro r hr hact
  obtain ⟨reply, he⟩ := h r hr hact
  exact ⟨reply, effects_left hle hle' he⟩

/-- The room that was asked later is the one that was there before. -/
theorem World.AsksRoom.earlier {t : SchemeVal} (h : w'.AsksRoom w'' t)
    (hr : w'.slots.room = w.slots.room) (hle : w ≤ w') (hle' : w' ≤ w'') : w.AsksRoom w'' t := by
  intro r hroom hact
  obtain ⟨reply, he⟩ := h r (hr.trans hroom) hact
  exact ⟨reply, effects_right hle hle' he⟩

/-- A relocation starts with the question to the room. -/
theorem relocateToRoom!_asks (t : SchemeVal) :
    (relocateToRoom! t).wp (fun _ w' => w.AsksRoom w' t) (fun _ w' => w.AsksRoom w' t) w := by
  simp only [relocateToRoom!]
  rw [wp_bind]
  refine wp_room (fun r hr => ?_) fun _ hr r hr' => nomatch hr.symm.trans hr'
  rw [wp_bind]
  refine wp_actorCall ?_ ?_ ?_
  · rintro x v rfl _
    -- the room was asked, and whatever follows does not undo this
    have hasks : w.AsksRoom (w.push (.call x "drop" [t] (.ok v))) t := by
      intro r' hr' _
      obtain rfl := SchemeVal.str.inj (Option.some.inj (hr.symm.trans hr'))
      exact ⟨_, by rw [World.effects_push]; exact List.mem_cons_self⟩
    exact wp_of_le (fun _ _ hle => hasks.later (World.le_push _ _) hle)
      fun _ _ hle => hasks.later (World.le_push _ _) hle
  · rintro x e rfl _ r' hr' _
    obtain rfl := SchemeVal.str.inj (Option.some.inj (hr.symm.trans hr'))
    exact ⟨_, by rw [World.effects_push]; exact List.mem_cons_self⟩
  · intro _ hact r' hr' hact'
    exact absurd (hact r' (Option.some.inj (hr.symm.trans hr'))).1 (by simp [hact'])

/-- So does dropping a target. -/
theorem dropTargetToRoom!_asks (t : SchemeVal) :
    (dropTargetToRoom! t).wp (fun _ w' => w.AsksRoom w' t) (fun _ w' => w.AsksRoom w' t) w := by
  simp only [dropTargetToRoom!]
  rw [wp_bind]
  refine (relocateToRoom!_asks t).conseq (fun _ w' hle hasks => ?_) fun _ _ _ h => h
  exact wp_of_le (fun _ _ hle' => hasks.later hle hle') fun _ _ hle' => hasks.later hle hle'

/-! ## Unequipping -/

/-- The ctx the inventory goes to the hand with. -/
def Slots.InventoryCtx (s : Slots) (inventory : SchemeVal) (ctx : Ctx) : Prop :=
  s.invEntry = some ctx ∨ s.invEntry = none ∧ ctxActor ctx = inventory

/-- The slots once the inventory went to the hand. -/
def Slots.unequip (s : Slots) (ctx : Ctx) : Slots :=
  { s with held := (Held.of? ctx).or s.held, invEntry := none, inv := none }

omit [Host] in
/-- The context that the model builds names its actor. -/
theorem ctxActor_makeMap (actor name : SchemeVal) :
    ctxActor (makeMap [("actor", actor), ("name", name)]) = actor := by
  have h : "actor" ≠ "name" := by decide
  simp [ctxActor, makeMap, Dict.get?_insert, h]

/-- `inventory-display-ctx` names the inventory and never raises. -/
theorem inventoryDisplayCtx_wp (inventory : SchemeVal) (s : Slots) (f : Focus) :
    (inventoryDisplayCtx inventory s).wp (fun ctx _ => ctxActor ctx = inventory)
      (fun _ _ => False) f := by
  simp only [inventoryDisplayCtx, view_bind, view_tryCatch, view_pure, view_ite, wp_bind,
    wp_tryCatch, wp_pure, wp_ite, ctxActor_makeMap, ite_self]
  exact wp_of_le (fun _ _ _ => trivial) fun _ _ _ => trivial

/-- The inventory is taken to the hand, and this never raises. -/
theorem unequipToHand!_spec (inventory : SchemeVal) :
    (unequipToHand! inventory).wp
      (fun _ w' => ∃ ctx, w.slots.InventoryCtx inventory ctx ∧ w'.slots = w.slots.unequip ctx)
      (fun _ _ => False) w := by
  simp only [unequipToHand!]
  simp only [wp_bind]
  rw [wp_view]
  simp only [cachedInventoryCtx, getSlots, view_bind, view_read, wp_bind, wp_pure]
  rcases he : w.slots.invEntry with _ | entry
  · refine (inventoryDisplayCtx_wp inventory _ _).conseq ?_ fun _ _ _ h => h
    exact fun ctx f _ hctx => ⟨ctx, .inr ⟨he, hctx⟩, rfl⟩
  · exact ⟨entry, .inl he, rfl⟩

end Avatar

end Zscheme
