import Zscheme.Avatar.MakeRoom
import Zscheme.Avatar.Stable

/-!
# What events may do

Events come from outside, unsolicited and from any sender. What the avatar does outside on
delivery of one is limited by the event (`Permits`): it shows something, asks to be shown
what is there, acknowledges the proposal it was sent, tells its room who it is, enters
where an exit leads, and goes after its own dig; only an actor that a command has booked or
marked is dropped, and to the room the avatar is in.

A question (`Command.questions`) only asks. Whatever any run of commands and events does
outside is permitted by the operation that does it (`effects_permitted`), and a run of
events and questions hands nothing over (`passive_permitted`).
-/

namespace Zscheme

namespace Avatar

open Prim Stdlib Zscheme.Runtime Program

variable [Host]

/-- What an event may do outside, delivered to an avatar with these slots. -/
inductive Permits (s : Slots) : SchemeVal → SchemeVal → Effect → Prop
  /-- Something is shown. -/
  | shown (event args : SchemeVal) (text : String) : Permits s event args (.display text)
  /-- Something is looked at. -/
  | asked (event args : SchemeVal) {e : Effect} (h : e.Lookup) : Permits s event args e
  /-- An actor that proposes this avatar as its parent is told that it has a parent. -/
  | acknowledged {m : Ctx} {x : String} (h : Proposes m x) (reply : Except String SchemeVal) :
    Permits s ":parent" (.list [.map m]) (.call x "child" [.map m] reply)
  /-- An actor that was marked is dropped when it proposes itself, and the equipped container
      makes room for the one that was booked. -/
  | dropped {m : Ctx} {x : String} (h : Proposes m x)
      (armed : s.equipPending = .str x ∨ s.awaitsDrop x) {t : SchemeVal}
      (ht : t = .str x ∨ t = s.myInv) {room : String} (hroom : s.room = some (.str room))
      (reply : Except String SchemeVal) :
    Permits s ":parent" (.list [.map m]) (.call room "drop" [t] reply)
  /-- And it is told so. -/
  | relocated {m : Ctx} {x : String} (h : Proposes m x)
      (armed : s.equipPending = .str x ∨ s.awaitsDrop x) {y : String}
      (ht : y = x ∨ .str y = s.myInv) {room : SchemeVal} (hroom : s.room = some room)
      (reply : Except String SchemeVal) :
    Permits s ":parent" (.list [.map m]) (.call y "set-parent" [room] reply)
  /-- Its room is told who is here. -/
  | presented (args : SchemeVal) {room : String} (hroom : s.room = some (.str room))
      (params : List SchemeVal) (reply : Except String SchemeVal) :
    Permits s ":roll-call-child" args (.call room "parent" params reply)
  /-- The room an exit leads to is entered, if the exit gave a key and did not deny it. -/
  | entered {m : Ctx} {tid dest key : String} (htid : m.get? "traverseId" = some (.str tid))
      (hdeny : ∀ deny, m.get? "deny" ≠ some (.str deny)) (hdest : m.get? "exit" = some (.str dest))
      (hkey : m.get? "key" = some (.str key)) (params : List SchemeVal)
      (reply : Except String SchemeVal) :
    Permits s ":move" (.list [.map m]) (.call dest "enter" params reply)
  /-- The avatar goes through the exit that it has dug itself. -/
  | drew {ctx : SchemeVal} (h : own? ctx = .ok true) (direction : SchemeVal) (n : Int64) :
    Permits s ":event" (.list [":dig", ctx, direction]) (.random n)
  | moved {ctx : SchemeVal} (h : own? ctx = .ok true) (direction : SchemeVal) {room : String}
      (hroom : s.room = some (.str room)) (params : List SchemeVal)
      (reply : Except String SchemeVal) :
    Permits s ":event" (.list [":dig", ctx, direction]) (.call room "move" params reply)

/-! ## Views -/

section Views

variable {α β : Type} {P : Effect → Prop} {s : Slots}

omit [Host] in
/-- A text from the local store costs what looking it up does. -/
theorem emits_localString {thunk : View SchemeVal} (h : Emits P thunk) (fallback : SchemeVal) :
    Emits P (localString thunk fallback) :=
  (h.tryCatch fun _ => emits_pure _).bind fun _ => emits_pure _

/-- The name is read from the local store. -/
theorem emits_myName : Emits P myName := emits_localString (emits_closed.localPath _ _) _

/-- The nick is read from the local store. -/
theorem emits_myNick : Emits P myNick := emits_getSlots.bind fun _ => emits_closed.localPath _ _

/-- What the avatar says of itself is read from the local store. -/
theorem emits_myNodeCtx : Emits P myNodeCtx := by
  refine emits_myName.bind fun name => (emits_localString emits_myNick name).bind fun _ => ?_
  refine emits_closed.room.bind fun _ => ?_
  refine (emits_localString (emits_closed.localPath _ _) _).bind fun _ => ?_
  exact emits_pure _

/-- Only its room is told who is here. -/
theorem emitsAt_announceAvatarParent
    (h : ∀ x params r, s.room = some (.str x) → P (.call x "parent" params r)) :
    EmitsAt s P announceAvatarParent! := by
  refine EmitsAt.bind (emits_closed.room.tryCatch fun _ => emits_pure _).emitsAt fun _ => ?_
  refine (emits_lift _).emitsAt.bind fun _ => emitsAt_ite ?_ (emits_pure _).emitsAt
  refine emitsAt_room_bind fun v hv => emits_myNodeCtx.emitsAt.bind fun ctx => ?_
  refine EmitsAt.bind (Emits.emitsAt (emits_actorCall ?_)) fun _ => (emits_pure _).emitsAt
  rintro x m r rfl hm
  obtain rfl := SchemeVal.str.inj hm
  exact h x _ r hv

/-- The cached room is changed, nobody is called. -/
theorem emits_modifyRoomChild (ctx : SchemeVal)
    (f : Dict String SchemeVal → String → Dict String SchemeVal) (prim : String) :
    Emits P (modifyRoomChild! ctx f prim) := by
  refine emits_getFocus.bind fun focus => ?_
  split
  · refine emits_ite ?_ (emits_pure _)
    exact (emits_lift _).bind fun _ => (emits_lift _).bind fun _ => emits_modifyFocus _ _
  · exact emits_pure _

omit [Host] in
/-- An event about a child changes the cached room at most. -/
theorem emits_eventChild (ctx : SchemeVal) : Emits P (eventChild ctx) := by
  unfold eventChild
  split
  · split
    · exact emits_ite ((emits_closed.rememberRoom _).bind fun _ => emits_pure _) (emits_pure _)
    · exact emits_pure _
  · exact emits_pure _

section Showing

variable (hP : ∀ e : Effect, e.Lookup → P e) (hshow : ∀ text, P (.display text))

include hshow

/-- A movement is shown. -/
theorem emits_showMovement (ctx : SchemeVal) (does : String) : Emits P (showMovement ctx does) := by
  refine (emits_lift _).bind fun _ => ?_
  split <;> exact emits_display hshow _

/-- The completion of an action is shown if it failed. -/
theorem emits_eventActionDone (ctx : SchemeVal) : Emits P (eventActionDone ctx) := by
  refine (emits_lift _).bind fun id => (emits_lift _).bind fun status => ?_
  have hfail : Emits P (if status ≠ "ok" then do
      display (.str (← stringAppend ["Failed: ", ← mapRef ctx "reason" "unknown"]))
      else pure () : View Unit) :=
    emits_ite ((emits_lift _).bind fun _ => (emits_lift _).bind fun _ => emits_display hshow _)
      (emits_pure _)
  have hclear : ∀ id, Emits P (pendingClear! id) :=
    fun id => (emits_lift _).bind fun _ => emits_modifyFocus _ _
  exact emits_ite ((hclear id).bind fun _ => hfail) hfail

/-- A refused walk is shown. -/
theorem emits_eventNogo (ctx : SchemeVal) : Emits P (eventNogo ctx) := by
  unfold eventNogo
  split
  · split
    · exact emits_display hshow _
    · exact emits_pure _
  · exact emits_pure _

include hP

omit hshow in
/-- The room is looked at again, and what fails is passed over. -/
theorem emits_refreshRoom : Emits P refreshRoom :=
  ((emits_inquires hP).lookRoom.bind fun _ =>
    (emits_closed.rememberRoom _).bind fun _ => emits_pure _).tryCatch fun _ => emits_pure _

/-- Only its own dig has the avatar go. -/
theorem emitsAt_eventDig {ctx direction : SchemeVal}
    (hgo : own? ctx = .ok true → EmitsAt s P (go [direction])) :
    EmitsAt s P (eventDig ctx direction) := by
  refine (emits_refreshRoom hP).emitsAt.bind fun _ => (emits_lift _).emitsAt.bind fun _ => ?_
  refine (emits_display hshow _).emitsAt.bind fun _ => emitsAt_bind_lift fun b hb => ?_
  rcases b
  · exact (emits_pure _).emitsAt
  · exact (hgo hb).bind fun _ => (emits_pure _).emitsAt

/-- A filled passage is shown, and the room is looked at again. -/
theorem emits_eventFill (ctx direction : SchemeVal) : Emits P (eventFill ctx direction) :=
  (emits_refreshRoom hP).bind fun _ => (emits_lift _).bind fun _ => emits_display hshow _

omit hshow in
/-- `go` draws a number and asks the room for a move. -/
theorem emitsAt_go (hrandom : ∀ n, P (.random n))
    (hmove : ∀ x params r, s.room = some (.str x) → P (.call x "move" params r))
    (words : List SchemeVal) : EmitsAt s P (go words) := by
  have hdraw : Emits P random :=
    emits_getFocus.bind fun _ => (emits_emit (hrandom _)).bind fun _ => emits_pure _
  refine EmitsAt.bind (hdraw.bind fun _ => emits_lift _).emitsAt fun tid => ?_
  refine (emits_lift _).emitsAt.bind fun _ => ?_
  refine ((emits_inquires hP).resolveExitName _).emitsAt.bind fun _ => ?_
  refine EmitsAt.bind (emitsAt_roomCall fun x m r hr hm => ?_) fun _ => (emits_pure _).emitsAt
  obtain rfl := SchemeVal.str.inj hm
  exact hmove x _ r hr

end Showing

end Views

/-! ## Events -/

section Events

variable {P : Effect → Prop} {s : Slots} {w : World} {m : Ctx} {x : String}

/-- Setting a local path does nothing outside. -/
theorem actEmits_setPath {old : Slots → Option SchemeVal} {v : SchemeVal}
    {f : Option SchemeVal → Slots → Slots} :
    ActEmits P (do
      let new ← liftM (Host.setPath (old (← getSlots)) v)
      modifySlots (f new)) :=
  emits_getSlots.act.bind fun _ => (actEmits_lift _).bind fun _ => actEmits_modifySlots _

/-- The context of an entry is kept without a call. -/
theorem actEmits_applyEntryCtx (ctx : SchemeVal) : ActEmits P (applyEntryCtx! ctx) := by
  have hnick : ∀ nick, ActEmits P (setNick nick) := by
    rintro (_ | nick)
    · exact (actEmits_pure none).bind fun _ => actEmits_modifySlots _
    · exact actEmits_setPath
  have hrest (nick : Option String) (v : SchemeVal) : ActEmits P (do
      setNick nick
      pure v) := (hnick nick).bind fun _ => actEmits_pure _
  simp only [applyEntryCtx!]
  split
  · exact actEmits_ite (actEmits_setPath.bind fun _ => hrest _ _) (hrest _ _)
  · exact actEmits_pure _

/-- A room is entered with a key, and then looked at. -/
theorem actEmits_enterWithKey (hP : ∀ e : Effect, e.Lookup → P e)
    (hshow : ∀ text, P (.display text)) {dest : SchemeVal}
    (henter : ∀ x params r, dest = .str x → P (.call x "enter" params r)) (tid key : SchemeVal) :
    ActEmits P (enterWithKey dest tid key) := by
  refine emits_myName.act.bind fun name => ?_
  refine (emits_localString emits_myNick _).act.bind fun nick => ?_
  refine ActEmits.bind (Emits.act (emits_actorCall fun x m r hx hm => ?_)) fun result => ?_
  · obtain rfl := SchemeVal.str.inj hm
    exact henter x _ r hx
  refine ActEmits.bind ?_ fun _ => (emits_showEntry hP hshow _).act
  exact actEmits_applyEntryCtx _

/-- `event-move` enters where its exit leads, if it was given a key for it. -/
theorem actEmits_eventMove (s : Slots) (m : Ctx) :
    ActEmits (Permits s ":move" (.list [.map m])) (eventMove (.map m)) := by
  have hshow : ∀ text, Permits s ":move" (.list [.map m]) (.display text) := .shown _ _
  have hfollow : ∀ tid, Dict.get? m "traverseId" = some (.str tid) →
      (∀ deny, Dict.get? m "deny" ≠ some (.str deny)) →
      ActEmits (Permits s ":move" (.list [.map m])) (followMove tid
        ((Dict.get? m "exit").getD (.bool false)) ((Dict.get? m "key").getD (.bool false))) := by
    intro tid htid hdeny
    refine (actEmits_lift _).bind fun _ => actEmits_ite ?_ (actEmits_pure _)
    rcases hkey : Dict.get? m "key" with _ | _ | _ | _ | _ | _ | _ | _ | _
    case some.str =>
      refine actEmits_ite (ActEmits.bind ?_ fun _ => actEmits_pure _) (actEmits_pure _)
      refine actEmits_enterWithKey (fun _ => .asked _ _) hshow (fun dest params r hdest => ?_) _ _
      rcases hexit : Dict.get? m "exit" with _ | v
      · rw [hexit] at hdest
        cases hdest
      · rw [hexit] at hdest
        obtain rfl : v = .str dest := hdest
        exact .entered htid hdeny hexit hkey params r
    all_goals exact actEmits_pure _
  unfold eventMove
  dsimp only
  rcases htid : Dict.get? m "traverseId" with _ | tid | _ | _ | _ | _ | _ | _ | _
  case some.str =>
    rcases hdeny : Dict.get? m "deny" with _ | deny | _ | _ | _ | _ | _ | _ | _
    case some.str => exact (emits_display hshow _).act
    all_goals exact hfollow tid htid (by simp [hdeny])
  all_goals exact actEmits_pure _

omit [Host] in
/-- Frees the hand, and does nothing outside. -/
theorem actEmits_releaseHand (actor : SchemeVal) : ActEmits P (releaseHand! actor) :=
  emits_getSlots.act.bind fun _ => actEmits_ite (actEmits_modifySlots _) (actEmits_pure _)

omit [Host] in
/-- What follows is done with the hand released. -/
theorem actEmitsAt_releaseHand_bind {β : Type} {actor : SchemeVal} {g : Unit → Act β}
    (hg : ActEmitsAt (s.release actor) P (g ())) : ActEmitsAt s P (releaseHand! actor >>= g) :=
  fun f => (wp_bind _ _).2 ((wp_releaseHand _).2 (hg f))

/-- What follows is done with the inventory as it is. -/
theorem actEmitsAt_myInvIfAny_bind {β : Type} {g : SchemeVal → Act β}
    (hg : ActEmitsAt s P (g s.myInv)) : ActEmitsAt s P ((liftM myInvIfAny : Act SchemeVal) >>= g) :=
  fun f => (wp_bind _ _).2 (wp_myInvIfAny.2 (hg f))

omit [Host] in
/-- The room does not depend on the hand. -/
theorem Slots.room_release (s : Slots) (actor : SchemeVal) : (s.release actor).room = s.room := by
  simp only [release]
  split <;> rfl

/-- The proposal is acknowledged to the actor that made it. -/
theorem emits_acknowledge (hp : parentOf m = .str Host.did) {actor : SchemeVal}
    (ha : actorOf m = actor) :
    Emits (Permits s ":parent" (.list [.map m])) (actorCall actor "child" [.map m]) := by
  refine emits_actorCall fun x v r hx hv => ?_
  obtain rfl := SchemeVal.str.inj hv
  exact .acknowledged ⟨hp, ha.trans hx⟩ r

/-- What is relocated on a proposal is the actor itself, or the equipped container. -/
theorem actEmitsAt_relocate {s₁ : Slots} (hroom : s₁.room = s.room) (h : Proposes m x)
    (armed : s.equipPending = .str x ∨ s.awaitsDrop x) {t : SchemeVal}
    (ht : t = .str x ∨ t = s.myInv) :
    ActEmitsAt s₁ (Permits s ":parent" (.list [.map m])) (relocateToRoom! t) := by
  refine actEmitsAt_relocateToRoom (fun room r hr => ?_) (fun y v r hy hr => ?_) (.shown _ _)
  · exact .dropped h armed ht (hroom.symm.trans hr) r
  · have hy' : y = x ∨ .str y = s.myInv :=
      ht.imp (fun h => SchemeVal.str.inj (hy.symm.trans h)) hy.symm.trans
    exact .relocated h armed hy' (hroom.symm.trans hr) r

/-- A booked container is acknowledged, and the equipped one makes room for it. -/
theorem actEmitsAt_acceptEquip {actor : SchemeVal} (hp : parentOf m = .str Host.did)
    (ha : actorOf m = actor) (hb : s.equipPending = actor) :
    ActEmitsAt s (Permits s ":parent" (.list [.map m])) (acceptEquip! actor m) := by
  rcases actor with x | _ | _ | _ | _ | _ | _ | _
  case str =>
    -- the container that makes room is the one equipped before
    let s₁ := ({ s with equipPending := .bool false } : Slots).release (.str x)
    have hinv : s₁.myInv = s.myInv := Slots.myInv_release _ _
    have hroom : s₁.room = s.room := Slots.room_release _ _
    refine EmitsAt.act_bind (emits_acknowledge hp ha).emitsAt fun _ => ?_
    refine actEmitsAt_modifySlots_bind _ (actEmitsAt_releaseHand_bind ?_)
    refine ActEmitsAt.bind (actEmitsAt_myInvIfAny_bind ?_) fun _ => ?_
    · refine actEmitsAt_ite (ActEmitsAt.bind ?_ fun _ => actEmits_pure _) (actEmits_pure _).emitsAt
      exact actEmitsAt_relocate hroom ⟨hp, ha⟩ (.inl hb) (.inr hinv)
    · refine (actEmits_modifySlots _).bind fun _ => actEmits_setPath.bind fun _ => ?_
      exact (actEmits_lift _).bind fun _ => (emits_display (.shown _ _) _).act
  all_goals exact fun f => refl_of (Adds _) f

/-- A marked actor is acknowledged and dropped. -/
theorem actEmitsAt_acceptDrop (h : Proposes m x) (marked : s.awaitsDrop x) :
    ActEmitsAt s (Permits s ":parent" (.list [.map m])) (acceptDrop! x m) := by
  have hroom : ({ s with dropPending := s.dropPending.delete x } : Slots).room = s.room := rfl
  refine actEmitsAt_modifySlots_bind _ ?_
  refine EmitsAt.act_bind (emits_acknowledge h.1 h.2).emitsAt fun _ => ?_
  refine ActEmitsAt.bind (actEmitsAt_relocate hroom h (.inr marked) (.inl rfl)) fun _ => ?_
  exact emits_closed.myInvIfAny.act.bind fun _ =>
    actEmits_ite (actEmits_modifySlots _) (actEmits_pure _)

/-- Any other actor is acknowledged. -/
theorem actEmits_acceptHold (h : Proposes m x) :
    ActEmits (Permits s ":parent" (.list [.map m])) (acceptHold! x m) := by
  refine (emits_acknowledge h.1 h.2).act.bind fun _ => emits_closed.myInvIfAny.act.bind fun _ => ?_
  exact actEmits_ite (actEmits_modifySlots _) (actEmits_modifySlots _)

/-- What a handshake does outside. -/
theorem actEmitsAt_handleAvatarParent (s : Slots) (m : Ctx) :
    ActEmitsAt s (Permits s ":parent" (.list [.map m])) (handleAvatarParent! (.map m)) := by
  intro f
  simp only [handleAvatarParent!]
  rw [wp_bind, show mapRef (.map m) "parent" "" = .ok (parentOf m) from rfl, wp_lift]
  simp only
  rw [wp_bind, show mapRef (.map m) "actor" "" = .ok (actorOf m) from rfl, wp_lift]
  simp only
  rw [wp_bind, show asMap "map-ref" (.map m) = .ok m from rfl, wp_lift]
  simp only
  rw [wp_bind, wp_getSlots]
  split
  · next h => exact actEmitsAt_acceptEquip h.2 rfl h.1.symm f
  split
  · next hp =>
    rcases ha : actorOf m with x | _ | _ | _ | _ | _ | _ | _
    case str =>
      rw [wp_bind, show asString "map-ref" (.str x) = .ok x from rfl, wp_lift]
      simp only
      split
      · next hmarked => exact actEmitsAt_acceptDrop ⟨hp, ha⟩ hmarked f
      · exact (actEmits_acceptHold ⟨hp, ha⟩).emitsAt f
    all_goals exact refl_of (Adds _) f
  · exact (actEmits_releaseHand _).emitsAt f

/-! ## Dispatch -/

variable {event args : SchemeVal}

/-- A handler of one argument does what it does with that one. -/
theorem actEmitsAt_handler₁ {f : SchemeVal → Act Unit} {l : List SchemeVal}
    (h : ∀ a, l = [a] → ActEmitsAt s P (f a)) : ActEmitsAt s P (handler₁ f l) := by
  unfold handler₁
  split
  · exact h _ rfl
  · exact (actEmits_lift _).emitsAt

/-- A handler of two arguments does what it does with those. -/
theorem actEmitsAt_handler₂ {f : SchemeVal → SchemeVal → View Unit} {l : List SchemeVal}
    (h : ∀ a b, l = [a, b] → EmitsAt s P (f a b)) : ActEmitsAt s P (handler₂ f l) := by
  unfold handler₂
  split
  · exact (h _ _ rfl).act
  · exact (actEmits_lift _).emitsAt

/-- An event does what its handler does, or shows what is wrong. -/
theorem actEmitsAt_dispatchEvent {handlers : String → Option (List SchemeVal → Act Unit)}
    (hshow : ∀ text, P (.display text))
    (h : ∀ name f l, event = .str name → handlers name = some f →
      elements "apply" args = .ok l → ActEmitsAt s P (f l)) :
    ActEmitsAt s P (dispatchEvent handlers event args) := by
  rcases event with name | _ | _ | _ | _ | _ | _ | _
  case str =>
    rcases hf : handlers name with _ | f
    · rw [dispatchEvent_none hf]
      exact (actEmits_pure _).emitsAt
    · rw [dispatchEvent_some hf]
      refine ActEmitsAt.tryCatch ?_ fun e => (emits_display hshow _).act
      rcases hl : elements "apply" args with e | l
      · exact (actEmits_throw e).emitsAt
      · exact h name f l rfl hf hl
  all_goals exact (actEmits_throw _).emitsAt

/-- What is delivered as the arguments of an event. -/
theorem args_of_elements {l : List SchemeVal} (h : elements "apply" args = .ok l) (hl : l ≠ []) :
    args = .list l := by
  rcases args with _ | _ | _ | _ | _ | _ | _ | _ <;> cases h
  · exact absurd rfl hl
  · rfl

/-- An event of the room does outside what it permits. -/
theorem actEmitsAt_roomEvent {name : SchemeVal} {rest : List SchemeVal} :
    ActEmitsAt s (Permits s ":event" (.list (name :: rest)))
      (dispatchEvent roomEventHandlers name (.list rest)) := by
  have hshow : ∀ text, Permits s ":event" (.list (name :: rest)) (.display text) := .shown _ _
  have hP : ∀ e : Effect, e.Lookup → Permits s ":event" (.list (name :: rest)) e :=
    fun _ => .asked _ _
  refine actEmitsAt_dispatchEvent hshow fun n f l hn hf hl => ?_
  obtain rfl : rest = l := Except.ok.inj hl
  subst hn
  simp only [roomEventHandlers] at hf
  split at hf
  case h_9 => cases hf
  all_goals obtain rfl := Option.some.inj hf
  · exact actEmitsAt_handler₁ fun ctx _ => ActEmits.emitsAt <| Emits.act <|
      (emits_modifyRoomChild _ _ _).bind fun _ => emits_showMovement hshow _ _
  · exact actEmitsAt_handler₁ fun ctx _ => ActEmits.emitsAt <| Emits.act <|
      (emits_modifyRoomChild _ _ _).bind fun _ => emits_showMovement hshow _ _
  · exact actEmitsAt_handler₁ fun ctx _ => (emits_modifyRoomChild _ _ _).act.emitsAt
  · exact actEmitsAt_handler₂ fun _ _ _ =>
      Emits.emitsAt <| (emits_lift _).bind fun _ => emits_display hshow _
  · exact actEmitsAt_handler₂ fun _ _ _ =>
      Emits.emitsAt <| (emits_lift _).bind fun _ => emits_display hshow _
  · exact actEmitsAt_handler₁ fun _ _ => (emits_display hshow _).act.emitsAt
  · refine actEmitsAt_handler₂ fun ctx direction hrest => ?_
    subst hrest
    refine emitsAt_eventDig hP hshow fun hown => emitsAt_go hP ?_ ?_ _
    · exact fun n => .drew hown direction n
    · exact fun x params r hr => .moved hown direction hr params r
  · exact actEmitsAt_handler₂ fun _ _ _ => (emits_eventFill hP hshow _ _).emitsAt

/-- An event does outside what it permits. -/
theorem actEmitsAt_onEvent : ActEmitsAt s (Permits s event args) (onEvent event args) := by
  have hshow : ∀ text, Permits s event args (.display text) := .shown _ _
  unfold onEvent
  split
  · next he =>
    subst he
    split
    · exact actEmitsAt_roomEvent
    · exact (actEmits_throw _).emitsAt
  refine actEmitsAt_dispatchEvent hshow fun name f l hn hf hl => ?_
  subst hn
  simp only [eventHandlers] at hf
  split at hf
  case h_14 => cases hf
  all_goals obtain rfl := Option.some.inj hf
  · exact actEmitsAt_handler₁ fun _ _ => (emits_display hshow _).act.emitsAt
  · exact actEmitsAt_handler₁ fun _ _ => (emits_display hshow _).act.emitsAt
  · exact actEmitsAt_handler₁ fun _ _ => (emits_display hshow _).act.emitsAt
  · exact actEmitsAt_handler₁ fun _ _ => (emits_eventChild _).act.emitsAt
  · refine actEmitsAt_handler₁ fun ctx hctx => ?_
    subst hctx
    rw [args_of_elements hl (by simp)]
    rcases ctx with _ | _ | _ | _ | _ | _ | _ | m
    case map => exact actEmitsAt_handleAvatarParent s m
    all_goals exact (actEmits_throw _).emitsAt
  · refine ActEmitsAt.bind (EmitsAt.act ?_) fun _ => actEmits_pure _
    exact emitsAt_announceAvatarParent fun _ params r hr => .presented _ hr params r
  · exact (emits_display hshow _).act.emitsAt
  · exact (emits_display hshow _).act.emitsAt
  · exact (emits_display hshow _).act.emitsAt
  · exact actEmitsAt_handler₁ fun _ _ => (emits_eventActionDone hshow _).act.emitsAt
  · exact actEmitsAt_handler₁ fun _ _ => (emits_eventActionDone hshow _).act.emitsAt
  · refine actEmitsAt_handler₁ fun ctx hctx => ?_
    subst hctx
    rw [args_of_elements hl (by simp)]
    rcases ctx with _ | _ | _ | _ | _ | _ | _ | m
    case map => exact (actEmits_eventMove _ m).emitsAt
    all_goals exact (actEmits_pure _).emitsAt
  · exact actEmitsAt_handler₁ fun _ _ => (emits_eventNogo hshow _).act.emitsAt

/-- What was done since then has the property. -/
abbrev Since (P : Effect → Prop) (w w' : World) : Prop := Adds P w.focus w'.focus

/-- An event does only what it permits. -/
theorem event_permits (w : World) (event args : SchemeVal) :
    Since (Permits w.slots event args) w ((Op.event event args).run.run w).2 :=
  (wp_iff_end _ (Since (Permits w.slots event args) w)).1 (actEmitsAt_onEvent w.focus)

end Events

/-! ## Questions -/

/-- The commands that are questions, with what each of them asks besides looking around. -/
def Command.questions : Command → Option (List String)
  | .look | .who? | .inv | .did? | .here? => some []
  | .occupants? => some ["occupants?"]
  | .things? => some ["things?"]
  | .exits? => some ["exits?"]
  | .help => some ["help"]
  | .owner => some ["owner?"]
  | .delve => some ["to?", "name?"]
  | _ => none

/-- Something is shown or asked. -/
inductive Effect.Asks (methods : List String) : Effect → Prop
  | shown (text : String) : Asks methods (.display text)
  | looked {e : Effect} (h : e.Lookup) : Asks methods e
  | asked {x method : String} (h : method ∈ methods) (args : List SchemeVal)
      (reply : Except String SchemeVal) : Asks methods (.call x method args reply)

section Questions

variable {methods : List String}

/-- One of the questions is asked. -/
theorem emits_ask {actor : SchemeVal} {method : String} {args : List SchemeVal}
    (h : method ∈ methods) : Emits (Effect.Asks methods) (actorCall actor method args) := by
  refine emits_actorCall fun x m r _ hm => ?_
  obtain rfl := SchemeVal.str.inj hm
  exact .asked h _ r

/-- A question to the room is one of those of the command. -/
theorem emits_askRoom {method : String} {args : List SchemeVal} (h : method ∈ methods) :
    Emits (Effect.Asks methods) (roomCall method args) :=
  emits_closed.room.bind fun _ => emits_ask h

/-- What is shown is no call. -/
theorem emits_tell (text : SchemeVal) : Emits (Effect.Asks methods) (display text) :=
  emits_display .shown _

omit [Host] in
/-- What the resolver looks up may be asked. -/
theorem asks_inquires : Inquires fun _ v => Emits (Effect.Asks methods) v :=
  emits_inquires fun _ => .looked

/-- A question to an object is one of those of the command. -/
theorem emits_command {object : SchemeVal} {method : String} {params : List SchemeVal}
    (h : method ∈ methods) : Emits (Effect.Asks methods) (command object method params) :=
  (asks_inquires.resolveOne object).bind fun _ => emits_ask h

/-- A look at an entry shows it. -/
theorem emits_lookEntry (entry : SchemeVal) : Emits (Effect.Asks methods) (lookEntry entry) :=
  (emits_lift _).bind fun _ => (emits_lift _).bind fun _ => emits_tell _

theorem emits_lookupDid (word : SchemeVal) : Emits (Effect.Asks methods) (lookupDid word) := by
  have hpool : Emits (Effect.Asks methods) defaultPool := asks_inquires.defaultPool
  refine hpool.bind fun _ => (emits_lift _).bind fun found => ?_
  split
  · exact emits_pure _
  · refine asks_inquires.lookRoom.bind fun _ => (emits_closed.rememberRoom _).bind fun _ => ?_
    exact hpool.bind fun _ => emits_lift _

/-- A look asks only what a look may. -/
theorem emits_look (rest : List SchemeVal) : Emits (Effect.Asks methods) (look rest) := by
  have hentry : ∀ entry, Emits (Effect.Asks methods) (do
      let kind ← mapRef entry "kind" ""
      if kind = "container" ∨ kind = "passage" then
        display (← actorCall (← entryActor entry) "look" [])
      else lookEntry entry
      return SchemeVal.nil) := by
    intro entry
    refine (emits_lift _).bind fun kind =>
      emits_ite ?_ ((emits_lookEntry _).bind fun _ => emits_pure _)
    refine (emits_lift _).bind fun _ => Emits.bind ?_ fun _ =>
      (emits_tell _).bind fun _ => emits_pure _
    exact asks_inquires.lookup (by simp)
  refine emits_ite (emits_lookAround (fun _ => .looked) .shown) ?_
  refine (emits_lift _).bind fun word => (emits_lift _).bind fun _ => emits_ite ?_ ?_
  · refine (emits_lookupDid _).bind fun entry => ?_
    rcases entry with _ | entry
    · exact emits_throw _
    · exact hentry entry
  · have hfresh : Emits (Effect.Asks methods) (resolveOneEntryFresh word defaultPool) :=
      asks_inquires.resolveOneEntryFresh _ asks_inquires.defaultPool
    refine Emits.bind (hfresh.bind fun _ => emits_pure _) fun entry => ?_
    rcases entry with _ | entry
    · exact emits_throw _
    · exact hentry entry

/-- A look at the inventory asks only what it may. -/
theorem emits_inv (rest : List SchemeVal) : Emits (Effect.Asks methods) (inv rest) := by
  have hshow : ∀ (container : Option SchemeVal) (contents : List SchemeVal),
      Emits (Effect.Asks methods) (do
        display (.str (← inventoryText (← handPool) container contents))
        return SchemeVal.nil) := fun _ _ =>
    Emits.bind (emits_getSlots.bind fun _ => emits_pure _) fun _ =>
      (emits_lift _).bind fun _ => (emits_tell _).bind fun _ => emits_pure _
  refine emits_ite (emits_throw _) (emits_closed.myInvIfAny.bind fun inventory => ?_)
  refine Emits.bind (Emits.tryCatch ?_ fun _ => emits_pure _) fun contents => ?_
  · exact emits_ite (asks_inquires.containerContents inventory) (emits_pure _)
  · refine emits_ite ?_ (hshow none contents)
    have hctx : Emits (Effect.Asks methods) (inventoryCtx inventory) :=
      asks_inquires.inventoryCtx inventory
    refine Emits.bind (hctx.bind fun _ => emits_pure _) fun _ => ?_
    exact hshow _ contents

/-- Delving asks where to, and for the name. -/
theorem emits_delve (h : "to?" ∈ methods) (h' : "name?" ∈ methods) (words : List SchemeVal) :
    Emits (Effect.Asks methods) (delve words) := by
  refine (emits_lift _).bind fun direction => ?_
  refine (asks_inquires.resolveExit _).bind fun _ => (emits_ask h).bind fun _ => ?_
  refine (emits_lift _).bind fun _ => emits_ite ?_ ((emits_tell _).bind fun _ => emits_pure _)
  exact (emits_ask h').bind fun _ => (emits_tell _).bind fun _ => emits_pure _

/-- A question that is asked. -/
theorem emits_question {c : Command} (hc : c.questions = some methods) {args : List SchemeVal}
    {v : View SchemeVal} (hv : c.view? args = some v) : Emits (Effect.Asks methods) v := by
  simp only [Command.view?] at hv
  split at hv
  all_goals simp only [Command.questions, reduceCtorEq, Option.some.injEq] at hc
  all_goals try
    subst hc
    obtain rfl := Option.some.inj hv
  · exact emits_delve (by simp) (by simp) _
  · exact (emits_command (by simp)).bind fun _ => (emits_tell _).bind fun _ => emits_pure _
  · exact emits_closed.room
  · refine emits_ite (emits_throw _) ((emits_lift _).bind fun _ => ?_)
    exact (asks_inquires.resolveOne _).bind fun _ => (emits_tell _).bind fun _ => emits_pure _
  · refine (asks_inquires.cachedRoomPool _).bind fun _ => (emits_lift _).bind fun _ => ?_
    exact (emits_tell _).bind fun _ => emits_pure _
  · refine (emits_askRoom (by simp)).bind fun _ => (emits_lift _).bind fun _ => ?_
    exact (emits_tell _).bind fun _ => emits_pure _
  · refine (emits_askRoom (by simp)).bind fun _ => (emits_lift _).bind fun _ => ?_
    exact (emits_tell _).bind fun _ => emits_pure _
  · refine (emits_askRoom (by simp)).bind fun _ => (emits_lift _).bind fun _ => ?_
    exact (emits_tell _).bind fun _ => emits_pure _
  · exact emits_inv _
  · refine emits_ite ((emits_lift _).bind fun _ => (emits_command (by simp)).bind fun _ => ?_) ?_
    · exact (emits_tell _).bind fun _ => emits_pure _
    · exact (emits_tell _).bind fun _ => emits_pure _
  · exact emits_look _
  · cases hv

/-- What is asked is a question, and the slots stay as they are. -/
theorem question_asks {c : Command} (hc : c.questions = some methods) (w : World)
    (args : List SchemeVal) :
    Since (Effect.Asks methods) w ((Op.command c args).run.run w).2 ∧
      ((Op.command c args).run.run w).2.slots = w.slots := by
  have hrun : c.run args = (c.view? args).elim
      (liftM (refuse "apply" args : Except String SchemeVal)) fun v => liftM v := by
    rcases args with _ | ⟨_, _ | _⟩ <;> cases c <;> first | rfl | cases hc
  refine (wp_iff_end _ fun w' => Since (Effect.Asks methods) w w' ∧ w'.slots = w.slots).1 ?_
  simp only [Op.run]
  rw [wp_bind, hrun]
  rcases hv : c.view? args with _ | v
  · exact wp_lift_of (fun _ _ => ⟨refl_of (Adds _) _, rfl⟩) fun _ _ => ⟨refl_of (Adds _) _, rfl⟩
  · refine (wp_view v).2 (((emits_question hc hv).wp w.slots w.focus).conseq ?_ ?_)
    · exact fun _ _ _ h => ⟨h, rfl⟩
    · exact fun _ _ _ h => ⟨h, rfl⟩

end Questions

/-! ## Runs -/

/-- What an operation may do outside. -/
def Op.Permits (s : Slots) : Op → Effect → Prop
  | .event name args, e => Avatar.Permits s name args e
  | .command c _, e => ∀ methods, c.questions = some methods → e.Asks methods

section Runs

variable {w w' : World} {op : Op} {ops : List Op} {e : Effect}

/-- An operation only adds to the trace. -/
theorem World.le_run (w : World) (op : Op) : w ≤ (op.run.run w).2 :=
  (wp_iff_end _ _).1 (wp_of_le (fun _ _ h => h) fun _ _ h => h)

/-- So do operations in a row. -/
theorem World.le_after (w : World) (ops : List Op) : w ≤ w.after ops := by
  induction ops generalizing w with
  | nil => exact le_refl w
  | cons op ops ih => exact le_trans (w.le_run op) (ih _)

/-- Whatever is done outside in a run, one of its operations does. -/
theorem World.exists_op (he : e ∈ w.effects (w.after ops)) : ∃ before op after,
    ops = before ++ op :: after ∧
      e ∈ (w.after before).effects (op.run.run (w.after before)).2 := by
  induction ops generalizing w with
  | nil =>
    rw [show w.after [] = w from rfl, World.effects_self] at he
    cases he
  | cons op ops ih =>
    have hle : w ≤ (op.run.run w).2 := w.le_run op
    have hle' : (op.run.run w).2 ≤ w.after (op :: ops) := World.le_after _ ops
    rw [World.effects_trans hle hle', List.mem_append] at he
    rcases he with he | he
    · obtain ⟨before, op', after, rfl, hlater⟩ := ih he
      exact ⟨op :: before, op', after, rfl, hlater⟩
    · exact ⟨[], op, ops, rfl, he⟩

/-- One operation does outside what it permits. -/
theorem op_permits (w : World) (op : Op) : Since (op.Permits w.slots) w (op.run.run w).2 := by
  rcases op with ⟨c, args⟩ | ⟨event, args⟩
  · rcases hc : c.questions with _ | methods
    · refine ⟨_, World.trace_eq (w.le_run _), fun e _ methods hsome => ?_⟩
      cases hc.symm.trans hsome
    · obtain ⟨l, hl, hasks⟩ := (question_asks hc w args).1
      refine ⟨l, hl, fun e he methods' hsome => ?_⟩
      obtain rfl := Option.some.inj (hc.symm.trans hsome)
      exact hasks e he
  · exact event_permits w event args

/-- Whatever is done outside in a run, an operation of the run did, and permits. -/
theorem effects_permitted (he : e ∈ w.effects (w.after ops)) : ∃ before op after,
    ops = before ++ op :: after ∧
      e ∈ (w.after before).effects (op.run.run (w.after before)).2 ∧
      op.Permits (w.after before).slots e := by
  obtain ⟨before, op, after, hops, he⟩ := World.exists_op he
  exact ⟨before, op, after, hops, he, (op_permits _ op).effects e he⟩

omit [Host] in
/-- An item nobody asked for proposes itself, and is acknowledged. -/
theorem effects_permitted_forged :
    let _ : Host := scripted "did:ma:me" fun _ _ _ => .ok .nil
    let coin : Ctx := [("actor", "did:ma:coin"), ("parent", "did:ma:me")]
    let w := World.entered "did:ma:room"
    ∃ before op after,
      [Op.command .inv [], .event ":parent" (.list [.map coin])] = before ++ op :: after ∧
        .call "did:ma:coin" "child" [.map coin] (.ok .nil) ∈
          (w.after before).effects (op.run.run (w.after before)).2 ∧
        op.Permits (w.after before).slots
          (.call "did:ma:coin" "child" [.map coin] (.ok .nil)) := by
  intro _ coin w
  exact effects_permitted List.mem_cons_self

/-! ## Passive runs -/

/-- An event, or a question. -/
def Op.Passive : Op → Prop
  | .event _ _ => True
  | .command c _ => c.questions.isSome

omit [Host] in
/-- Nothing is booked to be equipped, and nothing marked to be dropped. -/
structure Slots.AtRest (s : Slots) : Prop where
  booked : s.equipPending = .bool false
  marked : ∀ x, s.awaitsDrop x = false

/-- The methods with which an avatar asks, acknowledges a proposal, tells a room that it is
    there, asks it for a way, and enters. -/
def passiveMethods : List String :=
  ["look", "kind?", "name", "contents?", "occupants?", "things?", "exits?", "help", "owner?",
    "to?", "name?", "child", "parent", "move", "enter"]

/-- Nothing is handed over. -/
def Effect.Passive : Effect → Prop
  | .call _ method _ _ => method ∈ passiveMethods
  | .msgSend _ _ _ => False
  | .display _ | .random _ => True

omit [Host] in
/-- Slots at rest await no item. -/
theorem Slots.AtRest.not_armed {s : Slots} (hs : s.AtRest) (x : String) :
    ¬ (s.equipPending = .str x ∨ s.awaitsDrop x) := by
  rintro (h | h)
  · cases hs.booked.symm.trans h
  · cases (hs.marked x).symm.trans h

/-- Between two states nothing was booked, marked or equipped, and what came to the hand
    had proposed itself in one of the operations. -/
structure Quiet (ops : List Op) (s s' : Slots) : Prop where
  atRest : s'.AtRest
  inv : s'.inv = s.inv
  held : ∀ h, s'.held = some h → s.held = some h ∨
    .event ":parent" (.list [.map h.ctx]) ∈ ops ∧ Proposes h.ctx h.actor

/-- No operation is quiet. -/
theorem quiet_self {s : Slots} (hs : s.AtRest) : Quiet ops s s := ⟨hs, rfl, fun _ h => .inl h⟩

/-- Quiet operations in a row are quiet. -/
theorem Quiet.cons {s s₁ s₂ : Slots} (h : Quiet [op] s s₁) (h' : Quiet ops s₁ s₂) :
    Quiet (op :: ops) s s₂ where
  atRest := h'.atRest
  inv := h'.inv.trans h.inv
  held item hitem := by
    rcases h'.held item hitem with hheld | ⟨hmem, hprop⟩
    · refine (h.held item hheld).imp_right (And.imp_left fun hmem => ?_)
      exact List.mem_singleton.1 hmem ▸ List.mem_cons_self
    · exact .inr ⟨List.mem_cons_of_mem _ hmem, hprop⟩

/-- A handshake that finds nothing booked or marked is quiet. -/
theorem Handshake.quiet {m : Ctx} (h : Handshake m w w') (hw : w.slots.AtRest) :
    Quiet [.event ":parent" (.list [.map m])] w.slots w'.slots := by
  cases h with
  | idle slots =>
    rw [slots]
    exact quiet_self hw
  | booked x _ _ _ pending => exact absurd (.inl pending) (hw.not_armed x)
  | unmarked x _ _ _ marked => exact absurd (.inr marked) (hw.not_armed x)
  | dropped x _ _ _ _ _ _ _ _ _ _ marked => exact absurd (.inr marked) (hw.not_armed x)
  | refreshed _ slots =>
    rw [slots]
    exact ⟨⟨hw.booked, hw.marked⟩, rfl, fun _ h => .inl h⟩
  | held x item slots proposes _ actor ctx =>
    rw [slots]
    refine ⟨⟨hw.booked, hw.marked⟩, rfl, fun item' hitem => .inr ?_⟩
    obtain rfl := Option.some.inj hitem
    rw [ctx, actor]
    exact ⟨List.mem_singleton_self _, proposes⟩
  | released _ slots =>
    rw [slots]
    exact ⟨⟨hw.booked, hw.marked⟩, rfl, fun _ h => by cases h⟩

/-- Only commands book, mark and equip. -/
theorem Op.Passive.quiet (hop : op.Passive) (hw : w.slots.AtRest) :
    Quiet [op] w.slots (op.run.run w).2.slots := by
  rcases op with ⟨c, args⟩ | ⟨event, args⟩
  · obtain ⟨methods, hc⟩ := Option.isSome_iff_exists.1 hop
    rw [(question_asks hc w args).2]
    exact quiet_self hw
  have hframed : Framed fun w' : World => Quiet [.event event args] w.slots w'.slots :=
    ⟨fun _ hs h => by rwa [hs]⟩
  rcases hm : (Op.event event args).parentCtx? with _ | m
  · refine Op.run_keeps_of_enters hframed ?_ (.inr rfl) (fun ctx hctx => ?_) w (quiet_self hw)
    · exact fun _ _ _ h => ⟨⟨h.atRest.booked, h.atRest.marked⟩, h.inv, h.held⟩
    · rw [hctx] at hm
      exact handleAvatarParent!_keeps fun m hctx => by subst hctx; cases hm
  · refine Op.parentEvent_end (P := fun w' => Quiet [.event event args] w.slots w'.slots) hm
      (fun h => absurd hw.booked h) (fun _ _ h => h) fun _ _ h => ?_
    rw [Op.parentCtx?_eq hm]
    exact h.quiet hw

/-- Passive operations are quiet from slots at rest. -/
theorem quiet_after (hops : ∀ op ∈ ops, op.Passive) (hw : w.slots.AtRest) :
    Quiet ops w.slots (w.after ops).slots := by
  induction ops generalizing w with
  | nil => exact quiet_self hw
  | cons op ops ih =>
    have hop : Quiet [op] w.slots (op.run.run w).2.slots := (hops op List.mem_cons_self).quiet hw
    exact hop.cons (ih (fun op h => hops op (List.mem_cons_of_mem _ h)) hop.atRest)

omit [Host] in
/-- A question is passive. -/
theorem Effect.Lookup.passive (h : e.Lookup) : e.Passive := by
  rcases e with ⟨_, method, _, _⟩ | _ | _ | _
  · exact List.mem_append_left (passiveMethods.drop 4) h
  all_goals cases h

omit [Host] in
/-- So is what a command asks. -/
theorem Effect.Asks.passive {c : Command} {methods : List String} (h : e.Asks methods)
    (hc : c.questions = some methods) : e.Passive := by
  cases h with
  | shown => trivial
  | looked h => exact h.passive
  | asked h =>
    have hsub : methods ⊆ passiveMethods := by cases c <;> cases hc <;> decide
    exact hsub h

/-- With nothing booked or marked, what a passive operation permits hands nothing over. -/
theorem Op.Passive.permits {s : Slots} (hop : op.Passive) (hs : s.AtRest)
    (h : op.Permits s e) : e.Passive := by
  rcases op with ⟨c, args⟩ | ⟨event, args⟩
  · obtain ⟨methods, hc⟩ := Option.isSome_iff_exists.1 hop
    exact (h methods hc).passive hc
  change Avatar.Permits s event args e at h
  cases h with
  | shown => trivial
  | drew => trivial
  | asked _ _ h => exact h.passive
  | acknowledged => simp [Effect.Passive, passiveMethods]
  | presented => simp [Effect.Passive, passiveMethods]
  | entered => simp [Effect.Passive, passiveMethods]
  | moved => simp [Effect.Passive, passiveMethods]
  | @dropped _ x _ armed => exact absurd armed (hs.not_armed x)
  | @relocated _ x _ armed => exact absurd armed (hs.not_armed x)

/-- Events and questions hand nothing over, as long as no command has booked or marked
    something. They book, mark and equip nothing themselves, and only what proposes itself
    comes to the hand. -/
theorem passive_permitted (hops : ∀ op ∈ ops, op.Passive) (hw : w.slots.AtRest) :
    Quiet ops w.slots (w.after ops).slots ∧ ∀ e ∈ w.effects (w.after ops), e.Passive := by
  refine ⟨quiet_after hops hw, fun e he => ?_⟩
  obtain ⟨before, op, after, rfl, hdone⟩ := World.exists_op he
  have hbefore : (w.after before).slots.AtRest :=
    (quiet_after (fun op h => hops op (List.mem_append_left _ h)) hw).atRest
  have hop : op.Passive := hops op (List.mem_append_right _ List.mem_cons_self)
  exact hop.permits hbefore ((op_permits _ op).effects e hdone)

omit [Host] in
/-- An item nobody asked for proposes itself, and the inventory is looked at. -/
theorem passive_permitted_proposal :
    let _ : Host := scripted "did:ma:me" fun _ _ _ => .ok .nil
    let coin : Ctx := [("actor", "did:ma:coin"), ("parent", "did:ma:me")]
    let w := World.entered "did:ma:room"
    let ops : List Op := [.event ":parent" (.list [.map coin]), .command .inv []]
    Quiet ops w.slots (w.after ops).slots ∧ ∀ e ∈ w.effects (w.after ops), e.Passive := by
  intro _ coin w ops
  exact passive_permitted (by simp [ops, Op.Passive, Command.questions]) ⟨rfl, fun _ => rfl⟩

end Runs

end Avatar

end Zscheme
