import Zscheme.Avatar.Closed
import Zscheme.Avatar.Dispatch

/-!
# What leaves the pending actions alone

The table of pending actions is changed in two places. That everything else leaves it
alone is closed under the constructs of the language, for every relation between focuses
that only the table can break (`Tolerant`): a procedure `Stays` within it as its text says,
so that automation follows the text. The resolver does so as it does whatever only asks
(`stays_inquires`).
-/

namespace Zscheme

namespace Avatar

open Prim Stdlib Zscheme.Runtime Program

variable {α β : Type} {R : Focus → Focus → Prop}

/-- The id that a request to take or put an item was answered with. -/
def Effect.answer? : Effect → Option String
  | .call _ method _ (.ok (.str id)) => if method = "take" ∨ method = "put" then some id else none
  | _ => none

/-- A question of the resolver requests nothing. -/
theorem Effect.Lookup.answer? {e : Effect} (h : e.Lookup) : e.answer? = none := by
  rcases e with ⟨x, method, args, r⟩ | _ | _ | _
  case call =>
    have hno : ¬(method = "take" ∨ method = "put") := by
      rintro (rfl | rfl) <;> simp [Effect.Lookup] at h
    rcases r with _ | _ | _ <;> first | rfl | exact if_neg hno
  all_goals rfl

/-- A relation between focuses that only the table of pending actions can break, and only
    where it does not follow the requests. -/
class Tolerant (R : Focus → Focus → Prop) : Prop extends Std.Refl R, IsTrans Focus R where
  remember : ∀ f room, R f { f with lastRoom := room }
  emit : ∀ f e, e.answer? = none → R f { f with trace := e :: f.trace }

/-- The table is the same. -/
def SamePending (f f' : Focus) : Prop := f'.pendingActions = f.pendingActions

instance : Tolerant SamePending where
  refl _ := rfl
  trans _ _ _ h h' := Eq.trans h' h
  remember _ _ := rfl
  emit _ _ _ := rfl

/-- From every slots and focus, the view stays within the relation. -/
def Stays (R : Focus → Focus → Prop) (v : View α) : Prop := ∀ s, (v s).Within R

/-- From every state, the act stays within the relation. -/
def StaysAct (R : Focus → Focus → Prop) (p : Act α) : Prop :=
  p.Within fun w w' => R w.focus w'.focus

-- The value of what goes before is not always used.
attribute [local grind norm] forall_const

/-! ## Constructs -/

section Constructs

/-- A test of two such views is one. -/
theorem stays_ite {c : Prop} [Decidable c] {v v' : View α} (hv : Stays R v) (hv' : Stays R v') :
    Stays R (if c then v else v') := by split <;> assumption

/-- A test of two such actions is one. -/
theorem staysAct_ite {c : Prop} [Decidable c] {p p' : Act α} (hp : StaysAct R p)
    (hp' : StaysAct R p') : StaysAct R (if c then p else p') := by split <;> assumption

/-- A view stays within it as an act too. -/
@[grind ←] theorem Stays.act {v : View α} (h : Stays R v) : StaysAct R (liftM v : Act α) :=
  fun w => h w.slots w.focus

variable [Tolerant R]

/-- To do nothing does. -/
@[grind ←] theorem stays_pure (a : α) : Stays R (pure a : View α) := fun _ => within_pure a

/-- An error changes no state. -/
@[grind ←] theorem stays_throw (e : String) : Stays R (throw e : View α) :=
  fun _ => within_throw e

/-- A pure result or error changes no state. -/
@[grind ←] theorem stays_lift (x : Except String α) : Stays R (liftM x : View α) :=
  fun _ => within_lift x

/-- What follows a pure computation may use its value. -/
theorem stays_lift_bind {x : Except String α} {f : α → View β}
    (h : ∀ a, x = .ok a → Stays R (f a)) : Stays R (liftM x >>= f) := by
  rcases x with e | a
  · exact fun s => within_throw e
  · exact h a rfl

/-- Two views do, one after the other. -/
@[grind ←] theorem Stays.bind {v : View α} {f : α → View β} (hv : Stays R v)
    (hf : ∀ a, Stays R (f a)) : Stays R (v >>= f) := fun s => (hv s).bind fun a => hf a s

/-- A mapped view stays where the view does. -/
@[grind ←] theorem Stays.map {v : View α} (f : α → β) (hv : Stays R v) : Stays R (f <$> v) :=
  hv.bind fun _ => stays_pure _

/-- A view does that is guarded. -/
@[grind ←] theorem Stays.tryCatch {v : View α} {f : String → View α} (hv : Stays R v)
    (hf : ∀ e, Stays R (f e)) : Stays R (tryCatch v f) :=
  fun s => (hv s).tryCatch fun e => hf e s

/-- Reading the slots changes no state. -/
@[grind ←] theorem stays_getSlots : Stays R getSlots := fun s => within_pure s

/-- Reading the focus changes no state. -/
@[grind ←] theorem stays_getFocus : Stays R getFocus := fun _ => within_get

/-- An effect does that requests nothing. -/
theorem stays_emit {e : Effect} (he : e.answer? = none) : Stays R (emit e) :=
  fun _ f => Tolerant.emit f e he

@[grind ←] theorem stays_display [Host] (v : SchemeVal) : Stays R (display v) := stays_emit rfl

/-- An error is told with the action that it ended. -/
@[grind ←] theorem stays_withActionContext (description : String) {v : View α} (h : Stays R v) :
    Stays R (withActionContext description v) := h.tryCatch fun _ => stays_throw _

@[grind ←] theorem staysAct_pure (a : α) : StaysAct R (pure a : Act α) := within_pure a

@[grind ←] theorem staysAct_throw (e : String) : StaysAct R (throw e : Act α) := within_throw e

@[grind ←] theorem staysAct_lift (x : Except String α) : StaysAct R (liftM x : Act α) :=
  within_lift x

/-- Two acts do. -/
@[grind ←] theorem StaysAct.bind {p : Act α} {f : α → Act β} (hp : StaysAct R p)
    (hf : ∀ a, StaysAct R (f a)) : StaysAct R (p >>= f) := Within.bind hp hf

/-- And an act that is guarded. -/
@[grind ←] theorem StaysAct.tryCatch {p : Act α} {f : String → Act α} (hp : StaysAct R p)
    (hf : ∀ e, StaysAct R (f e)) : StaysAct R (tryCatch p f) := Within.tryCatch hp hf

/-- The table is not in the slots. -/
@[grind ←] theorem staysAct_modifySlots (f : Slots → Slots) : StaysAct R (modifySlots f) :=
  fun w => refl_of R w.focus

/-- Naming the action in an error changes no state. -/
@[grind ←] theorem staysAct_withActionContext (description : String) {p : Act α}
    (h : StaysAct R p) : StaysAct R (withActionContext description p) :=
  h.tryCatch fun _ => staysAct_throw _

/-- The questions of the resolver request nothing. -/
theorem stays_inquires : Inquires fun _ v => Stays R v where
  pure := stays_pure
  throw := stays_throw
  lift := stays_lift
  bind := .bind
  tryCatch := .tryCatch
  slots hf _ := stays_getSlots.bind hf
  focus := stays_getFocus
  remember r _ f := Tolerant.remember f r
  ask _ he := stays_emit he.answer?

end Constructs

variable [Host]

/-! ## What stays within every such relation -/

section Shared

variable [Tolerant R]

/-- A call stays within the relation if its effect does. -/
theorem stays_call {actor method : SchemeVal} {args : List SchemeVal}
    (h : ∀ x m r, method = .str m → ∀ f : Focus,
      R f { f with trace := .call x m args r :: f.trace }) :
    Stays R (actorCall actor method args) := by
  rcases actorCall_cases actor method args with ⟨e, hraise⟩ | ⟨x, m, -, hm, hcall⟩
  · rw [hraise]
    exact stays_throw e
  · rw [hcall]
    refine stays_getFocus.bind fun f => ?_
    exact Stays.bind (fun _ f' => h x m _ hm f') fun _ => stays_lift _

/-- Only `take` and `put` are requests. -/
@[grind ←] theorem stays_actorCall {actor : SchemeVal} {m : String} {args : List SchemeVal}
    (h : m ≠ "take") (h' : m ≠ "put") : Stays R (actorCall actor (.str m) args) := by
  refine stays_call fun x m' r hm f => Tolerant.emit f _ ?_
  obtain rfl := SchemeVal.str.inj hm
  rcases r with _ | _ | _ <;> first | rfl | exact if_neg (not_or.2 ⟨h, h'⟩)

@[grind ←] theorem stays_room : Stays R room := stays_inquires.room

/-- So it is for calls of the room. -/
@[grind ←] theorem stays_roomCall {m : String} {args : List SchemeVal} (h : m ≠ "take")
    (h' : m ≠ "put") : Stays R (roomCall (.str m) args) := by grind [roomCall]

/-! The procedures of the resolver, as automation is to find them. -/

@[grind ←] theorem stays_localPath (path : String) (value : Option SchemeVal) :
    Stays R (localPath path value) := stays_inquires.localPath path value

omit [Host] in
@[grind ←] theorem stays_rememberRoom (snapshot : SchemeVal) :
    Stays R (rememberRoom! snapshot) := stays_inquires.rememberRoom snapshot

@[grind ←] theorem stays_cachedRoomPool (pool : Ctx → Except String (List SchemeVal)) :
    Stays R (cachedRoomPool pool) := stays_inquires.cachedRoomPool pool

@[grind ←] theorem stays_myInvIfAny : Stays R myInvIfAny := stays_inquires.myInvIfAny

@[grind ←] theorem stays_inventoryDisplayCtx (inventory : SchemeVal) :
    Stays R (inventoryDisplayCtx inventory) := stays_inquires.inventoryDisplayCtx inventory

@[grind ←] theorem stays_inventoryCtx (inventory : SchemeVal) :
    Stays R (inventoryCtx inventory) := stays_inquires.inventoryCtx inventory

@[grind ←] theorem stays_containerContents (container : SchemeVal) :
    Stays R (containerContents container) := stays_inquires.containerContents container

@[grind ←] theorem stays_resolveInventoryPool : Stays R resolveInventoryPool :=
  stays_inquires.resolveInventoryPool

omit [Host] in
@[grind ←] theorem stays_handPool : Stays R handPool := stays_inquires.handPool

@[grind ←] theorem stays_resolveRoomPool : Stays R resolveRoomPool := stays_cachedRoomPool _

@[grind ←] theorem stays_resolvePersonPool : Stays R resolvePersonPool :=
  stays_cachedRoomPool _

@[grind ←] theorem stays_defaultPool : Stays R defaultPool := stays_inquires.defaultPool

@[grind ←] theorem stays_resolveOneEntry (word : SchemeVal) (pool : List SchemeVal) :
    Stays R (resolveOneEntry word pool) := stays_inquires.resolveOneEntry word pool

/-- A word is looked up again when the pool could be stale. -/
@[grind ←] theorem stays_resolveOneEntryOrRefresh (word : SchemeVal) (pool : List SchemeVal)
    {rebuild : View (List SchemeVal)} (h : Stays R rebuild) :
    Stays R (resolveOneEntryOrRefresh word pool rebuild) :=
  stays_inquires.resolveOneEntryOrRefresh word pool h

@[grind ←] theorem stays_resolveOneEntryFresh (word : SchemeVal) {pool : View (List SchemeVal)}
    (h : Stays R pool) : Stays R (resolveOneEntryFresh word pool) :=
  stays_inquires.resolveOneEntryFresh word h

@[grind ←] theorem stays_resolveOne (word : SchemeVal) : Stays R (resolveOne word) :=
  stays_inquires.resolveOne word

@[grind ←] theorem stays_resolveInGivenPool (word : SchemeVal) (pool : List SchemeVal) :
    Stays R (resolveInGivenPool word pool) :=
  (stays_resolveOneEntry word pool).bind fun _ => stays_lift _

@[grind ←] theorem stays_resolveExit (word : SchemeVal) : Stays R (resolveExit word) :=
  stays_inquires.resolveExit word

@[grind ←] theorem stays_resolveExitName (word : SchemeVal) : Stays R (resolveExitName word) :=
  stays_inquires.resolveExitName word

@[grind ←] theorem stays_resolveInContainer (word container : SchemeVal) :
    Stays R (resolveInContainer word container) :=
  stays_inquires.resolveInContainer word container

@[grind ←] theorem stays_resolvePerson (word : SchemeVal) : Stays R (resolvePerson word) :=
  stays_inquires.resolvePerson word

@[grind ←] theorem stays_dropPool : Stays R dropPool := stays_inquires.dropPool

@[grind ←] theorem stays_dropContainerPool : Stays R dropContainerPool :=
  stays_inquires.dropContainerPool

/-! What is done with what was resolved. -/

/-- And for a command that is one call. -/
@[grind ←] theorem stays_command {m : String} (object : SchemeVal) (params : List SchemeVal)
    (h : m ≠ "take") (h' : m ≠ "put") : Stays R (command object (.str m) params) :=
  (stays_resolveOne object).bind fun _ => stays_actorCall h h'

omit [Host] in
@[grind ←] theorem stays_localString {thunk : View SchemeVal} (h : Stays R thunk)
    (fallback : SchemeVal) : Stays R (localString thunk fallback) := by grind [localString]

@[grind ←] theorem stays_myName : Stays R myName := by grind [myName]

@[grind ←] theorem stays_myNick : Stays R myNick := by grind [myNick]

@[grind ←] theorem stays_myNodeCtx : Stays R myNodeCtx := by grind [myNodeCtx]

/-- The room is told where the avatar is, if the name can be had. -/
@[grind ←] theorem stays_tellHere (actor room : SchemeVal) : Stays R (tellHere actor room) := by
  grind [tellHere]

/-- What is carried is told where it is, one after the other. -/
@[grind ←] theorem stays_syncCarriedHere : Stays R syncCarriedHere! := by
  refine Stays.bind (by grind) fun r => (stays_lift _).bind fun _ => stays_ite ?_ (stays_pure _)
  refine stays_getSlots.bind fun s => ?_
  split <;> grind

/-- The target of a take is called, and recorded by nobody. -/
@[grind ←] theorem stays_holdTarget (target : SchemeVal) : Stays R (holdTarget! target) := by
  grind [holdTarget!]

/-- The hits of the words in a pool. -/
@[grind ←] theorem stays_matched (rest : List SchemeVal) (actor : SchemeVal)
    {pool : View (List SchemeVal)} (h : Stays R pool) : Stays R (matched? rest actor pool) := by
  grind [matched?]

@[grind ←] theorem stays_cachedInventoryCtx (inventory : SchemeVal) :
    Stays R (cachedInventoryCtx inventory) := by grind [cachedInventoryCtx]

omit [Host] in
/-- The hand is no queue of requests. -/
@[grind ←] theorem staysAct_releaseHand (actor : SchemeVal) :
    StaysAct R (releaseHand! actor) := by grind [releaseHand!, heldClear!]

/-- The inventory is no queue of requests. -/
@[grind ←] theorem staysAct_releaseInventory (actor : SchemeVal) :
    StaysAct R (releaseInventory! actor) := by grind [releaseInventory!, setInvEntry, deleteInv]

/-- What is gone is forgotten, and shown. -/
@[grind ←] theorem staysAct_forgetStaleSlots (target : SchemeVal) :
    StaysAct R (forgetStaleSlots! target) := by grind [forgetStaleSlots!]

/-- The item is asked to move, and forgotten if it is gone. -/
@[grind ←] theorem staysAct_setParentToRoom (target : SchemeVal) :
    StaysAct R (setParentToRoom! target) := by grind [setParentToRoom!]

/-- The room is asked first. -/
@[grind ←] theorem staysAct_relocateToRoom (target : SchemeVal) :
    StaysAct R (relocateToRoom! target) := by grind [relocateToRoom!]

/-- What is in the hand goes to the room. -/
@[grind ←] theorem staysAct_dropHeldToRoom : StaysAct R dropHeldToRoom! := by
  grind [dropHeldToRoom!]

/-- An item that is dropped to the room files no request. -/
@[grind ←] theorem staysAct_dropTargetToRoom (target : SchemeVal) :
    StaysAct R (dropTargetToRoom! target) := by grind [dropTargetToRoom!, deleteInv]

end Shared

/-! ## What requests nothing -/

section Others

/-- Whatever is asked, the table is the same. -/
@[grind ←] theorem stays_actorCall_any (actor method : SchemeVal) (args : List SchemeVal) :
    Stays SamePending (actorCall actor method args) := stays_call fun _ _ _ _ _ => rfl

/-- A room is asked by any method, and no request is filed. -/
@[grind ←] theorem stays_roomCall_any (method : SchemeVal) (args : List SchemeVal) :
    Stays SamePending (roomCall method args) := by grind [roomCall]

/-- A command to an object files no request. -/
@[grind ←] theorem stays_command_any (object method : SchemeVal) (params : List SchemeVal) :
    Stays SamePending (command object method params) := by grind [command]

/-- To draw a number requests nothing. -/
@[grind ←] theorem stays_random : Stays SamePending random :=
  stays_getFocus.bind fun _ => (stays_emit rfl).bind fun _ => stays_pure _

/-- Nor does a message. -/
@[grind ←] theorem stays_msgSend (target body : SchemeVal) :
    Stays SamePending (msgSend target body) :=
  stays_getFocus.bind fun _ => (stays_emit rfl).bind fun _ => stays_lift _

@[grind ←] theorem stays_lookAround : Stays SamePending lookAround := by
  grind [lookAround, eventLook]

@[grind ←] theorem stays_lookEntry (entry : SchemeVal) : Stays SamePending (lookEntry entry) := by
  grind [lookEntry]

@[grind ←] theorem stays_lookupDid (word : SchemeVal) : Stays SamePending (lookupDid word) := by
  grind [lookupDid]

/-- Nor to look at the room, or at what is in it. -/
theorem stays_look (rest : List SchemeVal) : Stays SamePending (look rest) := by
  refine stays_ite stays_lookAround ((stays_lift _).bind fun word => ?_)
  refine (stays_lift _).bind fun _ => ?_
  split
  all_goals
    refine Stays.bind (by grind) fun
      | some entry => ?_
      | none => (stays_throw _).bind fun _ => stays_pure _
    grind

@[grind ←] theorem stays_newTraverseId : Stays SamePending newTraverseId := by
  grind [newTraverseId]

/-- A walk mints an id, which nothing keeps. -/
@[grind ←] theorem stays_go (words : List SchemeVal) : Stays SamePending (go words) := by
  grind [go]

@[grind ←] theorem stays_showEntry (result : SchemeVal) :
    Stays SamePending (showEntry result) := by grind [showEntry]

@[grind ←] theorem stays_showDigReply (reply : SchemeVal) :
    Stays SamePending (showDigReply reply) := by grind [showDigReply.eq_def]

/-- Nor to dig, with the name of a new room or an address. -/
theorem stays_dig (args : List SchemeVal) : Stays SamePending (dig args) := by
  rcases args with _ | ⟨first, _ | ⟨name, more⟩⟩
  · exact stays_throw _
  · exact (stays_lift _).bind fun _ => stays_ite (stays_throw _) (by grind)
  · refine (stays_lift _).bind fun _ => stays_ite (stays_ite (stays_throw _) ?_) ?_ <;> grind

/-- Nor to destroy something, in a container or not. -/
theorem stays_recycle (words : List SchemeVal) : Stays SamePending (recycle words) := by
  refine (stays_lift _).bind fun (objectWords, containerWords) => (stays_lift _).bind fun _ => ?_
  split
  · exact (stays_lift _).bind fun _ => stays_withActionContext _ (by grind)
  · exact stays_withActionContext _ (by grind)

/-- Nor to ask the room for its triggers. -/
@[grind ←] theorem stays_triggerActorDid : Stays SamePending triggerActorDid := by
  refine (stays_roomCall_any _ _).bind fun _ => stays_ite ?_ (stays_pure _)
  refine (stays_lift _).bind fun _ => (stays_lift _).bind fun _ => stays_ite ?_ (stays_pure _)
  refine (stays_lift _).bind fun _ => (stays_lift _).bind fun did => ?_
  cases did <;> exact stays_pure _

/-- A secret is claimed with a number, which nothing keeps. -/
@[grind ←] theorem stays_claimSecret : Stays SamePending claimSecret := by grind [claimSecret]

/-- Nor to give something, which is a message. -/
theorem stays_give (words : List SchemeVal) : Stays SamePending (give words) := by
  refine (stays_lift _).bind fun _ => (stays_lift _).bind fun _ => ?_
  refine (stays_resolveOneEntryFresh _ stays_defaultPool).bind fun _ => ?_
  refine (stays_lift _).bind fun _ => (stays_lift _).bind fun _ => ?_
  refine (stays_resolvePerson _).bind fun _ => (stays_lift _).bind fun _ => ?_
  refine (stays_lift _).bind fun _ => stays_ite (stays_throw _) (stays_claimSecret.bind fun _ => ?_)
  refine stays_getFocus.bind fun f => ?_
  split <;> grind

/-- Nor to lock or to unlock. -/
theorem stays_lockRpc (usage verb : String) (words : List SchemeVal) :
    Stays SamePending (lockRpc! usage verb words) := by
  refine (stays_lift _).bind fun _ => (stays_lift _).bind fun _ => ?_
  split <;> grind

@[grind ←] theorem stays_displayReply (reply : SchemeVal) :
    Stays SamePending (displayReply reply) := by grind [displayReply]

@[grind ←] theorem stays_prop (target key : SchemeVal) (valueWords : List SchemeVal) :
    Stays SamePending (prop target key valueWords) := by grind [prop]

@[grind ←] theorem stays_propAsSugar (propKey : String) (words : List SchemeVal) :
    Stays SamePending (propAsSugar propKey words) := by grind [propAsSugar]

/-- Nor to look at what is carried. -/
theorem stays_inv (rest : List SchemeVal) : Stays SamePending (inv rest) := by grind [inv]

/-- The nick is no queue of requests. -/
@[grind ←] theorem staysAct_setNick (nick : Option String) :
    StaysAct SamePending (setNick nick) := by grind [setNick.eq_def]

/-- The context of an entry sets the room and the nick. -/
@[grind ←] theorem staysAct_applyEntryCtx (ctx : SchemeVal) :
    StaysAct SamePending (applyEntryCtx! ctx) := by grind [applyEntryCtx!.eq_def, setRoom]

/-- An entry with a key files no request. -/
@[grind ←] theorem staysAct_enterWithKey (target tid key : SchemeVal) :
    StaysAct SamePending (enterWithKey target tid key) := by grind [enterWithKey]

/-- To enter a room changes the slots, and leaves the old one. -/
theorem staysAct_enter (target nick : SchemeVal) : StaysAct SamePending (enter target nick) := by
  have hleave (oldRoom : SchemeVal) : StaysAct SamePending
      (tryCatch (do let _ ← actorCall oldRoom "leave" []) fun _ => pure () : Act Unit) := by grind
  refine StaysAct.bind (by grind) fun oldRoom => StaysAct.bind (by grind) fun reply => ?_
  refine (staysAct_applyEntryCtx _).bind fun result => staysAct_ite ?_ (by grind)
  refine (staysAct_lift _).bind fun _ => staysAct_ite ?_ (by grind)
  exact stays_room.act.bind fun _ => staysAct_ite ((hleave _).bind fun _ => by grind) (by grind)

/-- The inventory goes to the hand, and no request is filed. -/
@[grind ←] theorem staysAct_unequipToHand (inventory : SchemeVal) :
    StaysAct SamePending (unequipToHand! inventory) := by
  grind [unequipToHand!, heldAdd!, setInvEntry, deleteInv]

/-- A move of the equipment files what its proposal does. -/
@[grind ←] theorem staysAct_equipMove (did : SchemeVal) {propose : View Unit}
    (h : Stays SamePending propose) : StaysAct SamePending (equipMove! did propose) := by
  grind [equipMove!, unequipOld!, freeHandFor!]

/-- So does a proposal to equip. -/
@[grind ←] theorem staysAct_equipPropose (did : SchemeVal) {propose : View Unit}
    (h : Stays SamePending propose) : StaysAct SamePending (equipPropose! did propose) := by
  grind [equipPropose!, setEquipPending]

@[grind ←] theorem stays_equipPool : Stays SamePending equipPool := by grind [equipPool]

/-- To equip is to book and to ask for `hold`. -/
theorem staysAct_equip (words : List SchemeVal) : StaysAct SamePending (equip words) := by
  refine (staysAct_lift _).bind fun (itemWords, containerWords) => ?_
  rcases containerWords with _ | containerWords
  · exact (staysAct_lift _).bind fun _ => staysAct_withActionContext _ (by grind)
  · refine (staysAct_lift _).bind fun _ => (staysAct_lift _).bind fun _ => ?_
    exact staysAct_withActionContext _ (by grind)

/-- Taking the equipment off files no request. -/
theorem staysAct_unequip (rest : List SchemeVal) : StaysAct SamePending (unequip rest) := by
  grind [unequip]

/-- So is to find. -/
theorem staysAct_find (did : SchemeVal) : StaysAct SamePending (find did) := by
  refine (staysAct_modifySlots _).bind fun _ => (staysAct_lift _).bind fun _ => ?_
  refine staysAct_ite (staysAct_throw _) ((staysAct_lift _).bind fun _ => ?_)
  refine staysAct_withActionContext _ (StaysAct.bind (by grind) fun _ => ?_)
  refine stays_myInvIfAny.act.bind fun _ => stays_room.act.bind fun _ => ?_
  exact staysAct_ite (by grind) (staysAct_throw _)

/-- What is forged is asked to be held. -/
theorem staysAct_forge (kind : SchemeVal) (rest : List SchemeVal) :
    StaysAct SamePending (forge kind rest) := by
  rcases rest with _ | ⟨keyword, nameWords⟩
  · exact staysAct_throw _
  · refine staysAct_ite (staysAct_throw _) ((staysAct_lift _).bind fun _ => ?_)
    exact (staysAct_lift _).bind fun _ => staysAct_ite (staysAct_throw _) (by grind)

/-- Each way of a proposal changes the slots alone. -/
@[grind ←] theorem staysAct_handleAvatarParent (ctx : SchemeVal) :
    StaysAct SamePending (handleAvatarParent! ctx) := by
  have hbook (actor : SchemeVal) (entry : Ctx) :
      StaysAct SamePending (bookInventory! actor entry) := by
    grind [bookInventory!, evictInventory!, setInvEntry, setInv]
  have hequip (actor : SchemeVal) (entry : Ctx) :
      StaysAct SamePending (acceptEquip! actor entry) := by
    grind [acceptEquip!, setEquipPending]
  have hdrop (actor : String) (entry : Ctx) : StaysAct SamePending (acceptDrop! actor entry) := by
    grind [acceptDrop!]
  have hhold (actor : String) (entry : Ctx) : StaysAct SamePending (acceptHold! actor entry) := by
    grind [acceptHold!, heldAdd!, setInvEntry]
  refine (staysAct_lift _).bind fun _ => (staysAct_lift _).bind fun _ => ?_
  refine (staysAct_lift _).bind fun _ => stays_getSlots.act.bind fun _ => ?_
  exact staysAct_ite (hequip _ _) (staysAct_ite (by grind) (staysAct_releaseHand _))

/-- The room that is remembered is changed, and not the table. -/
@[grind ←] theorem stays_modifyRoomChild (ctx : SchemeVal)
    (f : Dict String SchemeVal → String → Dict String SchemeVal) (prim : String) :
    Stays SamePending (modifyRoomChild! ctx f prim) := by
  refine stays_getFocus.bind fun g => ?_
  split
  · refine stays_ite ((stays_lift _).bind fun _ => (stays_lift _).bind fun _ => ?_) (stays_pure _)
    exact fun _ _ => rfl
  · exact stays_pure _

/-- A movement is shown. -/
@[grind ←] theorem stays_showMovement (ctx : SchemeVal) (does : String) :
    Stays SamePending (showMovement ctx does) := by grind [showMovement]

/-- The room is read again. -/
@[grind ←] theorem stays_refreshRoom : Stays SamePending refreshRoom := by grind [refreshRoom]

@[grind ←] theorem stays_eventDig (ctx direction : SchemeVal) :
    Stays SamePending (eventDig ctx direction) := by grind [eventDig]

omit [Host] in
/-- An event of a child is shown. -/
@[grind ←] theorem stays_eventChild (ctx : SchemeVal) :
    Stays SamePending (eventChild ctx) := by
  simp only [eventChild]
  repeat' split
  all_goals grind

/-- The avatar says where it is. -/
@[grind ←] theorem stays_announceAvatarParent : Stays SamePending announceAvatarParent! := by
  grind [announceAvatarParent!]

/-- A walk is followed, or its end is shown. -/
@[grind ←] theorem staysAct_eventMove (ctx : SchemeVal) :
    StaysAct SamePending (eventMove ctx) := by
  simp only [eventMove]
  repeat' split
  all_goals grind [followMove]

@[grind ←] theorem stays_eventNogo (ctx : SchemeVal) : Stays SamePending (eventNogo ctx) := by
  grind [eventNogo.eq_def]

/-- What a handler of one argument does, it does with the argument. -/
theorem staysAct_handler₁ {f : SchemeVal → Act Unit} (h : ∀ a, StaysAct SamePending (f a))
    (args : List SchemeVal) : StaysAct SamePending (handler₁ f args) := by
  rcases args with _ | ⟨a, _ | ⟨b, args⟩⟩
  · exact staysAct_lift _
  · exact h a
  · exact staysAct_lift _

/-- So does one of two arguments. -/
theorem staysAct_handler₂ {f : SchemeVal → SchemeVal → View Unit}
    (h : ∀ a b, Stays SamePending (f a b)) (args : List SchemeVal) :
    StaysAct SamePending (handler₂ f args) := by
  rcases args with _ | ⟨a, _ | ⟨b, _ | ⟨c, args⟩⟩⟩
  case cons.cons.nil => exact (h a b).act
  all_goals exact staysAct_lift _

/-- The handler of a room event requests nothing. -/
theorem staysAct_roomEvent {name : String} {handler : List SchemeVal → Act Unit}
    (hh : roomEventHandlers name = some handler) (args : List SchemeVal) :
    StaysAct SamePending (handler args) := by
  simp only [roomEventHandlers] at hh
  split at hh <;> cases hh
  case h_1 => exact staysAct_handler₁ (fun _ => by grind [eventArrive, roomChildUpsert!]) _
  case h_2 => exact staysAct_handler₁ (fun _ => by grind [eventLeave, roomChildRemove!]) _
  case h_3 => exact staysAct_handler₁ (fun _ => by grind [eventChildCtx, roomChildUpsert!]) _
  case h_4 => exact staysAct_handler₂ (fun _ _ => by grind [eventSay]) _
  case h_5 => exact staysAct_handler₂ (fun _ _ => by grind [eventEmote]) _
  case h_6 => exact staysAct_handler₁ (fun _ => by grind) _
  case h_7 => exact staysAct_handler₂ stays_eventDig _
  case h_8 => exact staysAct_handler₂ (fun _ _ => by grind [eventFill]) _

/-- So does any other handler, but for the one of a completion. -/
theorem staysAct_event {name : String} {handler : List SchemeVal → Act Unit}
    (hh : eventHandlers name = some handler) (hput : name ≠ ":put-event")
    (htake : name ≠ ":take-event") (args : List SchemeVal) :
    StaysAct SamePending (handler args) := by
  simp only [eventHandlers] at hh
  split at hh <;> cases hh
  case h_4 => exact staysAct_handler₁ (fun _ => (stays_eventChild _).act) _
  case h_5 => exact staysAct_handler₁ staysAct_handleAvatarParent _
  case h_6 => grind
  case h_12 => exact staysAct_handler₁ staysAct_eventMove _
  case h_13 => exact staysAct_handler₁ (fun _ => (stays_eventNogo _).act) _
  all_goals first | exact staysAct_handler₁ (fun _ => by grind) _ | grind

end Others

end Avatar

end Zscheme
