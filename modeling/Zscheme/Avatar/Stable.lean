import Zscheme.Avatar.Logic

/-!
# What survives an operation

A property of the state is `Stable` if it survives the steps the commands are made of.
It then survives every command, whether it returns or raises (`Command.run_keeps`), and
every event but the handshake (`Op.run_keeps`). `equip` is treated apart, as it books
a container before it has made room for it.
-/

namespace Zscheme

namespace Avatar

open Prim Zscheme.Runtime Program

variable [Host] {α β : Type} {w w' w'' : World}

omit [Host] in
/-- Naming the action in an error changes no state. -/
theorem wp_withActionContext {P : World → Prop} {p : Act α} {d : String}
    (hp : p.wp (fun _ => P) (fun _ => P) w) :
    (withActionContext d p).wp (fun _ => P) (fun _ => P) w := (wp_tryCatch _ _).2 hp

omit [Host] in
/-- Naming the action in an error keeps what the action keeps. -/
theorem within_withActionContext {R : World → World → Prop} [Std.Refl R] [IsTrans World R]
    {p : Act α} {d : String} (hp : p.Within R) : (withActionContext d p).Within R :=
  hp.tryCatch fun _ => within_throw _

/-- A property that survives what leaves the slots alone. -/
structure Framed (P : World → Prop) : Prop where
  view {w w' : World} : w ≤ w' → w'.slots = w.slots → P w → P w'

/-- A property that survives what most commands do: look around, forget an actor the
    runtime no longer knows, and move the equipped container to a hand that was freed.
    What only some of them do is in `Admits`. -/
structure Stable (P : World → Prop) : Prop extends Framed P where
  lost {w w' : World} {t : SchemeVal} : w ≤ w' → w'.slots = w.slots.forget t → w.Unknown w' t →
    P w → P w'
  unequip {w w₁ w₂ : World} {ctx : Ctx} : w ≤ w₁ → w₁ ≤ w₂ → w.HandFreed w₁ →
    w.slots.myInv.truthy → w₁.slots.InventoryCtx w.slots.myInv ctx →
    w₂.slots = w₁.slots.unequip ctx → P w → P w₂

/-- A property that survives that a pending equip is forgotten. -/
def Disarmable (P : World → Prop) : Prop :=
  ∀ w, P w → P { w with slots := { w.slots with equipPending := .bool false } }

/-- A property that survives a change of what is to be dropped. -/
def Markable (P : World → Prop) : Prop :=
  ∀ w d, P w → P { w with slots := { w.slots with dropPending := d } }

/-- A property that survives the drop of the equipped container: it accepted to be moved
    to the room, and the inventory slot no longer names it. -/
def Unbookable (P : World → Prop) : Prop :=
  ∀ w w', w ≤ w' → w'.slots = { w.slots with inv := none } → w.Accepted w' w.slots.myInv →
    P w → P w'

/-- A property that survives the entry to a room. -/
def Enterable (P : World → Prop) : Prop :=
  ∀ w room nick, P w → P { w with slots := { w.slots with room, nick } }

section Frame

variable {γ : Type} (f : Slots → γ) (c : γ)
  (hf : ∀ s h e i, f { s with held := h, invEntry := e, inv := i } = f s)

include hf

/-- What does not depend on what the avatar carries is stable. -/
theorem frame_stable : Stable fun w => f w.slots = c where
  view _ hs h := by rwa [hs]
  lost {w _ t} _ hs _ h := by
    obtain ⟨_, _, _, ht⟩ := w.slots.forget_frame t
    rw [hs, ht, hf]
    exact h
  unequip _ _ hfree _ _ hs h := by
    obtain ⟨_, _, _, h₁⟩ := hfree.frame
    rw [hs, Slots.unequip, hf, h₁, hf]
    exact h

/-- What another slot holds does not depend on the inventory. -/
theorem frame_unbookable : Unbookable fun w => f w.slots = c := by
  intro w w' _ hs _ h
  rw [hs]
  exact (hf w.slots w.slots.held w.slots.invEntry none).trans h

end Frame

omit [Host] in
/-- A view keeps every invariant of the slots. -/
theorem Framed.view_keeps {P : World → Prop} (h : Framed P) (v : View α) :
    (liftM v : Act α).Within (Keeping P) :=
  within_keeping fun _ hw =>
    wp_view_of_le (fun _ _ hle => h.view hle rfl hw) fun _ _ hle => h.view hle rfl hw

/-! ## Entering -/

/-- The context of an entry is kept in slots that may change. -/
theorem applyEntry_keeps {P : World → Prop} (he : Enterable P) (ctx : SchemeVal) :
    (applyEntryCtx! ctx).Within (Keeping P) :=
  within_keeping fun w hw =>
    wp_applyEntryCtx (fun room nick => he w room nick hw) fun _ room nick => he w room nick hw

section Enter

variable {P : World → Prop} (h : Framed P) (he : Enterable P)

include h he

/-- An entry only changes what its context sets. -/
theorem Framed.enter_keeps (target nick : SchemeVal) :
    (Avatar.enter target nick).Within (Keeping P) := by
  refine Within.bind (Within.tryCatch (h.view_keeps _) fun _ => within_pure _) fun _ => ?_
  refine (h.view_keeps _).bind fun _ => ?_
  refine (applyEntry_keeps he _).bind fun result => ?_
  split
  · refine (within_lift _).bind fun b => ?_
    rcases b
    · exact h.view_keeps _
    refine (h.view_keeps _).bind fun _ => ?_
    split
    · refine Within.bind (Within.tryCatch ?_ fun _ => within_pure _) fun _ => h.view_keeps _
      exact (h.view_keeps _).bind fun _ => within_pure _
    · exact h.view_keeps _
  · exact h.view_keeps _

/-- So does an entry with a key. -/
theorem Framed.enterWithKey_keeps (target tid key : SchemeVal) :
    (enterWithKey target tid key).Within (Keeping P) := by
  refine (h.view_keeps _).bind fun _ => (h.view_keeps _).bind fun _ => ?_
  refine (h.view_keeps _).bind fun _ => (applyEntry_keeps he _).bind fun _ => ?_
  exact h.view_keeps _

end Enter

/-! ## The steps of commands -/

section Stable

variable {P : World → Prop} (h : Stable P)

include h

/-- A relocation at most forgets the item. -/
theorem Stable.relocated {t : SchemeVal} {ok : Bool} (hle : w ≤ w') (hr : w.Relocated t ok w')
    (hw : P w) : P w' := by
  rcases ok
  · exact h.lost hle hr.1 hr.2 hw
  · exact h.view hle hr.1 hw

/-- A refusal at most forgets what is no actor. -/
theorem Stable.refused {t : SchemeVal} (hle : w ≤ w') (hr : w.Refused t w') (hw : P w) : P w' := by
  rcases hr with hr | ⟨hr, ht⟩
  · exact h.view hle hr hw
  · refine h.lost hle hr (fun x hx => ?_) hw
    subst hx
    cases ht

/-- The hand may be emptied. -/
theorem Stable.handFreed (hle : w ≤ w') (hf : w.HandFreed w') (hw : P w) : P w' := by
  rcases hf with ⟨hf, _⟩ | ⟨_, ok, _, _, hr⟩
  · exact h.view hle hf hw
  · exact h.relocated hle hr hw

/-- A dropped item may have been the hand or the inventory. -/
theorem Stable.dropped (hu : Unbookable P) {t : SchemeVal} (hle : w ≤ w')
    (hd : w.Dropped t w') (hw : P w) : P w' := by
  rcases hd with ⟨hs, hlost⟩ | ⟨ha, hs⟩
  · exact h.lost hle hs hlost hw
  · split at hs
    · next ht => exact hu _ _ hle hs (ht ▸ ha) hw
    · exact h.view hle hs hw

/-- Dropping what is held keeps the invariant. -/
theorem Stable.dropHeld_keeps : dropHeldToRoom!.Within (Keeping P) :=
  within_keeping fun _ hw => dropHeldToRoom!_spec.conseq
    (fun _ _ hle hf => h.handFreed hle hf hw) fun _ _ hle hs => h.view hle hs hw

/-- So does dropping an item by its name, if the inventory may be unbooked. -/
theorem Stable.dropTarget_keeps (hu : Unbookable P) (t : SchemeVal) :
    (dropTargetToRoom! t).Within (Keeping P) :=
  within_keeping fun _ hw => (dropTargetToRoom!_spec t).conseq
    (fun _ _ hle hd => h.dropped hu hle hd hw) fun _ _ hle hr => h.refused hle hr hw

/-- Freeing the hand and moving the equipped container to it. -/
theorem Stable.unequip_keeps {v : SchemeVal} (hv : w.slots.myInv = v) (ht : v.truthy) (hw : P w) :
    (dropHeldToRoom! >>= fun _ => unequipToHand! v).wp (fun _ => P) (fun _ => P) w := by
  subst hv
  rw [wp_bind]
  refine dropHeldToRoom!_spec.conseq ?_ fun _ _ hle hs => h.view hle hs hw
  intro _ w₁ hle hf
  refine (unequipToHand!_spec _).conseq ?_ fun _ _ _ h => h.elim
  rintro _ w₂ hle' ⟨ctx, hctx, hs⟩
  exact h.unequip hle hle' hf ht hctx hs hw

/-! ### Commands -/

/-- A take may disarm the equipment. -/
theorem Stable.take_keeps (hd : Disarmable P) (words : List SchemeVal) :
    (take words).Within (Keeping P) := by
  refine Within.bind hd fun _ => ?_
  refine (within_lift _).bind fun (itemWords, containerWords) => ?_
  rcases containerWords with _ | containerWords
  · refine (within_lift _).bind fun _ => within_withActionContext ?_
    refine (within_lift _).bind fun _ => (h.view_keeps _).bind fun _ => ?_
    refine h.dropHeld_keeps.bind fun _ => ?_
    refine (within_lift _).bind fun _ => (h.view_keeps _).bind fun _ => ?_
    exact within_pure _
  · refine (within_lift _).bind fun _ => (within_lift _).bind fun _ => ?_
    refine within_withActionContext ?_
    refine (within_lift _).bind fun _ => (h.view_keeps _).bind fun _ => ?_
    refine (within_lift _).bind fun _ => (h.view_keeps _).bind fun _ => ?_
    refine h.dropHeld_keeps.bind fun _ => (h.view_keeps _).bind fun _ => ?_
    exact within_pure _

/-- Taking out of a container only asks. -/
theorem Stable.takeFrom_keeps (container name : SchemeVal) :
    (takeFrom container name).Within (Keeping P) := by
  refine (within_lift _).bind fun _ => within_withActionContext ?_
  refine (h.view_keeps _).bind fun _ => (h.view_keeps _).bind fun _ => ?_
  refine h.dropHeld_keeps.bind fun _ => (h.view_keeps _).bind fun _ => ?_
  exact within_pure _

/-- A search may disarm the equipment. -/
theorem Stable.find_keeps (hd : Disarmable P) (did : SchemeVal) :
    (find did).Within (Keeping P) := by
  refine Within.bind hd fun _ => (within_lift _).bind fun b => ?_
  rcases b
  · exact within_throw _
  · refine (within_lift _).bind fun _ => within_withActionContext ?_
    refine (h.view_keeps _).bind fun _ => (h.view_keeps _).bind fun _ => ?_
    refine (h.view_keeps _).bind fun _ => ?_
    simp only
    split
    · refine h.dropHeld_keeps.bind fun _ => (h.view_keeps _).bind fun _ => ?_
      refine (h.view_keeps _).bind fun _ => (within_lift _).bind fun _ => ?_
      exact (h.view_keeps _).bind fun _ => within_pure _
    · exact within_throw _

/-- Making an item frees the hand, and then only asks. -/
theorem Stable.forge_keeps (kind : SchemeVal) (rest : List SchemeVal) :
    (forge kind rest).Within (Keeping P) := by
  rcases rest with _ | ⟨keyword, nameWords⟩
  · exact within_throw _
  unfold forge
  simp only
  split
  · exact within_throw _
  · refine (within_lift _).bind fun _ => (within_lift _).bind fun b => ?_
    rcases b
    · refine h.dropHeld_keeps.bind fun _ => (h.view_keeps _).bind fun _ => ?_
      exact (h.view_keeps _).bind fun _ => (h.view_keeps _).bind fun _ => within_pure _
    · exact within_throw _

/-- A take before a drop only changes the marks for the drop. -/
theorem Stable.takeThenDrop_keeps (hm : Markable P) (container item : SchemeVal) :
    (takeThenDrop! container item).Within (Keeping P) := by
  refine Within.bind ?_ fun _ => Within.tryCatch (h.view_keeps _) fun _ => ?_
  · exact (within_lift _).bind fun _ => fun _ hw => hm _ _ hw
  · refine Within.bind ?_ fun _ => within_throw _
    exact (within_lift _).bind fun _ => fun _ hw => hm _ _ hw

/-- A drop changes these marks, or drops an item. -/
theorem Stable.drop_keeps (hm : Markable P) (hu : Unbookable P) (rest : List SchemeVal) :
    (drop rest).Within (Keeping P) := by
  simp only [drop]
  -- what is held, something by name, or something out of a container
  split
  · refine (h.view_keeps _).bind fun s => ?_
    rcases s.held with _ | held
    · exact within_throw _
    · exact within_withActionContext ((h.dropTarget_keeps hu _).bind fun _ => within_pure _)
  · refine (within_lift _).bind fun (itemWords, containerWords) => ?_
    rcases containerWords with _ | containerWords
    · refine (within_lift _).bind fun _ => within_withActionContext ?_
      refine (within_lift _).bind fun _ => (h.view_keeps _).bind fun _ => ?_
      refine (within_lift _).bind fun _ => (within_lift _).bind fun _ => ?_
      refine (h.view_keeps _).bind fun _ => ?_
      split
      · exact (h.dropTarget_keeps hu _).bind fun _ => within_pure _
      refine (h.view_keeps _).bind fun _ => ?_
      split
      · exact (h.dropTarget_keeps hu _).bind fun _ => within_pure _
      split
      · exact (h.takeThenDrop_keeps hm _ _).bind fun _ => within_pure _
      · refine (within_lift _).bind fun _ => ?_
        exact (within_throw _).bind fun _ => within_pure _
    · refine (within_lift _).bind fun _ => (within_lift _).bind fun _ => ?_
      refine within_withActionContext ?_
      refine (within_lift _).bind fun _ => (h.view_keeps _).bind fun _ => ?_
      refine (within_lift _).bind fun _ => (within_lift _).bind fun _ => ?_
      refine (h.view_keeps _).bind fun _ => (within_lift _).bind fun _ => ?_
      exact (h.takeThenDrop_keeps hm _ _).bind fun _ => within_pure _

/-- A roll call is a take, or a search. -/
theorem Stable.rollCall_keeps (hd : Disarmable P) (words : List SchemeVal) :
    (rollCall words).Within (Keeping P) := by
  refine Within.bind ?_ fun (objectWords, phaseArgs) => ?_
  · unfold rollCallSplit
    simp only
    split
    · exact (h.take_keeps hd _).bind fun _ => within_pure _
    refine (within_lift _).bind fun _ => ?_
    split
    · exact (h.take_keeps hd _).bind fun _ => within_pure _
    split
    · exact (h.take_keeps hd _).bind fun _ => within_pure _
    · exact within_pure _
  · simp only
    split
    · exact (h.view_keeps _).bind fun _ => (h.view_keeps _).bind fun _ => within_pure _
    · refine (within_lift _).bind fun _ => (within_lift _).bind fun _ => ?_
      exact (h.view_keeps _).bind fun _ => (h.view_keeps _).bind fun _ => within_pure _

/-- `unequip` frees the hand of what it held when the command was given. -/
theorem Stable.unequipCommand_keeps (rest : List SchemeVal) :
    (Avatar.unequip rest).Within (Keeping P) := by
  refine within_keeping fun w hw => ?_
  simp only [Avatar.unequip]
  rw [wp_bind, wp_myInvIfAny]
  split
  · exact hw
  · next ht =>
    rw [wp_bind]
    refine wp_view_of_le (fun b f hle => ?_) fun _ f hle => h.view hle rfl hw
    have hf : P { w with focus := f } := h.view hle rfl hw
    rcases b
    · exact ((within_lift _).bind fun _ => within_throw _).keeps hf
    · rw [if_neg (by decide), wp_bind]
      refine wp_lift_of (fun d _ => wp_withActionContext ?_) fun _ _ => hf
      have hu := h.unequip_keeps rfl (by simpa using ht) hf
      rw [wp_bind] at hu ⊢
      exact hu.conseq (fun _ _ _ hu => (wp_bind _ _).2 hu) fun _ _ _ hp => hp

/-- A move to the equipment takes off the old one, proposes, and may free the hand. -/
theorem Stable.equipMove_keeps (did : SchemeVal) (propose : View Unit) :
    (equipMove! did propose).Within (Keeping P) := by
  refine Within.bind (within_keeping fun w hw => ?_) fun _ => Within.bind ?_ fun _ => ?_
  · simp only [unequipOld!]
    rw [wp_bind, wp_myInvIfAny]
    split
    · next ht => exact h.unequip_keeps rfl ht hw
    · exact hw
  · refine (h.view_keeps _).bind fun _ => ?_
    split
    · exact h.dropHeld_keeps
    · exact within_pure _
  · exact h.view_keeps _

/-- `equip-propose!`, for a property that does not mind what is booked. -/
theorem Stable.equipPropose_keeps (hd : Disarmable P)
    (arm : ∀ {w : World} (did : SchemeVal), P w →
      P { w with slots := { w.slots with equipPending := did } })
    (did : SchemeVal) (propose : View Unit) :
    (equipPropose! did propose).Within (Keeping P) := by
  refine (h.view_keeps _).bind fun _ => ?_
  split
  · exact within_pure _
  refine (h.view_keeps _).bind fun _ => ?_
  split
  · refine Within.bind (fun _ hw => arm did hw) fun _ => ?_
    refine Within.bind ((h.equipMove_keeps _ _).tryCatch fun _ => ?_) fun _ => within_pure _
    exact Within.bind hd fun _ => within_throw _
  · exact (within_lift _).bind fun _ => within_throw _

end Stable

/-- `equip` keeps what its tail keeps. -/
theorem equip_keeps {P : World → Prop} (h : Stable P)
    (tail : ∀ did propose, (equipPropose! did propose).Within (Keeping P))
    (words : List SchemeVal) : (equip words).Within (Keeping P) := by
  refine (within_lift _).bind fun (itemWords, containerWords) => ?_
  rcases containerWords with _ | containerWords
  · refine (within_lift _).bind fun _ => within_withActionContext ?_
    refine (within_lift _).bind fun _ => (h.view_keeps _).bind fun _ => ?_
    exact (within_lift _).bind fun _ => tail _ _
  · refine (within_lift _).bind fun _ => (within_lift _).bind fun _ => ?_
    refine within_withActionContext ?_
    refine (within_lift _).bind fun _ => (h.view_keeps _).bind fun _ => ?_
    refine (within_lift _).bind fun _ => (h.view_keeps _).bind fun _ => ?_
    exact tail _ _

/-- The command of an operation. -/
def Op.command? : Op → Option Command
  | .command c _ => some c
  | .event _ _ => none

/-- The operations that may enter a room. -/
def Op.Enters (op : Op) : Prop := op.command? = some .enter ∨ op.command? = none

/-- A property that survives what some of the operations do besides. -/
structure Admits (P : World → Prop) (op : Op) : Prop where
  disarm : op.command? = some .take ∨ op.command? = some .find ∨ op.command? = some .rollCall →
    Disarmable P
  book : op.command? = some .equip → ∀ did propose, (equipPropose! did propose).Within (Keeping P)
  mark : op.command? = some .drop → Markable P
  unbook : op.command? = some .drop → Unbookable P
  enter : op.Enters → Enterable P

/-- Every command keeps a stable property that admits it. -/
theorem Command.run_keeps {P : World → Prop} (h : Stable P) {c : Command} {args : List SchemeVal}
    (ha : Admits P (.command c args)) : (c.run args).Within (Keeping P) := by
  simp only [Command.run]
  split
  · exact h.enter_keeps (ha.enter (.inl rfl)) _ _
  · exact h.take_keeps (ha.disarm (.inl rfl)) _
  · exact h.takeFrom_keeps _ _
  · exact h.find_keeps (ha.disarm (.inr (.inl rfl))) _
  · exact equip_keeps h (ha.book rfl) _
  · exact h.unequipCommand_keeps _
  · exact h.drop_keeps (ha.mark rfl) (ha.unbook rfl) _
  · exact h.forge_keeps _ _
  · exact h.rollCall_keeps (ha.disarm (.inr (.inr rfl))) _
  · split
    · exact h.view_keeps _
    · exact within_lift _

/-! ## Events -/

section Events

variable {P : World → Prop}

/-- A handler of one argument is called with it, or raises. -/
theorem handler₁_keeps {f : SchemeVal → Act Unit} {args : List SchemeVal}
    (hf : ∀ a, args = [a] → (f a).Within (Keeping P)) : (handler₁ f args).Within (Keeping P) := by
  simp only [handler₁]
  split
  · exact hf _ rfl
  · exact within_lift _

/-- A handler of two arguments is called with them, or raises. -/
theorem handler₂_keeps (h : Framed P) (f : SchemeVal → SchemeVal → View Unit)
    (args : List SchemeVal) : (handler₂ f args).Within (Keeping P) := by
  simp only [handler₂]
  split
  · exact h.view_keeps _
  · exact within_lift _

section Dispatch

variable {handlers : String → Option (List SchemeVal → Act Unit)} {name : String}

/-- An event without a handler is dropped. -/
theorem dispatchEvent_none (hh : handlers name = none) (args : SchemeVal) :
    dispatchEvent handlers (.str name) args = pure () := by
  unfold dispatchEvent
  refine Eq.trans (pure_bind (m := Act) name _) ?_
  rw [hh]

/-- A known event is handled, and what its handler raises is shown. -/
theorem dispatchEvent_some {handler : List SchemeVal → Act Unit}
    (hh : handlers name = some handler) (args : SchemeVal) :
    dispatchEvent handlers (.str name) args =
      (tryCatch (do handler (← elements "apply" args)) fun e =>
        display (.str ("event " ++ name ++ ": " ++ e)) : Act Unit) := by
  unfold dispatchEvent
  refine Eq.trans (pure_bind (m := Act) name _) ?_
  simp only [hh]

end Dispatch

/-- An event keeps the invariant if each of its handlers does. -/
theorem dispatchEvent_keeps (h : Framed P)
    {handlers : String → Option (List SchemeVal → Act Unit)} {event args : SchemeVal}
    (handler : ∀ name f l, event = .str name → handlers name = some f →
      elements "apply" args = .ok l → (f l).Within (Keeping P)) :
    (dispatchEvent handlers event args).Within (Keeping P) := by
  rcases event with name | _ | _ | _ | _ | _ | _ | _
  case str =>
    refine within_keeping fun w hw => ?_
    rcases hf : handlers name with _ | f
    · rw [dispatchEvent_none hf]
      exact hw
    · rw [dispatchEvent_some hf, wp_tryCatch, wp_bind]
      refine wp_lift_of (fun l hl => ?_) fun _ _ => ?_
      · refine ((handler name f l rfl hf hl).keeps hw).conseq (fun _ _ _ hp => hp) ?_
        exact fun e w' _ hp => (h.view_keeps _).keeps hp
      · exact (h.view_keeps _).keeps hw
  all_goals exact fun _ hw => hw

/-- The handlers of room events keep the invariant. -/
theorem roomEventHandlers_keeps (h : Framed P) {name : String}
    {f : List SchemeVal → Act Unit} (hf : roomEventHandlers name = some f) (l : List SchemeVal) :
    (f l).Within (Keeping P) := by
  simp only [roomEventHandlers] at hf
  split at hf
  case h_9 => cases hf
  all_goals
    obtain rfl := Option.some.inj hf
    first
    | exact handler₁_keeps fun _ _ => h.view_keeps _
    | exact handler₂_keeps h _ _

/-- `event-move` may end in another room. -/
theorem eventMove_keeps (h : Framed P) (he : Enterable P) (ctx : SchemeVal) :
    (eventMove ctx).Within (Keeping P) := by
  have hfollow : ∀ tid dest key, (followMove tid dest key).Within (Keeping P) := by
    intro tid dest key
    refine (within_lift _).bind fun _ => ?_
    split
    · split
      · exact (h.enterWithKey_keeps he _ _ _).bind fun _ => within_pure _
      · exact within_pure _
    · exact within_pure _
  simp only [eventMove]
  split
  · split
    · exact h.view_keeps _
    · exact hfollow _ _ _
    · exact within_pure _
  · exact within_pure _

/-- An event for the avatar keeps the invariant if the handshake does. -/
theorem eventHandlers_keeps (h : Framed P) (he : Enterable P) {name : String}
    {f : List SchemeVal → Act Unit} (hf : eventHandlers name = some f) (l : List SchemeVal)
    (handshake : ∀ ctx, name = ":parent" → l = [ctx] →
      (handleAvatarParent! ctx).Within (Keeping P)) : (f l).Within (Keeping P) := by
  simp only [eventHandlers] at hf
  split at hf
  case h_14 => cases hf
  all_goals
    obtain rfl := Option.some.inj hf
  case h_5 =>
    exact handler₁_keeps fun ctx hl => handshake ctx rfl hl
  case h_12 => exact handler₁_keeps fun _ _ => eventMove_keeps h he _
  all_goals first
    | exact handler₁_keeps fun _ _ => h.view_keeps _
    | exact h.view_keeps _
    | exact (h.view_keeps _).bind fun _ => within_pure _

/-- Every event keeps what entering a room and the handshake keep. -/
theorem onEvent_keeps (h : Framed P) (he : Enterable P) (event args : SchemeVal)
    (handshake : ∀ ctx, event = ":parent" → args = .list [ctx] →
      (handleAvatarParent! ctx).Within (Keeping P)) :
    (onEvent event args).Within (Keeping P) := by
  simp only [onEvent]
  split
  · split
    all_goals exact dispatchEvent_keeps h fun _ _ l _ hf _ => roomEventHandlers_keeps h hf l
  · refine dispatchEvent_keeps h fun name f l hn hf hl => eventHandlers_keeps h he hf l ?_
    rintro ctx rfl rfl
    refine handshake ctx hn ?_
    rcases args with _ | _ | _ | _ | _ | _ | _ | _ <;> cases hl
    rfl

end Events

/-- An event or an entry keeps what entering a room and the handshake keep. -/
theorem Op.run_keeps_of_enters {P : World → Prop} (h : Framed P) (he : Enterable P) {op : Op}
    (hop : op.Enters)
    (handshake : ∀ ctx, op = .event ":parent" (.list [ctx]) →
      (handleAvatarParent! ctx).Within (Keeping P)) : op.run.Within (Keeping P) := by
  rcases op with ⟨c, args⟩ | ⟨event, args⟩
  · obtain rfl : c = .enter := by
      rcases hop with hop | hop
      · exact Option.some.inj hop
      · cases hop
    refine Within.bind ?_ fun _ => within_pure _
    simp only [Command.run]
    split
    case h_1 => exact h.enter_keeps he _ _
    case h_10 =>
      split
      · exact h.view_keeps _
      · exact within_lift _
    all_goals contradiction
  · refine onEvent_keeps h he event args fun ctx he ha => handshake ctx ?_
    rw [he, ha]

/-- Every operation keeps a stable property that admits it, if the handshake does. -/
theorem Op.run_keeps {P : World → Prop} (h : Stable P) {op : Op} (ha : Admits P op)
    (handshake : ∀ ctx, op = .event ":parent" (.list [ctx]) →
      (handleAvatarParent! ctx).Within (Keeping P)) : op.run.Within (Keeping P) := by
  rcases op with ⟨c, args⟩ | ⟨event, args⟩
  · exact (c.run_keeps h ha).bind fun _ => within_pure _
  · exact Op.run_keeps_of_enters h.toFramed (ha.enter (.inr rfl)) (.inr rfl) handshake

/-- The delivery of a handshake is the handshake, and the text of its error. -/
theorem parentEvent_wp {P : World → Prop}
    (display : ∀ w text, P w → P (w.push (.display text))) {ctx : SchemeVal}
    (hp : (handleAvatarParent! ctx).wp (fun _ => P) (fun _ => P) w) :
    P ((Op.event ":parent" (.list [ctx])).run.run w).2 := by
  refine (wp_iff_end _ _).1 (?_ : (tryCatch (handleAvatarParent! ctx) _).wp _ _ w)
  rw [wp_tryCatch]
  refine hp.conseq (fun _ _ _ h => h) fun e w' _ h => ?_
  rw [wp_display]
  exact display _ _ h

end Avatar

end Zscheme
