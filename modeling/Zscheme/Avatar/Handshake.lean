import Zscheme.Avatar.Stable

/-!
# The handshake

What one `:parent` event does. Its ctx names an actor and the parent the actor has or
proposes. A proposal of this avatar is acknowledged with a `child` call and goes to the
inventory slot, to the room, or to the hand; the name of another parent empties the
hand that held the actor. Everything a handshake can do to the slots, and what it has
sent by then, is one of the cases of `Handshake` (`handleAvatarParent!_spec`).
-/

namespace Zscheme

namespace Avatar

open Prim Zscheme.Runtime Program

/-- The parent a ctx names. -/
def parentOf (m : Ctx) : SchemeVal := (m.get? "parent").getD ""

/-- The actor a ctx names. -/
def actorOf (m : Ctx) : SchemeVal := (m.get? "actor").getD ""

/-- Nothing was sent but perhaps an acknowledgement that failed. -/
def Unanswered (m : Ctx) (l : List Effect) : Prop :=
  l = [] ∨ ∃ x e, l = [.call x "child" [.map m] (.error e)]

/-- The item is to be dropped. -/
def Slots.awaitsDrop (s : Slots) (x : String) : Bool :=
  ((s.dropPending.get? x).getD (.bool false)).truthy

variable [Host]

/-- The ctx proposes this avatar as the parent of `x`. -/
def Proposes (m : Ctx) (x : String) : Prop := parentOf m = .str Host.did ∧ actorOf m = .str x

instance (m : Ctx) (x : String) : Decidable (Proposes m x) := inferInstanceAs (Decidable (_ ∧ _))

/-- `x` was told that its proposal is accepted, and answered; nothing else was done. -/
def World.Acked (w w' : World) (m : Ctx) (x : String) : Prop :=
  ∃ v, w.effects w' = [.call x "child" [.map m] (.ok v)]

/-- What one handshake can do. -/
inductive Handshake (m : Ctx) (w w' : World) : Prop
  /-- Nothing is acknowledged, and nothing changes. -/
  | idle (slots : w'.slots = w.slots) (effects : Unanswered m (w.effects w'))
      (unmarked : ∀ x, Proposes m x → w.slots.equipPending ≠ .str x →
        w.slots.awaitsDrop x = false)
  /-- The container that is being equipped goes to the inventory slot. -/
  | booked (x : String)
      (slots : w'.slots =
        { ({ w.slots with equipPending := .bool false } : Slots).release (.str x) with
          invEntry := some m, inv := some (.str x) })
      (proposes : Proposes m x) (isActor : Host.isActor x = true)
      (pending : w.slots.equipPending = .str x)
      (effects : ∃ text v, w.effects w' = [.display text, .call x "child" [.map m] (.ok v)])
  /-- An item to be dropped does not answer; it is no longer to be dropped. -/
  | unmarked (x : String)
      (slots : w'.slots = { w.slots with dropPending := w.slots.dropPending.delete x })
      (proposes : Proposes m x) (pending : w.slots.equipPending ≠ .str x)
      (marked : w.slots.awaitsDrop x) (effects : Unanswered m (w.effects w'))
  /-- An item to be dropped is acknowledged, and dropped or refused by the room. -/
  | dropped (x : String) (w₁ : World)
      (cleared : w₁.slots = { w.slots with dropPending := w.slots.dropPending.delete x })
      (outcome : w₁.Dropped (.str x) w' ∨ w'.slots = w₁.slots) (le : w ≤ w₁) (le' : w₁ ≤ w')
      (asks : w₁.AsksRoom w' (.str x))
      (proposes : Proposes m x) (isActor : Host.isActor x = true) (acked : w.Acked w₁ m x)
      (pending : w.slots.equipPending ≠ .str x) (marked : w.slots.awaitsDrop x)
  /-- The equipped container proposes itself again. -/
  | refreshed (x : String) (slots : w'.slots = { w.slots with invEntry := some m })
      (proposes : Proposes m x) (isActor : Host.isActor x = true)
      (equipped : w.slots.myInv = .str x) (acked : w.Acked w' m x)
      (pending : w.slots.equipPending ≠ .str x) (marked : ¬ w.slots.awaitsDrop x)
  /-- Any other item goes to the hand. -/
  | held (x : String) (h : Held) (slots : w'.slots = { w.slots with held := some h })
      (proposes : Proposes m x) (isActor : Host.isActor x = true) (actor : h.actor = x)
      (ctx : h.ctx = m) (equipped : w.slots.myInv ≠ .str x) (acked : w.Acked w' m x)
      (pending : w.slots.equipPending ≠ .str x) (marked : ¬ w.slots.awaitsDrop x)
  /-- The held item has another parent. -/
  | released (x : String) (slots : w'.slots = { w.slots with held := none })
      (holds : w.slots.holds (.str x) = true) (actor : actorOf m = .str x)
      (parent : parentOf m ≠ .str Host.did) (effects : w.effects w' = [])

variable {w : World} {m : Ctx}

/-- The container that is being equipped goes to the inventory slot; nothing is
    configured that would have to make room for it. -/
theorem acceptEquip!_spec (hp : parentOf m = .str Host.did)
    (ha : actorOf m = w.slots.equipPending)
    (hb : w.slots.equipPending ≠ .bool false → w.slots.myInv = .bool false) :
    (acceptEquip! (actorOf m) m).wp (fun _ => Handshake m w) (fun _ => Handshake m w) w := by
  have hpending : ∀ x, Proposes m x → w.slots.equipPending ≠ .str x →
      w.slots.awaitsDrop x = false := fun x hx hne => absurd (ha.symm.trans hx.2) hne
  simp only [acceptEquip!]
  simp only [wp_bind, wp_setEquipPending, wp_releaseHand]
  refine wp_actorCall ?_ ?_ ?_
  · intro x v hx hact
    -- `book-inventory!` finds no container to make room for
    have hinv : w.slots.myInv = .bool false := hb (by rw [← ha, hx]; simp)
    have hold : ({ w.slots with equipPending := .bool false } : Slots).myInv = .bool false := hinv
    simp only [bookInventory!, evictInventory!]
    simp only [wp_bind, wp_myInvIfAny, World.push_slots, Slots.myInv_release, hold,
      SchemeVal.truthy, wp_setInvEntry]
    rw [if_neg (by simp), wp_pure, hx, wp_setInv hact]
    refine wp_lift_of (fun text _ => (wp_display _).2 ?_) fun _ he => by cases he
    refine .booked x rfl ⟨hp, hx⟩ hact (by rw [← ha, hx]) ⟨displayText text, v, ?_⟩
    exact World.effects_eq rfl
  · intro x e _ _
    exact .idle rfl (.inr ⟨x, e, World.effects_push _ _⟩) hpending
  · exact fun _ _ => .idle rfl (.inl (World.effects_self w)) hpending

variable {x : String}

/-- An item that is to be dropped is acknowledged first. -/
theorem acceptDrop!_spec (hp : Proposes m x) (hpending : w.slots.equipPending ≠ .str x)
    (hmarked : w.slots.awaitsDrop x) :
    (acceptDrop! x m).wp (fun _ => Handshake m w) (fun _ => Handshake m w) w := by
  simp only [acceptDrop!]
  simp only [wp_bind, wp_modifySlots]
  refine wp_actorCall ?_ ?_ ?_
  · intro y v hy hact
    obtain rfl : x = y := SchemeVal.str.inj hy
    -- the item is no longer to be dropped before the room is asked
    let ack : Effect := .call x "child" [.map m] (.ok v)
    let w₁ : World := World.push
      { w with slots := { w.slots with dropPending := w.slots.dropPending.delete x } } ack
    have hle : w ≤ w₁ := List.suffix_cons _ _
    have hacked : w.Acked w₁ m x := ⟨v, World.effects_eq rfl⟩
    refine ((dropTargetToRoom!_spec (w := w₁) _).and (dropTargetToRoom!_asks _)).conseq ?_ ?_
    · rintro _ w' hle' ⟨hd, hasks⟩
      exact .dropped x w₁ rfl (.inl hd) hle hle' hasks hp hact hacked hpending hmarked
    · rintro _ w' hle' ⟨hs | ⟨_, hstr⟩, hasks⟩
      · exact .dropped x w₁ rfl (.inr hs) hle hle' hasks hp hact hacked hpending hmarked
      · cases hstr
  · intro y e _ _
    exact .unmarked x rfl hp hpending hmarked (.inr ⟨y, e, World.effects_eq rfl⟩)
  · exact fun _ _ => .unmarked x rfl hp hpending hmarked (.inl (World.effects_slots _ _))

omit [Host] in
/-- What the handshake reads as the actor is the `entry-actor` of the ctx. -/
theorem ctxActor_eq (ha : actorOf m = .str x) (hx : x ≠ "") : ctxActor m = .str x := by
  simp only [actorOf] at ha
  simp only [ctxActor]
  rcases hm : m.get? "actor" with _ | v
  · rw [hm] at ha
    exact absurd (SchemeVal.str.inj ha).symm hx
  · rw [hm] at ha
    exact ha

omit [Host] in
/-- A ctx that names a string actor can be held. -/
theorem Held.of?_eq (hm : ctxActor m = .str x) :
    ∃ h : Held, Held.of? m = some h ∧ h.ctx = m ∧ h.actor = x := by
  simp only [Held.of?]
  split
  · next actor h => exact ⟨⟨m, actor, h⟩, rfl, rfl, SchemeVal.str.inj (h.symm.trans hm)⟩
  · next h => exact absurd hm (h x)

/-- The empty string is no address. -/
theorem ne_empty_of_isActor (hx : Host.isActor x = true) : x ≠ "" := by
  rintro rfl
  have h := Host.isActor_did "" hx
  cases h

/-- Any other item goes to the hand, unless it is the equipped container. -/
theorem acceptHold!_spec (hp : Proposes m x) (hpending : w.slots.equipPending ≠ .str x)
    (hmarked : ¬ w.slots.awaitsDrop x) :
    (acceptHold! x m).wp (fun _ => Handshake m w) (fun _ => Handshake m w) w := by
  have hfalse : ∀ y, Proposes m y → w.slots.equipPending ≠ .str y →
      w.slots.awaitsDrop y = false := by
    intro y hy _
    obtain rfl : x = y := SchemeVal.str.inj (hp.2.symm.trans hy.2)
    exact Bool.eq_false_iff.2 hmarked
  simp only [acceptHold!]
  simp only [wp_bind, wp_myInvIfAny, wp_ite, wp_setInvEntry, wp_heldAdd]
  refine wp_actorCall ?_ ?_ ?_
  · intro y v hy hact
    obtain rfl : x = y := SchemeVal.str.inj hy
    -- the child call is all that is done
    have hacked : ∀ s, w.Acked ⟨s, (w.push (.call x "child" [.map m] (.ok v))).focus⟩ m x :=
      fun s => ⟨v, World.effects_eq rfl⟩
    split
    · next hinv => exact .refreshed x rfl hp hact hinv.symm (hacked _) hpending hmarked
    · next hinv =>
      obtain ⟨h, hof, hctx, hactor⟩ := Held.of?_eq (ctxActor_eq hp.2 (ne_empty_of_isActor hact))
      refine .held x h ?_ hp hact hactor hctx (Ne.symm hinv) (hacked _) hpending hmarked
      rw [hof]
      rfl
  · intro y e _ _
    exact .idle rfl (.inr ⟨y, e, World.effects_push _ _⟩) hfalse
  · exact fun _ _ => .idle rfl (.inl (World.effects_self w)) hfalse

/-- A handshake does one of the things it can do, whether it returns or raises. -/
theorem handleAvatarParent!_spec
    (hb : w.slots.equipPending ≠ .bool false → w.slots.myInv = .bool false) :
    (handleAvatarParent! (.map m)).wp (fun _ => Handshake m w) (fun _ => Handshake m w) w := by
  simp only [handleAvatarParent!]
  rw [wp_bind, show mapRef (.map m) "parent" "" = .ok (parentOf m) from rfl, wp_lift]
  simp only
  rw [wp_bind, show mapRef (.map m) "actor" "" = .ok (actorOf m) from rfl, wp_lift]
  simp only
  rw [wp_bind, show asMap "map-ref" (.map m) = .ok m from rfl, wp_lift]
  simp only
  rw [wp_bind, wp_getSlots]
  -- the source tests for an equip, then for a drop, and holds what is left
  split
  · next h => exact acceptEquip!_spec h.2 h.1 hb
  next hbook =>
  split
  · next hp =>
    rcases ha : actorOf m with x | _ | _ | _ | _ | _ | _ | _
    case str =>
      rw [wp_bind, show asString "map-ref" (.str x) = .ok x from rfl, wp_lift]
      have hpending : w.slots.equipPending ≠ .str x := fun h => hbook ⟨by rw [ha, h], hp⟩
      simp only
      split
      · next hmarked => exact acceptDrop!_spec ⟨hp, ha⟩ hpending hmarked
      · next hmarked => exact acceptHold!_spec ⟨hp, ha⟩ hpending hmarked
    all_goals
      refine .idle rfl (.inl (World.effects_self w)) fun _ hx => ?_
      exact absurd (ha.symm.trans hx.2) (by simp)
  · next hp =>
    rw [wp_releaseHand]
    simp only [Slots.release]
    split
    · next hh =>
      obtain ⟨h, _, hactor⟩ := Slots.holds_iff.1 hh
      exact .released h.actor rfl (hactor ▸ hh) hactor.symm hp (World.effects_slots _ _)
    · exact .idle rfl (.inl (World.effects_slots _ _)) fun _ hx => absurd hx.1 hp

/-- Without a map nothing changes. -/
theorem handleAvatarParent!_keeps {P : World → Prop} {ctx : SchemeVal}
    (hctx : ∀ m, ctx ≠ .map m) : (handleAvatarParent! ctx).Within (Keeping P) := by
  rcases ctx with _ | _ | _ | _ | _ | _ | _ | m
  case map => exact absurd rfl (hctx m)
  all_goals exact fun _ hw => hw

/-- The ctx of a handshake. -/
def Op.parentCtx? : Op → Option Ctx
  | .event e (.list [.map m]) => if e = ":parent" then some m else none
  | _ => none

omit [Host] in
theorem Op.parentCtx?_eq {op : Op} (h : op.parentCtx? = some m) :
    op = .event ":parent" (.list [.map m]) := by
  simp only [parentCtx?] at h
  split at h
  · split at h
    · next he =>
      obtain rfl := Option.some.inj h
      rw [he]
    · cases h
  · cases h

/-- What every handshake does, and the text of its error does not change, holds at the end
    of its delivery. -/
theorem Op.parentEvent_end {P : World → Prop} {op : Op} (hm : op.parentCtx? = some m)
    (hb : w.slots.equipPending ≠ .bool false → w.slots.myInv = .bool false)
    (display : ∀ w text, P w → P (w.push (.display text)))
    (step : ∀ w', w ≤ w' → Handshake m w w' → P w') : P (op.run.run w).2 := by
  obtain rfl := Op.parentCtx?_eq hm
  refine parentEvent_wp display ?_
  exact (handleAvatarParent!_spec hb).conseq (fun _ => step) fun _ => step

/-- What holds before an operation and survives the steps it is made of holds after it:
    those of the commands, and what the handshake does at once. -/
theorem Op.run_end {P : World → Prop} (h : Stable P) {op : Op} (ha : Admits P op)
    (hb : w.slots.equipPending ≠ .bool false → w.slots.myInv = .bool false)
    (handshake : ∀ m w', op.parentCtx? = some m → w ≤ w' → Handshake m w w' → P w')
    (hw : P w) : P (op.run.run w).2 := by
  rcases hm : op.parentCtx? with _ | m
  · refine Op.run_keeps h ha ?_ w hw
    rintro ctx rfl
    exact handleAvatarParent!_keeps fun m hctx => by subst hctx; cases hm
  · exact Op.parentEvent_end hm hb (fun w _ => h.view (World.le_push w _) rfl)
      fun w' => handshake m w' hm

end Avatar

end Zscheme
