import Zscheme.Avatar.Discipline
import Zscheme.Avatar.Emits

/-!
# Making room for a container

`equip-propose!` frees the hand before it asks for the new container: first, if there is an
equipped one, for that one, and then for the new one. Only the second time does it look
whether the hand holds what is to be equipped (`freeHandFor!`). It drops the container
that it goes on to ask for exactly if that one is in the hand while another one is
equipped, and there is a room to ask (`equipPropose!_spares_iff`).
-/

namespace Zscheme

namespace Avatar

open Prim Stdlib Zscheme.Runtime Program

/-- The room is asked to take an actor, or the actor is moved. -/
def Effect.Drops (t : SchemeVal) : Effect → Prop
  | .call x method args _ => (method = "drop" ∧ args = [t]) ∨ (method = "set-parent" ∧ .str x = t)
  | _ => False

instance (t : SchemeVal) : (e : Effect) → Decidable (e.Drops t)
  | .call .. => inferInstanceAs (Decidable (_ ∨ _))
  | .display _ | .msgSend .. | .random _ => inferInstanceAs (Decidable False)

/-- Neither. -/
def Effect.Spares (t : SchemeVal) (e : Effect) : Prop := ¬ e.Drops t

/-- What was done between two states does not drop the actor. -/
def Spares (t : SchemeVal) (w w' : World) : Prop := Adds (Effect.Spares t) w.focus w'.focus

variable [Host] {w : World} {t did : SchemeVal}

/-- There is a room that can be called. -/
def Slots.HasRoom (s : Slots) : Prop := ∃ r, s.room = some (.str r) ∧ Host.isActor r = true

/-- The actor answers that it is a container. -/
def ContainerAt (f : Focus) (did : SchemeVal) : Prop :=
  ∃ x, did = .str x ∧ Host.isActor x = true ∧
    Host.reply f.trace x "kind?" [] = .ok "/ma/container/0.0.1"

/-! ## What relocation sends -/

/-- What the runtime no longer knows is forgotten, and this is shown. -/
theorem actEmits_forgetStaleSlots {P : Effect → Prop} (hshow : ∀ text, P (.display text)) :
    ActEmits P (forgetStaleSlots! t) := by
  refine ActEmits.bind ?_ fun _ => ActEmits.bind ?_ fun _ => ?_
  · refine emits_getSlots.act.bind fun _ => ?_
    exact actEmits_ite (actEmits_modifySlots _) (actEmits_pure _)
  · refine emits_closed.myInvIfAny.act.bind fun _ => actEmits_ite ?_ (actEmits_pure _)
    exact (actEmits_modifySlots _).bind fun _ => actEmits_modifySlots _
  · exact (actEmits_lift _).bind fun _ => (emits_display hshow _).act

/-- A relocation asks the room to take the actor and tells the actor of the room, and may
    show what became of it. -/
theorem actEmitsAt_relocateToRoom {P : Effect → Prop} {s : Slots}
    (hdrop : ∀ x r, s.room = some (.str x) → P (.call x "drop" [t] r))
    (hset : ∀ x v r, t = .str x → s.room = some v → P (.call x "set-parent" [v] r))
    (hshow : ∀ text, P (.display text)) : ActEmitsAt s P (relocateToRoom! t) := by
  refine actEmitsAt_room_bind fun v hv => ?_
  refine EmitsAt.act_bind (Emits.emitsAt (emits_actorCall ?_)) fun _ => ?_
  · rintro x m r rfl hm
    obtain rfl := SchemeVal.str.inj hm
    exact hdrop x r hv
  refine ActEmitsAt.tryCatch (actEmitsAt_room_bind fun v hv => ?_) fun _ => ?_
  · refine EmitsAt.act_bind (Emits.emitsAt (emits_actorCall ?_)) fun _ => (actEmits_pure _).emitsAt
    rintro x m r hx hm
    obtain rfl := SchemeVal.str.inj hm
    exact hset x v r hx hv
  · refine actEmits_ite ?_ (actEmits_throw _)
    exact (actEmits_forgetStaleSlots hshow).bind fun _ => actEmits_pure _

/-- From any slots. -/
theorem actEmits_relocateToRoom {P : Effect → Prop} (hdrop : ∀ x r, P (.call x "drop" [t] r))
    (hset : ∀ x args r, t = .str x → P (.call x "set-parent" args r))
    (hshow : ∀ text, P (.display text)) : ActEmits P (relocateToRoom! t) :=
  actEmits_of_at fun _ => actEmitsAt_relocateToRoom (fun x r _ => hdrop x r)
    (fun x _ r hx _ => hset x _ r hx) hshow

/-- The relocation of another actor does not drop this one. -/
theorem relocateToRoom!_spares (h : t ≠ did) :
    ActEmits (Effect.Spares did) (relocateToRoom! t) := by
  refine actEmits_relocateToRoom ?_ ?_ fun _ hd => hd
  · rintro x r (⟨-, ht⟩ | ⟨hm, -⟩)
    · exact h (List.singleton_inj.1 ht)
    · exact absurd hm (by decide)
  · rintro x args r hx (⟨hm, -⟩ | ⟨-, hx'⟩)
    · exact absurd hm (by decide)
    · exact h (hx.trans hx')

/-- Without a room nothing is sent. -/
theorem relocateToRoom!_homeless (h : ¬ w.slots.HasRoom) :
    (relocateToRoom! t).wp (fun _ _ => False) (fun _ w' => w' = w) w := by
  simp only [relocateToRoom!]
  rw [wp_bind]
  refine wp_room (fun r hr => ?_) fun _ _ => rfl
  rw [wp_bind]
  refine wp_actorCall ?_ ?_ fun _ _ => rfl
  · rintro x _ rfl hx
    exact absurd ⟨x, hr, hx⟩ h
  · rintro x _ rfl hx
    exact absurd ⟨x, hr, hx⟩ h

/-- Freeing the hand does not drop an actor that is not in it, or with no room to ask. -/
theorem dropHeldToRoom!_spares (h : w.slots.holds did = true → ¬ w.slots.HasRoom) :
    dropHeldToRoom!.wp (fun _ => Spares did w)
      (fun _ => Spares did w) w := by
  have hrefl : Spares did w w := refl_of (Adds _) w.focus
  simp only [dropHeldToRoom!]
  rw [wp_bind, wp_getSlots]
  rcases hheld : w.slots.held with _ | item
  · exact hrefl
  · rw [wp_bind, wp_myInvIfAny, wp_ite]
    split
    · rw [wp_bind]
      by_cases hdid : .str item.actor = did
      · have hhome := h (Slots.holds_iff.2 ⟨item, hheld, hdid⟩)
        exact (relocateToRoom!_homeless hhome).conseq (fun _ _ _ h => h.elim)
          fun _ _ _ h => h ▸ hrefl
      · exact (relocateToRoom!_spares hdid).wp w
    · exact hrefl

/-- What is in the hand goes to the room, if it is not the equipped container. -/
theorem dropHeldToRoom!_asks (h : w.slots.holds t = true) (ht : t ≠ w.slots.myInv) :
    dropHeldToRoom!.wp (fun _ w' => w.AsksRoom w' t) (fun _ w' => w.AsksRoom w' t) w := by
  obtain ⟨item, hheld, rfl⟩ := Slots.holds_iff.1 h
  simp only [dropHeldToRoom!]
  rw [wp_bind, wp_getSlots, hheld]
  simp only
  rw [wp_bind, wp_myInvIfAny, wp_ite, if_pos ht, wp_bind]
  exact relocateToRoom!_asks _

/-! ## What `equip-propose!` sends -/

/-- The container in the hand would be dropped: another one is equipped, and the room can
    be asked. -/
def World.DropsEquipped (w : World) (did : SchemeVal) : Prop :=
  w.slots.holds did = true ∧ w.slots.myInv.truthy = true ∧ w.slots.myInv ≠ did ∧
    ContainerAt w.focus did ∧ w.slots.HasRoom

/-- The old container makes room without dropping what is not in the hand. -/
theorem unequipOld!_spares
    (h : w.slots.holds did = true → w.slots.myInv.truthy = true → ¬ w.slots.HasRoom) :
    unequipOld!.wp (fun _ => Spares did w)
      (fun _ => Spares did w) w := by
  have hlookup : ∀ e : Effect, e.Lookup → e.Spares did := by
    rintro (⟨x, m, args, r⟩ | _ | _ | _) hl hd
    · rcases hd with ⟨hm, -⟩ | ⟨hm, -⟩ <;> exact absurd hm (hl.ne (by simp))
    all_goals exact hd
  have hunequip : ∀ old, ActEmits (Effect.Spares did) (unequipToHand! old) := by
    intro old
    refine ActEmits.bind (Emits.act ?_) fun _ => (actEmits_modifySlots _).bind fun _ =>
      (actEmits_modifySlots _).bind fun _ => actEmits_modifySlots _
    refine emits_getSlots.bind fun s => ?_
    rcases s.invEntry with _ | entry
    · exact (emits_inquires hlookup).inventoryDisplayCtx old
    · exact emits_pure entry
  simp only [unequipOld!]
  rw [wp_bind, wp_myInvIfAny, wp_ite]
  split
  · next hold =>
    rw [wp_bind]
    refine (dropHeldToRoom!_spares fun hd => h hd hold).conseq (fun _ w' _ hw' => ?_)
      fun _ _ _ h => h
    exact ((hunequip _).wp w').conseq (fun _ _ _ => trans_of (Adds _) hw')
      fun _ _ _ => trans_of (Adds _) hw'
  · exact refl_of (Adds _) w.focus

/-- The hand is not freed of the container that is to be equipped. -/
theorem actEmits_freeHandFor (did : SchemeVal) :
    ActEmits (Effect.Spares did) (freeHandFor! did) := by
  intro w
  refine (wp_iff_end _ (Spares did w)).1 ?_
  simp only [freeHandFor!]
  rw [wp_bind, wp_getSlots, wp_ite]
  split
  · next hfree => exact dropHeldToRoom!_spares fun hd => by simp [hd] at hfree
  · exact refl_of (Adds _) w.focus

/-- The container is spared unless it is in the hand, another one is equipped, and there
    is a room to ask. -/
theorem equipMove!_spares {propose : View Unit} (hp : Emits (Effect.Spares did) propose)
    (h : w.slots.holds did = true → w.slots.myInv.truthy = true → ¬ w.slots.HasRoom) :
    (equipMove! did propose).wp (fun _ => Spares did w)
      (fun _ => Spares did w) w := by
  simp only [equipMove!]
  rw [wp_bind]
  refine (unequipOld!_spares h).conseq (fun _ w₁ _ hw₁ => ?_) fun _ _ _ h => h
  exact (((actEmits_freeHandFor did).bind fun _ => hp.act).wp w₁).conseq
    (fun _ _ _ => trans_of (Adds _) hw₁) fun _ _ _ => trans_of (Adds _) hw₁

/-- Otherwise it is dropped. -/
theorem equipMove!_drops {propose : View Unit} (hheld : w.slots.holds did = true)
    (hold : w.slots.myInv.truthy = true) (hne : w.slots.myInv ≠ did) :
    (equipMove! did propose).wp (fun _ w' => w.AsksRoom w' did)
      (fun _ w' => w.AsksRoom w' did) w := by
  simp only [equipMove!, unequipOld!]
  rw [wp_bind, wp_bind, wp_myInvIfAny, wp_ite, if_pos hold, wp_bind]
  refine (dropHeldToRoom!_asks hheld hne.symm).conseq (fun _ w₁ hle hasks => ?_) fun _ _ _ h => h
  refine wp_of_le (fun _ w₂ hle₂ => ?_) fun _ _ hle' => hasks.later hle hle'
  exact wp_of_le (fun _ _ hle' => hasks.later hle (hle₂.trans hle'))
    fun _ _ hle' => hasks.later hle (hle₂.trans hle')

/-- `equip-propose!` does not drop the container before it asks for it, however it asks:
    exactly unless the container is in the hand, another one is equipped, and there is a
    room to ask. -/
theorem equipPropose!_spares_iff {propose : View Unit}
    (hp : Emits (Effect.Spares did) propose) (w : World) :
    (∀ e ∈ w.effects ((equipPropose! did propose).run w).2, e.Spares did) ↔
      ¬ w.DropsEquipped did := by
  constructor
  · rintro hspares ⟨hheld, hold, hne, ⟨x, rfl, hx, hkind⟩, r, hr, hact⟩
    have hdrops : (equipPropose! (.str x) propose).wp (fun _ w' => w.AsksRoom w' (.str x))
        (fun _ w' => w.AsksRoom w' (.str x)) w := by
      simp only [equipPropose!]
      rw [wp_bind, wp_myInvIfAny, wp_ite, if_neg hne.symm, wp_bind, wp_actorCall_of_isActor hx,
        hkind]
      simp only
      rw [wp_ite, if_pos trivial, wp_bind, wp_setEquipPending, wp_bind, wp_tryCatch]
      let w₁ : World := w.push (.call x "kind?" [] (.ok "/ma/container/0.0.1"))
      let w₂ : World := { w₁ with slots := { w.slots with equipPending := .str x } }
      exact (equipMove!_drops (w := w₂) hheld hold hne).conseq
        (fun _ _ hle hasks => hasks.earlier rfl (World.le_push _ _) hle)
        fun _ _ hle hasks => hasks.earlier rfl (World.le_push _ _) hle
    obtain ⟨reply, he⟩ := (wp_iff_end _ fun w' => w.AsksRoom w' (.str x)).1 hdrops r hr hact
    exact hspares _ he (.inl ⟨rfl, rfl⟩)
  · intro h
    have hspares : (equipPropose! did propose).wp (fun _ => Spares did w)
        (fun _ => Spares did w) w := by
      simp only [equipPropose!]
      rw [wp_bind, wp_myInvIfAny, wp_ite]
      split
      · exact refl_of (Adds _) w.focus
      next hne =>
      rw [wp_bind]
      -- only the container in the hand is in danger, and only if it says that it is one
      by_cases hactor : ∃ x, did = .str x ∧ Host.isActor x = true
      · obtain ⟨x, rfl, hx⟩ := hactor
        have hasked : ∀ r, Spares (.str x) w (w.push (.call x "kind?" [] r)) := fun r =>
          ⟨[_], rfl, List.forall_mem_singleton.2 (by simp [Effect.Spares, Effect.Drops])⟩
        rw [wp_actorCall_of_isActor hx]
        rcases hkind : Host.reply w.focus.trace x "kind?" [] with e | kind
        · exact hasked _
        simp only
        rw [wp_ite]
        split
        · next heq =>
          rw [wp_bind, wp_setEquipPending, wp_bind, wp_tryCatch]
          let w₁ : World := w.push (.call x "kind?" [] (.ok kind))
          let w₂ : World := { w₁ with slots := { w.slots with equipPending := .str x } }
          have hcontainer : ContainerAt w.focus (.str x) := ⟨x, rfl, hx, by rw [hkind, heq]⟩
          exact (equipMove!_spares (w := w₂) hp fun hd ho hroom =>
            h ⟨hd, ho, Ne.symm hne, hcontainer, hroom⟩).conseq
              (fun _ _ _ hs => trans_of (Adds _) (hasked _) hs)
              fun _ _ _ hs => trans_of (Adds _) (hasked _) hs
        · rw [wp_bind]
          exact wp_lift_of (fun _ _ => hasked _) fun _ _ => hasked _
      · refine wp_actorCall ?_ ?_ fun _ _ => refl_of (Adds _) w.focus
        · exact fun x _ hx hact => absurd ⟨x, hx, hact⟩ hactor
        · exact fun x _ hx hact => absurd ⟨x, hx, hact⟩ hactor
    exact ((wp_iff_end _ (Spares did w)).1 hspares).effects

omit [Host] in
/-- A bag is equipped with an empty hand. -/
theorem equipPropose!_spares_bag :
    let _ : Host := scripted "did:ma:me" fun _ method _ =>
      .ok (if method = "kind?" then "/ma/container/0.0.1" else .nil)
    let w := World.entered "did:ma:room"
    let propose : View Unit := do let _ ← holdTarget! "did:ma:bag"
    (∀ e ∈ w.effects ((equipPropose! "did:ma:bag" propose).run w).2,
      e.Spares "did:ma:bag") ↔ ¬ w.DropsEquipped "did:ma:bag" := by
  intro _ w propose
  refine equipPropose!_spares_iff (Emits.bind (emits_actorCall ?_) fun _ => emits_pure _) w
  rintro x m r hx hm hdrops
  obtain rfl := SchemeVal.str.inj hm
  simp [Effect.Drops] at hdrops

omit [Host] in
/-- With a chest equipped and a bag in the hand, the bag is dropped to be equipped. -/
theorem bag_dropped :
    let _ : Host := scripted "did:ma:me" fun _ method _ =>
      .ok (if method = "kind?" then "/ma/container/0.0.1" else .nil)
    let propose : View Unit := do let _ ← holdTarget! "did:ma:bag"
    ∃ w : World, (avatar Slots.Fresh).exec (World.entered "did:ma:room")
        [.command .equip ["did:ma:chest"],
          .event ":parent" (.list [.map [("actor", "did:ma:chest"), ("parent", "did:ma:me")]]),
          .event ":parent" (.list [.map [("actor", "did:ma:bag"), ("parent", "did:ma:me")]])] =
        some w ∧
      w.slots.inv = some "did:ma:chest" ∧ w.slots.held.map Held.actor = some "did:ma:bag" ∧
      ∃ e ∈ w.effects ((equipPropose! "did:ma:bag" propose).run w).2, e.Drops "did:ma:bag" := by
  intro _ propose
  refine ⟨_, exec_avatar _ _ _, ?_⟩
  decide +kernel

end Avatar

end Zscheme
