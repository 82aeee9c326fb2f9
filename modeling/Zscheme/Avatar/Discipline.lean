import Zscheme.Avatar.Handshake

/-!
# Slot discipline

The equipped container is never in the hand as well, and while a container is being
equipped no other one is configured. Both hold together in every reachable state
(`slots_disciplined`): the second is what lets the handshake book a container without
having to make room for it.
-/

namespace Zscheme

namespace Avatar

open Prim Zscheme.Runtime Program

/-- An empty hand, and nothing booked. -/
def Slots.Unarmed (s : Slots) : Prop := s.held = none ∧ s.equipPending = .bool false

variable [Host]

/-- The discipline of the slots. -/
structure Slots.Disciplined (s : Slots) : Prop where
  /-- The held item is not the equipped container. -/
  hand : ∀ h, s.held = some h → .str h.actor ≠ s.myInv
  /-- While a container is being equipped, none is configured. -/
  booking : s.equipPending ≠ .bool false → s.myInv = .bool false

variable {w w' : World} {s : Slots}

/-! ## The inventory slot -/

/-- Without an inventory there is none to name. -/
theorem Slots.myInv_of_inv_none (h : s.inv = none) : s.myInv = .bool false := by
  simp only [myInv]
  rw [h]

/-- What `my-inv-if-any` answers is the DID of the slot, or false. -/
theorem Slots.myInv_cases (s : Slots) :
    s.myInv = .bool false ∨ ∃ x, s.inv = some (.str x) ∧ s.myInv = .str x := by
  simp only [myInv]
  rcases s.inv with _ | v
  · exact .inl rfl
  · simp only
    split
    · next hdid =>
      rcases v with x | _ | _ | _ | _ | _ | _ | _
      case str => exact .inr ⟨x, rfl, rfl⟩
      all_goals cases hdid
    · exact .inl rfl

/-- An inventory that is an actor is named. -/
theorem Slots.myInv_of_isActor {x : String} (h : s.inv = some (.str x))
    (hx : Host.isActor x = true) : s.myInv = .str x := by
  simp only [myInv]
  rw [h]
  exact if_pos (Host.isActor_did x hx)

/-- What is not truthy is no inventory. -/
theorem Slots.myInv_of_not_truthy (h : ¬ s.myInv.truthy = true) : s.myInv = .bool false := by
  rcases s.myInv_cases with hs | ⟨x, _, hs⟩
  · exact hs
  · rw [hs] at h
    exact absurd rfl h

omit [Host] in
/-- What is held after a release was held before. -/
theorem Slots.held_release {t : SchemeVal} {h : Held} (hh : (s.release t).held = some h) :
    s.held = some h := by
  simp only [release] at hh
  split at hh
  · cases hh
  · exact hh

omit [Host] in
/-- A release of another actor leaves the hand. -/
theorem Slots.held_release_of_ne {t : SchemeVal} {h : Held} (hh : s.held = some h)
    (ht : .str h.actor ≠ t) : (s.release t).held = some h := by
  have hfree : ¬ s.holds t = true := by
    intro hholds
    obtain ⟨h', hh', rfl⟩ := Slots.holds_iff.1 hholds
    obtain rfl := Option.some.inj (hh.symm.trans hh')
    exact ht rfl
  rw [release, if_neg hfree]
  exact hh

omit [Host] in
/-- What is left in the hand is another actor. -/
theorem Slots.ne_of_held_release {t : SchemeVal} {h : Held}
    (hh : (s.release t).held = some h) : .str h.actor ≠ t := by
  rintro rfl
  have hold := held_release hh
  simp only [release] at hh
  rw [if_pos (Slots.holds_iff.2 ⟨h, hold, rfl⟩)] at hh
  cases hh

omit [Host] in
/-- A release leaves the equipment mark. -/
@[simp] theorem Slots.equipPending_release (t : SchemeVal) :
    (s.release t).equipPending = s.equipPending := by
  simp only [release]
  split <;> rfl

/-- Forgetting an actor leaves the inventory alone, or empties it. -/
theorem Slots.myInv_forget (s : Slots) (t : SchemeVal) :
    (s.forget t).myInv = s.myInv ∨ (s.forget t).myInv = .bool false := by
  simp only [forget, unbook]
  split
  · exact .inr (myInv_of_inv_none rfl)
  · exact .inl (myInv_release s t)

/-- Forgetting another actor leaves the inventory. -/
theorem Slots.myInv_forget_of_ne {t : SchemeVal} (ht : t ≠ s.myInv) :
    (s.forget t).myInv = s.myInv := by
  simp only [forget, unbook]
  rw [myInv_release, if_neg ht, myInv_release]

/-- What is held after forgetting was held before. -/
theorem Slots.held_forget {t : SchemeVal} {h : Held} (hh : (s.forget t).held = some h) :
    s.held = some h := by
  simp only [forget, unbook] at hh
  split at hh <;> exact held_release hh

/-- Forgetting leaves the equipment mark. -/
theorem Slots.equipPending_forget (t : SchemeVal) :
    (s.forget t).equipPending = s.equipPending := by
  obtain ⟨_, _, _, h⟩ := s.forget_frame t
  rw [h]

/-! ## The hand -/

/-- The held item is not the equipped container. -/
def Slots.HandApart (s : Slots) : Prop := ∀ h, s.held = some h → .str h.actor ≠ s.myInv

/-- Without an inventory the hand is apart from it. -/
theorem Slots.handApart_of_myInv (h : s.myInv = .bool false) : s.HandApart := by
  intro _ _
  rw [h]
  exact nofun

/-- Forgetting keeps the hand apart. -/
theorem Slots.HandApart.forget (h : s.HandApart) (t : SchemeVal) : (s.forget t).HandApart := by
  intro x hx
  rcases s.myInv_forget t with hinv | hinv <;> rw [hinv]
  · exact h x (held_forget hx)
  · exact nofun

/-- What commands do to the slots keeps the hand apart. -/
theorem handApart_stable : Stable fun w => w.slots.HandApart where
  view _ hs h := by rwa [hs]
  lost _ hs _ h := by
    rw [hs]
    exact h.forget _
  unequip _ _ _ _ _ hs _ := by
    rw [hs]
    exact Slots.handApart_of_myInv (Slots.myInv_of_inv_none rfl)

/-! ## The booking -/

/-- No inventory is configured. -/
def Slots.NoInventory (s : Slots) : Prop := s.myInv = .bool false

/-- What commands do to the slots makes no inventory. -/
theorem noInventory_stable : Stable fun w => w.slots.NoInventory where
  view _ hs h := by rwa [hs]
  lost {w _ t} _ hs _ h := by
    rw [hs]
    rcases w.slots.myInv_forget t with hinv | hinv
    · exact hinv.trans h
    · exact hinv
  unequip _ _ _ _ _ hs _ := by
    rw [hs]
    exact Slots.myInv_of_inv_none rfl

/-- The discipline is kept by what commands do to the slots. -/
theorem disciplined_stable : Stable fun w => w.slots.Disciplined where
  view hle hs h := by rwa [hs]
  lost {w _ t} hle hs hu h := by
    refine ⟨handApart_stable.lost hle hs hu h.hand, ?_⟩
    rw [hs, Slots.equipPending_forget]
    rcases w.slots.myInv_forget t with hinv | hinv <;> rw [hinv]
    · exact h.booking
    · exact fun _ => rfl
  unequip hle hle' hf ht hc hs h :=
    ⟨handApart_stable.unequip hle hle' hf ht hc hs h.hand, fun _ => by
      rw [hs]
      exact Slots.myInv_of_inv_none rfl⟩

/-- It is kept when an item is unbooked. -/
theorem disciplined_unbookable : Unbookable fun w => w.slots.Disciplined := by
  intro w w' _ hs _ h
  have hinv : w'.slots.myInv = .bool false := by
    rw [hs]
    exact Slots.myInv_of_inv_none rfl
  exact ⟨Slots.handApart_of_myInv hinv, fun _ => hinv⟩

/-- After the old container was unequipped, none is configured. -/
theorem unequipOld!_spec :
    unequipOld!.wp (fun _ w' => w'.slots.NoInventory) (fun _ _ => True) w := by
  simp only [unequipOld!]
  rw [wp_bind, wp_myInvIfAny, wp_ite]
  split
  · simp only [wp_bind]
    refine wp_of_le (fun _ w₁ _ => ?_) fun _ _ _ => trivial
    refine (unequipToHand!_spec _).conseq ?_ fun _ _ _ _ => trivial
    rintro _ w₂ _ ⟨ctx, _, hs⟩
    rw [hs]
    exact Slots.myInv_of_inv_none rfl
  · next h => exact Slots.myInv_of_not_truthy h

/-- A container is asked to move only once no other one is configured. -/
theorem equipMove!_spec (did : SchemeVal) (propose : View Unit) :
    (equipMove! did propose).wp (fun _ w' => w'.slots.NoInventory) (fun _ _ => True) w := by
  simp only [equipMove!]
  rw [wp_bind]
  refine unequipOld!_spec.conseq (fun _ w₁ _ h₁ => ?_) fun _ _ _ _ => trivial
  rw [wp_bind]
  have hfree : (freeHandFor! did).Within (Keeping fun w => w.slots.NoInventory) := by
    refine (noInventory_stable.view_keeps _).bind fun s => ?_
    split
    · exact noInventory_stable.dropHeld_keeps
    · exact within_pure _
  refine (hfree.keeps h₁).conseq (fun _ w₂ _ h₂ => ?_) fun _ _ _ _ => trivial
  exact ((noInventory_stable.view_keeps _).keeps h₂).conseq (fun _ _ _ h => h) fun _ _ _ _ =>
    trivial

/-- A booking that `equip` leaves behind has no inventory beside it: the old container
    was unequipped, or the booking was taken back. -/
theorem equipPropose!_booking (did : SchemeVal) (propose : View Unit)
    (h : w.slots.equipPending ≠ .bool false → w.slots.NoInventory) :
    (equipPropose! did propose).wp
      (fun _ w' => w'.slots.equipPending ≠ .bool false → w'.slots.NoInventory)
      (fun _ w' => w'.slots.equipPending ≠ .bool false → w'.slots.NoInventory) w := by
  simp only [equipPropose!]
  rw [wp_bind, wp_myInvIfAny, wp_ite]
  split
  · exact h
  rw [wp_bind]
  refine wp_view_of_le (fun kind f _ => ?_) fun _ _ _ => h
  rw [wp_ite]
  split
  · rw [wp_bind, wp_setEquipPending, wp_bind, wp_tryCatch]
    refine (equipMove!_spec did propose).conseq (fun _ _ _ hn _ => hn) fun _ _ _ _ => ?_
    rw [wp_bind, wp_setEquipPending, wp_throw]
    exact fun hp => absurd rfl hp
  · rw [wp_bind]
    exact wp_lift_of (fun _ _ => h) fun _ _ => h

/-- It is kept when an item is to be equipped. -/
theorem equipPropose!_disciplined (did : SchemeVal) (propose : View Unit) :
    (equipPropose! did propose).Within (Keeping fun w => w.slots.Disciplined) := by
  refine within_keeping fun w hw => ?_
  have hkeeps := handApart_stable.equipPropose_keeps (fun _ h => h) (fun _ h => h) did propose
  have hhand := hkeeps.keeps hw.hand
  exact (hhand.and (equipPropose!_booking did propose hw.booking)).conseq
    (fun _ _ _ h => ⟨h.1, h.2⟩) fun _ _ _ h => ⟨h.1, h.2⟩

/-! ## Operations -/

/-- A handshake keeps the discipline. -/
theorem Handshake.disciplined {m : Ctx} (hh : Handshake m w w')
    (h : w.slots.Disciplined) : w'.slots.Disciplined := by
  cases hh with
  | idle hs => rwa [hs]
  | booked x hs _ hx =>
    rw [hs]
    refine ⟨fun y hy => ?_, fun hp => absurd (Slots.equipPending_release _) hp⟩
    -- the booked item is released from the hand, the only slot it could also be in
    rw [Slots.myInv_of_isActor rfl hx]
    exact Slots.ne_of_held_release hy
  | unmarked x hs =>
    rw [hs]
    exact ⟨h.hand, h.booking⟩
  | dropped x w₁ hs₁ hd _ hle =>
    have h₁ : w₁.slots.Disciplined := by
      rw [hs₁]
      exact ⟨h.hand, h.booking⟩
    rcases hd with hd | hd
    · exact disciplined_stable.dropped disciplined_unbookable hle hd h₁
    · rwa [hd]
  | refreshed x hs =>
    rw [hs]
    exact ⟨h.hand, h.booking⟩
  | held x y hs _ _ hy _ hinv =>
    rw [hs]
    refine ⟨fun z hz => ?_, h.booking⟩
    obtain rfl := Option.some.inj hz
    rw [hy]
    exact Ne.symm hinv
  | released x hs =>
    rw [hs]
    exact ⟨nofun, h.booking⟩

/-- Every operation may do what it does to disciplined slots. -/
theorem disciplined_admits (op : Op) : Admits (fun w => w.slots.Disciplined) op where
  disarm _ _ h := ⟨h.hand, fun hp => absurd rfl hp⟩
  book _ := equipPropose!_disciplined
  mark _ _ _ h := ⟨h.hand, h.booking⟩
  unbook _ := disciplined_unbookable
  enter _ _ _ _ h := ⟨h.hand, h.booking⟩

/-- Every operation keeps the discipline. -/
theorem Op.run_disciplined (op : Op) (h : w.slots.Disciplined) :
    (op.run.run w).2.slots.Disciplined :=
  Op.run_end disciplined_stable (disciplined_admits op) h.booking
    (fun _ _ _ _ hh => hh.disciplined h) h

/-- Every reachable state is disciplined. -/
theorem disciplined_of_reachable (hw : (avatar Slots.Unarmed).Reachable w) :
    w.slots.Disciplined := by
  refine hw.invariant (I := fun w => w.slots.Disciplined) ?_ ?_
  · intro w hw
    refine ⟨fun h hh => ?_, fun hp => absurd hw.2 hp⟩
    rw [hw.1] at hh
    cases hh
  · intro w op w' h _ hn
    obtain rfl := Option.some.inj hn
    exact op.run_disciplined h

/-- The effects of a booking that makes no room: the acknowledgement of the container,
    and, if it is answered, the text that shows the booking. -/
def BooksOnly (m : Ctx) (l : List Effect) : Prop :=
  Unanswered m l ∨ ∃ x v text, l = [.display text, .call x "child" [.map m] (.ok v)]

/-- In every reachable state the slots are disciplined, and the handshake of a
    container that is being equipped books it without making room for it. -/
theorem slots_disciplined (hw : (avatar Slots.Unarmed).Reachable w) :
    w.slots.Disciplined ∧
      ∀ m : Ctx, actorOf m = w.slots.equipPending → parentOf m = .str Host.did →
        BooksOnly m (w.effects ((handleAvatarParent! (.map m)).run w).2) := by
  have hd := disciplined_of_reachable hw
  refine ⟨hd, fun m hactor hparent => ?_⟩
  have hh := (wp_iff_end _ _).1 (handleAvatarParent!_spec (m := m) hd.booking)
  have hne : ∀ x, Proposes m x → ¬ w.slots.equipPending ≠ .str x := fun x hx hp =>
    hp (hactor.symm.trans hx.2)
  cases hh with
  | idle _ he => exact .inl he
  | booked x _ _ _ _ he =>
    obtain ⟨text, v, he⟩ := he
    exact .inr ⟨x, v, text, he⟩
  | unmarked x _ hx hp => exact absurd hp (hne x hx)
  | dropped x _ _ _ _ _ _ hx _ _ hp => exact absurd hp (hne x hx)
  | refreshed x _ hx _ _ _ hp => exact absurd hp (hne x hx)
  | held x _ _ hx _ _ _ _ _ hp => exact absurd hp (hne x hx)
  | released _ _ _ _ hp => exact absurd hparent hp

omit [Host] in
/-- A container in the room is equipped, and its handshake is due. -/
theorem slots_disciplined_equip :
    let _ : Host := scripted "did:ma:me" fun _ method _ =>
      .ok (if method = "kind?" then "/ma/container/0.0.1" else .nil)
    let w := ((Op.command .equip ["did:ma:chest"]).run.run (World.entered "did:ma:room")).2
    let m : Ctx := [("actor", "did:ma:chest"), ("parent", "did:ma:me")]
    w.slots.equipPending = .str "did:ma:chest" ∧ w.slots.Disciplined ∧
      BooksOnly m (w.effects ((handleAvatarParent! (.map m)).run w).2) := by
  intro _ w m
  have hw : (avatar Slots.Unarmed).Reachable w :=
    System.reachable_of_exec (l := [.command .equip ["did:ma:chest"]]) ⟨rfl, rfl⟩ rfl
  exact ⟨rfl, (slots_disciplined hw).1, (slots_disciplined hw).2 m rfl rfl⟩

end Avatar

end Zscheme
