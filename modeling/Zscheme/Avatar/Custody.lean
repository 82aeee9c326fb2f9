import Zscheme.Avatar.Inventory

/-!
# Custody

An item is in the *custody* of the avatar from the acknowledgement of its proposal
until the room took it, another parent claims it, or the runtime no longer knows it.
The avatar can only name what one of its slots tracks: the held item, or the equipped
container.

Custody is history: it is read off the operations and their effects, and no procedure
sees it. Two handshakes lose an item that is in custody (`Loses`): a proposal that goes
to a hand which still holds another item, and the proposal of an item that is to be
dropped, when the room refuses it. In every run without them each item in custody is
tracked (`custody_tracked`).
-/

namespace Zscheme

namespace Avatar

open Prim Zscheme.Runtime Program

/-- The actors in the custody of the avatar. -/
abbrev Custody := String → Bool

/-- `x` answered an acknowledgement. -/
def Effect.accepts (x : String) : Effect → Bool
  | .call y method _ (.ok _) => y = x ∧ method = "child"
  | _ => false

/-- `x` was moved to the room, or it is not known any more. -/
def Effect.releases (room : Option SchemeVal) (x : String) : Effect → Bool
  | .call y method args (.ok _) =>
    y = x ∧ method = "set-parent" ∧ some args = room.map fun r => [r]
  | .call y _ _ (.error e) => y = x ∧ unknownFragmentError? e
  | _ => false

/-- The item is tracked by one of the slots. -/
def Slots.Tracks (s : Slots) (x : String) : Prop := s.InHand x ∨ s.inv = some (.str x)

instance (s : Slots) (x : String) : Decidable (s.Tracks x) :=
  decidable_of_iff (s.held.any (·.actor = x) = true ∨ s.inv = some (.str x)) <| by
    simp only [Slots.Tracks, Slots.InHand]
    rcases s.held with _ | h <;> simp

variable [Host]

/-- `x` proposes this avatar as its parent. -/
def Op.proposes (op : Op) (x : String) : Bool := op.parentCtx?.any fun m => Proposes m x

/-- `x` has another parent. -/
def Op.disowns (op : Op) (x : String) : Bool :=
  op.parentCtx?.any fun m => parentOf m ≠ .str Host.did ∧ actorOf m = .str x

/-- The custody after an operation. An acknowledgement is the first thing a handshake
    does, so that what is released in an operation was released last. -/
def Custody.after (K : Custody) (w : World) (op : Op) (x : String) : Bool :=
  let l := w.effects (op.run.run w).2
  (K x || op.proposes x && l.any (·.accepts x)) &&
    !(op.disowns x || l.any (·.releases w.slots.room x))

/-- The avatar, with what is in its custody beside it. -/
def custodian (start : Slots → Prop) : System (World × Custody) Op where
  init s := start s.1.slots ∧ s.2 = fun _ => false
  next s op := some ((op.run.run s.1).2, s.2.after s.1 op)

variable {w₀ w w' : World} {s : Slots} {K : Custody} {x : String} {m : Ctx} {op : Op}

/-! ## What is in custody and what was released -/

/-- `x` was released between two states. -/
def World.Freed (w w' : World) (x : String) : Prop :=
  ∃ e ∈ w.effects w', e.releases w.slots.room x = true

omit [Host] in
theorem World.Freed.later (h : w₀.Freed w x) (hle : w₀ ≤ w) (hle' : w ≤ w') : w₀.Freed w' x := by
  obtain ⟨e, he, hx⟩ := h
  exact ⟨e, effects_left hle hle' he, hx⟩

omit [Host] in
theorem World.Accepted.freed (h : w.Accepted w' (.str x)) (hle : w₀ ≤ w) (hle' : w ≤ w')
    (hr : w.slots.room = w₀.slots.room) : w₀.Freed w' x := by
  obtain ⟨y, r, v, hy, hroom, he⟩ := h
  obtain rfl : x = y := SchemeVal.str.inj hy
  refine ⟨_, effects_right hle hle' he, ?_⟩
  simp [Effect.releases, ← hr, hroom]

theorem World.Unknown.freed (h : w.Unknown w' (.str x)) (hx : Host.isActor x = true)
    (hle : w₀ ≤ w) (hle' : w ≤ w') : w₀.Freed w' x := by
  obtain ⟨r, e, hu, he⟩ := h.answered_error hx
  refine ⟨_, effects_right hle hle' he, ?_⟩
  simp [Effect.releases, hu]

/-- Forgetting another actor does not lose `x`. -/
theorem Slots.Tracks.forget (h : s.Tracks x) (hx : Host.isActor x = true) {t : SchemeVal}
    (ht : t ≠ .str x) : (s.forget t).Tracks x := by
  simp only [Slots.forget]
  rcases h with ⟨item, hi, rfl⟩ | hi
  · have hheld := Slots.held_release_of_ne hi (Ne.symm ht)
    refine .inl ⟨item, ?_, rfl⟩
    simp only [Slots.unbook]
    split <;> exact hheld
  · have hinv : (s.release t).myInv = .str x := by
      rw [Slots.myInv_release]
      exact Slots.myInv_of_isActor hi hx
    rw [Slots.unbook, hinv, if_neg ht]
    refine .inr ?_
    simp only [Slots.release]
    split <;> exact hi

/-! ## Operations without a handshake -/

/-- Since `w₀` each of these items stayed in a slot or was released. -/
structure Kept (K : Custody) (w₀ w : World) : Prop where
  le : w₀ ≤ w
  room : w.slots.room = w₀.slots.room
  entry : w.slots.EntryNames
  item : ∀ x, K x = true → w.slots.Tracks x ∨ w₀.Freed w x

omit [Host] in
theorem Kept.later (h : Kept K w₀ w) (hle : w ≤ w') (hr : w'.slots.room = w.slots.room)
    (he : w'.slots.EntryNames)
    (hs : ∀ x, K x = true → w.slots.Tracks x → w'.slots.Tracks x ∨ w₀.Freed w' x) :
    Kept K w₀ w' where
  le := h.le.trans hle
  room := hr.trans h.room
  entry := he
  item x hx := by
    rcases h.item x hx with ht | hf
    · exact hs x hx ht
    · exact .inr (hf.later h.le hle)

theorem World.HandFreed.room (h : w.HandFreed w') : w'.slots.room = w.slots.room := by
  obtain ⟨_, _, _, hs⟩ := h.frame
  rw [hs]

/-- What is tracked stays so when the equipped container goes to a hand that was freed. -/
theorem Slots.Tracks.unequip (h : w.slots.Tracks x) (hx : Host.isActor x = true)
    (hr : w.slots.room = w₀.slots.room) (hle₀ : w₀ ≤ w) (hle : w ≤ w') (hf : w.HandFreed w')
    (he : w'.slots.EntryNames) {ctx : Ctx} (hc : w'.slots.InventoryCtx w.slots.myInv ctx) :
    (w'.slots.unequip ctx).Tracks x ∨ w₀.Freed w' x := by
  -- the equipped container is put in the hand
  have hequipped : w.slots.myInv = .str x → w'.slots.myInv = w.slots.myInv →
      (w'.slots.unequip ctx).Tracks x := by
    intro hinv hinv'
    rw [hinv] at hc hinv'
    exact .inl (Slots.unequip_inHand he hinv' hc)
  -- the hand was empty or held the container itself, or its item was freed first
  rcases hf with ⟨hs, hall⟩ | ⟨item, ok, hi, hne, hrel⟩
  · refine .inl (hequipped ?_ (by rw [hs]))
    rcases h with ⟨item, hi, rfl⟩ | hi
    · exact (hall item hi).symm
    · exact Slots.myInv_of_isActor hi hx
  · rcases h with ⟨item', hi', rfl⟩ | hi'
    · obtain rfl := Option.some.inj (hi.symm.trans hi')
      refine .inr ?_
      rcases ok
      · exact hrel.2.freed hx hle₀ hle
      · exact hrel.2.freed hle₀ hle hr
    · refine .inl (hequipped (Slots.myInv_of_isActor hi' hx) ?_)
      rcases ok
      · rw [hrel.1, Slots.myInv_forget_of_ne hne]
      · rw [hrel.1]

theorem kept_stable (hK : ∀ x, K x = true → Host.isActor x = true) : Stable (Kept K w₀) where
  view hle hs h := h.later hle (by rw [hs]) (hs ▸ h.entry) fun x _ ht => .inl (by rwa [hs])
  lost {w w' t} hle hs hu h := by
    have hr : w'.slots.room = w.slots.room := by
      obtain ⟨_, _, _, ht⟩ := w.slots.forget_frame t
      rw [hs, ht]
    refine h.later hle hr (entryNames_stable.lost hle hs hu h.entry) ?_
    intro x hx ht
    by_cases hxt : t = .str x
    · subst hxt
      exact .inr (hu.freed (hK x hx) h.le hle)
    · rw [hs]
      exact .inl (ht.forget (hK x hx) hxt)
  unequip {w w₁ w₂ ctx} hle hle' hf ht hc hs h := by
    have he := entryNames_stable.unequip hle hle' hf ht hc hs h.entry
    have hr : w₁.slots.room = w.slots.room := hf.room
    refine h.later (hle.trans hle') (by rw [hs]; exact hr) he fun x hx htr => ?_
    rw [hs]
    have := htr.unequip (hK x hx) h.room h.le hle hf (entryNames_stable.handFreed hle hf h.entry) hc
    exact this.imp_right fun hfr => hfr.later (h.le.trans hle) hle'

theorem kept_unbookable (hK : ∀ x, K x = true → Host.isActor x = true) :
    Unbookable (Kept K w₀) := by
  intro w w' hle hs ha h
  refine h.later hle (by rw [hs]) (entryNames_unbookable _ _ hle hs ha h.entry) fun x hx ht => ?_
  rcases ht with ⟨item, hi, hx'⟩ | hi
  · exact .inl (.inl ⟨item, by rw [hs]; exact hi, hx'⟩)
  · rw [Slots.myInv_of_isActor hi (hK x hx)] at ha
    exact .inr (ha.freed h.le hle h.room)

theorem kept_admits (hK : ∀ x, K x = true → Host.isActor x = true) (hop : ¬ op.Enters) :
    Admits (Kept K w₀) op where
  disarm _ _ h := ⟨h.le, h.room, h.entry, h.item⟩
  book _ := (kept_stable hK).equipPropose_keeps (fun _ h => ⟨h.le, h.room, h.entry, h.item⟩)
    fun _ h => ⟨h.le, h.room, h.entry, h.item⟩
  mark _ _ _ h := ⟨h.le, h.room, h.entry, h.item⟩
  unbook _ := kept_unbookable hK
  enter he := absurd he hop

/-- What every item of the custody is: an actor in one of the slots. -/
def Guarded (K : Custody) (s : Slots) : Prop :=
  ∀ x, K x = true → Host.isActor x = true ∧ s.Tracks x

/-- Entering a room leaves the items where they are. -/
theorem guarded_enterable : Enterable fun w => Guarded K w.slots := fun _ _ _ h => h

theorem guarded_framed : Framed fun w => Guarded K w.slots where
  view _ hs h := by rwa [hs]

/-- An operation that is no handshake keeps every item in a slot until it is
    released. -/
theorem Op.run_kept (hop : op.parentCtx? = none) (hd : w.slots.Disciplined)
    (hn : w.slots.EntryNames) (hg : Guarded K w.slots) (hx : K x = true) :
    (op.run.run w).2.slots.Tracks x ∨ w.Freed (op.run.run w).2 x := by
  by_cases hent : op.Enters
  · refine .inl (Op.run_keeps_of_enters guarded_framed guarded_enterable hent ?_ w hg x hx).2
    rintro ctx rfl
    exact handleAvatarParent!_keeps fun m hm => by subst hm; cases hop
  · have hK : ∀ x, K x = true → Host.isActor x = true := fun x hx => (hg x hx).1
    have hend : Kept K w (op.run.run w).2 := by
      refine Op.run_end (kept_stable hK) (kept_admits hK hent) hd.booking ?_ ?_
      · exact fun m _ ho => nomatch hop.symm.trans ho
      · exact ⟨le_rfl, rfl, hn, fun x hx => .inl (hg x hx).2⟩
    exact hend.item x hx

/-! ## Handshakes -/

/-- `x` was acknowledged between two states. -/
def World.Answered (w w' : World) (x : String) : Prop :=
  ∃ e ∈ w.effects w', e.accepts x = true

/-- A proposal goes to a hand that holds another item of the custody. -/
def Overwrites (K : Custody) (s : Slots) (x : String) : Prop :=
  ¬ s.awaitsDrop x ∧ s.myInv ≠ .str x ∧ ∃ h, s.held = some h ∧ h.actor ≠ x ∧ K h.actor = true

/-- An item that is to be dropped, and is in no slot, is not released: the room refuses
    it. -/
def Strands (w w' : World) (x : String) : Prop :=
  w.slots.awaitsDrop x ∧ ¬ w.slots.Tracks x ∧ ¬ w.Freed w' x

/-- A handshake, acknowledged, loses an item. -/
def LosesIn (K : Custody) (m : Ctx) (w w' : World) : Prop :=
  ∃ x, Proposes m x ∧ w.slots.equipPending ≠ .str x ∧ w.Answered w' x ∧
    (Overwrites K w.slots x ∨ Strands w w' x)

/-- A handshake that loses an item. -/
def Loses (s : World × Custody) (op : Op) : Prop :=
  ∃ m, op.parentCtx? = some m ∧ LosesIn s.2 m s.1 (op.run.run s.1).2

/-- Nothing is lost while the hand is empty and nothing is to be dropped. -/
theorem not_loses_of_empty {s : World × Custody} (hh : s.1.slots.held = none)
    (hd : s.1.slots.dropPending = []) : ¬ Loses s op := by
  rintro ⟨m, _, x, _, _, _, ⟨_, _, h, hh', _⟩ | ⟨hmark, _⟩⟩
  · cases hh.symm.trans hh'
  · rw [Slots.awaitsDrop, hd] at hmark
    cases hmark

/-- What a handshake leaves of the custody: each item is in a slot or was released, and
    so is what was acknowledged, unless an item was lost. -/
structure Handed (K : Custody) (m : Ctx) (w w' : World) : Prop where
  le : w ≤ w'
  item : ∀ x, K x = true → w'.slots.Tracks x ∨ w.Freed w' x ∨
    (parentOf m ≠ .str Host.did ∧ actorOf m = .str x) ∨ LosesIn K m w w'
  answered : ∀ x, Proposes m x → w.Answered w' x →
    Host.isActor x = true ∧ (w'.slots.Tracks x ∨ w.Freed w' x ∨ LosesIn K m w w')

omit [Host] in
theorem World.answered_display (h : w ≤ w') (text : String) :
    w.Answered (w'.push (.display text)) x ↔ w.Answered w' x := by
  simp [Answered, effects_push_of_le h, Effect.accepts]

omit [Host] in
theorem World.freed_display (h : w ≤ w') (text : String) :
    w.Freed (w'.push (.display text)) x ↔ w.Freed w' x := by
  simp [Freed, effects_push_of_le h, Effect.releases]

/-- The text of an error changes nothing of it. -/
theorem Handed.display (h : Handed K m w w') (text : String) :
    Handed K m w (w'.push (.display text)) := by
  have hloses : LosesIn K m w (w'.push (.display text)) ↔ LosesIn K m w w' := by
    simp only [LosesIn, Strands, World.answered_display h.le, World.freed_display h.le]
  refine ⟨h.le.trans (World.le_push _ _), ?_, ?_⟩
  · intro x hx
    rw [hloses, World.freed_display h.le]
    exact h.item x hx
  · intro x hx
    rw [hloses, World.freed_display h.le, World.answered_display h.le]
    exact h.answered x hx

omit [Host] in
theorem Unanswered.not_answered (h : Unanswered m (w.effects w')) : ¬ w.Answered w' x := by
  rintro ⟨e, he, hx⟩
  rcases h with h | ⟨y, e', h⟩ <;> rw [h] at he
  · cases he
  · cases List.mem_singleton.1 he
    cases hx

omit [Host] in
theorem World.Acked.answered (h : w.Acked w' m x) : w.Answered w' x := by
  obtain ⟨v, hv⟩ := h
  exact ⟨_, by rw [hv]; exact List.mem_cons_self, by simp [Effect.accepts]⟩

omit [Host] in
theorem World.Acked.not_freed (h : w.Acked w' m x) {y : String} : ¬ w.Freed w' y := by
  obtain ⟨v, hv⟩ := h
  simp [World.Freed, hv, Effect.releases]

theorem Proposes.eq {y : String} (hx : Proposes m x) (hy : Proposes m y) : x = y :=
  SchemeVal.str.inj (hx.2.symm.trans hy.2)

/-- Dropping `x` does not lose another item. -/
theorem World.Dropped.tracks (hd : w.Dropped (.str x) w') {z : String} (ht : w.slots.Tracks z)
    (hz : Host.isActor z = true) (hzx : z ≠ x) : w'.slots.Tracks z := by
  have hne : (.str x : SchemeVal) ≠ .str z := fun h => hzx (SchemeVal.str.inj h).symm
  rcases hd with ⟨hs, _⟩ | ⟨_, hs⟩
  · rw [hs]
    exact ht.forget hz hne
  · rw [hs]
    split
    · next hinv =>
      refine ht.imp_right fun hi => ?_
      exact absurd (hinv.trans (Slots.myInv_of_isActor hi hz)) hne
    · exact ht

theorem World.Dropped.freed (hd : w.Dropped (.str x) w') (hx : Host.isActor x = true)
    (hle : w₀ ≤ w) (hle' : w ≤ w') (hr : w.slots.room = w₀.slots.room) : w₀.Freed w' x := by
  rcases hd with ⟨_, hu⟩ | ⟨ha, _⟩
  · exact hu.freed hx hle hle'
  · exact ha.freed hle hle' hr

theorem Handshake.handed (hd : w.slots.Disciplined) (hg : Guarded K w.slots) (hle : w ≤ w')
    (hh : Handshake m w w') : Handed K m w w' := by
  refine ⟨hle, fun z hz => ?_, fun y hy hans => ?_⟩
  -- What was tracked before: the slot it was in, and what the handshake does to that slot.
  · obtain ⟨hact, ht⟩ := hg z hz
    cases hh with
    | idle hs => exact .inl (by rwa [hs])
    | booked x hs _ _ hp =>
      refine .inl ?_
      rw [hs]
      by_cases hzx : z = x
      · exact .inr (by rw [hzx])
      rcases ht with ⟨item, hi, rfl⟩ | hi
      · have hne : (.str item.actor : SchemeVal) ≠ .str x := fun h => hzx (SchemeVal.str.inj h)
        exact .inl ⟨item, Slots.held_release_of_ne hi hne, rfl⟩
      · -- Nothing is equipped while a container is being equipped.
        have hinv := hd.booking (by rw [hp]; exact nofun)
        cases hinv.symm.trans (Slots.myInv_of_isActor hi hact)
    | unmarked x hs => exact .inl (by rwa [hs])
    | dropped x w₁ hs₁ ho hle₁ hle₂ _ _ hx =>
      have ht₁ : w₁.slots.Tracks z := by rwa [hs₁]
      rcases ho with ho | ho
      · by_cases hzx : z = x
        · subst hzx
          exact .inr (.inl (ho.freed hx hle₁ hle₂ (by rw [hs₁])))
        · exact .inl (ho.tracks ht₁ hact hzx)
      · exact .inl (by rwa [ho])
    | refreshed x hs => exact .inl (by rwa [hs])
    | held x item hs hx _ hitem _ hinv hack hp hmark =>
      rw [hs]
      rcases ht with ⟨old, hi, rfl⟩ | hi
      · by_cases hzx : old.actor = x
        · exact .inl (.inl ⟨item, rfl, hitem.trans hzx.symm⟩)
        · refine .inr (.inr (.inr ⟨x, hx, hp, hack.answered, .inl ⟨hmark, hinv, old, hi, hzx, hz⟩⟩))
      · exact .inl (.inr hi)
    | released x hs hholds hactor hparent =>
      rw [hs]
      rcases ht with ⟨item, hi, rfl⟩ | hi
      · obtain ⟨item', hi', hx⟩ := Slots.holds_iff.1 hholds
        obtain rfl := Option.some.inj (hi.symm.trans hi')
        exact .inr (.inr (.inl ⟨hparent, by rw [hactor, hx]⟩))
      · exact .inl (.inr hi)
  -- What the handshake accepts: only the item that proposed itself is answered.
  · cases hh with
    | idle _ he => exact absurd hans he.not_answered
    | booked x hs hx hact =>
      obtain rfl := hy.eq hx
      exact ⟨hact, .inl (.inr (by rw [hs]))⟩
    | unmarked x _ _ _ _ he => exact absurd hans he.not_answered
    | dropped x w₁ hs₁ ho hle₁ hle₂ _ hx hact _ hp hmark =>
      obtain rfl := hy.eq hx
      refine ⟨hact, ?_⟩
      rcases ho with ho | ho
      · exact .inr (.inl (ho.freed hact hle₁ hle₂ (by rw [hs₁])))
      · by_cases ht : w.slots.Tracks y
        · exact .inl (by rwa [ho, hs₁])
        by_cases hf : w.Freed w' y
        · exact .inr (.inl hf)
        · exact .inr (.inr ⟨y, hx, hp, hans, .inr ⟨hmark, ht, hf⟩⟩)
    | refreshed x hs hx hact hinv =>
      obtain rfl := hy.eq hx
      refine ⟨hact, .inl (.inr ?_)⟩
      rw [hs]
      rcases w.slots.myInv_cases with hn | ⟨z, hz, hz'⟩
      · cases hn.symm.trans hinv
      · rw [← hinv, hz']
        exact hz
    | held x item hs hx hact hitem =>
      obtain rfl := hy.eq hx
      exact ⟨hact, .inl (.inl ⟨item, by rw [hs], hitem⟩)⟩
    | released x _ _ _ hparent => exact absurd hy.1 hparent

/-- A handshake that loses an item leaves it in custody, and in no slot. -/
theorem Handshake.lost (hd : w.slots.Disciplined) (hg : Guarded K w.slots)
    (hh : Handshake m w w') (hl : LosesIn K m w w') :
    ∃ x, (K x = true ∨ Proposes m x ∧ w.Answered w' x) ∧ ¬ w.Freed w' x ∧ ¬ w'.slots.Tracks x := by
  obtain ⟨x, hx, hp, hans, hl⟩ := hl
  cases hh with
  | idle _ he => exact absurd hans he.not_answered
  | booked y _ hy _ hp' => exact absurd (hx.eq hy ▸ hp') hp
  | unmarked y _ _ _ _ he => exact absurd hans he.not_answered
  | dropped y w₁ hs₁ ho hle₁ hle₂ _ hy hact _ _ hmark =>
    obtain rfl := hx.eq hy
    rcases hl with ⟨hmark', _⟩ | ⟨_, ht, hf⟩
    · exact absurd hmark hmark'
    refine ⟨x, .inr ⟨hx, hans⟩, hf, ?_⟩
    rcases ho with ho | ho
    · exact absurd (ho.freed hact hle₁ hle₂ (by rw [hs₁])) hf
    · rwa [ho, hs₁]
  | refreshed y _ hy _ hinv _ _ hmark =>
    obtain rfl := hx.eq hy
    rcases hl with ⟨_, hinv', _⟩ | ⟨hmark', _⟩
    · exact absurd hinv hinv'
    · exact absurd hmark' hmark
  | held y item hs hy _ hitem _ _ hack _ hmark =>
    obtain rfl := hx.eq hy
    rcases hl with ⟨_, _, old, hi, hne, hold⟩ | ⟨hmark', _⟩
    -- the item that was in the hand before is neither freed nor kept
    · refine ⟨old.actor, .inl hold, hack.not_freed, ?_⟩
      rw [hs]
      rintro (⟨item', hi', ho⟩ | hinv)
      · obtain rfl := Option.some.inj hi'
        exact hne (ho.symm.trans hitem)
      · exact hd.hand old hi (Slots.myInv_of_isActor hinv (hg _ hold).1).symm
    · exact absurd hmark' hmark
  | released _ _ _ _ hparent => exact absurd hx.1 hparent

/-! ## Runs -/

/-- What is in custody after an operation was in custody before or answered an
    acknowledgement, and was not released. -/
theorem Custody.after_iff : K.after w op x = true ↔
    (K x = true ∨ op.proposes x = true ∧ w.Answered (op.run.run w).2 x) ∧
      ¬ (op.disowns x = true ∨ w.Freed (op.run.run w).2 x) := by
  simp [Custody.after, World.Answered, World.Freed]

/-- What holds of the avatar and its custody. -/
structure InCustody (s : World × Custody) : Prop where
  disciplined : s.1.slots.Disciplined
  entry : s.1.slots.EntryNames
  guarded : Guarded s.2 s.1.slots

/-- An operation that loses no item keeps each item of the custody in a slot. -/
theorem InCustody.step {s : World × Custody} (h : InCustody s) (hl : ¬ Loses s op) :
    InCustody ((op.run.run s.1).2, s.2.after s.1 op) := by
  refine ⟨op.run_disciplined h.disciplined, op.run_entryNames h.disciplined h.entry, ?_⟩
  intro x hx
  obtain ⟨hx, hfree⟩ := Custody.after_iff.1 hx
  obtain ⟨hdis, hfree⟩ := not_or.1 hfree
  -- a step without a proposal, and the delivery of one
  rcases hm : op.parentCtx? with _ | m
  · rcases hx with hx | ⟨hx, _⟩
    · refine ⟨(h.guarded x hx).1, ?_⟩
      exact (Op.run_kept hm h.disciplined h.entry h.guarded hx).resolve_right hfree
    · rw [Op.proposes, hm] at hx
      cases hx
  · have hend : Handed s.2 m s.1 (op.run.run s.1).2 :=
      Op.parentEvent_end hm h.disciplined.booking (fun _ text h => h.display text)
        fun _ hle hh => hh.handed h.disciplined h.guarded hle
    have hlost : ¬ LosesIn s.2 m s.1 (op.run.run s.1).2 := fun hlost => hl ⟨m, hm, hlost⟩
    rcases hx with hx | ⟨hx, hans⟩
    · refine ⟨(h.guarded x hx).1, ?_⟩
      rcases hend.item x hx with ht | hf | hp | hlost'
      · exact ht
      · exact absurd hf hfree
      · refine absurd ?_ hdis
        rw [Op.disowns, hm]
        exact decide_eq_true hp
      · exact absurd hlost' hlost
    · rw [Op.proposes, hm] at hx
      obtain ⟨hact, ht⟩ := hend.answered x (of_decide_eq_true hx) hans
      refine ⟨hact, ?_⟩
      rcases ht with ht | hf | hlost'
      · exact ht
      · exact absurd hf hfree
      · exact absurd hlost' hlost

/-- An operation that loses an item leaves it in custody, and in no slot. -/
theorem InCustody.lost {s : World × Custody} (h : InCustody s) (hl : Loses s op) :
    ∃ x, s.2.after s.1 op x = true ∧ ¬ (op.run.run s.1).2.slots.Tracks x := by
  obtain ⟨m, hm, hl⟩ := hl
  have hend : s.1 ≤ (op.run.run s.1).2 ∧ (LosesIn s.2 m s.1 (op.run.run s.1).2 →
      ∃ x, (s.2 x = true ∨ Proposes m x ∧ s.1.Answered (op.run.run s.1).2 x) ∧
        ¬ s.1.Freed (op.run.run s.1).2 x ∧ ¬ (op.run.run s.1).2.slots.Tracks x) := by
    -- showing an error changes neither the trace of calls nor the slots
    refine Op.parentEvent_end (P := fun w => s.1 ≤ w ∧ (LosesIn s.2 m s.1 w →
      ∃ x, (s.2 x = true ∨ Proposes m x ∧ s.1.Answered w x) ∧
        ¬ s.1.Freed w x ∧ ¬ w.slots.Tracks x)) hm h.disciplined.booking ?_ ?_
    · rintro w text ⟨hle, hw⟩
      refine ⟨hle.trans (World.le_push _ _), ?_⟩
      simpa only [LosesIn, Strands, World.answered_display hle, World.freed_display hle,
        World.push_slots] using hw
    · exact fun w hle hh => ⟨hle, hh.lost h.disciplined h.guarded⟩
  obtain ⟨x, hx, hf, ht⟩ := hend.2 hl
  have hprop : ∀ y, op.proposes y = true ↔ Proposes m y := fun y => by
    rw [Op.proposes, hm]
    exact decide_eq_true_iff
  refine ⟨x, Custody.after_iff.2 ⟨?_, ?_⟩, ht⟩
  · rwa [hprop]
  · obtain ⟨y, hy, _⟩ := hl
    rintro (hdis | hf')
    · rw [Op.disowns, hm] at hdis
      exact (of_decide_eq_true hdis).1 hy.1
    · exact hf hf'

/-- In every run in which no handshake loses an item, each actor in the custody of the
    avatar is tracked by one of its slots; and a handshake that loses an item leaves one
    that is not. -/
theorem custody_tracked {s : World × Custody}
    (hs : (custodian Slots.Fresh).ReachableVia (fun s op => ¬ Loses s op) s) :
    (∀ x, s.2 x = true → s.1.slots.Tracks x) ∧
      ∀ op, Loses s op →
        ∃ x, s.2.after s.1 op x = true ∧ ¬ (op.run.run s.1).2.slots.Tracks x := by
  have h : InCustody s := by
    refine hs.invariant (I := InCustody) ?_ ?_
    · rintro ⟨w, K⟩ ⟨hw, hK⟩
      have hn := entryNames_of_reachable (.init hw)
      refine ⟨hn.1, hn.2, fun x hx => ?_⟩
      have hfalse : K x = false := congrFun hK x
      cases hfalse.symm.trans hx
    · intro s op s' h hl hs'
      obtain rfl := Option.some.inj hs'
      exact h.step hl
  exact ⟨fun x hx => (h.guarded x hx).2, fun _ hl => h.lost hl⟩

omit [Host] in
/-- An item is taken, and proposes itself to an empty hand. -/
theorem custody_tracked_take :
    let _ : Host := scripted "did:ma:me" fun _ _ _ => .ok .nil
    let coin : Ctx := [("actor", "did:ma:coin"), ("parent", "did:ma:me")]
    ∃ s, (custodian Slots.Fresh).exec (World.entered "did:ma:room", fun _ => false)
        [.command .take ["did:ma:coin"], .event ":parent" (.list [.map coin])] = some s ∧
      s.2 "did:ma:coin" = true ∧ s.1.slots.Tracks "did:ma:coin" := by
  intro _ coin
  have h₀ : (custodian Slots.Fresh).ReachableVia (fun s op => ¬ Loses s op)
      (World.entered "did:ma:room", fun _ => false) := .init ⟨⟨rfl, rfl, rfl, rfl⟩, rfl⟩
  have h₁ := h₀.step (a := .command .take ["did:ma:coin"]) (not_loses_of_empty rfl rfl) rfl
  have h₂ := h₁.step (a := .event ":parent" (.list [.map coin])) (not_loses_of_empty rfl rfl) rfl
  exact ⟨_, rfl, rfl, (custody_tracked h₂).1 _ rfl⟩

omit [Host] in
/-- Two items are taken before the first one proposes itself: the second replaces it in
    the hand. -/
theorem not_custody_tracked :
    let _ : Host := scripted "did:ma:me" fun _ _ _ => .ok .nil
    let coin : Ctx := [("actor", "did:ma:coin"), ("parent", "did:ma:me")]
    let lamp : Ctx := [("actor", "did:ma:lamp"), ("parent", "did:ma:me")]
    ∃ s, (custodian Slots.Fresh).init (World.entered "did:ma:room", fun _ => false) ∧
      (custodian Slots.Fresh).exec (World.entered "did:ma:room", fun _ => false)
        [.command .take ["did:ma:coin"], .command .take ["did:ma:lamp"],
          .event ":parent" (.list [.map coin]), .event ":parent" (.list [.map lamp])] = some s ∧
      s.2 "did:ma:coin" = true ∧ ¬ s.1.slots.Tracks "did:ma:coin" := by
  intro _ coin lamp
  refine ⟨_, ⟨⟨rfl, rfl, rfl, rfl⟩, rfl⟩, rfl, ?_, ?_⟩
  · decide +kernel
  · decide +kernel

end Avatar

end Zscheme
