import Zscheme.Avatar.Inventory

/-!
# The hand is emptied on evidence

A relocation asks; it does not empty the hand. What does is a sign that the item is
elsewhere: another parent, its place in the inventory slot, or the word of the runtime
that there is no such actor. The sign is about the held item, or about what took its place
in the hand in the same operation: `equip` drops the held item to the room, takes the old
container to the hand, and drops that one too.

* `hand_emptied`: what an operation has seen when it leaves the hand empty.
-/

namespace Zscheme

namespace Avatar

open Prim Zscheme.Runtime Program

variable [Host] {w₀ w w' : World} {x y : String} {m : Ctx} {op : Op}

omit [Host] in
theorem Slots.inHand_iff {s : Slots} : s.InHand x ↔ s.held.any (·.actor = x) = true := by
  simp only [Slots.InHand]
  rcases s.held with _ | h <;> simp

instance (s : Slots) (x : String) : Decidable (s.InHand x) := decidable_of_iff _ s.inHand_iff.symm

/-! ## Evidence -/

/-- The container that was equipped took the place of `x` in the hand, when `x` had agreed
    to be moved; then the runtime did not know it. -/
def World.Succeeded (w w' : World) (x : String) : Prop :=
  ∃ y w₁, w.slots.myInv = .str y ∧ w ≤ w₁ ∧ w₁ ≤ w' ∧ w.Moved w₁ (.str x) ∧
    w₁.slots.InHand y ∧ w₁.Unknown w' (.str y)

/-- `x` was asked to move, and the answer was that there is no such actor. -/
def Effect.denies (x : String) : Effect → Bool
  | .call y method _ (.error e) => y = x ∧ method = "set-parent" ∧ unknownFragmentError? e
  | _ => false

theorem not_unknown (hx : Host.isActor x = true)
    (h : ((w.effects w').any fun e => e.denies x) = false) : ¬ w.Unknown w' (.str x) := by
  intro hu
  obtain ⟨r, e, he, hmem⟩ := hu.answered_error hx
  have hdenies : Effect.denies x (.call x "set-parent" [r] (.error e)) = true := by
    simp [Effect.denies, he]
  rw [List.any_eq_false] at h
  exact h _ hmem hdenies

theorem World.Succeeded.later (h : w₀.Succeeded w x) (hle : w ≤ w') : w₀.Succeeded w' x := by
  obtain ⟨y, w₁, hy, hle₁, hle₂, ha, hh, hu⟩ := h
  exact ⟨y, w₁, hy, hle₁, hle₂.trans hle, ha, hh, hu.later hle₂ hle⟩

/-- What became of a held item `x` since `w₀`, within an operation that is no handshake. -/
inductive Grasp (x : String) (w₀ w : World) : Prop
  /-- It is in the hand. -/
  | kept (hand : w.slots.InHand x)
      (inv : w.slots.myInv = w₀.slots.myInv ∨ w.slots.myInv = .bool false)
  /-- It agreed to be moved, and the container that was equipped is in the hand. -/
  | replaced (y : String) (equipped : w₀.slots.myInv = .str y) (hand : w.slots.InHand y)
      (inv : w.slots.myInv = .bool false) (moved : w₀.Moved w (.str x))
  /-- There is evidence. -/
  | gone (evidence : w₀.Unknown w (.str x) ∨ w₀.Succeeded w x)

/-- A state of an operation that started in `w₀` with `x` in the hand. -/
structure Grasped (x : String) (w₀ w : World) : Prop where
  le : w₀ ≤ w
  entry : w.slots.EntryNames
  grasp : Grasp x w₀ w

/-! ## Steps -/

theorem Slots.InHand.forget {s : Slots} (h : s.InHand y) {t : SchemeVal} (ht : t ≠ .str y) :
    (s.forget t).InHand y := by
  obtain ⟨item, hi, rfl⟩ := h
  refine ⟨item, ?_, rfl⟩
  simp only [Slots.forget, Slots.unbook]
  split <;> exact Slots.held_release_of_ne hi (Ne.symm ht)

/-- A step that unequips nothing leaves what is in the hand there, or it is evidence. -/
theorem Grasped.later (h : Grasped x w₀ w) (hle : w ≤ w') (he : w'.slots.EntryNames)
    (hinv : w'.slots.myInv = w.slots.myInv ∨ w'.slots.myInv = .bool false)
    (hhand : ∀ z, w.slots.InHand z → w'.slots.InHand z ∨ w.Unknown w' (.str z)) :
    Grasped x w₀ w' := by
  refine ⟨h.le.trans hle, he, ?_⟩
  cases h.grasp with
  | kept hand inv =>
    rcases hhand x hand with hand | hu
    · refine .kept hand ?_
      rcases hinv with hinv | hinv
      · rwa [hinv]
      · exact .inr hinv
    · exact .gone (.inl (hu.earlier h.le hle))
  | replaced y equipped hand inv moved =>
    rcases hhand y hand with hand' | hu
    · exact .replaced y equipped hand' (hinv.elim (·.trans inv) id) (moved.later h.le hle)
    · exact .gone (.inr ⟨y, w, equipped, h.le, hle, moved, hand, hu⟩)
  | gone evidence => exact .gone (evidence.imp (·.later h.le hle) (·.later hle))

/-- The equipped container goes to a hand from which the held item was dropped. -/
theorem Grasped.unequip {w₁ w₂ : World} {ctx : Ctx} (hx : w₀.slots.myInv ≠ .str x)
    (h : Grasped x w₀ w) (hle : w ≤ w₁) (hle' : w₁ ≤ w₂) (hf : w.HandFreed w₁)
    (ht : w.slots.myInv.truthy) (hc : w₁.slots.InventoryCtx w.slots.myInv ctx)
    (hs : w₂.slots = w₁.slots.unequip ctx) : Grasped x w₀ w₂ := by
  have he₁ := entryNames_stable.handFreed hle hf h.entry
  refine ⟨h.le.trans (hle.trans hle'), entryNames_stable.unequip hle hle' hf ht hc hs h.entry, ?_⟩
  cases h.grasp with
  | kept hand inv =>
    -- the equipped container is the one from before, as none was equipped since
    have hinv : w.slots.myInv = w₀.slots.myInv := by
      rcases inv with hinv | hinv
      · exact hinv
      · rw [hinv] at ht
        cases ht
    obtain ⟨item, hi, rfl⟩ := hand
    rcases hf with ⟨_, hall⟩ | ⟨item', ok, hi', _, hrel⟩
    · exact absurd (hinv.symm.trans (hall item hi).symm) hx
    obtain rfl := Option.some.inj (hi.symm.trans hi')
    -- the hand was freed of `x`: forgotten on an error, or moved to the room
    rcases ok
    · exact .gone (.inl ((hrel.2.earlier h.le hle).later (h.le.trans hle) hle'))
    obtain ⟨hs₁, hacc⟩ := hrel
    rcases w.slots.myInv_cases with hn | ⟨y, _, hy⟩
    · rw [hn] at ht
      cases ht
    have hy₁ : w₁.slots.myInv = .str y := by rw [hs₁, hy]
    rw [hy] at hc
    refine .replaced y (hinv.symm.trans hy) ?_ ?_ ?_
    · rw [hs]
      exact Slots.unequip_inHand he₁ hy₁ hc
    · rw [hs]
      exact Slots.myInv_of_inv_none rfl
    · exact (hacc.moved h.le hle).later (h.le.trans hle) hle'
  | replaced y equipped hand inv moved =>
    rw [inv] at ht
    cases ht
  | gone evidence =>
    have hle₂ := hle.trans hle'
    exact .gone (evidence.imp (·.later h.le hle₂) (·.later hle₂))

theorem grasped_stable (hx : w₀.slots.myInv ≠ .str x) : Stable (Grasped x w₀) where
  view {w _} hle hs h := by
    refine h.later hle (hs ▸ h.entry) (.inl (by rw [hs])) fun z hz => .inl ?_
    rwa [hs]
  lost {w _ t} hle hs hu h := by
    refine h.later hle (entryNames_stable.lost hle hs hu h.entry) ?_ fun z hz => ?_
    · rw [hs]
      exact w.slots.myInv_forget t
    · by_cases ht : t = .str z
      · exact .inr (ht ▸ hu)
      · exact .inl (hs ▸ hz.forget ht)
  unequip hle hle' hf ht hc hs h := h.unequip hx hle hle' hf ht hc hs

theorem grasped_unbookable : Unbookable (Grasped x w₀) := by
  intro w w' hle hs ha h
  refine h.later hle (entryNames_unbookable _ _ hle hs ha h.entry) (.inr ?_) fun z hz => .inl ?_
  · exact Slots.myInv_of_inv_none (by rw [hs])
  · rwa [hs]

theorem grasped_admits (hx : w₀.slots.myInv ≠ .str x) (op : Op) : Admits (Grasped x w₀) op where
  disarm _ w h := h.later (le_refl w.focus) h.entry (.inl rfl) fun _ => .inl
  book _ := (grasped_stable hx).equipPropose_keeps
    (fun w h => h.later (le_refl w.focus) h.entry (.inl rfl) fun _ => .inl)
    @fun w _ h => h.later (le_refl w.focus) h.entry (.inl rfl) fun _ => .inl
  mark _ w _ h := h.later (le_refl w.focus) h.entry (.inl rfl) fun _ => .inl
  unbook _ := grasped_unbookable
  enter _ w _ _ h := h.later (le_refl w.focus) h.entry (.inl rfl) fun _ => .inl

/-! ## Handshakes -/

/-- The handshake tells where `x` is: it has another parent, or it was booked. -/
def Accounts (m : Ctx) (x : String) (w' : World) : Prop :=
  (actorOf m = .str x ∧ parentOf m ≠ .str Host.did) ∨
    (Proposes m x ∧ w'.slots.inv = some (.str x))

omit [Host] in
/-- Only the actor that is forgotten leaves the hand. -/
theorem Slots.eq_of_release {s : Slots} (h : s.InHand x) {t : SchemeVal}
    (hn : (s.release t).held = none) : t = .str x := by
  obtain ⟨item, hi, rfl⟩ := h
  by_contra hne
  cases hn.symm.trans (Slots.held_release_of_ne hi (Ne.symm hne))

theorem Slots.eq_of_forget {s : Slots} (h : s.InHand x) {t : SchemeVal}
    (hn : (s.forget t).held = none) : t = .str x := by
  by_contra hne
  obtain ⟨item, hi, _⟩ := h.forget hne
  cases hn.symm.trans hi

/-- A handshake that leaves the hand empty accounts for what was in it, or drops it in
    vain. -/
theorem Handshake.emptied (hx : w.slots.InHand x) (hh : Handshake m w w')
    (hn : w'.slots.held = none) : Accounts m x w' ∨ w.Unknown w' (.str x) := by
  have hheld : w.slots.held ≠ none := by
    obtain ⟨item, hi, _⟩ := hx
    rw [hi]
    exact nofun
  cases hh with
  | idle hs | unmarked _ hs | refreshed _ hs =>
    rw [hs] at hn
    exact absurd hn hheld
  | booked y hs hy =>
    rw [hs] at hn
    -- booking an item takes only this item from the hand
    have hxy := Slots.eq_of_release (s := { w.slots with equipPending := .bool false }) hx hn
    obtain rfl := SchemeVal.str.inj hxy
    exact .inl (.inr ⟨hy, by rw [hs]⟩)
  | dropped y w₁ hs₁ hd hle₁ hle₂ =>
    have hx₁ : w₁.slots.InHand x := by rwa [hs₁]
    have hheld₁ : w₁.slots.held ≠ none := by rwa [hs₁]
    -- a drop that was refused keeps the hand, unless the actor was not known
    rcases hd with (⟨hs, hu⟩ | ⟨_, hs⟩) | hs
    · rw [hs] at hn
      obtain rfl := SchemeVal.str.inj (Slots.eq_of_forget hx₁ hn)
      exact .inr (hu.earlier hle₁ hle₂)
    · rw [hs] at hn
      split at hn <;> exact absurd hn hheld₁
    · rw [hs] at hn
      exact absurd hn hheld₁
  | held y h hs =>
    rw [hs] at hn
    cases hn
  | released y hs hholds hactor hparent =>
    obtain ⟨item, hi, rfl⟩ := hx
    obtain ⟨item', hi', hy⟩ := Slots.holds_iff.1 hholds
    obtain rfl := Option.some.inj (hi.symm.trans hi')
    exact .inl (.inl ⟨hactor.trans hy.symm, hparent⟩)

/-! ## Runs -/

/-- In every run, when an operation leaves the hand empty that held `x`, it was a
    `:parent` event that names another parent of `x`, or proposes `x`, which is then
    booked; or a request to move `x` was answered that there is no such actor, or a request
    to move the container that had taken the place of `x` in the hand was. -/
theorem hand_emptied (hw : (avatar Slots.Fresh).Reachable w) (hx : w.slots.InHand x)
    (hn : (op.run.run w).2.slots.held = none) :
    (∃ m, op.parentCtx? = some m ∧ Accounts m x (op.run.run w).2) ∨
      w.Unknown (op.run.run w).2 (.str x) ∨ w.Succeeded (op.run.run w).2 x := by
  obtain ⟨hd, he⟩ := entryNames_of_reachable hw
  rcases hm : op.parentCtx? with _ | m
  -- a command, or an event that is no handshake
  · have hinv : w.slots.myInv ≠ .str x := by
      obtain ⟨item, hi, rfl⟩ := hx
      exact Ne.symm (hd.hand item hi)
    have hend : Grasped x w (op.run.run w).2 := by
      refine Op.run_end (grasped_stable hinv) (grasped_admits hinv op) hd.booking ?_ ?_
      · exact fun m _ ho => nomatch hm.symm.trans ho
      · exact ⟨le_rfl, he, .kept hx (.inl rfl)⟩
    have hheld : ∀ {z}, ¬ (op.run.run w).2.slots.InHand z := by
      rintro z ⟨item, hi, _⟩
      cases hn.symm.trans hi
    cases hend.grasp with
    | kept hand => exact absurd hand hheld
    | replaced y _ hand => exact absurd hand hheld
    | gone evidence => exact .inr evidence
  -- a `:parent` event: the cases of the handshake
  · have hend := Op.parentEvent_end (P := fun w' => w ≤ w' ∧
      (w'.slots.held = none → Accounts m x w' ∨ w.Unknown w' (.str x))) hm hd.booking
      (fun w' text ⟨hle, h⟩ => ⟨hle.trans (World.le_push _ _), fun hn =>
        (h hn).imp_right fun hu => hu.later hle (World.le_push _ _)⟩)
      fun w' hle hh => ⟨hle, hh.emptied hx⟩
    exact (hend.2 hn).imp (fun ha => ⟨m, rfl, ha⟩) .inl

omit [Host] in
/-- The held coin is dropped, and the runtime does not know it. -/
theorem hand_emptied_drop :
    let _ : Host := scripted "did:ma:me" fun _ method _ =>
      if method = "set-parent" then .error "unknown entity fragment: coin" else .ok .nil
    let coin : Ctx := [("actor", "did:ma:coin"), ("parent", "did:ma:me")]
    let w := (World.entered "did:ma:room").after
      [.command .take ["did:ma:coin"], .event ":parent" (.list [.map coin])]
    let op : Op := .command .drop []
    w.slots.InHand "did:ma:coin" ∧ (op.run.run w).2.slots.held = none ∧
      ((∃ m, op.parentCtx? = some m ∧ Accounts m "did:ma:coin" (op.run.run w).2) ∨
        w.Unknown (op.run.run w).2 (.str "did:ma:coin") ∨
        w.Succeeded (op.run.run w).2 "did:ma:coin") := by
  intro _ coin w op
  have hw : (avatar Slots.Fresh).Reachable w :=
    System.reachable_of_exec ⟨rfl, rfl, rfl, rfl⟩ (exec_avatar _ _ _)
  have hx : w.slots.InHand "did:ma:coin" := by decide +kernel
  have hn : (op.run.run w).2.slots.held = none := Option.isNone_iff_eq_none.1 (by decide +kernel)
  exact ⟨hx, hn, hand_emptied hw hx hn⟩

omit [Host] in
/-- While a chest is equipped and a coin is held, a sack is equipped: the chest takes the
    place of the coin in the hand, and the runtime does not know it. And a coin is held
    when a `:parent` event for it names no parent at all. -/
theorem not_hand_emptied :
    let _ : Host := scripted "did:ma:me" fun x method _ =>
      if x = "did:ma:chest" ∧ method = "set-parent" then .error "unknown entity fragment: chest"
      else .ok (if method = "kind?" then "/ma/container/0.0.1" else .nil)
    let start := World.entered "did:ma:room"
    let chest : Ctx := [("actor", "did:ma:chest"), ("parent", "did:ma:me")]
    let coin : Ctx := [("actor", "did:ma:coin"), ("parent", "did:ma:me")]
    let taken : List Op :=
      [.command .take ["did:ma:coin"], .event ":parent" (.list [.map coin])]
    let equipped : List Op :=
      [.command .equip ["did:ma:chest"], .event ":parent" (.list [.map chest])]
    (avatar Slots.Fresh).init start ∧
    (let w := start.after (equipped ++ taken)
      let op : Op := .command .equip ["did:ma:sack"]
      w.slots.InHand "did:ma:coin" ∧ (op.run.run w).2.slots.held = none ∧
        op.parentCtx? = none ∧ ¬ w.Unknown (op.run.run w).2 (.str "did:ma:coin")) ∧
    (let w := start.after taken
      let bare : Ctx := [("actor", "did:ma:coin")]
      let op : Op := .event ":parent" (.list [.map bare])
      w.slots.InHand "did:ma:coin" ∧ (op.run.run w).2.slots.held = none ∧
        Dict.get? bare "parent" = none ∧
        ¬ w.Unknown (op.run.run w).2 (.str "did:ma:coin")) := by
  intro _ start chest coin taken equipped
  refine ⟨⟨rfl, rfl, rfl, rfl⟩, ⟨by decide +kernel, ?_, rfl, ?_⟩, by decide +kernel, ?_, rfl, ?_⟩
  · exact Option.isNone_iff_eq_none.1 (by decide +kernel)
  · exact not_unknown (by decide +kernel) (by decide +kernel)
  · exact Option.isNone_iff_eq_none.1 (by decide +kernel)
  · exact not_unknown (by decide +kernel) (by decide +kernel)

end Avatar

end Zscheme
