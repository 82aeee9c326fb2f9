import Zscheme.Avatar.Discipline

/-!
# The cached ctx of the inventory

The ctx a container proposed itself with is cached beside its DID. In every reachable
state it names the DID, if the slot has one (`entryNames_of_reachable`), so that what
`unequip-to-hand!` puts in the hand is the equipped container. The cache outlives the
DID in one place: `drop-target-to-room!` empties the slot, and leaves the cache. While
no step drops the equipped container so, the two are set and cleared together
(`inventory_cached`).
-/

namespace Zscheme

namespace Avatar

open Prim Zscheme.Runtime Program

/-- The cached ctx names what is in the inventory slot, if there is something. -/
def Slots.EntryNames (s : Slots) : Prop :=
  ∀ ctx, s.invEntry = some ctx → ∀ v, s.inv = some v → v = ctxActor ctx

/-- A ctx is cached, and the inventory slot is empty. -/
def Slots.Stale (s : Slots) : Prop := s.invEntry ≠ none ∧ s.inv = none

/-- The cached ctx names what is in the inventory slot. -/
def Slots.Cached (s : Slots) : Prop := ∀ ctx, s.invEntry = some ctx → s.inv = some (ctxActor ctx)

theorem Slots.cached_iff (s : Slots) : s.Cached ↔ s.EntryNames ∧ ¬ s.Stale := by
  constructor
  · intro h
    refine ⟨fun ctx hc v hv => Option.some.inj (hv.symm.trans (h ctx hc)), fun ⟨hc, hn⟩ => ?_⟩
    obtain ⟨ctx, hc⟩ := Option.ne_none_iff_exists'.1 hc
    cases hn.symm.trans (h ctx hc)
  · intro ⟨h, hs⟩ ctx hc
    obtain ⟨v, hv⟩ := Option.ne_none_iff_exists'.1 fun hn => hs ⟨by rw [hc]; exact nofun, hn⟩
    rw [hv, h ctx hc v hv]

variable [Host] {w w' : World} {m : Ctx}

/-- Forgetting an actor empties the cache and the slot, or neither. -/
theorem Slots.forget_inventory (s : Slots) (t : SchemeVal) :
    ((s.forget t).invEntry = none ∧ (s.forget t).inv = none) ∨
      ((s.forget t).invEntry = s.invEntry ∧ (s.forget t).inv = s.inv) := by
  simp only [forget, unbook]
  split
  · exact .inl ⟨rfl, rfl⟩
  · refine .inr ?_
    simp only [release]
    split <;> exact ⟨rfl, rfl⟩

/-! ## What is cached names the container -/

theorem entryNames_stable : Stable fun w => w.slots.EntryNames where
  view _ hs h := by rwa [hs]
  lost {w _ t} _ hs _ h := by
    rw [hs]
    rcases w.slots.forget_inventory t with ⟨_, hn⟩ | ⟨he, hi⟩
    · intro _ _ v hv
      cases hn.symm.trans hv
    · intro ctx hctx v hv
      exact h ctx (he ▸ hctx) v (hi ▸ hv)
  unequip _ _ _ _ _ hs _ := by
    rw [hs]
    exact fun _ hctx => nomatch hctx

theorem entryNames_unbookable : Unbookable fun w => w.slots.EntryNames := by
  intro w w' _ hs _ _
  rw [hs]
  exact fun _ _ _ hv => nomatch hv

theorem Handshake.entryNames (hh : Handshake m w w') (h : w.slots.EntryNames) :
    w'.slots.EntryNames := by
  have hbooked : ∀ x, Proposes m x → Host.isActor x = true → ctxActor m = .str x :=
    fun x hx hact => ctxActor_eq hx.2 (ne_empty_of_isActor hact)
  cases hh with
  | booked x hs hx hact =>
    rw [hs]
    intro ctx hctx v hv
    obtain rfl := Option.some.inj hctx
    obtain rfl := Option.some.inj hv
    exact (hbooked x hx hact).symm
  | dropped x w₁ hs₁ hd _ hle =>
    have h₁ : w₁.slots.EntryNames := by rwa [hs₁]
    rcases hd with hd | hd
    · exact entryNames_stable.dropped entryNames_unbookable hle hd h₁
    · rwa [hd]
  | refreshed x hs hx hact hinv =>
    rw [hs]
    intro ctx hctx v hv
    obtain rfl := Option.some.inj hctx
    rcases w.slots.myInv_cases with hn | ⟨y, hy, hy'⟩
    · cases hn.symm.trans hinv
    · rw [hbooked x hx hact, ← hinv, hy']
      exact Option.some.inj (hv.symm.trans hy)
  | idle hs | unmarked _ hs | held _ _ hs | released _ hs => rwa [hs]

theorem entryNames_admits (op : Op) : Admits (fun w => w.slots.EntryNames) op where
  disarm _ _ h := h
  book _ := entryNames_stable.equipPropose_keeps (fun _ h => h) fun _ h => h
  mark _ _ _ h := h
  unbook _ := entryNames_unbookable
  enter _ _ _ _ h := h

/-- Every operation keeps the cache true to the slot, where the slots are disciplined. -/
theorem Op.run_entryNames (op : Op) (hd : w.slots.Disciplined) (h : w.slots.EntryNames) :
    (op.run.run w).2.slots.EntryNames :=
  Op.run_end entryNames_stable (entryNames_admits op) hd.booking
    (fun _ _ _ _ hh => hh.entryNames h) h

omit [Host] in
theorem Slots.Fresh.unarmed {s : Slots} (h : s.Fresh) : s.Unarmed := ⟨h.1, h.2.2.1⟩

/-- In every reachable state the slots are disciplined and the cache is true to the
    slot. -/
theorem entryNames_of_reachable (hw : (avatar Slots.Fresh).Reachable w) :
    w.slots.Disciplined ∧ w.slots.EntryNames := by
  refine hw.invariant (I := fun w => w.slots.Disciplined ∧ w.slots.EntryNames) ?_ ?_
  · intro w hw
    refine ⟨disciplined_of_reachable (.init (Slots.Fresh.unarmed hw)), fun ctx hctx => ?_⟩
    cases hw.2.1.symm.trans hctx
  · intro w op w' h _ hn
    obtain rfl := Option.some.inj hn
    exact ⟨op.run_disciplined h.1, op.run_entryNames h.1 h.2⟩

/-- The hand holds this actor. -/
def Slots.InHand (s : Slots) (x : String) : Prop := ∃ h, s.held = some h ∧ h.actor = x

theorem Slots.unequip_inHand {s : Slots} {x : String} {ctx : Ctx} (h : s.EntryNames)
    (hx : s.myInv = .str x) (hc : s.InventoryCtx (.str x) ctx) : (s.unequip ctx).InHand x := by
  have hactor : ctxActor ctx = .str x := by
    rcases hc with hc | ⟨_, hc⟩
    · rcases s.myInv_cases with hn | ⟨y, hy, hy'⟩
      · cases hn.symm.trans hx
      · rw [← h ctx hc _ hy, ← hy', hx]
    · exact hc
  obtain ⟨item, hof, _, hitem⟩ := Held.of?_eq hactor
  refine ⟨item, ?_, hitem⟩
  rw [Slots.unequip, hof]
  rfl

/-- What is unequipped is the equipped container. -/
theorem unequipToHand!_inHand {x : String} (h : w.slots.EntryNames)
    (hx : w.slots.myInv = .str x) :
    (unequipToHand! (.str x)).wp (fun _ w' => w'.slots.InHand x) (fun _ _ => False) w := by
  refine (unequipToHand!_spec _).conseq ?_ fun _ _ _ h => h
  rintro _ w' _ ⟨ctx, hctx, hs⟩
  rw [hs]
  exact Slots.unequip_inHand h hx hctx

/-! ## The cache and the slot -/

/-- An actor accepted to be moved. -/
def World.Moved (w w' : World) (t : SchemeVal) : Prop :=
  ∃ x args v, t = .str x ∧ .call x "set-parent" args (.ok v) ∈ w.effects w'

/-- The operations that drop what they find in the inventory slot: `drop`, and the
    proposal of an item that is to be dropped. -/
def Op.Drops : Op → Prop
  | .command c _ => c = .drop
  | .event e _ => e = ":parent"

omit [Host] in
theorem Op.drops_of_command {op : Op} (h : op.command? = some .drop) : op.Drops := by
  rcases op with _ | _
  · exact Option.some.inj h
  · cases h

/-- The equipped container, whose ctx is cached, was dropped. -/
def World.Unbooked (w : World) (op : Op) (w' : World) : Prop :=
  op.Drops ∧ w.slots.invEntry ≠ none ∧ w.Moved w' w.slots.myInv

/-- The operation drops the equipped container, whose ctx is cached. -/
def Unbooks (w : World) (op : Op) : Prop := w.Unbooked op (op.run.run w).2

section Step

variable {w₀ : World} {op : Op}

omit [Host] in
theorem World.Moved.later {t : SchemeVal} (h : w₀.Moved w t) (hle : w₀ ≤ w) (hle' : w ≤ w') :
    w₀.Moved w' t := by
  obtain ⟨x, args, v, ht, he⟩ := h
  exact ⟨x, args, v, ht, effects_left hle hle' he⟩

omit [Host] in
theorem World.Accepted.moved {t : SchemeVal} (h : w.Accepted w' t) (hle : w₀ ≤ w) (hle' : w ≤ w') :
    w₀.Moved w' t := by
  obtain ⟨x, r, v, ht, _, he⟩ := h
  exact ⟨x, [r], v, ht, effects_right hle hle' he⟩

omit [Host] in
/-- The cache and the slot are cleared together, or as they were. -/
theorem Slots.unstale_later {s s' : Slots} (h : ¬ s.Stale)
    (hs : (s'.invEntry = none ∧ s'.inv = none) ∨ (s'.invEntry = s.invEntry ∧ s'.inv = s.inv)) :
    ¬ s'.Stale := by
  intro ⟨hc, hn⟩
  rcases hs with ⟨he, _⟩ | ⟨he, hi⟩
  · exact hc he
  · exact h ⟨he ▸ hc, hi ▸ hn⟩

/-- Within an operation the cache and the slot stay together until the equipped
    container is dropped; `drop` finds in the slot what was there before. -/
def Together (w₀ : World) (op : Op) (w : World) : Prop :=
  w₀ ≤ w ∧ (w₀.Unbooked op w ∨
    ¬ w.slots.Stale ∧ (op.command? = some .drop →
      w.slots.invEntry = none ∨ w₀.slots.invEntry ≠ none ∧ w.slots.inv = w₀.slots.inv))

theorem Together.later (h : Together w₀ op w) (hle : w ≤ w')
    (hs : (w'.slots.invEntry = none ∧ w'.slots.inv = none) ∨
      (w'.slots.invEntry = w.slots.invEntry ∧ w'.slots.inv = w.slots.inv)) :
    Together w₀ op w' := by
  obtain ⟨hle₀, ⟨hop, hc, hm⟩ | ⟨hst, hd⟩⟩ := h
  · exact ⟨hle₀.trans hle, .inl ⟨hop, hc, hm.later hle₀ hle⟩⟩
  refine ⟨hle₀.trans hle, .inr ⟨Slots.unstale_later hst hs, fun hop => ?_⟩⟩
  rcases hs with ⟨he, _⟩ | ⟨he, hi⟩
  · exact .inl he
  · rw [he, hi]
    exact hd hop

theorem together_stable : Stable (Together w₀ op) where
  view hle hs h := h.later hle (.inr (by rw [hs]; exact ⟨rfl, rfl⟩))
  lost {w _ t} hle hs _ h := h.later hle (hs ▸ w.slots.forget_inventory t)
  unequip {w w₁ _ _} hle hle' _ _ _ hs h :=
    h.later (hle.trans hle') (.inl (by rw [hs]; exact ⟨rfl, rfl⟩))

theorem together_unbookable (hop : op.command? = some .drop) : Unbookable (Together w₀ op) := by
  intro w w' hle hs ha ⟨hle₀, h⟩
  refine ⟨hle₀.trans hle, ?_⟩
  rcases h with ⟨hdrop, hc, hm⟩ | ⟨_, hd⟩
  · exact .inl ⟨hdrop, hc, hm.later hle₀ hle⟩
  rcases hd hop with hn | ⟨hc, hi⟩
  · have hn' : w'.slots.invEntry = none := by rw [hs]; exact hn
    exact .inr ⟨fun hst => hst.1 hn', fun _ => .inl hn'⟩
  · have hinv : w.slots.myInv = w₀.slots.myInv := by
      simp only [Slots.myInv]
      rw [hi]
    exact .inl ⟨Op.drops_of_command hop, hc, hinv ▸ ha.moved hle₀ hle⟩

theorem together_admits (op : Op) : Admits (Together w₀ op) op where
  disarm _ _ h := h
  book _ := together_stable.equipPropose_keeps (fun _ h => h) fun _ h => h
  mark _ _ _ h := h
  unbook := together_unbookable
  enter _ _ _ _ h := h

/-- A handshake keeps the cache and the slot together, or drops the equipped
    container. -/
theorem Handshake.unstale (hop : op.Drops) (hh : Handshake m w w') (h : ¬ w.slots.Stale) :
    w.Unbooked op w' ∨ ¬ w'.slots.Stale := by
  cases hh with
  | booked x hs =>
    rw [hs]
    exact .inr fun hst => nomatch hst.2
  | dropped x w₁ hs₁ hd hle hle' =>
    have h₁ : ¬ w₁.slots.Stale := by rwa [hs₁]
    rcases hd with (⟨hs, _⟩ | ⟨ha, hs⟩) | hs
    · exact .inr (Slots.unstale_later h₁ (hs ▸ w₁.slots.forget_inventory _))
    · split at hs
      · next hx =>
        -- the slot is emptied: the cache is stale unless there was nothing in it
        by_cases hc : w.slots.invEntry = none
        · refine .inr fun hst => hst.1 ?_
          rw [hs, hs₁]
          exact hc
        · have hinv : w₁.slots.myInv = w.slots.myInv := by rw [hs₁]; rfl
          rw [hx, hinv] at ha
          exact .inl ⟨hop, hc, ha.moved hle hle'⟩
      · exact .inr (by rwa [hs])
    · exact .inr (by rwa [hs])
  | refreshed x hs _ _ hinv =>
    refine .inr fun hst => ?_
    have hn : w.slots.inv = none := by
      rw [hs] at hst
      exact hst.2
    cases (Slots.myInv_of_inv_none hn).symm.trans hinv
  | idle hs | unmarked _ hs | held _ _ hs | released _ hs =>
    rw [hs]
    exact .inr h

/-- An operation keeps the cache and the slot together, unless it drops the equipped
    container. -/
theorem Op.run_unstale (hd : w.slots.Disciplined) (h : ¬ w.slots.Stale) (hop : ¬ Unbooks w op) :
    ¬ (op.run.run w).2.slots.Stale := by
  have hend : Together w op (op.run.run w).2 := by
    refine Op.run_end together_stable (together_admits op) hd.booking ?_ ⟨le_rfl, .inr ⟨h, ?_⟩⟩
    · intro m w' hm hle hh
      obtain rfl := Op.parentCtx?_eq hm
      have hop : Op.Drops (.event ":parent" (.list [.map m])) := rfl
      exact ⟨hle, (hh.unstale hop h).imp_right fun h => ⟨h, nofun⟩⟩
    · exact fun _ => or_iff_not_imp_left.2 fun hc => ⟨hc, rfl⟩
  rcases hend.2 with hu | ⟨h, _⟩
  · exact absurd hu hop
  · exact h

end Step

/-- In every run in which no step drops the equipped container while its ctx is cached,
    the cached ctx names the equipped container in every state reached, and
    `unequip-to-hand!` puts that container in the hand. -/
theorem inventory_cached (hw : (avatar Slots.Fresh).ReachableVia (fun w op => ¬ Unbooks w op) w) :
    w.slots.Cached ∧ ∀ x, w.slots.myInv = .str x →
      (unequipToHand! (.str x)).wp (fun _ w' => w'.slots.InHand x) (fun _ _ => False) w := by
  have h := entryNames_of_reachable hw.reachable
  refine ⟨(Slots.cached_iff _).2 ⟨h.2, ?_⟩, fun x hx => unequipToHand!_inHand h.2 hx⟩
  clear h
  induction hw with
  | init h => exact fun hst => hst.1 h.2.1
  | step hw hc hn ih =>
    obtain rfl := Option.some.inj hn
    exact Op.run_unstale (entryNames_of_reachable hw.reachable).1 ih hc

omit [Host] in
/-- A container is equipped and proposes itself. -/
theorem inventory_cached_equip :
    let _ : Host := scripted "did:ma:me" fun _ method _ =>
      .ok (if method = "kind?" then "/ma/container/0.0.1" else .nil)
    let m : Ctx := [("actor", "did:ma:chest"), ("parent", "did:ma:me")]
    ∃ w : World, w.slots.invEntry = some m ∧ w.slots.Cached ∧
      (unequipToHand! (.str "did:ma:chest")).wp (fun _ w' => w'.slots.InHand "did:ma:chest")
        (fun _ _ => False) w := by
  intro _ m
  have h₀ : (avatar Slots.Fresh).ReachableVia (fun w op => ¬ Unbooks w op)
      (World.entered "did:ma:room") := .init ⟨rfl, rfl, rfl, rfl⟩
  have h₁ := h₀.step (a := .command .equip ["did:ma:chest"]) (fun h => nomatch h.1) rfl
  have h₂ := h₁.step (a := .event ":parent" (.list [.map m])) (fun h => h.2.1 rfl) rfl
  exact ⟨_, rfl, (inventory_cached h₂).1, (inventory_cached h₂).2 _ rfl⟩

omit [Host] in
/-- Once the equipped container was dropped by name, its ctx is still cached. -/
theorem not_inventory_cached :
    let _ : Host := scripted "did:ma:me" fun _ method _ =>
      .ok (if method = "kind?" then "/ma/container/0.0.1" else .nil)
    let m : Ctx := [("actor", "did:ma:chest"), ("parent", "did:ma:me")]
    ∃ w : World, (avatar Slots.Fresh).init (World.entered "did:ma:room") ∧
      (avatar Slots.Fresh).exec (World.entered "did:ma:room")
        [.command .equip ["did:ma:chest"], .event ":parent" (.list [.map m]),
          .command .drop ["did:ma:chest"]] = some w ∧
      w.slots.invEntry = some m ∧ w.slots.inv = none ∧ ¬ w.slots.Cached := by
  intro _ m
  exact ⟨_, ⟨rfl, rfl, rfl, rfl⟩, rfl, rfl, rfl, fun h => nomatch h m rfl⟩

end Avatar

end Zscheme
