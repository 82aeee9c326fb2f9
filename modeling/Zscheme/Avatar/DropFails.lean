import Zscheme.Avatar.MakeRoom

/-!
# A drop that fails

`drop` takes one of five ways, and each may fail at several calls. Whatever fails, the hand,
the inventory and the pending equip are as before (`drop_failed`). Only the way through a
container (`dropRoute`) writes something down before it calls: the item is booked to be
dropped, and the booking is undone exactly if the container refuses to hand the item out.
-/

namespace Zscheme

namespace Avatar

open Prim Stdlib Zscheme.Runtime Program

/-! ## The way of a drop -/

/-- Where an item goes that is dropped: to the room at once, or out of a container first. -/
inductive DropRoute
  | room (target : SchemeVal)
  | through (container item : SchemeVal)

section Route

variable [Host]

/-- The way `drop` takes with its arguments, as it resolves them. -/
def dropRoute (rest : List SchemeVal) : View DropRoute := do
  if rest.isEmpty then
    match (← getSlots).held with
    | none => throw "you're not holding anything"
    | some h => return .room (.str h.actor)
  else
    let (itemWords, containerWords) ← splitCommand! rest "from" dropUsage false
    match containerWords with
    | some containerWords =>
      let _ ← joinWords itemWords
      let _ ← joinWords containerWords
      let container ← resolveOneEntryFresh (← joinWords containerWords) dropContainerPool
      let item ← resolveInContainer (← joinWords itemWords) (← entryActor container)
      return .through (← entryActor container) item
    | none =>
      let _ ← joinWords itemWords
      let entry ← resolveOneEntryFresh (← joinWords itemWords) dropPool
      let target ← entryActor entry
      let parent ← mapRef entry "parent" (.bool false)
      if (← getSlots).holds target then return .room target
      else if target = (← myInvIfAny) then return .room target
      else if parent.string? then return .through parent target
      else throw ("you're not holding " ++ (← joinWords itemWords))

end Route

variable {α β : Type} {w w' w'' : World} {route : View DropRoute} {refused : Option String}

/-- It does not ask a container for an item. -/
def Effect.NoTake (e : Effect) : Prop := ∀ x args r, e ≠ .call x "take" args r

theorem Effect.Lookup.noTake {e : Effect} (h : e.Lookup) : e.NoTake := by
  rintro x args r rfl
  exact h.ne (by simp) rfl

theorem Effect.noTake_of_method {x m : String} {args : List SchemeVal}
    {r : Except String SchemeVal} (h : m ≠ "take") : (Effect.call x m args r).NoTake := by
  rintro _ _ _ heq
  exact h (Effect.call.inj heq).2.1

/-- The end of a drop that failed: the slots are as before, but for the pending drop of the
    item that was refused, if there is one. It is the item that the way of the drop leads
    through its container; the container was asked for it and answered with an error, or it
    could not even be asked. -/
structure World.DropFailed (w w' : World) (route : View DropRoute) (refused : Option String) :
    Prop where
  held : w'.slots.held = w.slots.held
  inv : w'.slots.inv = w.slots.inv
  invEntry : w'.slots.invEntry = w.slots.invEntry
  equipPending : w'.slots.equipPending = w.slots.equipPending
  others : ∀ item, refused ≠ some item →
    w'.slots.dropPending.get? item = w.slots.dropPending.get? item
  gone : ∀ item, refused = some item → w'.slots.dropPending.get? item = none
  resolved : ∀ item, refused = some item → ∃ container,
    ((route w.slots).run w.focus).1 = .ok (.through container (.str item))
  asked : ∀ item, refused = some item →
    (∃ x e, .call x "take" [.str item] (.error e) ∈ w.effects w') ∨
      ∀ e ∈ w.effects w', e.NoTake
  only : ∀ x args e, .call x "take" args (.error e) ∈ w.effects w' →
    ∃ item, args = [.str item] ∧ refused = some item

/-- So far nothing was changed, and no container was asked. -/
def World.Looked (w w' : World) : Prop :=
  w'.slots = w.slots ∧ Adds Effect.NoTake w.focus w'.focus

theorem World.Looked.failed (h : w.Looked w') : w.DropFailed w' route none := by
  obtain ⟨hs, hadds⟩ := h
  refine ⟨by rw [hs], by rw [hs], by rw [hs], by rw [hs], fun _ _ => by rw [hs], by simp, by simp,
    by simp, ?_⟩
  exact fun x args e he => absurd rfl (hadds.effects _ he x args _)

/-- What fails later fails for who looked around before, and went on the same way. -/
theorem World.DropFailed.earlier {route' : View DropRoute} (h : w'.DropFailed w'' route' refused)
    (hlooked : w.Looked w') (hle : w' ≤ w'')
    (hroute : (route w.slots).run w.focus = (route' w'.slots).run w'.focus) :
    w.DropFailed w'' route refused := by
  obtain ⟨hs, hadds⟩ := hlooked
  have hle' : w ≤ w' := let ⟨l, hl, _⟩ := hadds; ⟨l, hl.symm⟩
  have heffects : ∀ e ∈ w.effects w'', e ∈ w'.effects w'' ∨ e.NoTake := by
    intro e he
    rw [World.effects_trans hle' hle, List.mem_append] at he
    exact he.imp_right (hadds.effects e)
  refine ⟨h.held.trans (by rw [hs]), h.inv.trans (by rw [hs]), h.invEntry.trans (by rw [hs]),
    h.equipPending.trans (by rw [hs]), fun item hne => (h.others item hne).trans (by rw [hs]),
    h.gone, fun item hrefused => ?_, fun item hrefused => ?_, fun x args e he => ?_⟩
  · rw [hroute]
    exact h.resolved item hrefused
  · rcases h.asked item hrefused with ⟨x, e, he⟩ | hno
    · exact .inl ⟨x, e, World.effects_right hle' hle he⟩
    · exact .inr fun e he => (heffects e he).elim (hno e) id
  · exact h.only x args e ((heffects _ he).resolve_right fun hno => hno x args _ rfl)

/-! ## What fails well -/

/-- Whatever state it fails in, it leaves the slots as a failed drop that went this way is
    to. -/
def FailsWell (route : View DropRoute) (p : Act α) : Prop :=
  ∀ w, p.wp (fun _ _ => True) (fun _ w' => ∃ refused, w.DropFailed w' route refused) w

/-- First it looks around, then it fails. -/
theorem FailsWell.after {v : View α} {on : α → View DropRoute} {k : α → Act β}
    (h : Emits Effect.NoTake v) (hk : ∀ a, FailsWell (on a) (k a)) :
    FailsWell (v >>= on) (liftM v >>= k) := fun w => by
  have hrun := (wp_iff_run (v w.slots) (fun r => (v w.slots).run w.focus = r)).2 rfl
  refine (wp_bind _ _).2 ((wp_view v).2 (((h.wp w.slots w.focus).and hrun).conseq ?_ ?_))
  · rintro a f _ ⟨hadds, hrun⟩
    refine (hk a _).conseq (fun _ _ _ _ => trivial) ?_
    rintro e w' hle ⟨refused, hfailed⟩
    refine ⟨refused, hfailed.earlier ⟨rfl, hadds⟩ hle ?_⟩
    rw [view_bind]
    change (Program.bind (v w.slots) _).run w.focus = _
    simp only [Program.bind, hrun]
  · exact fun _ f _ hend => ⟨none, World.Looked.failed ⟨rfl, hend.1⟩⟩

theorem FailsWell.context {p : Act α} (description : String) (h : FailsWell route p) :
    FailsWell route (withActionContext description p) := fun w =>
  (wp_tryCatch _ _).2 ((h w).conseq (fun _ _ _ _ => trivial) fun _ _ _ h => h)

/-- What follows and never fails. -/
theorem FailsWell.before {p : Act Unit} (h : FailsWell route p) (a : α) :
    FailsWell route (do p; return a) := fun w =>
  (wp_bind _ _).2 ((h w).conseq (fun _ _ _ _ => trivial) fun _ _ _ h => h)

theorem failsWell_throw (e : String) : FailsWell route (throw e : Act α) := fun w =>
  ⟨none, World.Looked.failed ⟨rfl, refl_of (Adds _) w.focus⟩⟩

theorem FailsWell.lift {on : α → View DropRoute} {k : α → Act β} (x : Except String α)
    (hk : ∀ a, FailsWell (on a) (k a)) : FailsWell (liftM x >>= on) (liftM x >>= k) := by
  rcases x with e | a
  · exact failsWell_throw e
  · exact hk a

variable [Host]

/-! ## Dropping to the room -/

/-- The error of the evaluator that `#f` is no string does not say that an entity is
    unknown. -/
def PlainTypeError : Prop :=
  unknownFragmentError? (Evaluator.primError "string-append" [.bool false]) = false

instance : Decidable PlainTypeError := inferInstanceAs (Decidable (_ = false))

/-- Without an actor there is nothing to move. -/
theorem relocateToRoom!_nobody (h : PlainTypeError) :
    (relocateToRoom! (.bool false)).wp (fun _ _ => False) (fun _ w' => w'.slots = w.slots) w := by
  simp only [relocateToRoom!, setParentToRoom!]
  rw [wp_bind]
  refine wp_room (fun r hr => ?_) fun _ _ => rfl
  rw [wp_bind]
  refine wp_view_of_le (fun _ f _ => ?_) fun _ _ _ => rfl
  rw [wp_tryCatch, wp_bind]
  refine wp_room (fun r' _ => ?_) fun _ hno => absurd (hr.symm.trans hno) (by simp)
  have hraise : actorCall (.bool false) "set-parent" [r'] =
      throw (Evaluator.primError "string-append" [.bool false]) := rfl
  rw [hraise, wp_bind, wp_view, view_throw, wp_throw, h]
  rfl

/-- What is neither an address nor missing is not in the hand and not equipped. -/
theorem Slots.forget_of_not_string {s : Slots} {t : SchemeVal} (h : t.string? = false)
    (ht : t ≠ .bool false) : s.forget t = s := by
  have hheld : s.holds t ≠ true := fun hholds => by
    obtain ⟨item, _, rfl⟩ := Slots.holds_iff.1 hholds
    cases h
  have hinv : t ≠ s.myInv := by
    rintro rfl
    rcases s.myInv_cases with hnone | ⟨x, _, hx⟩
    · exact ht hnone
    · rw [hx] at h
      cases h
  rw [forget, release, if_neg hheld, unbook, if_neg hinv]

/-- A drop to the room that fails changes nothing. -/
theorem failsWell_dropTargetToRoom (h : PlainTypeError) (t : SchemeVal) :
    FailsWell route (dropTargetToRoom! t) := fun w => by
  have hemits : ActEmits Effect.NoTake (dropTargetToRoom! t) := by
    refine ActEmits.bind ?_ fun _ => emits_closed.myInvIfAny.act.bind fun _ =>
      actEmits_ite (actEmits_modifySlots _) (actEmits_pure _)
    exact actEmits_relocateToRoom (fun _ _ => Effect.noTake_of_method (by decide))
      (fun _ _ _ _ => Effect.noTake_of_method (by decide)) fun _ _ _ _ heq => nomatch heq
  have hslots : (dropTargetToRoom! t).wp (fun _ _ => True) (fun _ w' => w'.slots = w.slots) w := by
    by_cases ht : t = .bool false
    · rw [ht, dropTargetToRoom!, wp_bind]
      exact (relocateToRoom!_nobody h).conseq (fun _ _ _ h => h.elim) fun _ _ _ h => h
    · refine (dropTargetToRoom!_spec t).conseq (fun _ _ _ _ => trivial) ?_
      rintro _ w' _ (hs | ⟨hs, hstr⟩)
      · exact hs
      · rw [hs, Slots.forget_of_not_string hstr ht]
  refine (hslots.and (hemits.wp w)).conseq (fun _ _ _ _ => trivial) ?_
  exact fun _ w' _ hend => ⟨none, World.Looked.failed hend⟩

/-! ## Taking out of a container -/

omit [Host] in
/-- What was booked is taken back: nothing but the entry of the item is different. -/
theorem dropFailed_of_unbooked {container : SchemeVal} {key : String} {f : Focus}
    (hasked : (∃ x e, .call x "take" [.str key] (.error e) ∈ w.effects { w with focus := f }) ∨
      ∀ e ∈ w.effects { w with focus := f }, e.NoTake)
    (honly : ∀ x args e, .call x "take" args (.error e) ∈ w.effects { w with focus := f } →
      args = [.str key]) :
    w.DropFailed { slots := { w.slots with dropPending :=
      (w.slots.dropPending.insert key (.bool true)).delete key }, focus := f }
      (pure (.through container (.str key))) (some key) := by
  refine ⟨rfl, rfl, rfl, rfl, fun item hne => ?_, ?_, ?_, ?_, fun x args e he => ?_⟩
  · have hitem : item ≠ key := fun heq => hne (congrArg some heq.symm)
    rw [Dict.get?_delete, if_neg hitem, Dict.get?_insert, if_neg hitem]
  · rintro item heq
    obtain rfl := Option.some.inj heq
    exact Dict.get?_delete_self _ _
  · rintro item heq
    obtain rfl := Option.some.inj heq
    exact ⟨container, rfl⟩
  · rintro item heq
    obtain rfl := Option.some.inj heq
    exact hasked
  · exact ⟨key, honly x args e he, rfl⟩

/-- The item is booked, and no longer if its container does not hand it out. -/
theorem failsWell_takeThenDrop (container item : SchemeVal) :
    FailsWell (pure (.through container item)) (takeThenDrop! container item) := fun w => by
  simp only [takeThenDrop!, setDropPending, clearDropPending]
  rcases item with key | _ | _ | _ | _ | _ | _ | _
  case str =>
    simp only [asString, wp_bind, wp_lift, wp_modifySlots, wp_tryCatch, wp_throw, takeOut!]
    rw [wp_view, view_bind, wp_bind]
    refine actorCall_wp (fun x v _ _ => ?_) (fun x e _ _ => ?_) fun e _ => ?_
    -- the request is stored, or refused, or there is nobody to ask
    · rcases v with _ | _ | _ | _ | _ | _ | _ | _ <;> exact trivial
    · let f : Focus :=
        { w.focus with trace := .call x "take" [.str key] (.error e) :: w.focus.trace }
      have heffects : w.effects { w with focus := f } = [.call x "take" [.str key] (.error e)] :=
        World.effects_eq rfl
      refine ⟨some key, dropFailed_of_unbooked (f := f) (.inl ⟨x, e, ?_⟩) fun y args e' he => ?_⟩
      · rw [heffects]
        exact List.mem_singleton_self _
      · rw [heffects, List.mem_singleton] at he
        exact (Effect.call.inj he).2.2.1
    · have heffects : w.effects { w with focus := w.focus } = [] := w.effects_self
      refine ⟨some key, dropFailed_of_unbooked (f := w.focus) (.inr ?_) fun y args e' he => ?_⟩
      · rw [heffects]
        exact fun e he => absurd he List.not_mem_nil
      · rw [heffects] at he
        cases he
  all_goals exact ⟨none, World.Looked.failed ⟨rfl, refl_of (Adds _) w.focus⟩⟩

/-! ## All ways to drop -/

theorem failsWell_drop (h : PlainTypeError) (rest : List SchemeVal) :
    FailsWell (dropRoute rest) (drop rest) := by
  have hlookup : ∀ e : Effect, e.Lookup → e.NoTake := fun _ he => he.noTake
  simp only [drop, dropRoute]
  split
  -- what is in the hand
  · refine FailsWell.after emits_getSlots fun s => ?_
    rcases s.held with _ | held
    · exact failsWell_throw _
    · exact FailsWell.context _ ((failsWell_dropTargetToRoom h _).before _)
  refine FailsWell.lift _ fun words => ?_
  rcases words with ⟨itemWords, _ | containerWords⟩
  · refine FailsWell.lift _ fun _ => FailsWell.context _ ?_
    refine FailsWell.lift _ fun _ => FailsWell.after ?_ fun entry => ?_
    · exact (emits_inquires hlookup).resolveOneEntryFresh _ (emits_inquires hlookup).dropPool
    refine FailsWell.lift _ fun target => FailsWell.lift _ fun parent => ?_
    refine FailsWell.after emits_getSlots fun s => ?_
    -- what is held, what is equipped, and what is in a container
    split
    · exact (failsWell_dropTargetToRoom h _).before _
    refine FailsWell.after emits_closed.myInvIfAny fun inventory => ?_
    split
    · exact (failsWell_dropTargetToRoom h _).before _
    split
    · exact (failsWell_takeThenDrop _ _).before _
    · exact FailsWell.lift _ fun _ => failsWell_throw _
  · refine FailsWell.lift _ fun _ => FailsWell.lift _ fun _ => FailsWell.context _ ?_
    refine FailsWell.lift _ fun _ => FailsWell.after ?_ fun container => ?_
    · exact (emits_inquires hlookup).resolveOneEntryFresh _
        (emits_inquires hlookup).dropContainerPool
    refine FailsWell.lift _ fun _ => FailsWell.lift _ fun _ => FailsWell.after ?_ fun item => ?_
    · exact (emits_inquires hlookup).resolveInContainer _ _
    exact FailsWell.lift _ fun _ => (failsWell_takeThenDrop _ _).before _

/-- If a drop fails, whatever it was asked for and whatever the actors answered, the hand,
    the inventory and the pending equip are as before; so are the pending drops, but that
    the item that was to come out of a container is not among them if its container refused
    it. -/
theorem drop_failed (h : PlainTypeError) (rest : List SchemeVal) (w : World)
    (hfails : ((Command.drop.run rest).run w).1.isOk = false) :
    ∃ refused, w.DropFailed ((Command.drop.run rest).run w).2 (dropRoute rest) refused := by
  have hwp : (drop rest).wp
      (fun _ w' => true = false → ∃ refused, w.DropFailed w' (dropRoute rest) refused)
      (fun _ w' => false = false → ∃ refused, w.DropFailed w' (dropRoute rest) refused) w :=
    (failsWell_drop h rest w).conseq (fun _ _ _ _ h => by cases h) fun _ _ _ hend _ => hend
  exact (wp_iff_outcome _ fun ok w' =>
    ok = false → ∃ refused, w.DropFailed w' (dropRoute rest) refused).1 hwp hfails

omit [Host] in
/-- A coin in the chest that does not hand it out. -/
theorem drop_failed_coin :
    let _ : Host := scripted "did:ma:me" fun _ method _ =>
      if method = "take" then .error "the chest is locked"
      else .ok (if method = "contents?" then
        .list [.map [("actor", "did:ma:coin"), ("name", "coin")]] else .nil)
    let w : World := { World.entered "did:ma:room" with
      focus := ⟨some [("children", .list [.map [("actor", "did:ma:chest"), ("name", "chest")]])],
        [], []⟩ }
    ∃ refused, w.DropFailed ((Command.drop.run ["coin", "from", "chest"]).run w).2
      (dropRoute ["coin", "from", "chest"]) refused := by
  intro _ w
  exact drop_failed (by decide +kernel) _ _ (by decide +kernel)

end Avatar

end Zscheme
