import Zscheme.Avatar.Closed
import Zscheme.Lib.Relate

/-!
# Taking from a container, twice

`take-from` and `take … from` are written separately. They do the same, but for one
register: `take` clears the booking of a container that is being equipped before anything
else, and `take-from` leaves it (`takeFrom_eq_take_iff`).

What both go on to do neither reads the booking nor changes it. A view that does not read
it is `Blind`, which is closed under the constructs of the language, and so follows the
text of the resolver (`blind_inquires`).
-/

namespace Zscheme

namespace Avatar

open Prim Stdlib Zscheme.Runtime Program

variable {α β : Type}

/-- The view does not read the booking. -/
def Blind (v : View α) : Prop := ∀ s p, v (s.rebook p) = v s

/-! ## Views -/

/-- What does not read the slots does not. -/
theorem blind_program (p : Program String Focus α) : Blind (liftM p : View α) := fun _ _ => rfl

/-- Nor do two views of which neither does. -/
theorem Blind.bind {v : View α} {f : α → View β} (hv : Blind v) (hf : ∀ a, Blind (f a)) :
    Blind (v >>= f) := by
  intro s p
  rw [view_bind, view_bind, hv s p]
  exact congrArg _ (funext fun a => hf a s p)

/-- Nor does a view that is guarded. -/
theorem Blind.tryCatch {v : View α} {f : String → View α} (hv : Blind v)
    (hf : ∀ e, Blind (f e)) : Blind (tryCatch v f) := by
  intro s p
  rw [view_tryCatch, view_tryCatch, hv s p]
  exact congrArg _ (funext fun e => hf e s p)

/-- What follows the slots does not use the booking. -/
theorem blind_getSlots_bind {f : Slots → View β} (hf : ∀ s, Blind (f s))
    (h : ∀ s p, f (s.rebook p) = f s) : Blind (getSlots >>= f) := by
  intro s p
  change f (s.rebook p) (s.rebook p) = f s s
  rw [h, hf]

/-- Nor does the resolver read it. -/
theorem blind_inquires : Inquires fun _ v => Blind v where
  pure _ _ _ := rfl
  throw _ _ _ := rfl
  lift _ _ _ := rfl
  bind := .bind
  tryCatch := .tryCatch
  slots := blind_getSlots_bind
  focus := blind_program _
  remember _ := blind_program _
  ask _ _ := blind_program _

variable [Host]

theorem blind_display (v : SchemeVal) : Blind (display v) := blind_program _

/-- Who is called is not read off the slots. -/
theorem blind_actorCall (actor method : SchemeVal) (args : List SchemeVal) :
    Blind (actorCall actor method args) := by
  rcases actorCall_cases actor method args with ⟨e, hraise⟩ | ⟨x, m, -, -, hcall⟩
  · rw [hraise]
    exact blind_inquires.throw e
  · rw [hcall]
    refine (blind_program _).bind fun _ => (blind_program _).bind fun _ => ?_
    exact blind_inquires.lift _

/-- The request is stored, if it was answered with an id. -/
theorem blind_takeOut (container item : SchemeVal) : Blind (takeOut! container item) := by
  refine (blind_actorCall _ _ _).bind fun id => ?_
  cases id
  case str => exact blind_program _
  all_goals exact blind_inquires.pure _

/-! ## Acts -/

/-- The state with another booking. -/
def World.rebook (w : World) (p : SchemeVal) : World := { w with slots := w.slots.rebook p }

/-- The act neither reads the booking nor changes it: with another one it has the same
    outcome, and leaves the same state but for the booking. -/
def Unaware (p : Act α) : Prop :=
  ∀ booking, Relates (fun w w' => w' = w.rebook booking) Eq Eq p p

section Acts

omit [Host]

/-- A view leaves the slots as they are. -/
theorem Blind.unaware {v : View α} (h : Blind v) : Unaware (liftM v : Act α) := by
  rintro booking w _ rfl
  have hrun : (liftM v : Act α).run (w.rebook booking) =
      (((v w.slots).run w.focus).1,
        { w.rebook booking with focus := ((v w.slots).run w.focus).2 }) := by
    rw [← h w.slots booking]
    rfl
  rw [hrun]
  exact ⟨agree_self _, rfl⟩

/-- To do nothing is. -/
theorem unaware_pure (a : α) : Unaware (pure a : Act α) := fun _ => relates_pure rfl

theorem unaware_throw (e : String) : Unaware (throw e : Act α) :=
  fun _ => relates_throw rfl

theorem unaware_lift (x : Except String α) : Unaware (liftM x : Act α) :=
  fun _ => relates_lift (agree_self x)

/-- Two acts are, one after the other. -/
theorem Unaware.bind {p : Act α} {f : α → Act β} (hp : Unaware p)
    (hf : ∀ a, Unaware (f a)) : Unaware (p >>= f) := by
  refine fun booking => (hp booking).bind ?_
  rintro a _ rfl
  exact hf a booking

/-- And an act that is guarded. -/
theorem Unaware.tryCatch {p : Act α} {f : String → Act α} (hp : Unaware p)
    (hf : ∀ e, Unaware (f e)) : Unaware (tryCatch p f) := by
  refine fun booking => (hp booking).tryCatch ?_
  rintro e _ rfl
  exact hf e booking

theorem unaware_ite {c : Prop} [Decidable c] {p p' : Act α} (hp : Unaware p) (hp' : Unaware p') :
    Unaware (if c then p else p') := by split <;> assumption

/-- What the slots are changed to does not depend on the booking. -/
theorem unaware_modifySlots {f : Slots → Slots}
    (h : ∀ s booking, f (s.rebook booking) = (f s).rebook booking) : Unaware (modifySlots f) := by
  refine fun booking => relates_update ?_
  rintro w _ rfl
  exact congrArg (fun s => { w with slots := s }) (h w.slots booking)

/-- What follows the slots does not use the booking. -/
theorem unaware_getSlots_bind {f : Slots → Act β} (hf : ∀ s, Unaware (f s))
    (h : ∀ s booking, f (s.rebook booking) = f s) :
    Unaware ((liftM getSlots : Act Slots) >>= f) := by
  rintro booking w _ rfl
  have hrun : ((liftM getSlots : Act Slots) >>= f).run (w.rebook booking) =
      (f w.slots).run (w.rebook booking) := by
    rw [← h w.slots booking]
    rfl
  rw [hrun]
  exact hf w.slots booking w _ rfl

/-- An error is told with the action that it ended. -/
theorem unaware_withActionContext (description : String) {p : Act α} (h : Unaware p) :
    Unaware (withActionContext description p) := h.tryCatch fun _ => unaware_throw _

end Acts

/-- The hand and the inventory are forgotten, and the booking is not. -/
theorem unaware_forgetStaleSlots (target : SchemeVal) :
    Unaware (forgetStaleSlots! target) := by
  refine Unaware.bind ?_ fun _ => Unaware.bind ?_ fun _ => ?_
  · refine unaware_getSlots_bind (fun s => ?_) fun _ _ => rfl
    exact unaware_ite (unaware_modifySlots fun _ _ => rfl) (unaware_pure _)
  · refine blind_inquires.myInvIfAny.unaware.bind fun _ => unaware_ite ?_ (unaware_pure _)
    exact (unaware_modifySlots fun _ _ => rfl).bind fun _ => unaware_modifySlots fun _ _ => rfl
  · exact (unaware_lift _).bind fun _ => (blind_display _).unaware

/-- The item is asked to move, and forgotten if it is gone. -/
theorem unaware_setParentToRoom (target : SchemeVal) : Unaware (setParentToRoom! target) := by
  refine Unaware.tryCatch ?_ fun e => ?_
  · refine blind_inquires.room.unaware.bind fun _ => ?_
    exact (blind_actorCall _ _ _).unaware.bind fun _ => unaware_pure _
  · refine unaware_ite ?_ (unaware_throw e)
    exact (unaware_forgetStaleSlots target).bind fun _ => unaware_pure _

/-- The room is asked first. -/
theorem unaware_relocateToRoom (target : SchemeVal) : Unaware (relocateToRoom! target) := by
  refine blind_inquires.room.unaware.bind fun _ => ?_
  exact (blind_actorCall _ _ _).unaware.bind fun _ => unaware_setParentToRoom target

/-- What is in the hand is dropped, whatever is booked. -/
theorem unaware_dropHeldToRoom : Unaware dropHeldToRoom! := by
  refine unaware_getSlots_bind (fun s => ?_) fun _ _ => rfl
  split
  · refine blind_inquires.myInvIfAny.unaware.bind fun _ => unaware_ite ?_ (unaware_pure _)
    exact (unaware_relocateToRoom _).bind fun _ => unaware_pure _
  · exact unaware_pure _

/-- The rest of both commands: take an item from a container that was named. -/
theorem unaware_takeOut (container item : SchemeVal) : Unaware (do
    let source ← resolveOne container
    let item ← resolveInContainer item source
    dropHeldToRoom!
    takeOut! source item
    return SchemeVal.nil) := by
  refine (blind_inquires.resolveOne _).unaware.bind fun _ => ?_
  refine (blind_inquires.resolveInContainer _ _).unaware.bind fun _ => ?_
  refine unaware_dropHeldToRoom.bind fun _ => ?_
  exact (blind_takeOut _ _).unaware.bind fun _ => unaware_pure _

/-! ## The two commands -/

/-- What is taken from a container, with the words of the user in front of an error. -/
def takeNamed (container item : String) : Act SchemeVal :=
  withActionContext ("could not take " ++ item ++ " from " ++ container) do
    let source ← resolveOne container
    let found ← resolveInContainer item source
    dropHeldToRoom!
    takeOut! source found
    return .nil

/-- `take-from` takes what it is given. -/
theorem takeFrom_eq (container item : String) :
    takeFrom container item = takeNamed container item := by
  have htext : stringAppend ["could not take ", item, " from ", container] =
      .ok ("could not take " ++ item ++ " from " ++ container) := by
    change Except.ok (String.join ["could not take ", item, " from ", container]) = _
    simp [String.join]
  rw [takeFrom, htext]
  rfl

/-- `take … from` does so once the booking is cleared. -/
theorem take_from_eq (container item : String) (h : item ≠ "from") :
    take [item, "from", container] = (do
      setEquipPending (.bool false)
      takeNamed container item) := by
  have hsplit : splitCommand! [item, "from", container] "from" takeUsage false =
      .ok ([.str item], some [.str container]) := by
    have hne : SchemeVal.str item ≠ "from" := fun heq => h (SchemeVal.str.inj heq)
    simp [splitCommand!, wordsBeforeKeyword, wordsAfterKeyword, hne]
  rw [take, hsplit]
  rfl

omit [Host] in
/-- What does not read the booking leaves it. -/
theorem Unaware.equipPending {p : Act α} (hp : Unaware p) (w : World) :
    (p.run w).2.slots.equipPending = w.slots.equipPending := by
  have h := (hp w.slots.equipPending w w rfl).2
  rw [h]
  rfl

/-- `take` does what `take-from` does, and besides clears the booking. -/
theorem take_from_run (container item : String) (h : item ≠ "from") (w : World) :
    (take [item, "from", container]).run w =
      (((takeFrom container item).run w).1,
        ((takeFrom container item).run w).2.rebook (.bool false)) := by
  rw [take_from_eq container item h, takeFrom_eq]
  obtain ⟨hout, hend⟩ := unaware_withActionContext
    ("could not take " ++ item ++ " from " ++ container) (unaware_takeOut container item)
    (.bool false) w _ rfl
  exact Prod.ext hout.eq.symm hend

/-- The two commands do the same, to the last register, exactly where no container is
    booked to be equipped. -/
theorem takeFrom_eq_take_iff (container item : String) (h : item ≠ "from") (w : World) :
    (takeFrom container item).run w = (take [item, "from", container]).run w ↔
      w.slots.equipPending = .bool false := by
  have hkept : ((takeFrom container item).run w).2.slots.equipPending = w.slots.equipPending := by
    rw [takeFrom_eq]
    exact (unaware_withActionContext _ (unaware_takeOut container item)).equipPending w
  rw [take_from_run container item h, Prod.ext_iff, and_iff_right rfl, ← hkept]
  refine ⟨fun heq => ?_, fun hbooking => ?_⟩
  · rw [heq]
    rfl
  · simp only [World.rebook, Slots.rebook, ← hbooking]

omit [Host] in
/-- Nothing is booked when the lamp is taken. -/
theorem takeFrom_eq_take_lamp :
    let _ : Host := scripted "did:ma:me" fun _ _ _ => .ok .nil
    let w := World.entered "did:ma:room"
    (takeFrom "did:ma:chest" "did:ma:lamp").run w =
      (take ["did:ma:lamp", "from", "did:ma:chest"]).run w :=
  let _ : Host := scripted "did:ma:me" fun _ _ _ => .ok .nil
  (takeFrom_eq_take_iff "did:ma:chest" "did:ma:lamp" (by decide) _).2 rfl

omit [Host] in
/-- A container that is being equipped stays booked after `take-from`, and not after
    `take … from`. -/
theorem takeFrom_keeps_booking :
    let _ : Host := scripted "did:ma:me" fun _ method _ =>
      .ok (if method = "kind?" then "/ma/container/0.0.1" else .nil)
    ∃ w : World, (avatar Slots.Fresh).exec (World.entered "did:ma:room")
        [.command .equip ["did:ma:bag"]] = some w ∧
      ((takeFrom "did:ma:chest" "did:ma:lamp").run w).2.slots.equipPending = "did:ma:bag" ∧
      ((take ["did:ma:lamp", "from", "did:ma:chest"]).run w).2.slots.equipPending =
        .bool false := by
  intro _
  refine ⟨_, exec_avatar _ _ _, ?_⟩
  decide +kernel

end Avatar

end Zscheme
