import Zscheme.Avatar.Discipline

/-!
# What a command is about

`equip` and `drop` look around before they change what the avatar waits for. What they
find is a view of its own (`equipTarget`, `dropTarget`), and what the command then does
is foretold by the answer of that view (`Foretold`): `equip` books the container it is
about if nothing raises (`equip_foretold`), and `drop` marks the item it takes out of a
container (`drop_foretold`).
-/

namespace Zscheme

namespace Avatar

open Prim Stdlib Zscheme.Runtime Program

variable {α β γ : Type} {w : World}

/-- The answer of a view, if it does not raise. -/
def View.answer (v : View α) (w : World) : Option α := ((v w.slots).run w.focus).1.toOption

/-- The outcome of a program and its effect on the slots are as the answer of a view
    tells, for the relation `R` of the answer, whether the program returns, and the slots
    before and after. -/
def Foretold (R : Option β → Bool → Slots → Slots → Prop) (v : View β) (p : Act α) : Prop :=
  ∀ w, p.wp (fun _ w' => R (v.answer w) true w.slots w'.slots)
    (fun _ w' => R (v.answer w) false w.slots w'.slots) w

section Rules

variable {R : Option β → Bool → Slots → Slots → Prop} {kv : γ → View β} {k : γ → Act α}

/-- A view answers what its second part answers after the first. -/
theorem View.answer_bind (u : View γ) (w : World) : View.answer (u >>= kv) w =
    match (u w.slots).run w.focus with
    | (.ok c, f) => View.answer (kv c) { w with focus := f }
    | (.error _, _) => none := by
  change (Program.run (Program.bind (u w.slots) fun c => kv c w.slots) w.focus).1.toOption = _
  simp only [Program.bind]
  rcases (u w.slots).run w.focus with ⟨_ | _, _⟩ <;> rfl

/-- A program and its view start with the same view. -/
theorem Foretold.bind (hR : ∀ s, R none false s s) {u : View γ}
    (h : ∀ c, Foretold R (kv c) (k c)) : Foretold R (u >>= kv) (liftM u >>= k) := by
  intro w
  rw [wp_bind, wp_view, View.answer_bind]
  simp only [Program.wp]
  rcases (u w.slots).run w.focus with ⟨e | c, f⟩
  · exact hR _
  · exact h c { w with focus := f }

/-- A program and its view start with the same computation. -/
theorem Foretold.lift (hR : ∀ s, R none false s s) {x : Except String γ}
    (h : ∀ c, Foretold R (kv c) (k c)) :
    Foretold R ((liftM x : View γ) >>= kv) ((liftM x : Act γ) >>= k) := by
  intro w
  rcases x with e | c
  · exact hR _
  · exact h c w

/-- Naming the action in an error foretells the same. -/
theorem Foretold.context {v : View β} {p : Act α} (d : String) (h : Foretold R v p) :
    Foretold R (withActionContext d v) (withActionContext d p) := by
  intro w
  have ha : (withActionContext d v).answer w = v.answer w := by
    change (Program.run (Program.tryCatch (v w.slots) fun _ => Program.throw _) w.focus).1.toOption
      = ((v w.slots).run w.focus).1.toOption
    simp only [Program.tryCatch]
    rcases (v w.slots).run w.focus with ⟨_ | _, _⟩ <;> rfl
  rw [ha]
  exact (wp_tryCatch _ _).2 (h w)

end Rules

variable [Host]

/-! ## Equip -/

/-- The checks of `equip-propose!`: the container to be booked, if it is not the
    equipped one and is a container at all. -/
def equipGate (did : SchemeVal) : View (Option SchemeVal) := do
  if did = (← myInvIfAny) then return none
  else
    let kind ← actorCall did "kind?" []
    if kind = "/ma/container/0.0.1" then return some did
    else throw (← stringAppend ["invalid inventory kind: ", kind])

/-- The container `equip` is to book. -/
def equipTarget (words : List SchemeVal) : View (Option SchemeVal) := do
  let (itemWords, containerWords) ← splitCommand! words "from" equipUsage false
  match containerWords with
  | some containerWords =>
    let description :=
      "could not equip " ++ (← joinWords itemWords) ++ " from " ++ (← joinWords containerWords)
    withActionContext description do
      let source ← resolveOne (← joinWords containerWords)
      let item ← resolveInContainer (← joinWords itemWords) source
      equipGate item
  | none =>
    withActionContext ("could not equip " ++ (← joinWords itemWords)) do
      let entry ← resolveOneEntryFresh (← joinWords itemWords) equipPool
      equipGate (← entryActor entry)

/-- What is booked after an `equip`. -/
def bookedBy (target : Option (Option SchemeVal)) (ok : Bool) (booking : SchemeVal) : SchemeVal :=
  match target with
  | some (some did) => if ok then did else .bool false
  | _ => booking

/-- `equip` books what it is about, and takes the booking back if something raises. -/
abbrev Books (target : Option (Option SchemeVal)) (ok : Bool) (s s' : Slots) : Prop :=
  s'.equipPending = bookedBy target ok s.equipPending

/-- A booking is kept by what commands do to other slots. -/
theorem booking_stable (did : SchemeVal) : Stable fun w => w.slots.equipPending = did :=
  frame_stable _ did fun _ _ _ _ => rfl

/-- A drop of the inventory leaves it. -/
theorem booking_unbookable (did : SchemeVal) : Unbookable fun w => w.slots.equipPending = did :=
  frame_unbookable _ did fun _ _ _ _ => rfl

/-- Once the checks are passed, the container stays booked unless something raises. -/
theorem equipArm!_foretold (did : SchemeVal) (propose : View Unit) :
    Foretold Books (pure (some did)) (do
      setEquipPending did
      tryCatch (equipMove! did propose) fun e => do
        setEquipPending (.bool false)
        throw e
      return SchemeVal.nil) := by
  intro w
  change (setEquipPending did >>= fun _ => tryCatch (equipMove! did propose) _ >>= fun _ => _).wp
    (fun _ w' => w'.slots.equipPending = did) (fun _ w' => w'.slots.equipPending = .bool false) w
  rw [wp_bind, wp_setEquipPending, wp_bind, wp_tryCatch]
  refine (((booking_stable did).equipMove_keeps did propose).keeps rfl).conseq ?_ ?_
  · exact fun _ _ _ h => h
  · exact fun _ _ _ _ => rfl

/-- A proposal to equip books what the gate lets through. -/
theorem equipPropose!_foretold (did : SchemeVal) (propose : View Unit) :
    Foretold Books (equipGate did) (equipPropose! did propose) := by
  have hR : ∀ s, Books none false s s := fun _ => rfl
  refine Foretold.bind hR fun inventory => ?_
  by_cases hdid : did = inventory
  · simp only [if_pos hdid]
    exact fun _ => rfl
  simp only [if_neg hdid]
  refine Foretold.bind hR fun kind => ?_
  by_cases hkind : kind = "/ma/container/0.0.1"
  · simp only [if_pos hkind]
    exact equipArm!_foretold did propose
  · simp only [if_neg hkind]
    exact Foretold.lift hR fun _ _ => rfl

/-- `equip` books its target. -/
theorem equip_foretold (words : List SchemeVal) :
    Foretold Books (equipTarget words) (equip words) := by
  have hR : ∀ s, Books none false s s := fun _ => rfl
  refine Foretold.lift hR fun (itemWords, containerWords) => ?_
  rcases containerWords with _ | containerWords
  · refine Foretold.lift hR fun _ => Foretold.context _ ?_
    refine Foretold.lift hR fun _ => Foretold.bind hR fun _ => ?_
    refine Foretold.lift hR fun _ => ?_
    exact equipPropose!_foretold _ _
  · refine Foretold.lift hR fun _ => Foretold.lift hR fun _ => Foretold.context _ ?_
    refine Foretold.lift hR fun _ => Foretold.bind hR fun _ => ?_
    refine Foretold.lift hR fun _ => Foretold.bind hR fun _ => ?_
    exact equipPropose!_foretold _ _

/-! ## Drop -/

/-- The item that is marked to be dropped. -/
def markKey (item : SchemeVal) : View (Option String) := do
  return some (← asString "map-set" item)

/-- The item `drop` is to take out of a container. -/
def dropTarget (rest : List SchemeVal) : View (Option String) := do
  if rest.isEmpty then return none
  else
    let (itemWords, containerWords) ← splitCommand! rest "from" dropUsage false
    match containerWords with
    | some containerWords =>
      let description :=
        "could not drop " ++ (← joinWords itemWords) ++ " from " ++ (← joinWords containerWords)
      withActionContext description do
        let container ← resolveOneEntryFresh (← joinWords containerWords) dropContainerPool
        let item ← resolveInContainer (← joinWords itemWords) (← entryActor container)
        let _ ← entryActor container
        markKey item
    | none =>
      withActionContext ("could not drop " ++ (← joinWords itemWords)) do
        let entry ← resolveOneEntryFresh (← joinWords itemWords) dropPool
        let target ← entryActor entry
        let parent ← mapRef entry "parent" (.bool false)
        if (← getSlots).holds target then return none
        else if target = (← myInvIfAny) then return none
        else if parent.string? then markKey target
        else throw ("you're not holding " ++ (← joinWords itemWords))

/-- Whether an item is to be dropped after a `drop`. -/
def markedBy (target : Option (Option String)) (ok : Bool) (x : String) (before : Bool) : Bool :=
  match target with
  | some (some key) => if x = key then ok else before
  | _ => before

/-- `drop` marks what it takes out of a container, and unmarks it if the container
    refuses. -/
abbrev Marks (target : Option (Option String)) (ok : Bool) (s s' : Slots) : Prop :=
  ∀ x, s'.awaitsDrop x = markedBy target ok x (s.awaitsDrop x)

/-- The marks are kept by what commands do to other slots. -/
theorem marked_stable (d : Dict String SchemeVal) : Stable fun w => w.slots.dropPending = d :=
  frame_stable _ d fun _ _ _ _ => rfl

/-- A drop of the inventory leaves them. -/
theorem marked_unbookable (d : Dict String SchemeVal) :
    Unbookable fun w => w.slots.dropPending = d :=
  frame_unbookable _ d fun _ _ _ _ => rfl

omit [Host] in
/-- Marks are not changed by what leaves the register of pending drops alone. -/
theorem marks_of_keeps {target : Option (Option String)} (ht : target.join = none) {p : Act α}
    (h : ∀ d, p.Within (Keeping fun w => w.slots.dropPending = d)) :
    p.wp (fun _ w' => Marks target true w.slots w'.slots)
      (fun _ w' => Marks target false w.slots w'.slots) w := by
  have hm : ∀ ok (s : Slots), s.dropPending = w.slots.dropPending →
      Marks target ok w.slots s := by
    intro ok s hs x
    rcases target with _ | _ | key
    · rw [Slots.awaitsDrop, hs]; rfl
    · rw [Slots.awaitsDrop, hs]; rfl
    · cases ht
  exact ((h _).keeps rfl).conseq (fun _ _ _ => hm true _) fun _ _ _ => hm false _

/-- A drop to the room marks nothing. -/
theorem dropTargetToRoom!_foretold (target : SchemeVal) :
    Foretold Marks (pure none) (do dropTargetToRoom! target; return SchemeVal.nil) := by
  intro w
  refine marks_of_keeps rfl fun d => ?_
  refine Within.bind ?_ fun _ => within_pure _
  exact (marked_stable d).dropTarget_keeps (marked_unbookable d) target

omit [Host] in
/-- A new mark is awaited, and those before. -/
theorem Slots.awaitsDrop_insert (s : Slots) (key x : String) :
    Slots.awaitsDrop { s with dropPending := s.dropPending.insert key (.bool true) } x =
      if x = key then true else s.awaitsDrop x := by
  simp only [Slots.awaitsDrop]
  rw [Dict.get?_insert]
  split <;> rfl

omit [Host] in
/-- A mark that is deleted is awaited no more. -/
theorem Slots.awaitsDrop_delete (s : Slots) (key x : String) :
    Slots.awaitsDrop { s with dropPending := s.dropPending.delete key } x =
      if x = key then false else s.awaitsDrop x := by
  simp only [Slots.awaitsDrop]
  rw [Dict.get?_delete]
  split <;> rfl

/-- A take before a drop marks the item. -/
theorem takeThenDrop!_foretold (container item : SchemeVal) :
    Foretold Marks (markKey item) (do takeThenDrop! container item; return SchemeVal.nil) := by
  intro w
  simp only [takeThenDrop!, setDropPending, clearDropPending]
  rcases item with key | _ | _ | _ | _ | _ | _ | _
  case str =>
    change Program.wp _ (fun _ w' => Marks (some (some key)) true w.slots w'.slots)
      (fun _ w' => Marks (some (some key)) false w.slots w'.slots) w
    simp only [asString, wp_bind, wp_lift, wp_modifySlots, wp_tryCatch, wp_throw]
    refine wp_view_of_le (fun _ _ _ x => ?_) fun _ _ _ x => ?_
    · exact w.slots.awaitsDrop_insert key x
    · refine (Slots.awaitsDrop_delete _ key x).trans ?_
      rw [w.slots.awaitsDrop_insert key x]
      by_cases hx : x = key
      · simp only [markedBy, if_pos hx]
      · simp only [markedBy, if_neg hx]
  all_goals exact fun _ => rfl

/-- `drop` marks its target. -/
theorem drop_foretold (rest : List SchemeVal) : Foretold Marks (dropTarget rest) (drop rest) := by
  have hR : ∀ s, Marks none false s s := fun _ _ => rfl
  simp only [dropTarget, drop]
  split
  · intro w
    refine marks_of_keeps rfl fun d => ?_
    refine ((marked_stable d).view_keeps _).bind fun s => ?_
    rcases s.held with _ | held
    · exact within_throw _
    · refine within_withActionContext (Within.bind ?_ fun _ => within_pure _)
      exact (marked_stable d).dropTarget_keeps (marked_unbookable d) _
  refine Foretold.lift hR fun (itemWords, containerWords) => ?_
  rcases containerWords with _ | containerWords
  -- only an item that is neither held nor equipped is marked, to be taken from its parent
  · refine Foretold.lift hR fun _ => Foretold.context _ ?_
    refine Foretold.lift hR fun _ => Foretold.bind hR fun entry => ?_
    refine Foretold.lift hR fun target => Foretold.lift hR fun parent => ?_
    refine Foretold.bind hR fun slots => ?_
    by_cases hheld : slots.holds target
    · simp only [if_pos hheld]
      exact dropTargetToRoom!_foretold target
    simp only [if_neg hheld]
    refine Foretold.bind hR fun inventory => ?_
    by_cases hinv : target = inventory
    · simp only [if_pos hinv]
      exact dropTargetToRoom!_foretold target
    simp only [if_neg hinv]
    by_cases hparent : parent.string?
    · simp only [if_pos hparent]
      exact takeThenDrop!_foretold parent target
    · simp only [if_neg hparent]
      exact Foretold.lift hR fun _ _ _ => rfl
  · refine Foretold.lift hR fun _ => Foretold.lift hR fun _ => Foretold.context _ ?_
    refine Foretold.lift hR fun _ => Foretold.bind hR fun _ => ?_
    refine Foretold.lift hR fun _ => Foretold.lift hR fun _ => Foretold.bind hR fun item => ?_
    exact Foretold.lift hR fun container => takeThenDrop!_foretold container item

end Avatar

end Zscheme
