import Zscheme.Avatar.Logic

/-!
# What follows the text of the resolver

The resolver reads the slots, but not what is booked. It asks a room to be shown, and the
inventory for its kind, its name and its contents; it remembers the room, and does nothing
else. So a property of views that is closed under the constructs of the language
(`Closed`), and holds of these questions (`Inquires`), holds of every procedure of the
resolver, as its text says.
-/

namespace Zscheme

namespace Avatar

open Prim Stdlib Zscheme.Runtime Program

/-- The slots with another booking. -/
def Slots.rebook (s : Slots) (p : SchemeVal) : Slots := { s with equipPending := p }

/-- A question the resolver asks. -/
def Effect.Lookup : Effect → Prop
  | .call _ method _ _ => method ∈ ["look", "kind?", "name", "contents?"]
  | _ => False

/-- No question is asked by another method. -/
theorem Effect.Lookup.ne {x m method : String} {args : List SchemeVal}
    {r : Except String SchemeVal} (h : (Effect.call x m args r).Lookup)
    (hmethod : method ∉ ["look", "kind?", "name", "contents?"]) : m ≠ method :=
  fun heq => hmethod (heq ▸ h)

/-- A property of views that is closed under the constructs of the language. What is read of
    the slots is not the booking, and what is changed is the room that is remembered. -/
structure Closed (J : ∀ α : Type, View α → Prop) : Prop where
  pure : ∀ {α : Type} (a : α), J α (pure a)
  throw : ∀ {α : Type} (e : String), J α (throw e)
  lift : ∀ {α : Type} (x : Except String α), J α (liftM x)
  bind : ∀ {α β : Type} {v : View α} {f : α → View β}, J α v → (∀ a, J β (f a)) → J β (v >>= f)
  tryCatch : ∀ {α : Type} {v : View α} {f : String → View α}, J α v → (∀ e, J α (f e)) →
    J α (tryCatch v f)
  slots : ∀ {β : Type} {f : Slots → View β}, (∀ s, J β (f s)) →
    (∀ s booking, f (s.rebook booking) = f s) → J β (getSlots >>= f)
  focus : J Focus getFocus
  remember : ∀ r : Ctx, J Unit (modifyFocus (fun f => { f with lastRoom := some r }) fun _ => rfl)

/-- Besides, it holds of the questions of the resolver. -/
structure Inquires (J : ∀ α : Type, View α → Prop) : Prop extends Closed J where
  ask : ∀ e : Effect, e.Lookup → J Unit (emit e)

variable {J : ∀ α : Type, View α → Prop} {α β : Type}

/-! ## Constructs -/

section Constructs

variable (h : Closed J)

include h

omit h in
/-- Both branches have the property. -/
theorem Closed.ite {c : Prop} [Decidable c] {v v' : View α} (hv : J α v) (hv' : J α v') :
    J α (if c then v else v') := by split <;> assumption

/-- A list of views, one after the other. -/
theorem Closed.mapM {f : α → View β} (hf : ∀ a, J β (f a)) (l : List α) : J _ (l.mapM f) := by
  induction l with
  | nil => exact h.pure _
  | cons a l ih =>
    rw [List.mapM_cons]
    exact h.bind (hf a) fun _ => h.bind ih fun _ => h.pure _

/-- A fold of views. -/
theorem Closed.foldlM {f : β → α → View β} (hf : ∀ b a, J β (f b a)) (l : List α) (b : β) :
    J β (l.foldlM f b) := by
  induction l generalizing b with
  | nil => exact h.pure _
  | cons a l ih =>
    rw [List.foldlM_cons]
    exact h.bind (hf b a) ih

end Constructs

/-! ## What asks nothing -/

section Closed

variable [Host] (h : Closed J)

include h

/-- A path that is not set is an error. -/
theorem Closed.localPath (path : String) (value : Option SchemeVal) :
    J _ (localPath path value) := by
  rcases value with _ | v
  · exact h.throw _
  · exact h.pure v

/-- The room is read off the slots. -/
theorem Closed.room : J _ room := h.slots (fun _ => h.localPath _ _) fun _ _ => rfl

omit [Host] in
/-- A room that is a map is remembered. -/
theorem Closed.rememberRoom (snapshot : SchemeVal) : J _ (rememberRoom! snapshot) := by
  simp only [rememberRoom!]
  split
  · exact h.bind (h.remember _) fun _ => h.pure _
  · exact h.pure _

/-- `my-inv-if-any` does nothing outside. -/
theorem Closed.myInvIfAny : J _ myInvIfAny := by
  refine h.tryCatch (h.slots (fun _ => ?_) fun _ _ => rfl) fun _ => h.pure _
  refine h.bind (h.localPath _ _) fun _ => h.bind (h.lift _) fun _ => ?_
  exact Closed.ite (h.pure _) (h.pure _)

omit [Host] in
/-- So is what is in the hand. -/
theorem Closed.handPool : J _ handPool := h.slots (fun _ => h.pure _) fun _ _ => rfl

/-- The word is in the error. -/
theorem Closed.noMatchError (word : SchemeVal) : J α (noMatchError word) :=
  h.bind (h.lift _) fun _ => h.throw _

end Closed

/-! ## The resolver -/

section Resolver

variable [Host] (h : Inquires J)

include h

/-- A question without arguments is one call, if it is asked at all. -/
theorem Inquires.lookup {actor : SchemeVal} {method : String}
    (hmethod : method ∈ ["look", "kind?", "name", "contents?"]) :
    J _ (actorCall actor method []) := by
  rcases actorCall_cases actor method [] with ⟨e, hraise⟩ | ⟨x, m, -, hm, hcall⟩
  · rw [hraise]
    exact h.throw e
  · rw [hcall]
    obtain rfl := SchemeVal.str.inj hm
    exact h.bind h.focus fun _ => h.bind (h.ask _ hmethod) fun _ => h.lift _

/-- The room is asked to be shown. -/
theorem Inquires.lookRoom : J _ (roomCall "look" []) :=
  h.bind h.room fun _ => h.lookup (by simp)

/-- The room is asked only if none is remembered. -/
theorem Inquires.cachedRoomPool (pool : Ctx → Except String (List SchemeVal)) :
    J _ (cachedRoomPool pool) := by
  refine h.bind h.focus fun f => ?_
  split
  · exact h.lift _
  · refine h.bind h.lookRoom fun _ => h.bind (h.rememberRoom _) fun snapshot => ?_
    split
    · exact h.lift _
    · exact h.pure _

/-- The inventory is asked for its kind. -/
theorem Inquires.usableInventory : J _ usableInventory := by
  refine h.bind h.myInvIfAny fun inventory => Closed.ite ?_ (h.pure _)
  refine h.tryCatch ?_ fun _ => h.pure _
  exact h.bind (h.lookup (by simp)) fun _ => Closed.ite (h.pure _) (h.pure _)

/-- The inventory is asked for its name. -/
theorem Inquires.inventoryDisplayCtx (inventory : SchemeVal) :
    J _ (inventoryDisplayCtx inventory) := by
  refine h.bind ?_ fun _ => Closed.ite (h.pure _) (h.pure _)
  exact h.tryCatch (h.lookup (by simp)) fun _ => h.pure _

/-- It is asked only if it is not the one that is cached. -/
theorem Inquires.inventoryCtx (inventory : SchemeVal) : J _ (inventoryCtx inventory) := by
  have hshow : J _ (SchemeVal.map <$> Avatar.inventoryDisplayCtx inventory) :=
    h.bind (h.inventoryDisplayCtx inventory) fun _ => h.pure _
  refine h.slots (fun s => ?_) fun _ _ => rfl
  split
  · exact Closed.ite (h.pure _) hshow
  · exact hshow

/-- A container is asked for its contents. -/
theorem Inquires.containerContents (container : SchemeVal) : J _ (containerContents container) :=
  h.bind (h.lookup (by simp)) fun _ => h.pure _

/-- The inventory, and what is in it. -/
theorem Inquires.resolveInventoryPool : J _ resolveInventoryPool := by
  refine h.bind h.usableInventory fun inv => Closed.ite ?_ (h.pure _)
  refine h.bind (h.tryCatch (h.containerContents inv) fun _ => h.pure _) fun _ => ?_
  exact h.bind (h.inventoryCtx inv) fun _ => h.pure _

/-- What is in the hand, in the room and in the inventory. -/
theorem Inquires.defaultPool : J _ defaultPool := by
  refine h.bind h.handPool fun _ => h.bind (h.cachedRoomPool _) fun _ => ?_
  exact h.bind h.resolveInventoryPool fun _ => h.pure _

/-- The children of the room that is remembered, and the inventory. -/
theorem Inquires.locationLookupPool : J _ locationLookupPool :=
  h.bind h.focus fun _ => h.bind h.resolveInventoryPool fun _ => h.pure _

/-- The parent is looked up. -/
theorem Inquires.candidateLocation (entry : SchemeVal) : J _ (candidateLocation entry) := by
  refine h.bind (h.lift _) fun parent => Closed.ite ?_ (h.pure _)
  refine h.bind h.locationLookupPool fun pool => h.bind (h.lift _) fun found => ?_
  split
  · exact h.pure _
  · refine h.bind h.myInvIfAny fun _ => Closed.ite (h.pure _) (h.bind h.focus fun _ => ?_)
    split <;> exact h.pure _

/-- A candidate has a name, a nick and a place. -/
theorem Inquires.describeCandidate (entry : SchemeVal) : J _ (describeCandidate entry) := by
  refine h.bind (h.lift _) fun _ => h.bind (h.candidateLocation entry) fun _ => ?_
  exact h.bind (h.lift _) fun _ => h.bind (h.lift _) fun _ => h.lift _

/-- Each candidate is described in the error. -/
theorem Inquires.ambiguousError (word : SchemeVal) (candidates : List SchemeVal) :
    J α (ambiguousError word candidates) := by
  refine h.bind (h.lift _) fun _ => h.bind (h.foldlM (fun _ _ => ?_) _ _) fun _ => h.throw _
  exact h.bind (h.describeCandidate _) fun _ => h.pure _

/-- A word is a DID, or is looked up in the pool. -/
theorem Inquires.resolveOneEntry (word : SchemeVal) (pool : List SchemeVal) :
    J _ (resolveOneEntry word pool) := by
  refine h.bind (h.lift _) fun _ => Closed.ite (h.lift _) (h.bind (h.lift _) fun hits => ?_)
  split
  · exact h.noMatchError _
  · exact h.lift _
  · exact h.bind (h.mapM (fun _ => h.lift _) _) fun _ => h.ambiguousError _ _

/-- On a miss the room is asked, and the pool built again. -/
theorem Inquires.resolveOneEntryOrRefresh (word : SchemeVal) (pool : List SchemeVal)
    {rebuild : View (List SchemeVal)} (hrebuild : J _ rebuild) :
    J _ (resolveOneEntryOrRefresh word pool rebuild) := by
  refine h.tryCatch (h.resolveOneEntry word pool) fun e => Closed.ite ?_ (h.throw _)
  refine h.bind h.lookRoom fun _ => h.bind (h.rememberRoom _) fun _ => ?_
  exact h.bind hrebuild fun _ => h.resolveOneEntry word _

/-- The pool is built for the word. -/
theorem Inquires.resolveOneEntryFresh (word : SchemeVal) {pool : View (List SchemeVal)}
    (hpool : J _ pool) : J _ (resolveOneEntryFresh word pool) :=
  h.bind hpool fun _ => h.resolveOneEntryOrRefresh word _ hpool

/-- A word is resolved in the default pool. -/
theorem Inquires.resolveOne (word : SchemeVal) : J _ (resolveOne word) := by
  refine h.bind (h.lift _) fun _ => Closed.ite (h.pure _) ?_
  exact h.bind (h.resolveOneEntryFresh word h.defaultPool) fun _ => h.lift _

/-- A person is a h00man who is another. -/
theorem Inquires.resolvePerson (word : SchemeVal) : J _ (resolvePerson word) := by
  refine h.bind (h.resolveOneEntryFresh word (h.cachedRoomPool _)) fun _ => ?_
  refine h.bind (h.lift _) fun _ => h.bind (h.lift _) fun _ => Closed.ite ?_ ?_
  · exact h.bind (h.lift _) fun _ => h.throw _
  · exact Closed.ite (h.throw _) (h.pure _)

/-- What is in a container is asked of it. -/
theorem Inquires.resolveInContainer (word container : SchemeVal) :
    J _ (resolveInContainer word container) := by
  refine h.bind (h.lift _) fun _ => Closed.ite (h.pure _) ?_
  refine h.bind (h.containerContents container) fun _ => h.bind (h.lift _) fun hits => ?_
  split
  · exact h.noMatchError _
  · exact h.lift _
  · exact h.ambiguousError _ _

/-- The cached room is looked into first, and then the room that is asked. -/
theorem Inquires.resolveAgainstOrFalse (pool : Ctx → Except String (List SchemeVal))
    (word : SchemeVal) (keys : List String) : J _ (resolveAgainstOrFalse pool word keys) := by
  refine h.bind h.focus fun f => ?_
  split
  all_goals
    refine h.bind (by first | exact h.lift _ | exact h.pure _) fun _ => ?_
    refine h.bind (h.lift _) fun _ => Closed.ite (h.pure _) ?_
    refine h.bind h.lookRoom fun _ => h.bind (h.rememberRoom _) fun snapshot => ?_
    split
    · exact h.bind (h.lift _) fun _ => h.lift _
    · exact h.bind (h.pure _) fun _ => h.lift _

/-- There is one hit, or an error. -/
theorem Inquires.resolveEntryAgainst (pool : Ctx → Except String (List SchemeVal))
    (word : SchemeVal) (keys : List String) : J _ (resolveEntryAgainst pool word keys) := by
  refine h.bind (h.resolveAgainstOrFalse pool word keys) fun hits => ?_
  split
  · exact h.noMatchError _
  · exact h.pure _
  · exact h.ambiguousError _ _

/-- To look for an exit is to look around. -/
theorem Inquires.resolveExitName (word : SchemeVal) : J _ (resolveExitName word) :=
  h.bind (h.resolveEntryAgainst exitPool word _) fun _ => h.lift _

/-- An exit is the room that it leads to. -/
theorem Inquires.resolveExit (word : SchemeVal) : J _ (resolveExit word) := by
  refine h.bind (h.lift _) fun _ => Closed.ite (h.pure _) ?_
  exact h.bind (h.resolveEntryAgainst exitPool word _) fun _ => h.lift _

/-- To drop something the containers in the inventory are looked into. -/
theorem Inquires.dropPool : J _ dropPool := by
  refine h.bind h.resolveInventoryPool fun inventory => ?_
  split
  · exact h.handPool
  · refine h.bind h.handPool fun _ => h.bind (h.mapM (fun entry => ?_) _) fun _ => h.pure _
    refine h.bind (h.lift _) fun _ => Closed.ite ?_ (h.pure _)
    refine h.tryCatch (h.bind (h.lift _) fun _ => ?_) fun _ => h.pure _
    exact h.bind (h.containerContents _) fun _ => h.pure _

/-- A container is in the room, in the hand or in the inventory. -/
theorem Inquires.dropContainerPool : J _ dropContainerPool :=
  h.bind (h.cachedRoomPool _) fun _ => h.bind h.dropPool fun _ => h.pure _

end Resolver

end Avatar

end Zscheme
