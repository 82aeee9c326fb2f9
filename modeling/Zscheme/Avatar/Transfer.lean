import Zscheme.Avatar.Local

/-!
# Transfers

The procedures that move items between the hand, the inventory slot and the room:
the commands that ask an actor to move, the handshake in which it proposes this
avatar as its parent, and the slot bookkeeping in between.
-/

namespace Zscheme

namespace Avatar

open Prim Stdlib Zscheme.Runtime

/-! ## Slots -/

/-- A ctx in the hand, if it names an actor; without one the hand keeps what it
    held. -/
def Held.of? (ctx : Ctx) : Option Held :=
  match h : ctxActor ctx with
  | .str actor => some ⟨ctx, actor, h⟩
  | _ => none

/-- `held-clear!` -/
def heldClear! : Act Unit := modifySlots fun s => { s with held := none }

/-- `held-add!` -/
def heldAdd! (ctx : Ctx) : Act Unit :=
  modifySlots fun s => { s with held := (Held.of? ctx).or s.held }

/-- `(set! inv-entry ctx)` -/
def setInvEntry (ctx : Option Ctx) : Act Unit := modifySlots fun s => { s with invEntry := ctx }

/-- `(#.my.ctx.inv:)`, the delete form -/
def deleteInv : Act Unit := modifySlots fun s => { s with inv := none }

/-- `(set! equip-pending did)` -/
def setEquipPending (did : SchemeVal) : Act Unit :=
  modifySlots fun s => { s with equipPending := did }

/-- The held item names this actor. -/
def Slots.holds (s : Slots) (actor : SchemeVal) : Bool :=
  s.held.any fun h => .str h.actor = actor

variable [Host]

/-- `(#.my.ctx.inv: did)` -/
def setInv (did : SchemeVal) : Act Unit := do
  let inv ← liftM (Host.setPath (← getSlots).inv did)
  modifySlots fun s => { s with inv }

/-! ## Relocation -/

/-- `unknown-fragment-error?` -/
def unknownFragmentError? (failure : String) : Bool := stringContains failure "unknown entity"

/-- Frees the hand if it holds this actor. -/
def releaseHand! (actor : SchemeVal) : Act Unit := do
  if (← getSlots).holds actor then heldClear!

/-- Frees the inventory slot if it names this actor. -/
def releaseInventory! (actor : SchemeVal) : Act Unit := do
  if actor = (← myInvIfAny) then
    setInvEntry none
    deleteInv

/-- `forget-stale-slots!` -/
def forgetStaleSlots! (target : SchemeVal) : Act Unit := do
  releaseHand! target
  releaseInventory! target
  display (.str (← stringAppend [target, " no longer exists"]))

/-- The guarded part of `relocate-to-room!`. -/
def setParentToRoom! (target : SchemeVal) : Act Bool :=
  tryCatch (do
    let _ ← actorCall target "set-parent" [← room]
    return true)
    fun e => do
      if unknownFragmentError? e then
        forgetStaleSlots! target
        return false
      else throw e

/-- `relocate-to-room!` -/
def relocateToRoom! (target : SchemeVal) : Act Bool := do
  let _ ← actorCall (← room) "drop" [target]
  setParentToRoom! target

/-- `drop-held-to-room!` -/
def dropHeldToRoom! : Act Unit := do
  match (← getSlots).held with
  | some h =>
    if SchemeVal.str h.actor ≠ (← myInvIfAny) then
      let _ ← relocateToRoom! (.str h.actor)
  | none => pure ()

/-- `drop-target-to-room!` -/
def dropTargetToRoom! (target : SchemeVal) : Act Unit := do
  let _ ← relocateToRoom! target
  if target = (← myInvIfAny) then deleteInv

/-- Drops the previous container to the room, if it is another one. -/
def evictInventory! (did : SchemeVal) : Act Unit := do
  let old ← myInvIfAny
  if old.truthy ∧ old ≠ did then
    let _ ← relocateToRoom! old

/-- `book-inventory!` -/
def bookInventory! (did : SchemeVal) (ctx : Ctx) : Act Unit := do
  evictInventory! did
  setInvEntry (some ctx)
  setInv did
  display (.str (← stringAppend ["inventory set to ", did]))

/-- The cached ctx of the inventory, or one that names it. -/
def cachedInventoryCtx (inventory : SchemeVal) : View Ctx := do
  match (← getSlots).invEntry with
  | some entry => return entry
  | none => inventoryDisplayCtx inventory

/-- `unequip-to-hand!` -/
def unequipToHand! (inventory : SchemeVal) : Act Unit := do
  heldAdd! (← cachedInventoryCtx inventory)
  setInvEntry none
  deleteInv

/-! ## The handshake -/

/-- The proposal of the container that is being equipped. -/
def acceptEquip! (actor : SchemeVal) (ctx : Ctx) : Act Unit := do
  let _ ← actorCall actor "child" [.map ctx]
  setEquipPending (.bool false)
  releaseHand! actor
  bookInventory! actor ctx

/-- The proposal of an item that is to be dropped. -/
def acceptDrop! (actor : String) (ctx : Ctx) : Act Unit := do
  modifySlots fun s => { s with dropPending := s.dropPending.delete actor }
  let _ ← actorCall actor "child" [.map ctx]
  dropTargetToRoom! actor

/-- Any other proposal: the equipped container again, or an item for the hand. -/
def acceptHold! (actor : String) (ctx : Ctx) : Act Unit := do
  let _ ← actorCall actor "child" [.map ctx]
  if .str actor = (← myInvIfAny) then setInvEntry (some ctx) else heldAdd! ctx

/-- `handle-avatar-parent!` -/
def handleAvatarParent! (ctx : SchemeVal) : Act Unit := do
  let parent ← mapRef ctx "parent" ""
  let actor ← mapRef ctx "actor" ""
  let entry ← asMap "map-ref" ctx
  let self := SchemeVal.str Host.did
  let slots ← getSlots
  if actor = slots.equipPending ∧ parent = self then acceptEquip! actor entry
  else if parent = self then
    let key ← asString "map-ref" actor
    if ((slots.dropPending.get? key).getD (.bool false)).truthy then acceptDrop! key entry
    else acceptHold! key entry
  else releaseHand! actor

/-! ## Commands -/

/-- `hold-target!` -/
def holdTarget! (target : SchemeVal) : View SchemeVal := actorCall target "hold" []

/-- Asks a container for one of its items, and stores the id of the request. -/
def takeOut! (container item : SchemeVal) : View Unit := do
  pendingStoreIfId! (← actorCall container "take" [item])

/-- `take-usage` -/
def takeUsage : String := "usage: take <item...> [from <container...>]"

/-- `take` -/
def take (words : List SchemeVal) : Act SchemeVal := do
  -- A stale equip booking must never capture this command's :parent proposal.
  setEquipPending (.bool false)
  let (itemWords, containerWords) ← splitCommand! words "from" takeUsage false
  match containerWords with
  | some containerWords =>
    let description :=
      "could not take " ++ (← joinWords itemWords) ++ " from " ++ (← joinWords containerWords)
    withActionContext description do
      let container ← resolveOne (← joinWords containerWords)
      let item ← resolveInContainer (← joinWords itemWords) container
      dropHeldToRoom!
      takeOut! container item
      return .nil
  | none =>
    withActionContext ("could not take " ++ (← joinWords itemWords)) do
      let entry ← resolveOneEntryFresh (← joinWords itemWords) resolveRoomPool
      dropHeldToRoom!
      let _ ← holdTarget! (← entryActor entry)
      return .nil

/-- Unequips the old container, if there is one, into a hand that is freed first. -/
def unequipOld! : Act Unit := do
  let old ← myInvIfAny
  if old.truthy then
    dropHeldToRoom!
    unequipToHand! old

/-- Frees the hand, unless what it holds is the container to be equipped. -/
def freeHandFor! (did : SchemeVal) : Act Unit := do
  if !(← getSlots).holds did then dropHeldToRoom!

/-- The guarded part of `equip-propose!`. -/
def equipMove! (did : SchemeVal) (propose : View Unit) : Act Unit := do
  unequipOld!
  freeHandFor! did
  propose

/-- `equip-propose!` -/
def equipPropose! (did : SchemeVal) (propose : View Unit) : Act SchemeVal := do
  if did = (← myInvIfAny) then return .nil
  else
    let kind ← actorCall did "kind?" []
    if kind = "/ma/container/0.0.1" then
      setEquipPending did
      tryCatch (equipMove! did propose) fun e => do
        setEquipPending (.bool false)
        throw e
      return .nil
    else throw (← stringAppend ["invalid inventory kind: ", kind])

/-- `equip-pool` -/
def equipPool : View (List SchemeVal) := do
  return (← handPool) ++ (← resolveRoomPool)

/-- `equip-usage` -/
def equipUsage : String := "usage: equip <container...> [from <container...>]"

/-- `equip` -/
def equip (words : List SchemeVal) : Act SchemeVal := do
  let (itemWords, containerWords) ← splitCommand! words "from" equipUsage false
  match containerWords with
  | some containerWords =>
    let description :=
      "could not equip " ++ (← joinWords itemWords) ++ " from " ++ (← joinWords containerWords)
    withActionContext description do
      let source ← resolveOne (← joinWords containerWords)
      let item ← resolveInContainer (← joinWords itemWords) source
      equipPropose! item do let _ ← actorCall source "take" [item]
  | none =>
    withActionContext ("could not equip " ++ (← joinWords itemWords)) do
      let entry ← resolveOneEntryFresh (← joinWords itemWords) equipPool
      equipPropose! (← entryActor entry) do let _ ← holdTarget! (← entryActor entry)

/-- The rest words name this actor, among the candidates of a pool. -/
def matched? (rest : List SchemeVal) (actor : SchemeVal) (pool : View (List SchemeVal)) :
    View Bool :=
  if rest.isEmpty then return true
  else tryCatch (do return actor = (← resolveInGivenPool (← joinWords rest) (← pool)))
    fun _ => return false

/-- What could not be done, with what the rest words name. -/
def itOrRest (couldNot : String) (rest : List SchemeVal) : Except String String := do
  if rest.isEmpty then return couldNot ++ "it" else return couldNot ++ (← joinWords rest)

/-- `keep` -/
def keep (rest : List SchemeVal) : View SchemeVal := do
  match (← getSlots).held with
  | none => throw "you're not holding anything"
  | some h =>
    if !(← matched? rest h.actor handPool) then
      throw ("you're not holding " ++ (← joinWords rest))
    else
      withActionContext (← itOrRest "could not keep " rest) do
        let inventory ← myInvIfAny
        if !inventory.truthy then throw "no inventory equipped"
        else
          syncCarriedHere!
          pendingStoreIfId! (← actorCall h.actor "put" [inventory])
          return .nil

/-- `unequip` -/
def unequip (rest : List SchemeVal) : Act SchemeVal := do
  let inventory ← myInvIfAny
  if !inventory.truthy then throw "no inventory equipped"
  else if !(← matched? rest inventory resolveInventoryPool) then
    throw ((← joinWords rest) ++ " is not your equipped inventory")
  else
    withActionContext (← itOrRest "could not unequip " rest) do
      dropHeldToRoom!
      unequipToHand! inventory
      return .nil

/-- `find` -/
def find (did : SchemeVal) : Act SchemeVal := do
  setEquipPending (.bool false)
  if !(← startsWithDid? did) then throw "usage: find <did>"
  else
    withActionContext (← stringAppend ["could not find ", did]) do
      let parent ← actorCall did "parent?" []
      let inv ← myInvIfAny
      let here := parent = (← room)
      if here ∨ parent = .str Host.did ∨ (inv.truthy ∧ parent = inv) then
        dropHeldToRoom!
        let _ ← holdTarget! did
        display (← stringAppend ["You found ", ← actorCall did "name" [], "."])
        return .nil
      else throw "it's not here"

/-- `take-from` -/
def takeFrom (container name : SchemeVal) : Act SchemeVal := do
  withActionContext (← stringAppend ["could not take ", name, " from ", container]) do
    let source ← resolveOne container
    let item ← resolveInContainer name source
    dropHeldToRoom!
    takeOut! source item
    return .nil

/-- `drop-pool` -/
def dropPool : View (List SchemeVal) := do
  match ← resolveInventoryPool with
  | [] => handPool
  | container :: contents =>
    let hand ← handPool
    let nested ← contents.mapM fun entry => do
      if (← mapRef entry "kind" "") = "container" then
        tryCatch (do return .list (← containerContents (← entryActor entry)))
          fun _ => return SchemeVal.nil
      else return .nil
    return hand ++ (container :: contents ++ flattenList nested)

/-- `drop-container-pool` -/
def dropContainerPool : View (List SchemeVal) := do
  return (← resolveRoomPool) ++ (← dropPool)

/-- `(set! drop-pending (map-set drop-pending item #t))` -/
def setDropPending (item : SchemeVal) : Act Unit := do
  let key ← asString "map-set" item
  modifySlots fun s => { s with dropPending := s.dropPending.insert key (.bool true) }

/-- `(set! drop-pending (map-delete drop-pending item))` -/
def clearDropPending (item : SchemeVal) : Act Unit := do
  let key ← asString "map-delete" item
  modifySlots fun s => { s with dropPending := s.dropPending.delete key }

/-- `take-then-drop!` -/
def takeThenDrop! (container item : SchemeVal) : Act Unit := do
  setDropPending item
  tryCatch (takeOut! container item) fun e => do
    clearDropPending item
    throw e

/-- `drop-usage` -/
def dropUsage : String := "usage: drop [<item...>] [from <container...>]"

/-- `drop` -/
def drop (rest : List SchemeVal) : Act SchemeVal := do
  if rest.isEmpty then
    match (← getSlots).held with
    | none => throw "you're not holding anything"
    | some h =>
      withActionContext "could not drop it" do
        dropTargetToRoom! (.str h.actor)
        return .nil
  else
    let (itemWords, containerWords) ← splitCommand! rest "from" dropUsage false
    match containerWords with
    | some containerWords =>
      let description :=
        "could not drop " ++ (← joinWords itemWords) ++ " from " ++ (← joinWords containerWords)
      withActionContext description do
        let container ← resolveOneEntryFresh (← joinWords containerWords) dropContainerPool
        let item ← resolveInContainer (← joinWords itemWords) (← entryActor container)
        takeThenDrop! (← entryActor container) item
        return .nil
    | none =>
      withActionContext ("could not drop " ++ (← joinWords itemWords)) do
        let entry ← resolveOneEntryFresh (← joinWords itemWords) dropPool
        let target ← entryActor entry
        let parent ← mapRef entry "parent" (.bool false)
        if (← getSlots).holds target then dropTargetToRoom! target
        else if target = (← myInvIfAny) then dropTargetToRoom! target
        else if parent.string? then takeThenDrop! parent target
        else throw ("you're not holding " ++ (← joinWords itemWords))
        return .nil

/-- `forge-usage` -/
def forgeUsage : String := "usage: forge <kind> named <name...>"

/-- `forge` -/
def forge (kind : SchemeVal) (rest : List SchemeVal) : Act SchemeVal := do
  match rest with
  | keyword :: nameWords =>
    if keyword ≠ "named" then throw forgeUsage
    else
      let name ← joinWords nameWords
      if ← startsWithDid? name then throw "name must not be a DID or DID-URL"
      else
        dropHeldToRoom!
        let ctx := makeMap [("kind", kind), ("name", name)]
        display (← command (← room) "forge" [.map ctx])
        return .nil
  | [] => throw forgeUsage

end Avatar

end Zscheme
