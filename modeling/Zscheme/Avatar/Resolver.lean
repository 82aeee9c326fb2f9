import Zscheme.Avatar.World
import Zscheme.Avatar.Room

/-!
# The resolver

How a typed word becomes the DID of one actor: the candidate pools (the cached
room, the hand, the equipped inventory and what it contains), the no-match and
ambiguity errors, and one refresh of the cached room on a miss. Nothing here
assigns a slot.
-/

namespace Zscheme

namespace Avatar

open Prim Stdlib Zscheme.Runtime

variable [Host]

/-! ## The room -/

/-- `room` -/
def room : View SchemeVal := do localPath ".my.ctx.room" (← getSlots).room

/-- `room-call` -/
def roomCall (method : SchemeVal) (args : List SchemeVal) : View SchemeVal := do
  actorCall (← room) method args

/-- `remember-room!` -/
def rememberRoom! (snapshot : SchemeVal) : View SchemeVal := do
  match snapshot with
  | .map m => modifyFocus (fun f => { f with lastRoom := some m }) fun _ => rfl
  | _ => pure ()
  return snapshot

/-- A pool of the cached room, or of a fresh one when there is none. -/
def cachedRoomPool (pool : Ctx → Except String (List SchemeVal)) : View (List SchemeVal) := do
  match (← getFocus).lastRoom with
  | some r => liftM (pool r)
  | none => match ← rememberRoom! (← roomCall "look" []) with
    | .map r => liftM (pool r)
    | _ => return []

/-! ## The inventory -/

/-- `my-inv-if-any` -/
def myInvIfAny : View SchemeVal :=
  tryCatch (do
    let existing ← localPath ".my.ctx.inv" (← getSlots).inv
    if ← startsWithDid? existing then return existing else return .bool false)
    fun _ => return .bool false

/-- `usable-inventory` -/
def usableInventory : View SchemeVal := do
  let inventory ← myInvIfAny
  if inventory.truthy then
    tryCatch (do
      if (← actorCall inventory "kind?" []) = "/ma/container/0.0.1" then return inventory
      else return .bool false)
      fun _ => return .bool false
  else return .bool false

/-- `inventory-display-ctx` -/
def inventoryDisplayCtx (inventory : SchemeVal) : View Ctx := do
  let name ← tryCatch (actorCall inventory "name" []) fun _ => return .bool false
  if name.string? ∧ name ≠ "" ∧ name ≠ "(none)" then
    return makeMap [("actor", inventory), ("name", name)]
  else return makeMap [("actor", inventory), ("name", inventory)]

/-- The ctx that names the inventory: the cached one while it matches. -/
def inventoryCtx (inventory : SchemeVal) : View SchemeVal := do
  match (← getSlots).invEntry with
  | some entry =>
    if ctxActor entry = inventory then return .map entry
    else return .map (← inventoryDisplayCtx inventory)
  | none => return .map (← inventoryDisplayCtx inventory)

/-- `container-contents` -/
def containerContents (container : SchemeVal) : View (List SchemeVal) := do
  return eventListValues (← actorCall container "contents?" [])

/-- `resolve-inventory-pool` -/
def resolveInventoryPool : View (List SchemeVal) := do
  let inv ← usableInventory
  if inv.truthy then
    let contents ← tryCatch (containerContents inv) fun _ => return []
    return (← inventoryCtx inv) :: contents
  else return []

/-! ## Pools -/

/-- `hand-pool` -/
def handPool : View (List SchemeVal) := do
  return ((← getSlots).held.map fun h => .map h.ctx).toList

/-- `resolve-room-pool` -/
def resolveRoomPool : View (List SchemeVal) :=
  cachedRoomPool fun r => do return roomChildPool r ++ (← exitPool r)

/-- `default-pool` -/
def defaultPool : View (List SchemeVal) := do
  return (← handPool) ++ ((← resolveRoomPool) ++ (← resolveInventoryPool))

/-- `resolve-person-pool` -/
def resolvePersonPool : View (List SchemeVal) := cachedRoomPool personPool

/-- `location-lookup-pool` -/
def locationLookupPool : View (List SchemeVal) := do
  let children := match (← getFocus).lastRoom with
    | some r => roomChildPool r
    | none => []
  return children ++ (← resolveInventoryPool)

/-! ## Errors -/

/-- The string a ctx has at a key, if it is not empty. -/
def textAt (ctx : Ctx) (key : String) : Option String :=
  match ctx.get? key with
  | some (.str text) => if text ≠ "" then some text else none
  | _ => none

/-- The name of a parent's entry; a node without a name shows its own DID, which is
    no name. -/
def parentName : Option SchemeVal → Option String
  | some (.map m) => (textAt m "name").filter fun name => ctxActor m ≠ .str name
  | _ => none

/-- `candidate-location`, `none` standing for `#f`. -/
def candidateLocation (entry : SchemeVal) : View (Option String) := do
  let parent ← mapRef entry "parent" (.bool false)
  if parent.string? then
    let parentEntry ← findEntryByActor parent (← locationLookupPool)
    match parentName parentEntry with
    | some name => return some name
    | none =>
      if (← myInvIfAny) = parent then return some "inventory"
      else
        let focus ← getFocus
        match focus.lastRoom with
        | some r =>
          return if (r.get? "actor").getD (.bool false) = parent then textAt r "name" else none
        | none => return none
  else return none

/-- `describe-candidate` -/
def describeCandidate (entry : SchemeVal) : View String := do
  let nick ← mapRef entry "nick" (.bool false)
  let nick := match nick with
    | .str nick => if nick ≠ "" then " \"" ++ nick ++ "\"" else ""
    | _ => ""
  let location ← candidateLocation entry
  let actor ← entryActor entry
  stringAppend
    [← mapRef entry "name" actor, nick, " (", actor, ")",
      match location with | some l => " in " ++ l | none => ""]

/-- `ambiguous-error` -/
def ambiguousError {α : Type} (word : SchemeVal) (candidates : List SchemeVal) : View α := do
  let title ← stringAppend
    ["\"", word, "\" matches more than one — repeat the command with a DID instead:"]
  let text ← candidates.foldlM (fun text candidate => do
    return text ++ "\n  " ++ (← describeCandidate candidate)) title
  throw text

/-- `no-match-error` -/
def noMatchError {α : Type} (word : SchemeVal) : View α := do
  throw (← stringAppend ["no match for \"", word, "\" here."])

/-! ## Resolution -/

/-- `resolve-one-entry` -/
def resolveOneEntry (word : SchemeVal) (pool : List SchemeVal) : View SchemeVal := do
  if ← startsWithDid? word then liftM (candidateForDid pool word)
  else match ← resolveRef word pool with
    | [] => noMatchError word
    | [did] => liftM (candidateForDid pool did)
    | hits => ambiguousError word (← hits.mapM fun did => liftM (candidateForDid pool did))

/-- `resolve-one-entry-or-refresh` -/
def resolveOneEntryOrRefresh (word : SchemeVal) (pool : List SchemeVal)
    (rebuild : View (List SchemeVal)) : View SchemeVal :=
  tryCatch (resolveOneEntry word pool) fun e =>
    if stringContains e "no match for" then do
      let _ ← rememberRoom! (← roomCall "look" [])
      resolveOneEntry word (← rebuild)
    else throw e

/-- `resolve-one-entry-fresh` -/
def resolveOneEntryFresh (word : SchemeVal) (pool : View (List SchemeVal)) : View SchemeVal := do
  resolveOneEntryOrRefresh word (← pool) pool

/-- `resolve-one` -/
def resolveOne (word : SchemeVal) : View SchemeVal := do
  if ← startsWithDid? word then return word
  else liftM (entryActor (← resolveOneEntryFresh word defaultPool))

/-- `resolve-in-given-pool` -/
def resolveInGivenPool (word : SchemeVal) (pool : List SchemeVal) : View SchemeVal := do
  liftM (entryActor (← resolveOneEntry word pool))

/-- `resolve-against-or-false` -/
def resolveAgainstOrFalse (pool : Ctx → Except String (List SchemeVal)) (word : SchemeVal)
    (keys : List String) : View (List SchemeVal) := do
  let pool1 ← match (← getFocus).lastRoom with
    | some r => liftM (pool r)
    | none => pure []
  let hit1 ← candidatesByKeys word pool1 keys
  if !hit1.isEmpty then return hit1
  else
    let pool2 ← match ← rememberRoom! (← roomCall "look" []) with
      | .map r => liftM (pool r)
      | _ => pure []
    liftM (candidatesByKeys word pool2 keys)

/-- `resolve-entry-against` -/
def resolveEntryAgainst (pool : Ctx → Except String (List SchemeVal)) (word : SchemeVal)
    (keys : List String) : View SchemeVal := do
  match ← resolveAgainstOrFalse pool word keys with
  | [] => noMatchError word
  | [entry] => return entry
  | candidates => ambiguousError word candidates

/-- `resolve-against` -/
def resolveAgainst (pool : Ctx → Except String (List SchemeVal)) (word : SchemeVal)
    (keys : List String) : View SchemeVal := do
  if ← startsWithDid? word then return word
  else liftM (entryActor (← resolveEntryAgainst pool word keys))

/-- `resolve-exit` -/
def resolveExit (word : SchemeVal) : View SchemeVal :=
  resolveAgainst exitPool word ["nick", "name"]

/-- `resolve-exit-name` -/
def resolveExitName (word : SchemeVal) : View SchemeVal := do
  liftM (mapRef (← resolveEntryAgainst exitPool word ["nick", "name"]) "name" word)

/-- `resolve-in-container` -/
def resolveInContainer (word container : SchemeVal) : View SchemeVal := do
  if ← startsWithDid? word then return word
  else match ← candidatesByKeys word (← containerContents container) ["nick", "name"] with
    | [] => noMatchError word
    | [entry] => liftM (entryActor entry)
    | candidates => ambiguousError word candidates

/-- `bare-did?` -/
def bareDid? (value : SchemeVal) : Except String Bool := do
  if ← startsWithDid? value then
    return !stringContains (← asString "string-index" value) "#"
  else return false

/-- `resolve-person` -/
def resolvePerson (word : SchemeVal) : View SchemeVal := do
  let entry ← resolveOneEntryFresh word resolvePersonPool
  let did ← entryActor entry
  if (← mapRef entry "kind" "") ≠ "h00man" then
    throw (← stringAppend ["\"", word, "\" is not a person."])
  else if did = .str Host.did then throw "you can't give something to yourself."
  else return did

/-- `command` -/
def command (object method : SchemeVal) (params : List SchemeVal) : View SchemeVal := do
  actorCall (← resolveOne object) method params

end Avatar

end Zscheme
