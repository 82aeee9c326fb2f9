import Zscheme.Avatar.Resolver

/-!
# Command grammar and local context

What the commands share: the split of their words at a reserved keyword, the
context put before an actor's error, the table of pending actions, and the locally
kept room and nick.
-/

namespace Zscheme

namespace Avatar

open Prim Stdlib Zscheme.Runtime

/-- `split-command!`: the words before the keyword and, where it occurs, those
    after it. -/
def splitCommand! [Evaluator] (words : List SchemeVal) (keyword usageText : String)
    (required? : Bool) : Except String (List SchemeVal × Option (List SchemeVal)) :=
  let before := wordsBeforeKeyword keyword words
  let after := wordsAfterKeyword keyword words
  if before.isEmpty || (required? && after.isNone) || after = some [] then .error usageText
  else .ok (before, after)

variable [Host]

/-- `with-action-context` -/
def withActionContext {m : Type → Type} [MonadExcept String m] {α : Type} (description : String)
    (thunk : m α) : m α :=
  tryCatch thunk fun e => throw (description ++ " — " ++ e)

/-- `pending-store!` -/
def pendingStore! (id : String) : View Unit :=
  modifyFocus (fun f => { f with pendingActions := f.pendingActions.insert id (.bool true) })
    fun _ => rfl

/-- `pending-clear!` -/
def pendingClear! (id : SchemeVal) : View Unit := do
  let id ← asString "map-delete" id
  modifyFocus (fun f => { f with pendingActions := f.pendingActions.delete id }) fun _ => rfl

/-- Stores the id an actor answered a request with, if it is one. -/
def pendingStoreIfId! (id : SchemeVal) : View Unit :=
  match id with
  | .str id => pendingStore! id
  | _ => pure ()

/-- `direction-words` -/
def directionWords (words : List SchemeVal) (usage : String) : Except String String := do
  let direction ← joinWords words
  if direction = "" then .error usage else .ok direction

/-- `(#.my.ctx.room: parent)` -/
def setRoom (parent : SchemeVal) : Act Unit := do
  let room ← liftM (Host.setPath (← getSlots).room parent)
  modifySlots fun s => { s with room }

/-- `(#.my.ctx.nick: nick)`, or the delete form. -/
def setNick (nick : Option String) : Act Unit := do
  let nick ← match nick with
    | some nick => liftM (Host.setPath (← getSlots).nick nick)
    | none => pure none
  modifySlots fun s => { s with nick }

/-- `apply-entry-ctx!`: keeps the parent of a ctx as the room, if it has one, and its nick
    or none. -/
def applyEntryCtx! (ctx : SchemeVal) : Act SchemeVal := do
  match ctx with
  | .map m =>
    let parent := (Dict.get? m "parent").getD (.bool false)
    if parent.truthy then setRoom parent
    setNick (textAt m "nick")
  | _ => pure ()
  return ctx

/-- `local-string` -/
def localString (thunk : View SchemeVal) (fallback : SchemeVal) : View SchemeVal := do
  let value ← tryCatch thunk fun _ => return .bool false
  return if value.string? ∧ value ≠ "" then value else fallback

/-- `.my.profile.name`, or what stands in for it. -/
def myName : View SchemeVal :=
  localString (localPath ".my.profile.name" Host.profileName) (.str Host.did)

/-- `.my.ctx.nick` -/
def myNick : View SchemeVal := do localPath ".my.ctx.nick" (← getSlots).nick

/-- `my-node-ctx` -/
def myNodeCtx : View Ctx := do
  let name ← myName
  let nick ← localString myNick name
  return makeMap
    [("actor", .str Host.did), ("did", .str Host.did), ("parent", ← room), ("kind", "h00man"),
      ("protocol", "/ma/agent/0.0.1"), ("name", name), ("nick", nick),
      ("description", ← localString (localPath ".my.profile.description" Host.profileDescription)
        "A direct DID presence.")]

/-- `announce-avatar-parent!` -/
def announceAvatarParent! : View SchemeVal := do
  let parent ← tryCatch room fun _ => return .bool false
  if ← startsWithDid? parent then
    let _ ← actorCall (← room) "parent" [.map (← myNodeCtx)]
  return .nil

/-- Tells a node where here is, whether or not it can be reached. -/
def tellHere (actor room : SchemeVal) : View Unit :=
  tryCatch (do let _ ← actorCall actor "here" [room]) fun _ => pure ()

/-- `sync-carried-here!` -/
def syncCarriedHere! : View Unit := do
  let room ← tryCatch room fun _ => return .bool false
  if ← startsWithDid? room then
    match (← getSlots).held with
    | some h => tellHere h.actor room
    | none => pure ()
    let inv ← myInvIfAny
    if inv.truthy then tellHere inv room

end Avatar

end Zscheme
