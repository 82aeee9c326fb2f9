import Zscheme.Avatar.Verbs

/-!
# Events

The event library: what the avatar does with the verbs that arrive unsolicited. A
handler that raises has its error shown; the event loop goes on.
-/

namespace Zscheme

namespace Avatar

open Prim Stdlib Zscheme.Runtime

variable [Host]

/-! ## The cached room -/

/-- Changes one entry of the children of the cached room, keyed by its actor. -/
def modifyRoomChild! (ctx : SchemeVal)
    (f : Dict String SchemeVal → String → Dict String SchemeVal) (prim : String) : View Unit := do
  match (← getFocus).lastRoom, ctx with
  | some r, .map m =>
    let actor := ctxActor m
    if actor.truthy then
      let children ← asMap prim ((r.get? "children").getD (.map []))
      let key ← asString prim actor
      let room : Ctx := r.insert "children" (.map (f children key))
      modifyFocus (fun x => { x with lastRoom := some room }) fun _ => rfl
  | _, _ => pure ()

/-- `room-child-upsert!` -/
def roomChildUpsert! (ctx : SchemeVal) : View Unit :=
  modifyRoomChild! ctx (fun children actor => children.insert actor ctx) "map-set"

/-- `room-child-remove!` -/
def roomChildRemove! (ctx : SchemeVal) : View Unit :=
  modifyRoomChild! ctx (fun children actor => children.delete actor) "map-delete"

/-- Shows the narration of a movement, by default the name and what it does. -/
def showMovement (ctx : SchemeVal) (does : String) : View Unit := do
  let text ← stringAppend [eventName ctx, does]
  match ctx with
  | .map m => display ((Dict.get? m "narrate").getD text)
  | _ => display text

/-- `event-arrive` -/
def eventArrive (ctx : SchemeVal) : View Unit := do
  roomChildUpsert! ctx
  showMovement ctx " arrives."

/-- `event-leave` -/
def eventLeave (ctx : SchemeVal) : View Unit := do
  roomChildRemove! ctx
  showMovement ctx " leaves."

/-- `event-child-ctx` -/
def eventChildCtx (ctx : SchemeVal) : View Unit := roomChildUpsert! ctx

/-- `event-child` -/
def eventChild (ctx : SchemeVal) : View Unit := do
  match ctx with
  | .map m => match Dict.get? m "parent-ctx" with
    | some (.map parent) =>
      if ((Dict.get? parent "children").getD (.bool false)).map? then
        let _ ← rememberRoom! (.map parent)
    | _ => pure ()
  | _ => pure ()

/-- Refreshes the cached room, if the room answers. -/
def refreshRoom : View Unit :=
  tryCatch (do let _ ← rememberRoom! (← roomCall "look" [])) fun _ => pure ()

/-- The ctx is this avatar's own. -/
def own? : SchemeVal → Except String Bool
  | .map m => do
    let did ← sameDidIdentity? ((Dict.get? m "did").getD (.bool false)) (.str Host.did)
    let actor ← sameDidIdentity? ((Dict.get? m "actor").getD (.bool false)) (.str Host.did)
    return did || actor
  | _ => .ok false

/-- `event-dig` -/
def eventDig (ctx direction : SchemeVal) : View Unit := do
  refreshRoom
  display (.str (← stringAppend [eventName ctx, " digs ", direction, "."]))
  if ← own? ctx then
    let _ ← go [direction]

/-- `event-fill` -/
def eventFill (ctx direction : SchemeVal) : View Unit := do
  refreshRoom
  display (.str (← stringAppend [eventName ctx, " fills ", direction, "."]))

/-! ## Speech -/

/-- `event-say` -/
def eventSay (ctx text : SchemeVal) : View Unit := do
  display (.str (← stringAppend [eventName ctx, ": ", text]))

/-- `event-emote` -/
def eventEmote (ctx text : SchemeVal) : View Unit := do
  display (.str (← stringAppend [eventName ctx, " ", text]))

/-! ## Personal events -/

/-- `event-action-done` -/
def eventActionDone (actionCtx : SchemeVal) : View Unit := do
  let id ← mapRef actionCtx "id" (.bool false)
  let status ← mapRef actionCtx "status" "ok"
  if id.truthy then pendingClear! id
  if status ≠ "ok" then
    display (.str (← stringAppend ["Failed: ", ← mapRef actionCtx "reason" "unknown"]))

/-- Follows a move that was not denied, if it names a room and a key for it. -/
def followMove (tid : String) (dest key : SchemeVal) : Act Unit := do
  if ← startsWithDid? dest then
    if key.string? then
      let _ ← enterWithKey dest tid key

/-- `event-move` -/
def eventMove (ctx : SchemeVal) : Act Unit := do
  match ctx with
  | .map m =>
    match Dict.get? m "traverseId", Dict.get? m "deny" with
    | some (.str _), some (.str deny) => display deny
    | some (.str tid), _ =>
      followMove tid ((Dict.get? m "exit").getD (.bool false))
        ((Dict.get? m "key").getD (.bool false))
    | _, _ => pure ()
  | _ => pure ()

/-- `event-nogo` -/
def eventNogo : SchemeVal → View Unit
  | .map m => match Dict.get? m "narrate" with
    | some (.str text) => display text
    | _ => pure ()
  | _ => pure ()

/-! ## Dispatch -/

/-- A handler of one argument. -/
def handler₁ (f : SchemeVal → Act Unit) : List SchemeVal → Act Unit
  | [a] => f a
  | args => liftM (refuse "apply" args : Except String Unit)

/-- A handler of two arguments. -/
def handler₂ (f : SchemeVal → SchemeVal → View Unit) : List SchemeVal → Act Unit
  | [a, b] => f a b
  | args => liftM (refuse "apply" args : Except String Unit)

/-- `event-handlers` -/
def eventHandlers : String → Option (List SchemeVal → Act Unit)
  | ":print" => some (handler₁ fun text => display text)
  | ":say" => some (handler₁ fun text => display text)
  | ":emote" => some (handler₁ fun text => display text)
  | ":child" => some (handler₁ fun ctx => eventChild ctx)
  | ":parent" => some (handler₁ handleAvatarParent!)
  | ":roll-call-child" => some fun _ => do let _ ← announceAvatarParent!
  | ":hold" => some fun _ => display "You refuse to be held."
  | ":put" => some fun _ => display "You refuse to be put into a container."
  | ":set-parent" => some fun _ => display "You refuse to be relocated."
  | ":put-event" => some (handler₁ fun ctx => eventActionDone ctx)
  | ":take-event" => some (handler₁ fun ctx => eventActionDone ctx)
  | ":move" => some (handler₁ fun ctx => eventMove ctx)
  | ":nogo" => some (handler₁ fun ctx => eventNogo ctx)
  | _ => none

/-- `room-event-handlers` -/
def roomEventHandlers : String → Option (List SchemeVal → Act Unit)
  | ":arrive" => some (handler₁ fun ctx => eventArrive ctx)
  | ":leave" => some (handler₁ fun ctx => eventLeave ctx)
  | ":child-ctx" => some (handler₁ fun ctx => eventChildCtx ctx)
  | ":say" => some (handler₂ eventSay)
  | ":emote" => some (handler₂ eventEmote)
  | ":narrate" => some (handler₁ fun text => display text)
  | ":dig" => some (handler₂ eventDig)
  | ":fill" => some (handler₂ eventFill)
  | _ => none

/-- `dispatch-event` -/
def dispatchEvent (handlers : String → Option (List SchemeVal → Act Unit))
    (event args : SchemeVal) : Act Unit := do
  let event ← asString "map-ref" event
  match handlers event with
  | some handler =>
    tryCatch (do handler (← elements "apply" args)) fun e =>
      display (.str ("event " ++ event ++ ": " ++ e))
  | none => pure ()

/-- `on-event` -/
def onEvent (event args : SchemeVal) : Act Unit :=
  if event = ":event" then
    match args with
    | .list (name :: rest) => dispatchEvent roomEventHandlers name (.list rest)
    | _ => dispatchEvent roomEventHandlers (.bool false) .nil
  else dispatchEvent eventHandlers event args

end Avatar

end Zscheme
