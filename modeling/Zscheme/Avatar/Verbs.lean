import Zscheme.Avatar.Transfer
import Zscheme.Avatar.Trigger

/-!
# Verbs

The commands that resolve a word, make one ordinary actor call, and show or return
what comes back. None of them but `enter` and `roll-call` assigns a slot.
-/

namespace Zscheme

namespace Avatar

open Prim Stdlib Zscheme.Runtime

variable [Host]

/-! ## Looking -/

/-- `event-look` -/
def eventLook (room : Ctx) : View Unit := do display (.str (← lookText room))

/-- `look` without arguments. -/
def lookAround : View SchemeVal := do
  let snapshot ← rememberRoom! (← roomCall "look" [])
  match snapshot with
  | .map m => eventLook m
  | _ => display snapshot
  return .nil

/-- `look-entry` -/
def lookEntry (entry : SchemeVal) : View Unit := do
  let description := match ← mapRef entry "description" "" with
    | .str text => if text ≠ "" then "\n" ++ text else ""
    | _ => ""
  display (.str (← stringAppend [eventName entry, description]))

/-- The entry `look` shows for a DID-URL: one of the default pool, looked up once
    more in a fresh room. -/
def lookupDid (word : SchemeVal) : View (Option SchemeVal) := do
  match ← findEntryByActor word (← defaultPool) with
  | some entry => return some entry
  | none =>
    let _ ← rememberRoom! (← roomCall "look" [])
    liftM (findEntryByActor word (← defaultPool))

/-- `look` -/
def look (rest : List SchemeVal) : View SchemeVal := do
  if rest.isEmpty then lookAround
  else
    let word ← joinWords rest
    let entry ←
      if ← startsWithDid? word then lookupDid word
      else some <$> resolveOneEntryFresh word defaultPool
    match entry with
    | some entry =>
      let kind ← mapRef entry "kind" ""
      if kind = "container" ∨ kind = "passage" then
        display (← actorCall (← entryActor entry) "look" [])
      else lookEntry entry
    | none => throw (word ++ " is not here.")
    return .nil

/-! ## Movement and world-building -/

/-- `new-traverse-id` -/
def newTraverseId : View String := do liftM (numberToString (← random))

/-- `go-usage` -/
def goUsage : String := "usage: go <direction...>"

/-- `go` -/
def go (words : List SchemeVal) : View SchemeVal := do
  let tid ← newTraverseId
  let direction ← resolveExitName (← directionWords words goUsage)
  let ctx := makeMap [("traverseId", tid), ("direction", direction)]
  let _ ← roomCall "move" [.map ctx]
  return .nil

/-- Shows the room an `enter` ended in, or the reply that refused it. -/
def showEntry (result : SchemeVal) : View SchemeVal := do
  if result.map? then
    let _ ← lookAround
  else display result
  return .nil

/-- `enter-with-key` -/
def enterWithKey (target tid key : SchemeVal) : Act SchemeVal := do
  let ctx := makeMap
    [("did", .str Host.did), ("traverseId", tid), ("key", key), ("name", ← myName),
      ("nick", ← localString myNick (.str Host.did))]
  showEntry (← applyEntryCtx! (← actorCall target "enter" [.map ctx]))

/-- `enter` -/
def enter (target nick : SchemeVal) : Act SchemeVal := do
  let oldRoom ← tryCatch room fun _ => return .bool false
  let result ← applyEntryCtx! (← actorCall target "enter" [nick])
  if result.map? then
    if ← startsWithDid? oldRoom then
      if oldRoom ≠ (← room) then
        tryCatch (do let _ ← actorCall oldRoom "leave" []) fun _ => pure ()
  showEntry result

/-- `leave` -/
def leave : View SchemeVal := roomCall "leave" []

/-- `start-here` -/
def startHere : View SchemeVal := do
  let roomDid ← room
  if roomDid.string? then
    let _ ← roomCall "here" [roomDid]
  return .nil

/-- `dig-usage` -/
def digUsage : String :=
  "usage: dig <direction> [to <name...>] [back <direction>] [with <code>]\n" ++
    "       dig <passage-did-url> <name>"

/-- `show-dig-reply` -/
def showDigReply (reply : SchemeVal) : View SchemeVal := do
  match reply with
  | .list (head :: rest) =>
    if head = ":ok" then
      match rest with
      | payload :: _ => if payload.truthy ∧ payload ≠ "" then display payload
      | [] => pure ()
    else throw (Evaluator.errMsg reply)
  | .str text => if text ≠ ":ok" ∧ text ≠ "" then display reply
  | _ => if !reply.null? then throw (Evaluator.errMsg reply)
  return .nil

/-- `dig` -/
def dig (args : List SchemeVal) : View SchemeVal := do
  match args with
  | [] => throw digUsage
  | first :: rest =>
    if ← startsWithDid? first then
      match rest with
      | [] => throw digUsage
      | name :: more =>
        if !name.truthy || !more.isEmpty then throw digUsage
        else if ← startsWithDid? name then throw "the exit name must not be a DID or DID-URL"
        else showDigReply (← roomCall "dig" [first, name])
    else showDigReply (← roomCall "dig" args)

/-- `fill-usage` -/
def fillUsage : String := "usage: fill <direction...>"

/-- `fill` -/
def fill (words : List SchemeVal) : View SchemeVal := do
  roomCall "fill" [.str (← directionWords words fillUsage)]

/-- `delve-usage` -/
def delveUsage : String := "usage: delve <direction...>"

/-- `delve` -/
def delve (words : List SchemeVal) : View SchemeVal := do
  let direction ← directionWords words delveUsage
  let target ← actorCall (← resolveExit direction) "to?" []
  if ← startsWithDid? target then display (← actorCall target "name?" [])
  else display "This exit leads nowhere."
  return .nil

/-! ## Objects -/

/-- `put-usage` -/
def putUsage : String := "usage: put <item...> in <container...>"

/-- `put` -/
def put (words : List SchemeVal) : View SchemeVal := do
  let (itemWords, containerWords) ← splitCommand! words "in" putUsage true
  let itemText ← joinWords itemWords
  let containerText ← joinWords (containerWords.getD [])
  withActionContext ("could not put " ++ itemText ++ " in " ++ containerText) do
    let pool ← defaultPool
    let item ← entryActor (← resolveOneEntryOrRefresh itemText pool defaultPool)
    let container ← entryActor (← resolveOneEntryOrRefresh containerText pool defaultPool)
    syncCarriedHere!
    pendingStoreIfId! (← actorCall item "put" [container])
    return .nil

/-- `recycle-usage` -/
def recycleUsage : String := "usage: recycle <object...> [in <container...>]"

/-- `recycle` -/
def recycle (words : List SchemeVal) : View SchemeVal := do
  let (objectWords, containerWords) ← splitCommand! words "in" recycleUsage false
  let objectText ← joinWords objectWords
  match containerWords with
  | some containerWords =>
    let containerText ← joinWords containerWords
    withActionContext ("could not recycle " ++ objectText ++ " in " ++ containerText) do
      let container ← resolveOne containerText
      let object ← resolveInContainer objectText container
      let _ ← command object "recycle" []
      return .nil
  | none =>
    withActionContext ("could not recycle " ++ objectText) do
      let _ ← command objectText "recycle" []
      return .nil

/-- `roll-call-seconds?` -/
def rollCallSeconds? (word : SchemeVal) : Except String Bool := do
  if word.number? then return true
  else if word.string? then return (← stringToNumber word).isSome
  else return false

/-- The word at this place from the end, if there are as many. -/
def lastWord (words : List SchemeVal) (k : Nat) : SchemeVal :=
  if k ≤ words.length then words.getD (words.length - k) .nil else .bool false

/-- `roll-call-split`. In the image of all four libraries, `take` is the command of
    that name, not the list procedure. -/
def rollCallSplit (words : List SchemeVal) : Act (SchemeVal × List SchemeVal) := do
  let n := words.length
  if lastWord words 1 = "end" then
    return (← take [.int (.ofNat (n - 1)), .list words], ["end"])
  else if (← rollCallSeconds? (lastWord words 1)) ∧ lastWord words 2 = "begin" then
    return (← take [.int (.ofNat (n - 2)), .list words], ["begin", lastWord words 1])
  else if lastWord words 1 = "begin" then
    return (← take [.int (.ofNat (n - 1)), .list words], ["begin"])
  else return (.list words, ["begin"])

/-- `roll-call` -/
def rollCall (words : List SchemeVal) : Act SchemeVal := do
  let (objectWords, phaseArgs) ← rollCallSplit words
  if objectWords.null? then display (← roomCall "roll-call" phaseArgs)
  else
    let object ← joinWords (← elements "map" objectWords)
    display (← command object "roll-call" phaseArgs)
  return .nil

/-- The room is asked to say, emote or narrate the words. -/
def roomSpeech (method : String) (words : List SchemeVal) : View SchemeVal := do
  let _ ← roomCall method [.str (← joinWords words)]
  return .nil

/-- `say` -/
def say : List SchemeVal → View SchemeVal := roomSpeech "say"

/-- `emote` -/
def emote : List SchemeVal → View SchemeVal := roomSpeech "emote"

/-- `narrate` -/
def narrate : List SchemeVal → View SchemeVal := roomSpeech "narrate"

/-! ## Triggers -/

/-- The symbol `:ok` as `trigger-actor-did` has it, without a quote: nothing binds it. -/
def unquotedOk : Except String SchemeVal := .error "undefined: :ok"

/-- `trigger-actor-did`, `none` standing for `#f`. -/
def triggerActorDid : View (Option String) := do
  let reply ← roomCall "trigger?" []
  if reply.pair? then
    if Evaluator.equal? (← car reply) (← unquotedOk) then
      match ← car (← cdr reply) with
      | .str did => return if did ≠ "none" then some did else none
      | _ => return none
    else return none
  else return none

/-- The error of a room without a trigger. -/
def noTrigger : String :=
  "no designated trigger for this room: set :prop trigger <did-url> first"

/-- `add-trigger` -/
def addTrigger (words : List SchemeVal) : View SchemeVal := do
  match ← triggerActorDid with
  | none => throw noTrigger
  | some trigger =>
    let _ ← actorCall trigger "trigger" (← parseTriggerRule words)
    return .nil

/-- `remove-trigger` -/
def removeTrigger (id : SchemeVal) : View SchemeVal := do
  match ← triggerActorDid with
  | none => throw noTrigger
  | some trigger =>
    display (← actorCall trigger "trigger" [id])
    return .nil

/-! ## Ownership -/

/-- `claim` -/
def claim (args : List SchemeVal) : View SchemeVal := do
  match args with
  | [object] =>
    let _ ← command object "claim" []
    return .nil
  | [object, secret] =>
    let _ ← command object "claim" [secret]
    return .nil
  | _ => throw "usage: claim <object> [secret]"

/-- `claim-secret` -/
def claimSecret : View String := do
  let a ← numberToString (← random)
  let b ← numberToString (← random)
  let c ← numberToString (← random)
  return a ++ "-" ++ b ++ "-" ++ c

/-- `give-usage` -/
def giveUsage : String := "usage: give <object...> to <person...>"

/-- `give` -/
def give (words : List SchemeVal) : View SchemeVal := do
  let (objectWords, personWords) ← splitCommand! words "to" giveUsage true
  let objectText ← joinWords objectWords
  let objectEntry ← resolveOneEntryFresh objectText defaultPool
  let object ← entryActor objectEntry
  let recipient ← resolvePerson (← joinWords (personWords.getD []))
  if (← bareDid? object) || !(← startsWithDid? object) then
    throw ("\"" ++ objectText ++ "\" is not an object.")
  else
    let token ← claimSecret
    let persons ← match (← getFocus).lastRoom with
      | some r => personPool r
      | none => refuse "map-ref" [.bool false]
    let giverEntry ← candidateForDid persons (.str Host.did)
    let message ← stringAppend
      [eventName giverEntry, " wants to give you ", eventName objectEntry,
        ". Accept with: claim ", object, " ", token]
    let _ ← actorCall object "set-recovery-secret" [token]
    let sent ← msgSend recipient message
    if okReply? sent then return .nil else throw (Evaluator.errMsg sent)

/-- `owner` -/
def owner (name : SchemeVal) : View SchemeVal := do
  display (← command name "owner?" [])
  return .nil

/-- `lock-usage` -/
def lockUsage : String := "usage: lock <target...> [with <secret>]"

/-- `unlock-usage` -/
def unlockUsage : String := "usage: unlock <target...> [with <secret>]"

/-- `lock-rpc!` -/
def lockRpc! (usage verb : String) (words : List SchemeVal) : View SchemeVal := do
  let (targetWords, secretWords) ← splitCommand! words "with" usage false
  let target ← joinWords targetWords
  let args ← match secretWords with
    | some secretWords => do pure [SchemeVal.str (← joinWords secretWords)]
    | none => pure []
  let entry ← resolveOneEntryFresh target defaultPool
  display (← actorCall (← entryActor entry) verb args)
  return .nil

/-- `lock` -/
def lock : List SchemeVal → View SchemeVal := lockRpc! lockUsage "lock"

/-- `unlock` -/
def unlock : List SchemeVal → View SchemeVal := lockRpc! unlockUsage "unlock"

/-- `remove` -/
def remove (words : List SchemeVal) : View SchemeVal := do
  if words.isEmpty then throw "usage: remove <child...>"
  else
    display (← roomCall "remove" [.str (← joinWords words)])
    return .nil

/-! ## Requests to an actor -/

/-- `display-reply` -/
def displayReply (reply : SchemeVal) : View SchemeVal := do
  let payload ←
    if ok? reply then pure .nil else if okReply? reply then liftM (cdr reply) else pure reply
  if !payload.null? then display payload
  return reply

/-- `tell-usage` -/
def tellUsage : String := "usage: tell <target...> to <verb> [args...]"

/-- `tell` -/
def tell (words : List SchemeVal) : View SchemeVal := do
  let (targetWords, afterTo) ← splitCommand! words "to" tellUsage true
  match afterTo with
  | some (verb :: args) =>
    let _ ← displayReply (← command (← joinWords targetWords) verb args)
    return .nil
  | _ => liftM (refuse "car" [.bool false])

/-- `prop` -/
def prop (target key : SchemeVal) (valueWords : List SchemeVal) : View SchemeVal := do
  let _ ← displayReply (← command target "prop" (key :: valueWords))
  return .nil

/-- `prop-as-sugar` -/
def propAsSugar (propKey : String) (words : List SchemeVal) : View SchemeVal := do
  let usage := "usage: " ++ propKey ++ " <target...> as <value...>"
  let (targetWords, valueWords) ← splitCommand! words "as" usage true
  prop (← joinWords targetWords) propKey (valueWords.getD [])

/-- `name` -/
def name : List SchemeVal → View SchemeVal := propAsSugar "name"

/-- `describe` -/
def describe : List SchemeVal → View SchemeVal := propAsSugar "description"

/-- `nick` -/
def nick : List SchemeVal → View SchemeVal := propAsSugar "nick"

/-! ## Queries -/

/-- `did?` -/
def did? (rest : List SchemeVal) : View SchemeVal := do
  if rest.isEmpty then throw "usage: did? <name...>"
  else
    display (← resolveOne (← joinWords rest))
    return .nil

/-- `who?` -/
def who? : View SchemeVal := do
  let lines ← eventListLines "" (.list (← resolvePersonPool)) eventWhoName
  display ("Here:" ++ lines : String)
  return .nil

/-- `occupants?` -/
def occupants? : View SchemeVal := do
  let lines ← eventListLines "" (← roomCall "occupants?" []) fun v => .ok (eventName v)
  display ("Occupants:" ++ lines : String)
  return .nil

/-- `things?` -/
def things? : View SchemeVal := do
  let things ← roomCall "things?" []
  display (.str (← eventThingsLines "" things "The room appears to be empty."))
  return .nil

/-- `exits?` -/
def exits? : View SchemeVal := do
  let lines ← eventExitLines "" (← roomCall "exits?" [])
  display ("Exits:" ++ lines : String)
  return .nil

/-- `inv` -/
def inv (rest : List SchemeVal) : View SchemeVal := do
  if !rest.isEmpty then throw "usage: inv"
  else
    let inventory ← myInvIfAny
    let contents ← tryCatch
      (if inventory.truthy then containerContents inventory else return []) fun _ => return []
    let container ← if inventory.truthy then some <$> inventoryCtx inventory else pure none
    display (.str (← inventoryText (← handPool) container contents))
    return .nil

/-- The command list `help` shows. -/
def helpText : String :=
  "\n".intercalate [
    "go <direction...>       move through a named exit",
    "help                    show this command list",
    "help <name>             show usage for something here or in your inventory",
    "look                    show the current room",
    "look <name>             examine something here or in your inventory",
    "who?                    list who is here",
    "occupants?              list occupants here",
    "things?                 list things here",
    "exits?                  list exits here",
    "here?                   show the current room's address",
    "take <name>             pick up something here (drops current held item first)",
    "take <name> from <container>  take something out of a container",
    "take-from <container> <name>  take something out of a container",
    "equip <container> [from <container>]  carry a container as your inventory",
    "keep [<item>]           put the held item into your inventory",
    "unequip [<inventory>]   take the equipped container back into your hand",
    "find <did>              take a hidden object by DID if it's here, on you, or in your inventory",
    "drop                    drop what you're holding",
    "drop <item>             drop by name (held, or from your inventory)",
    "drop <item> from <container>  take it out of a container and drop it here",
    "put <item...> in <container...>  put something into a container",
    "recycle <object...> [in <container...>]  destroy something you own, inside a container if named",
    "roll-call [<target...>] [begin [secs]|end]  recount a node's children",
    "inv                     show what you're holding and what your equipped container holds",
    "prop <target> <key> [value...]  set a named prop on any actor",
    "name <target...> as <name...>   set the name prop",
    "describe <target...> as <text...>  set the description prop",
    "nick <target...> as <nick...>   set the nick prop",
    "say <text>              say something aloud",
    "emote <text>            perform an emote",
    "claim <name>            claim ownership of something",
    "owner <name>            show who owns something",
    "lock <target...> [with <secret>]  lock a container or room exit you own",
    "unlock <target...> [with <secret>]  unlock as owner, or with the lock secret",
    "remove <child...>       owner repairs a stale room child",
    "dig <direction> [to <name...>] [back <direction>]  create a two-ended exit",
    "dig <passage-did> <name>  rename this room's local exit",
    "fill <direction...>     remove an exit",
    "delve <direction...>    look through an exit at its destination",
    "forge <kind> named <name...>  create a new thing in your hand (drops current held item first)",
    "enter <target> <nick>   enter a room directly by address",
    "start-here              trigger the current room to cascade :here to its children",
    "leave                   leave the current room",
    "",
    "--- meta ---",
    "did? <name...>          resolve a visible name to its DID-URL for direct RPC"]

/-- `help` -/
def help (rest : List SchemeVal) : View SchemeVal := do
  if !rest.isEmpty then display (← command (← joinWords rest) "help" []) else display helpText
  return .nil

end Avatar

end Zscheme
