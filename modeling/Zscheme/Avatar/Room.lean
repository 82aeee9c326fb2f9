import Zscheme.Runtime

/-!
# Room snapshots

What the avatar reads from a room's ctx: the pools of its children and exits, and
the texts the event library presents them with.
-/

namespace Zscheme

namespace Avatar

open Prim Stdlib Zscheme.Runtime

variable [Evaluator]

/-! ## Pools -/

/-- `room-child-pool` -/
def roomChildPool (room : Ctx) : List SchemeVal :=
  eventListValues ((room.get? "children").getD .nil)

/-- The children whose kind is one of `kinds`. -/
def roomChildKindsPool (room : Ctx) (kinds : List String) : Except String (List SchemeVal) :=
  (roomChildPool room).filterM fun entry => do
    return kinds.any (.str · = (← mapRef entry "kind" ""))

/-- `person-pool` -/
def personPool (room : Ctx) : Except String (List SchemeVal) := roomChildKindsPool room ["h00man"]

/-- `occupant-pool` -/
def occupantPool (room : Ctx) : Except String (List SchemeVal) :=
  roomChildKindsPool room ["agent", "h00man"]

/-- `thing-pool` -/
def thingPool (room : Ctx) : Except String (List SchemeVal) :=
  roomChildKindsPool room ["thing", "container"]

/-- `trigger-pool` -/
def triggerPool (room : Ctx) : Except String (List SchemeVal) :=
  roomChildKindsPool room ["trigger"]

/-- `room-exits` -/
def roomExits (room : Ctx) : SchemeVal := (room.get? "exits").getD (.map [])

/-- `exit-pool` -/
def exitPool (room : Ctx) : Except String (List SchemeVal) := do
  (← mapKeys (roomExits room)).mapM fun name => do
    return .map (makeMap
      [("actor", ← mapRef (roomExits room) name (.bool false)), ("kind", "passage"),
        ("protocol", "/ma/passage/0.0.1"), ("name", name), ("nick", name)])

/-! ## Texts -/

/-- `event-who-name` -/
def eventWhoName (entry : SchemeVal) : Except String SchemeVal :=
  if entry.pair? then do return eventName (← car (← cdr entry)) else .ok (eventName entry)

/-- `event-exit-name` -/
def eventExitName : SchemeVal → SchemeVal
  | .map m => (Dict.get? m "name").getD (eventName (.map m))
  | exit => exit

/-- A line for each entry, after a title. -/
def appendLines (title : String) (entries : List SchemeVal)
    (render : SchemeVal → Except String SchemeVal) : Except String String :=
  entries.foldlM (fun text value => do stringAppend [text, "\n", ← render value]) title

/-- `event-list-lines` -/
def eventListLines (title : String) (values : SchemeVal)
    (render : SchemeVal → Except String SchemeVal) : Except String String :=
  let entries := eventListValues values
  if entries.isEmpty then .ok "" else appendLines title entries render

/-- `event-things-lines` -/
def eventThingsLines (title : String) (things : SchemeVal) (emptyText : String) :
    Except String String :=
  let entries := eventListValues things
  if entries.isEmpty then .ok (title ++ emptyText)
  else eventListLines (title ++ "Things:") (.list entries) fun v => .ok (eventName v)

/-- `event-exit-lines` -/
def eventExitLines (title : String) (exits : SchemeVal) : Except String String :=
  let entries := match exits with
    | .map m => m.map fun p => .str p.1
    | .list vs => vs
    | _ => []
  if entries.isEmpty then .ok "" else appendLines title entries fun v => .ok (eventExitName v)

/-- The text of `event-look`. -/
def lookText (room : Ctx) : Except String String := do
  let name := (room.get? "name").getD (eventName (.map room))
  let description := match (room.get? "description").getD "" with
    | .str text => "\n" ++ text
    | _ => ""
  let occupants ← occupantPool room
  let things ← thingPool room
  let exits ← exitPool room
  let triggers ← triggerPool room
  stringAppend
    [name, description,
      ← eventListLines "\nOccupants:" (.list occupants) fun v => .ok (eventName v),
      ← eventThingsLines "\n" (.list things) "The room appears to be empty.",
      ← eventExitLines "\nExits:" (.list exits),
      ← eventListLines "\nTriggers:" (.list triggers) fun v => .ok (eventName v)]

/-- The text of `event-inventory`. -/
def inventoryText (held : List SchemeVal) (container : Option SchemeVal)
    (contents : List SchemeVal) : Except String String := do
  let containerName := match container with
    | some (.map m) => eventName (.map m)
    | some v => v
    | none => .bool false
  let holding ← stringAppend ["holding ", match held with | v :: _ => eventName v | [] => "nothing"]
  let contained ←
    if container.isSome then
      let names ← contents.mapM fun v => asString "string-append" (eventName v)
      stringAppend ["\nthe equipped ", containerName, " contains ",
        if contents.isEmpty then "nothing" else stringJoin names ", "]
    else .ok ""
  return holding ++ contained ++ "\n"

end Avatar

end Zscheme
