import Zscheme.Runtime

/-!
# Trigger rules

How the words of `add-trigger` become the arguments of the trigger actor's verb:
the DID and the condition are taken off the front, and the text, prose with spans
in parentheses, is cut into its parts. Nothing here evaluates a span.
-/

namespace Zscheme

namespace Avatar

open Prim Stdlib Zscheme.Runtime

variable [Evaluator]

/-- `trigger-usage` -/
def triggerUsage : String :=
  "usage: add-trigger <id> <counter> [did <did>] [once|count N|every N|within S] " ++
    "<narrate|narrate_to|method> <text...>"

/-- `trigger-prefix?` -/
def triggerPrefix? (s p : String) : Except String Bool := do
  if stringLength p ≤ stringLength s then return (← substring s 0 (stringLength p)) = p
  else return false

/-- The word is at least two bytes long and stands between these two. -/
def enclosed? (w opening closing : String) : Except String Bool := do
  if 2 ≤ stringLength w then
    if ← triggerPrefix? w opening then
      return (← substring w (stringLength w - 1) (stringLength w)) = closing
    else return false
  else return false

mutual

/-- `span->form`. A span inside a span is shorter than it. -/
def spanToForm : Nat → String → Except String SchemeVal
  | 0, span => refuse "span->form" [span]
  | fuel + 1, span => do
    match ← stringSplit span " " with
    | [] => throw "empty trigger expression"
    | head :: words =>
      if head = "" then throw "empty trigger expression"
      else return .list (.str (":" ++ head) :: (← spanArgsToValues fuel words))

/-- `span-arg->value` of each word. -/
def spanArgsToValues : Nat → List String → Except String (List SchemeVal)
  | _, [] => .ok []
  | 0, w :: _ => refuse "span-arg->value" [w]
  | fuel + 1, w :: words => do
    return (← spanArgToValue fuel w) :: (← spanArgsToValues fuel words)

/-- `span-arg->value` -/
def spanArgToValue : Nat → String → Except String SchemeVal
  | 0, w => refuse "span-arg->value" [w]
  | fuel + 1, w => do
    if ← enclosed? w "\"" "\"" then return .str (← substring w 1 (stringLength w - 1))
    else if ← enclosed? w "(" ")" then spanToForm fuel (← substring w 1 (stringLength w - 1))
    else if ← triggerPrefix? w ":" then return .str w
    else match ← stringToNumber w with
      | some n => return n
      | none => throw ("invalid trigger expression token: " ++ w)

end

/-- The loop of `prose->parts`. Each turn consumes an opening parenthesis. -/
def proseToPartsLoop : Nat → String → List SchemeVal → Except String (List SchemeVal)
  | 0, rest, _ => refuse "prose->parts" [rest]
  | fuel + 1, rest, acc =>
    match stringIndex rest "(" with
    | none => .ok (if rest = "" then acc.reverse else (.str rest :: acc).reverse)
    | some opening => do
      let before ← substring rest 0 opening
      let tail ← substring rest (opening + 1) (stringLength rest)
      match stringIndex tail ")" with
      | none => throw "unbalanced ( in trigger text"
      | some close =>
        let span ← substring tail 0 close
        let after ← substring tail (close + 1) (stringLength tail)
        let acc := if before = "" then acc else .str before :: acc
        proseToPartsLoop fuel after ((← spanToForm (2 * stringLength span + 2) span) :: acc)

/-- `prose->parts` -/
def proseToParts (text : String) : Except String (List SchemeVal) :=
  proseToPartsLoop (stringLength text + 1) text []

/-- `avatar-did`, `none` standing for `#f`. -/
def avatarDid : List SchemeVal → Option (SchemeVal × List SchemeVal)
  | keyword :: did :: tail => if keyword = "did" then some (did, tail) else none
  | _ => none

/-- `avatar-condition`, `none` standing for `#f`. -/
def avatarCondition : List SchemeVal → Except String (Option (List SchemeVal × List SchemeVal))
  | [] => refuse "car" [.list []]
  | keyword :: tail =>
    if keyword = "once" then .ok (some (["once"], tail))
    else match tail with
      | [] => .ok none
      | n :: tail =>
        if keyword = "count" ∨ keyword = "every" ∨ keyword = "within" then do
          return (← stringToNumber n).map fun n => ([keyword, n], tail)
        else .ok none

/-- `parse-trigger-rule` -/
def parseTriggerRule : List SchemeVal → Except String (List SchemeVal)
  | id :: counter :: tail => do
    let (didArgs, tail) := match avatarDid tail with
      | some (did, tail) => (["did", did], tail)
      | none => ([], tail)
    let (condArgs, tail) := match ← avatarCondition tail with
      | some (args, tail) => (args, tail)
      | none => (["every", .int 1], tail)
    match tail with
    | [] => refuse "car" [.list []]
    | method :: textWords =>
      let parts ← proseToParts (← joinWords textWords)
      if parts.isEmpty then throw triggerUsage
      else return [id, counter] ++ didArgs ++ condArgs ++ method :: parts
  | _ => .error triggerUsage

end Avatar

end Zscheme
