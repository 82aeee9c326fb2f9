import Zscheme.Lib.Program
import Zscheme.Runtime

/-!
# The avatar's world

The state the avatar and event libraries keep, and how their procedures reach the
outside. The *slots* are the variables that say what the avatar carries
(`held-item`, `inv-entry`, `.my.ctx.inv`), what it waits for (`equip-pending`,
`drop-pending`) and where it is (`.my.ctx.room`, `.my.ctx.nick`); the rest is its
*focus*: the cached room, the pending actions, and the trace of what it has sent and
shown.

A procedure that never assigns a slot is a `View`: it reads the slots, and its type
leaves it no way to change them. The others are `Act`s. Both only ever extend the
trace. The replies of the actors are a parameter (`Host.reply`), a function of
everything that went before.
-/

namespace Zscheme

namespace Avatar

open Prim Zscheme.Runtime

/-- What the avatar does outside its own state, and what comes back. -/
inductive Effect
  | call (actor method : String) (args : List SchemeVal) (reply : Except String SchemeVal)
  | display (text : String)
  | msgSend (target body : SchemeVal) (reply : Except String SchemeVal)
  | random (n : Int64)

/-- What the libraries run on: the evaluator, this avatar's identity and profile,
    and the actors. -/
class Host extends Evaluator where
  /-- `.my.identity.did` -/
  did : String
  /-- `.my.profile.name` -/
  profileName : Option SchemeVal
  /-- `.my.profile.description` -/
  profileDescription : Option SchemeVal
  /-- The addresses an actor call accepts. -/
  isActor : String → Bool
  /-- A law of the evaluator: an actor call accepts DIDs and DID-URLs only, and raises
      before it asks anyone if it is given another text. -/
  isActor_did : ∀ s, isActor s = true → startsWithDid? (.str s) = .ok true
  /-- What a local path holds once it is set to a value, from what it held before (`none`
      where it is not set). The value is read by the grammar of dot commands: a dot is a
      separator of paths, blanks around the value are dropped, an exclamation mark at the
      end calls a verb, and only texts are kept. -/
  setPath : Option SchemeVal → SchemeVal → Except String (Option SchemeVal)
  /-- A law of the local store: an address that can be called has no dot, no blank and no
      exclamation mark, so it is kept as it is. -/
  setPath_actor : ∀ old s, isActor s = true → setPath old (.str s) = .ok (some (.str s))
  /-- How an actor answers a method with arguments, after all that went before. -/
  reply : List Effect → String → String → List SchemeVal → Except String SchemeVal
  /-- The outcome of `msg-send`. -/
  msgSend : List Effect → SchemeVal → SchemeVal → Except String SchemeVal
  /-- The number `random` draws. -/
  random : List Effect → Int64

/-- A held item: a ctx that names an actor. -/
structure Held where
  /-- The ctx the item proposed itself with. -/
  ctx : Ctx
  /-- Its `entry-actor`. -/
  actor : String
  /-- The ctx names the actor. -/
  ctx_actor : ctxActor ctx = .str actor

/-- The slots; `none` stands for `#f`, or for a local path that is not set. -/
structure Slots where
  /-- `held-item` -/
  held : Option Held
  /-- `.my.ctx.inv` -/
  inv : Option SchemeVal
  /-- `inv-entry` -/
  invEntry : Option Ctx
  /-- `equip-pending` -/
  equipPending : SchemeVal
  /-- `drop-pending` -/
  dropPending : Dict String SchemeVal
  /-- `.my.ctx.room` -/
  room : Option SchemeVal
  /-- `.my.ctx.nick` -/
  nick : Option SchemeVal

/-- The rest of the state. -/
structure Focus where
  /-- `last-room` -/
  lastRoom : Option Ctx
  /-- `pending-actions` -/
  pendingActions : Dict String SchemeVal
  /-- What was done so far, the latest effect first. -/
  trace : List Effect

/-- The state of the avatar. -/
structure World where
  /-- What it carries and waits for, and where it is. -/
  slots : Slots
  /-- What it has seen and done. -/
  focus : Focus

instance : Preorder Focus where
  le f f' := f.trace <:+ f'.trace
  le_refl f := List.suffix_rfl
  le_trans _ _ _ := List.IsSuffix.trans

theorem Focus.le_of_trace {f f' : Focus} (h : f'.trace = f.trace) : f ≤ f' := ⟨[], h.symm⟩

instance : Preorder World where
  le w w' := w.focus ≤ w'.focus
  le_refl w := le_refl w.focus
  le_trans _ _ _ h h' := h.trans h'

/-- A procedure that leaves the slots alone. -/
abbrev View := ReaderT Slots (Program String Focus)

/-- A procedure that may assign the slots. -/
abbrev Act := Program String World

instance (priority := low) : MonadLift View Act where
  monadLift v := Program.zoom World.focus (fun w f => { w with focus := f }) (fun _ _ h => h)
    fun w => v w.slots

/-- The slots. -/
def getSlots : View Slots := read

/-- The focus. -/
def getFocus : View Focus := liftM (Program.get : Program String Focus Focus)

/-- Changes the focus, but for its trace. -/
def modifyFocus (f : Focus → Focus) (hf : ∀ x, (f x).trace = x.trace) : View Unit :=
  liftM (Program.update f fun x => Focus.le_of_trace (hf x) : Program String Focus Unit)

/-- Extends the trace. -/
def emit (e : Effect) : View Unit :=
  liftM (Program.update (fun f : Focus => { f with trace := e :: f.trace })
    (fun _ => List.suffix_cons _ _) : Program String Focus Unit)

/-- Changes the slots. -/
def modifySlots (f : Slots → Slots) : Act Unit :=
  Program.update (fun w => { w with slots := f w.slots }) fun w => le_refl w.focus

variable [Host]

/-- The value of a local path. -/
def localPath (path : String) : Option SchemeVal → View SchemeVal
  | some v => pure v
  | none => throw (Evaluator.unsetPath path)

/-- `actor-call` -/
def actorCall (actor method : SchemeVal) (args : List SchemeVal) : View SchemeVal := do
  let actor ← asString "string-append" actor
  let method ← asString "string-append" method
  if Host.isActor actor then
    let reply := Host.reply (← getFocus).trace actor method args
    emit (.call actor method args reply)
    liftM reply
  else throw (Evaluator.primError "apply" [.str (actor ++ ":" ++ method)])

/-- `display` -/
def display (v : SchemeVal) : View Unit := emit (.display (displayText v))

/-- `msg-send` -/
def msgSend (target body : SchemeVal) : View SchemeVal := do
  let reply := Host.msgSend (← getFocus).trace target body
  emit (.msgSend target body reply)
  liftM reply

/-- `random` -/
def random : View SchemeVal := do
  let n := Host.random (← getFocus).trace
  emit (.random n)
  return .int n

end Avatar

end Zscheme
