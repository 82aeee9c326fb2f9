import Zscheme.Context.Reply

/-!
# Sending a call

An actor call is sent as a *term*, the verb alone or a list of the verb and the arguments,
in a signed message (`send_actor`). It is answered by a term, `:ok` with a value or
`:error` with a reason. Both say all there is to say: the call is read back from its term
(`readTerm_term`), and the answer from its own (`decodeReply_replyTerm`).

DIDs, keys and messages (`ma_core`) are parameters.
-/

namespace Zscheme.Context

open Ciborium

/-! ## Terms -/

/-- The verb of a call, with a colon before it. -/
def atom (verb : String) : String := if verb.toList.head? = some ':' then verb else ":" ++ verb

/-- The term of a call: `cbor_val` of `send_actor`. -/
def term (verb : String) (args : List SchemeVal) : Value :=
  if args.isEmpty then .text (atom verb) else .array (.text (atom verb) :: listToCbor args)

/-- What a term asks for: the verb with its colon, and the arguments. -/
def readTerm : Value → Option (String × List SchemeVal)
  | .text verb => some (verb, [])
  | .array (.text verb :: args) => some (verb, cborToList args)
  | _ => none

/-- A term says which call it is. -/
theorem readTerm_term (verb : String) {args : List SchemeVal}
    (h : SchemeVal.OrderedList args) : readTerm (term verb args) = some (atom verb, args) := by
  rcases args with _ | ⟨x, args⟩
  · rfl
  · have hargs : cborToList (listToCbor (x :: args)) = x :: args := cborToList_toCbor _ h
    simp only [term, List.isEmpty_cons, Bool.false_eq_true, if_false, readTerm, hargs]

/-- The term of an answer. -/
def replyTerm : Except String SchemeVal → Value
  | .ok v => .array [.text ":ok", schemeValToCbor v]
  | .error reason => .array [.text ":error", .text reason]

/-- An answer arrives as it was given. -/
theorem decodeReply_replyTerm (c : Ipc.Codec Value) {answer : Except String SchemeVal}
    {payload : List UInt8} (hordered : ∀ v, answer = .ok v → v.Ordered)
    (h : c.encode (replyTerm answer) = some payload) :
    decodeReply c.decode payload = answer := by
  have hread := c.decode_encode _ _ h
  rcases answer with reason | v
  · exact decodeReply_error hread
  · rw [decodeReply_ok hread]
    exact congrArg Except.ok (cborToSchemeVal_toCbor v (hordered v rfl))

/-! ## Messages -/

/-- A signed message: what its receiver reads of it. -/
structure Signed where
  sender : String
  target : String
  contentType : String
  body : List UInt8
  deriving DecidableEq

/-- What messages are made with: this identity, and what `ma_core` does. -/
structure Sender (Key : Type) where
  /-- `our_did` -/
  ourDid : String
  /-- `signing_key_bytes` -/
  signingKeyBytes : List UInt8
  /-- `Did::validate_url` -/
  validateUrl : String → Except String Unit
  /-- `Did::try_from` and `with_fragment`: the DID-URL of a fragment of a DID. -/
  withFragment : String → String → Except String String
  /-- `SigningKey::from_private_key_bytes`, for a DID-URL. -/
  signingKey : String → List UInt8 → Except String Key
  /-- `into_writer` and `from_reader` -/
  codec : Ipc.Codec Value
  /-- The error of a value that is not encoded. -/
  encodeError : Value → String
  /-- `MESSAGE_TYPE_MESSAGE` -/
  messageType : String
  /-- `CONTENT_TYPE_TERM` -/
  contentTypeTerm : String
  /-- `Message::new`, if the message can be signed. -/
  sign : String → Signed → Key → Except String Unit

/-- Where a sequence of steps succeeds, each of them does. -/
theorem ok_of_bind {α β : Type} {x : Except String α} {f : α → Except String β} {b : β}
    (h : (x >>= f) = .ok b) : ∃ a, x = .ok a ∧ f a = .ok b := by
  rcases x with e | a
  · cases h
  · exact ⟨a, rfl, h⟩

variable {Key : Type} (sender : Sender Key)

namespace Sender

/-- `sender_url` -/
def senderUrl (fragment : String) : Except String String :=
  sender.withFragment sender.ourDid fragment

/-- `build_signing_key` -/
def buildSigningKey (fragment : String) : Except String (String × Key) := do
  let url ← sender.senderUrl fragment
  let key ← sender.signingKey url sender.signingKeyBytes
  return (url, key)

/-- `into_writer` -/
def intoWriter (x : Value) : Except String (List UInt8) :=
  match sender.codec.encode x with
  | some body => .ok body
  | none => .error (sender.encodeError x)

/-- `send_actor`, up to the message that goes on the wire. -/
def sendActor (target verb : String) (args : List SchemeVal) : Except String Signed := do
  sender.validateUrl target
  let (url, key) ← sender.buildSigningKey "inbox"
  let body ← sender.intoWriter (term verb args)
  let msg : Signed := ⟨url, target, sender.contentTypeTerm, body⟩
  sender.sign sender.messageType msg key
  return msg

/-- What goes on the wire is the term of the call, to its target. -/
theorem sendActor_ok {target verb : String} {args : List SchemeVal} {msg : Signed}
    (h : sender.sendActor target verb args = .ok msg) :
    msg.target = target ∧ sender.codec.encode (term verb args) = some msg.body := by
  obtain ⟨⟨⟩, -, h⟩ := ok_of_bind h
  obtain ⟨⟨url, key⟩, -, h⟩ := ok_of_bind h
  obtain ⟨body, hbody, h⟩ := ok_of_bind h
  obtain ⟨⟨⟩, -, h⟩ := ok_of_bind h
  obtain rfl := Except.ok.inj h
  refine ⟨rfl, ?_⟩
  simp only [intoWriter] at hbody
  split at hbody
  · next hencode => exact hencode.trans (congrArg some (Except.ok.inj hbody))
  · cases hbody

end Sender

end Zscheme.Context
