import Zscheme.Emacs.Codec
import Zscheme.Ipc.Message

/-!
# Responses in the Emacs frontend

What `ma-ipc.el` makes of a response of the daemon: `decode` gives a value, and
`response` turns the value into the property list of a frame (`Frame.plist`).

* `response_iff`: that works, with the fields that the daemon sent, if and only if the
  response has fields and its texts keep their line ends. A response without fields is
  sent as the text of its name, where `response` expects a map.
-/

namespace Zscheme.Emacs

open Lisp

/-- `ma-ipc--map-alist` -/
def mapAlist (value : Lisp) : Except Signal Lisp :=
  match value with
  | .cons (.sym ":map") alist => .ok alist
  | value => .error (.error "Expected CBOR map, got: %S" [value])

/-- `ma-ipc--alist-get` -/
def alistGet (key : String) (alist : Lisp) : Except Signal Lisp := do
  cdr (← assoc (.text key) alist)

/-- `ma-ipc--unwrap-option` -/
def unwrapOption (value : Lisp) : Except Signal Lisp :=
  match value with
  | .cons (.sym ":map") alist => do
    let variant ← car alist
    let name ← car variant
    if name = .text "Some" then cdr variant
    else if name = .text "None" then return .nil
    else return value
  | value => .ok value

/-- `ma-ipc--unwrap-result` -/
def unwrapResult (value : Lisp) : Except Signal Lisp := do
  let variant ← car (← mapAlist value)
  let name ← car variant
  let payload ← cdr variant
  if name = .text "Ok" then do
    return list [.sym ":ok", ← unwrapOption payload]
  else if name = .text "Err" then
    return list [.sym ":error", payload]
  else .error (.error "Unknown Result variant: %S" [name])

/-- `ma-ipc--response` -/
def response (value : Lisp) : Except Signal Lisp := do
  let variant ← car (← mapAlist value)
  let name ← car variant
  let payload ← cdr variant
  if name = .text "HelloAck" then do
    let fields ← mapAlist payload
    return list [.sym "hello-ack",
      .sym ":version", ← alistGet "version" fields,
      .sym ":did", ← alistGet "did" fields]
  else if name = .text "Display" then do
    let fields ← mapAlist payload
    return list [.sym "display",
      .sym ":id", ← alistGet "id" fields,
      .sym ":text", ← alistGet "text" fields]
  else if name = .text "EvalResult" then do
    let fields ← mapAlist payload
    return list [.sym "eval-result",
      .sym ":id", ← alistGet "id" fields,
      .sym ":outcome", ← unwrapResult (← alistGet "outcome" fields)]
  else if name = .text "Pong" then return list [.sym "pong"]
  else if name = .text "Stopping" then return list [.sym "stopping"]
  else if name = .text "ResetDone" then return list [.sym "reset-done"]
  else if name = .text "EnvDump" then do
    let fields ← mapAlist payload
    return list [.sym "env-dump", .sym ":source", ← alistGet "source" fields]
  else .error (.error "Unknown zscheme IPC response: %S" [name])

/-! ## The responses of the daemon -/

/-- What a response becomes in the frontend. -/
inductive Frame
  | helloAck (version did : String)
  | display (id : Nat) (text : String)
  | evalResult (id : Nat) (outcome : Ipc.Outcome)
  | pong
  | stopping
  | resetDone
  | envDump (source : String)
  deriving DecidableEq

/-- The frame that a response of the daemon is. -/
def frame : Ipc.Response → Frame
  | .helloAck version did => .helloAck version did
  | .display id text => .display id.toNat text
  | .evalResult id outcome => .evalResult id.toNat outcome
  | .pong => .pong
  | .stopping => .stopping
  | .resetDone => .resetDone
  | .envDump source => .envDump source

/-- The list that an outcome is. -/
def outcomeList : Ipc.Outcome → Lisp
  | .ok none => list [.sym ":ok", .nil]
  | .ok (some s) => list [.sym ":ok", .text s]
  | .error e => list [.sym ":error", .text e]

/-- The property list that a frame is. -/
def Frame.plist : Frame → Lisp
  | helloAck version did =>
    list [.sym "hello-ack", .sym ":version", .text version, .sym ":did", .text did]
  | display id text => list [.sym "display", .sym ":id", .int id, .sym ":text", .text text]
  | evalResult id outcome =>
    list [.sym "eval-result", .sym ":id", .int id, .sym ":outcome", outcomeList outcome]
  | pong => list [.sym "pong"]
  | stopping => list [.sym "stopping"]
  | resetDone => list [.sym "reset-done"]
  | envDump source => list [.sym "env-dump", .sym ":source", .text source]

/-- Whether a response has fields. -/
def HasFields : Ipc.Response → Prop
  | .helloAck .. | .display .. | .evalResult .. | .envDump _ => True
  | .pong | .stopping | .resetDone => False

/-- The texts in an outcome. -/
def outcomeTexts : Ipc.Outcome → List String
  | .ok none => []
  | .ok (some s) => [s]
  | .error e => [e]

/-- The texts in a response. -/
def texts : Ipc.Response → List String
  | .helloAck version did => [version, did]
  | .display _ text => [text]
  | .evalResult _ outcome => outcomeTexts outcome
  | .pong | .stopping | .resetDone => []
  | .envDump source => [source]

/-- The strings of a frame are the texts of its response. -/
theorem strings_plist (r : Ipc.Response) : (frame r).plist.strings = (texts r).map chars := by
  match r with
  | .helloAck .. | .display .. | .envDump _ | .pong | .stopping | .resetDone => rfl
  | .evalResult _ (.ok none) | .evalResult _ (.ok (some _)) | .evalResult _ (.error _) => rfl

/-- The value that stands for a response with fields becomes its property list. -/
theorem response_of_hasFields {r : Ipc.Response} (h : HasFields r) :
    ∃ v, lisp r.toCbor = some v ∧
      response (v.mapStrings decodeEol) = .ok ((frame r).plist.mapStrings decodeEol) := by
  match r with
  | .helloAck version did => exact ⟨_, rfl, rfl⟩
  | .display id text => exact ⟨_, rfl, rfl⟩
  | .evalResult id (.ok none) => exact ⟨_, rfl, rfl⟩
  | .evalResult id (.ok (some s)) => exact ⟨_, rfl, rfl⟩
  | .evalResult id (.error e) => exact ⟨_, rfl, rfl⟩
  | .envDump source => exact ⟨_, rfl, rfl⟩

/-- The value that stands for a response without fields is refused. -/
theorem response_of_not_hasFields {r : Ipc.Response} (h : ¬HasFields r) :
    ∃ v e, lisp r.toCbor = some v ∧ response (v.mapStrings decodeEol) = .error e := by
  match r with
  | .pong => exact ⟨_, _, rfl, rfl⟩
  | .stopping => exact ⟨_, _, rfl, rfl⟩
  | .resetDone => exact ⟨_, _, rfl, rfl⟩
  | .helloAck .. | .display .. | .evalResult .. | .envDump _ => exact absurd trivial h

/-- A response of the daemon becomes its property list if and only if it has fields and
    its texts keep their line ends. -/
theorem response_iff (r : Ipc.Response) (hlen : r.toCbor.encode.length ≤ mostPositiveFixnum) :
    (∃ value next, decode r.toCbor.encode 0 = .ok (value, next) ∧
        response value = .ok (frame r).plist) ↔
      HasFields r ∧ ∀ s ∈ texts r, KeepsLines (chars s) := by
  have hlen : r.toCbor.encode.length ≤ 2 ^ 61 - 1 := hlen
  have hdec {v : Lisp} (hv : lisp r.toCbor = some v) :
      decode r.toCbor.encode 0 = .ok (v.mapStrings decodeEol, r.toCbor.encode.length) := by
    simpa using decode_encode hv (by omega) []
  by_cases h : HasFields r
  · obtain ⟨v, hv, hr⟩ := response_of_hasFields h
    -- the value is the plist itself if no line end in it is converted
    have hkeeps : (frame r).plist.mapStrings decodeEol = (frame r).plist ↔
        ∀ s ∈ texts r, KeepsLines (chars s) := by
      simp only [mapStrings_eq_iff, strings_plist, decodeEol_eq_iff, List.forall_mem_map]
    rw [hdec hv, ← hkeeps]
    constructor
    · rintro ⟨value, next, hvalue, hr'⟩
      cases hvalue
      rw [hr] at hr'
      exact ⟨h, Except.ok.inj hr'⟩
    · rintro ⟨-, heq⟩
      exact ⟨_, _, rfl, heq ▸ hr⟩
  · obtain ⟨v, e, hv, hr⟩ := response_of_not_hasFields h
    refine iff_of_false ?_ fun h' => h h'.1
    rintro ⟨value, next, hvalue, hr'⟩
    rw [hdec hv] at hvalue
    cases hvalue
    rw [hr] at hr'
    cases hr'

/-- The result of an evaluation becomes its property list. -/
theorem response_evalResult :
    ∃ value next, decode (Ipc.Response.toCbor (.evalResult 7 (.ok (some "a\r\n\n")))).encode 0 =
        .ok (value, next) ∧
      response value = .ok (Frame.plist (.evalResult 7 (.ok (some "a\r\n\n")))) :=
  (response_iff (.evalResult 7 (.ok (some "a\r\n\n"))) (by decide +kernel)).2
    ⟨trivial, by decide +kernel⟩

/-- The reply to a ping is refused. -/
theorem response_pong :
    decode (Ipc.Response.toCbor .pong).encode 0 = .ok (.text "Pong", 5) ∧
      response (.text "Pong") = .error (.error "Expected CBOR map, got: %S" [.text "Pong"]) := by
  decide +kernel

end Zscheme.Emacs
