import Zscheme.Lib.Cbor

/-!
# Messages of the IPC protocol

What a frontend sends to the daemon (`Request`) and what the daemon sends back
(`Response`), with their encodings as the derived `Serialize` and `Deserialize` give
them: a variant without fields is the text of its name, one with fields a map from
its name to the map of its fields.
-/

namespace Zscheme.Ipc

/-- Frontend to daemon. -/
inductive Request
  /-- Version handshake; must be the first request on a connection. -/
  | hello (version : String)
  /-- Evaluate Scheme source, in the shared session environment or in the isolated
      environment of the connection. -/
  | eval (id : UInt64) (source : String) (isolated : Bool)
  /-- Liveness check. -/
  | ping
  /-- Ask the daemon to shut down gracefully. -/
  | stop
  /-- Re-initialise the shared session environment. -/
  | reset
  /-- Serialise the shared session environment to Scheme source. -/
  | dumpEnv
  deriving DecidableEq

/-- The outcome of an evaluation: `ok none` means that the result was nil, and an
    error carries a formatted message. -/
abbrev Outcome := Except String (Option String)

/-- Daemon to frontend. -/
inductive Response
  /-- Handshake reply. -/
  | helloAck (version did : String)
  /-- `(display …)` output produced while evaluating the request `id`. -/
  | display (id : UInt64) (text : String)
  /-- Final outcome of the request `id`. -/
  | evalResult (id : UInt64) (outcome : Outcome)
  /-- Reply to `ping`. -/
  | pong
  /-- Acknowledgement of `stop`. -/
  | stopping
  /-- Acknowledgement of `reset`. -/
  | resetDone
  /-- Reply to `dumpEnv`: the session environment as Scheme source. -/
  | envDump (source : String)
  deriving DecidableEq

/-! ## Encodings -/

/-- A variant with fields. -/
def variant (name : String) (fields : List (Cbor × Cbor)) : Cbor :=
  .map [(.text name, .map fields)]

/-- The encoding of a request. -/
def Request.toCbor : Request → Cbor
  | hello version => variant "Hello" [(.text "version", .text version)]
  | eval id source isolated => variant "Eval"
      [(.text "id", .uint id), (.text "source", .text source), (.text "isolated", .bool isolated)]
  | ping => .text "Ping"
  | stop => .text "Stop"
  | reset => .text "Reset"
  | dumpEnv => .text "DumpEnv"

/-- The request with a given encoding. -/
def Request.ofCbor : Cbor → Option Request
  | .map [(.text "Hello", .map [(.text "version", .text version)])] => some (hello version)
  | .map [(.text "Eval", .map [(.text "id", .uint id), (.text "source", .text source),
      (.text "isolated", .bool isolated)])] =>
    some (eval id source isolated)
  | .text "Ping" => some ping
  | .text "Stop" => some stop
  | .text "Reset" => some reset
  | .text "DumpEnv" => some dumpEnv
  | _ => none

theorem Request.ofCbor_toCbor (r : Request) : ofCbor r.toCbor = some r := by
  cases r <;> rfl

/-- The encoding of an outcome. -/
def Outcome.toCbor : Outcome → Cbor
  | .ok none => .map [(.text "Ok", .null)]
  | .ok (some s) => .map [(.text "Ok", .text s)]
  | .error e => .map [(.text "Err", .text e)]

/-- The outcome with a given encoding. -/
def Outcome.ofCbor : Cbor → Option Outcome
  | .map [(.text "Ok", .null)] => some (.ok none)
  | .map [(.text "Ok", .text s)] => some (.ok (some s))
  | .map [(.text "Err", .text e)] => some (.error e)
  | _ => none

theorem Outcome.ofCbor_toCbor (o : Outcome) : ofCbor (toCbor o) = some o := by
  match o with
  | .ok none => rfl
  | .ok (some _) => rfl
  | .error _ => rfl

/-- The encoding of a response. -/
def Response.toCbor : Response → Cbor
  | helloAck version did => variant "HelloAck"
      [(.text "version", .text version), (.text "did", .text did)]
  | display id text => variant "Display" [(.text "id", .uint id), (.text "text", .text text)]
  | evalResult id outcome => variant "EvalResult"
      [(.text "id", .uint id), (.text "outcome", Outcome.toCbor outcome)]
  | pong => .text "Pong"
  | stopping => .text "Stopping"
  | resetDone => .text "ResetDone"
  | envDump source => variant "EnvDump" [(.text "source", .text source)]

/-- The response with a given encoding. -/
def Response.ofCbor : Cbor → Option Response
  | .map [(.text "HelloAck", .map [(.text "version", .text version), (.text "did", .text did)])] =>
    some (helloAck version did)
  | .map [(.text "Display", .map [(.text "id", .uint id), (.text "text", .text text)])] =>
    some (display id text)
  | .map [(.text "EvalResult", .map [(.text "id", .uint id), (.text "outcome", outcome)])] =>
    (Outcome.ofCbor outcome).map (evalResult id)
  | .text "Pong" => some pong
  | .text "Stopping" => some stopping
  | .text "ResetDone" => some resetDone
  | .map [(.text "EnvDump", .map [(.text "source", .text source)])] => some (envDump source)
  | _ => none

theorem Response.ofCbor_toCbor (r : Response) : ofCbor r.toCbor = some r := by
  cases r with
  | evalResult id outcome =>
    show (Outcome.ofCbor (Outcome.toCbor outcome)).map (evalResult id) = _
    rw [Outcome.ofCbor_toCbor]
    rfl
  | _ => rfl

end Zscheme.Ipc
