import Zscheme.Daemon.History
import Zscheme.Emacs.Frames
import Zscheme.Emacs.Request

/-!
# The Emacs frontend on a connection of the daemon

The frontend and the daemon together: the bytes that the frontend sends are read by the
daemon as requests, the responses of the daemon are written to the other stream, and
arrive at the filter of the frontend in chunks. Between these steps the daemon serves its
other connections, and a call of the frontend may run out of time.
-/

namespace Zscheme.Emacs

open Daemon (Conn Evaluator Exchange SessionStep)

/-! ## The two parties -/

/-- The frames that a request takes for its response. -/
def Request.predicate : Request → Predicate EvalState
  | eval id _ _ => evalPredicate id
  | _ => fun _ st => (true, st)

/-- What the call with a request returns once it has its response. -/
def Request.returns (f : Frame) (st : EvalState) : Request → Except Signal Lisp
  | hello _ =>
    match f with
    | .helloAck version did => .ok (Frame.helloAck version did).plist
    | f => .error (.error "Unexpected zscheme hello response: %S" [f.plist])
  | eval .. =>
    match st.result with
    | some outcome => returned outcome
    | none => .error (.error "Unexpected zscheme eval result: %S" [.nil])
  | _ => .ok f.plist

/-- A call that has ended. -/
structure Ended where
  request : Request
  reply : Except Signal Lisp
  /-- The texts that the display callback was called with. -/
  shown : List String
  deriving DecidableEq

/-- The frontend and the daemon. -/
structure Connection (κ Env Host Run : Type*) where
  daemon : Daemon.Session κ Env Host Run
  /-- What the frontend has sent. -/
  sent : List UInt8
  /-- How much of what the daemon has sent has arrived. -/
  arrived : Nat
  /-- `ma-ipc--buffer` -/
  buffer : List UInt8
  client : Client
  /-- The call that waits for its response. -/
  call : Option (Request × EvalState)
  /-- The calls that have ended, in order. -/
  ended : List Ended

/-- A step of one of the parties. -/
inductive Event (κ Input : Type*)
  | daemon (step : SessionStep κ Input)
  /-- The handshake of `ma-ipc-connect` is sent. -/
  | hello (version : String)
  /-- `ma-ipc-eval` is called. -/
  | eval (source : String) (isolated : Bool)
  /-- The filter gets a chunk, and pushes some frames. -/
  | arrive (chunk : List UInt8) (frames : List Frame)
  /-- A pass through the queue. -/
  | look
  /-- The time of the call runs out. -/
  | timeOut

namespace Connection

variable {κ Env Host Run Input Val : Type*} [DecidableEq κ]

/-- The bytes that the daemon writes on a connection. -/
def stream (s : Connection κ Env Host Run) (c : κ) : List UInt8 :=
  Ipc.writeAll Ipc.Response.codec (s.daemon.conn c).out

/-- The requests that the daemon can read. -/
def requests (s : Connection κ Env Host Run) : List Ipc.Request :=
  (Ipc.readFrames Ipc.Request.codec s.sent).1

/-- The start of a call: its request is sent. -/
def begin (s : Connection κ Env Host Run) (r : Request) : Connection κ Env Host Run :=
  match r.send with
  | .error e => { s with ended := s.ended ++ [⟨r, .error e, []⟩] }
  | .ok bytes => { s with sent := s.sent ++ bytes, call := some (r, ⟨[], none⟩) }

/-- A pass through the queue for a call. -/
def look (s : Connection κ Env Host Run) (r : Request) (st : EvalState) :
    Connection κ Env Host Run :=
  let scanned := scan r.predicate s.client.frames.reverse st
  let client := { s.client with frames := scanned.remaining }
  match scanned.found with
  | some f => { s with
      client
      call := none
      ended := s.ended ++ [⟨r, r.returns f scanned.state, scanned.state.shown⟩] }
  | none => { s with client, call := some (r, scanned.state) }

variable (version did : String) (ev : Evaluator Env Host Run Input Val) (c : κ)

/-- The steps of the daemon and of the frontend on its connection `c`. -/
def next (s : Connection κ Env Host Run) : Event κ Input → Option (Connection κ Env Host Run)
  | .daemon a =>
    if (s.daemon.conn c).requests ++ a.requests c <+: s.requests then
      (s.daemon.next version did ev a).map fun daemon => { s with daemon }
    else none
  | .hello v =>
    match s.call with
    | none => some (s.begin (.hello v))
    | some _ => none
  | .eval source isolated =>
    match s.call with
    | none =>
      let id := s.client.nextId
      some (begin { s with client := { s.client with nextId := id + 1 } }
        (.eval id source isolated))
    | some _ => none
  | .arrive chunk frames =>
    let input := (Filter.processFilter ⟨s.buffer, []⟩ chunk).1
    if chunk <+: (s.stream c).drop s.arrived ∧ input.items = (frames.map Frame.plist).reverse then
      some { s with
        arrived := s.arrived + chunk.length
        buffer := input.buffer
        client := { s.client with frames := frames.reverse ++ s.client.frames } }
    else none
  | .look => s.call.map fun call => s.look call.1 call.2
  | .timeOut => s.call.map fun call =>
    { s with call := none, ended := s.ended ++ [⟨call.1, .error timedOut, call.2.shown⟩] }

/-- The connection is open, and nothing has been sent. -/
def Initial (s : Connection κ Env Host Run) : Prop :=
  s.daemon.Initial ∧ s.sent = [] ∧ s.arrived = 0 ∧ s.buffer = [] ∧ s.client.frames = [] ∧
    s.call = none ∧ s.ended = []

/-- The frontend and the daemon, with their steps in any order. -/
def connection : System (Connection κ Env Host Run) (Event κ Input) where
  init := Initial
  next := next version did ev c

end Connection

/-! ## What arrives -/

section Arrive

open Zscheme.Emacs.Filter

/-- What is written for responses that are decoded. -/
theorem writeAll_eq {rs : List Ipc.Response} (h : ∀ r ∈ rs, Decoded r) :
    Ipc.writeAll Ipc.Response.codec rs = (rs.map daemonFrame).flatten := by
  induction rs with
  | nil => rfl
  | cons r rs ih =>
    obtain ⟨hr, hrs⟩ := List.forall_mem_cons.1 h
    have hlen : r.toCbor.encode.length < 2 ^ 32 := Nat.lt_of_le_of_lt hr.fits (by decide)
    have hwrite : Ipc.writeFrame Ipc.Response.codec r = .ok (daemonFrame r) :=
      Ipc.writeFrame_of_encode (if_pos (by omega)) hlen
    rw [Ipc.writeAll, hwrite, ih hrs]
    rfl

theorem chars_injective : Function.Injective chars := by
  intro s t h
  have hinj : Function.Injective LispChar.char := fun a b h => LispChar.char.inj h
  exact String.toList_inj.1 (List.map_injective_iff.2 hinj h)

theorem text_inj {s t : String} : Lisp.text s = .text t ↔ s = t :=
  ⟨fun h => chars_injective (Lisp.str.inj h), congrArg _⟩

theorem outcomeList_inj {o o' : Ipc.Outcome} : outcomeList o = outcomeList o' ↔ o = o' := by
  rcases o with e | _ | v <;> rcases o' with e' | _ | v' <;>
    simp [outcomeList, text_inj] <;> simp [Lisp.text]

/-- A frame is known by its property list. -/
theorem plist_injective : Function.Injective Frame.plist := by
  intro f g h
  cases f <;> cases g <;> simp_all [Frame.plist, text_inj, outcomeList_inj]

/-- From the first bytes of responses that are decoded, the filter takes those that are
    complete. -/
theorem drain_responses {rs : List Ipc.Response} (h : ∀ r ∈ rs, Decoded r) {bytes : List UInt8}
    (hp : bytes <+: (rs.map daemonFrame).flatten) :
    ∃ got more buffer, rs = got ++ more ∧ bytes = (got.map daemonFrame).flatten ++ buffer ∧
      turn buffer = .wait ∧
      reader.drain ⟨bytes, []⟩ = (⟨buffer, ((got.map frame).map Frame.plist).reverse⟩, none) := by
  have hturn : ∀ r ∈ rs, reader.turn (daemonFrame r) = .take (frame r).plist [] :=
    fun r hr => (Answer.ofResponse r (h r hr)).turn
  obtain ⟨got, more, buffer, hrs, hbytes, hwait, hdrain⟩ :=
    Reader.drain_prefix turn_nil hturn hp []
  refine ⟨got, more, buffer, hrs, hbytes, hwait, hdrain.trans ?_⟩
  rw [List.append_nil, List.map_map]
  rfl

end Arrive

end Zscheme.Emacs
