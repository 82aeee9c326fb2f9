import Mathlib.Logic.Function.Basic
import Zscheme.Ipc.Message
import Zscheme.Lib.System
import Zscheme.Scheme.Value

/-!
# Connections and their evaluations

How the daemon serves its connections (`handle_conn`): the requests of a connection
are handled one after the other, and the requests of different connections
interleave. An evaluation (`eval_request`) takes the lock, routes the output of
`display` to its connection through the one display sink of the process, and may
suspend at any actor call; other connections are served meanwhile. Every other
request is answered at once.

* `Session.inv_next`: what is sent on a connection is, for each of its requests in order,
  what its evaluation displayed and then its outcome (or the reply to it), and nothing
  of another connection's.
* `Session.requests_exec`: after any run, a connection has read the requests of its steps.

The evaluator (`ma_zscheme`) is a parameter: what it does between two suspensions is
one function of its state, the environment and the host.
-/

namespace Zscheme.Daemon

open Ipc

/-! ## The evaluator -/

/-- What an evaluation has done when it suspends or ends. -/
structure Progress (Env Host Run Val : Type*) where
  /-- The environment it evaluates in, as it left it. -/
  env : Env
  /-- The state of the host (configuration), as it left it. -/
  host : Host
  /-- The arguments of its calls of `display_output`, in order. -/
  displayed : List String
  /-- How it goes on, or its result. -/
  next : Run ⊕ Except SchemeErr Val

/-- The evaluator and its host context. -/
structure Evaluator (Env Host Run Input Val : Type*) where
  /-- `eval_source_in`, up to the first suspension. -/
  start : String → Env → Host → Progress Env Host Run Val
  /-- An evaluation that gets the reply it was suspended for, up to the next one. -/
  resume : Run → Env → Host → Input → Progress Env Host Run Val
  /-- `eval_dot`: the host after a dot command, what it displays and its result. -/
  evalDot : String → Host → Host × List String × Except SchemeErr Val
  /-- `init_session_env`: the environment of a new session. -/
  sessionEnv : Env
  /-- `Env::new_root`: the environment of a new isolated session. -/
  newRoot : Env
  dumpEnvSource : Env → String
  /-- The value is `Nil`. -/
  isNil : Val → Bool
  display : Val → String

/-- `format_scheme_err`. -/
def formatSchemeErr : SchemeErr → String
  | .runtime msg => "error: " ++ msg
  | .maError msg => "ma error: " ++ msg
  | .undefined sym => "undefined: " ++ sym
  | .arity name expected got => name ++ ": expected " ++ expected ++ " args, got " ++ got
  | .parseError msg => "parse error: " ++ msg

/-- What `eval_request` makes of the result of an evaluation. -/
def Evaluator.outcome {Env Host Run Input Val : Type*} (ev : Evaluator Env Host Run Input Val) :
    Except SchemeErr Val → Outcome
  | .ok val => if ev.isNil val then .ok none else .ok (some (ev.display val))
  | .error e => .error (formatSchemeErr e)

/-! ## Dot commands -/

/-- `char::is_whitespace`. -/
def isWhitespace (c : Char) : Bool :=
  (0x09 ≤ c.val && c.val ≤ 0x0d) || c.val = 0x20 || c.val = 0x85 || c.val = 0xa0 ||
    c.val = 0x1680 || (0x2000 ≤ c.val && c.val ≤ 0x200a) || c.val = 0x2028 || c.val = 0x2029 ||
    c.val = 0x202f || c.val = 0x205f || c.val = 0x3000

/-- `str::trim`, on the characters of the string. -/
def trim (s : String) : List Char :=
  ((s.toList.dropWhile isWhitespace).reverse.dropWhile isWhitespace).reverse

/-- `strip_prefix('#')`, if there is one. -/
def stripHash : List Char → List Char
  | '#' :: cs => cs
  | cs => cs

/-- `is_dot_command_line`: the line goes to the host, not to the Scheme reader. -/
def isDotCommandLine (source : String) : Bool :=
  if '\n' ∈ trim source then false
  else match stripHash (trim source) with
    | '.' :: c :: _ => c.isAlpha
    | _ => false

/-! ## Connections -/

/-- A request to evaluate: its id, its source and whether it is isolated. -/
structure EvalJob where
  id : UInt64
  source : String
  isolated : Bool
  deriving DecidableEq

/-- The environment that an evaluation changes. -/
inductive Target
  /-- The shared environment that was current when it started. -/
  | shared (handle : Nat)
  /-- The environment of the connection. -/
  | isolated
  deriving DecidableEq

/-- What a connection is doing. -/
inductive Phase (Run : Type*)
  /-- Waiting for a request. -/
  | idle
  /-- Waiting for the lock. -/
  | waiting (job : EvalJob)
  /-- Evaluating, suspended at an actor call. What the evaluation has displayed so far
      is kept to state what is sent; the daemon does not keep it. -/
  | evaluating (job : EvalJob) (target : Target) (run : Run) (displayed : List String)
  | closed

/-- A request that has been handled. -/
inductive Exchange
  /-- An evaluation: what it displayed, and its outcome. -/
  | eval (job : EvalJob) (displayed : List String) (outcome : Outcome)
  /-- Any other request, and the reply to it. -/
  | other (request : Request) (reply : Response)

/-- The request to evaluate. -/
def EvalJob.request (job : EvalJob) : Request := .eval job.id job.source job.isolated

/-- The request that was handled. -/
def Exchange.request : Exchange → Request
  | eval job _ _ => job.request
  | other request _ => request

/-- The frames that answer a request. -/
def Exchange.frames : Exchange → List Response
  | eval job displayed outcome =>
    displayed.map (.display job.id) ++ [.evalResult job.id outcome]
  | other _ reply => [reply]

/-- The frames of an evaluation that has not ended. -/
def Phase.frames {Run : Type*} : Phase Run → List Response
  | evaluating job _ _ displayed => displayed.map (.display job.id)
  | _ => []

/-- The request that is being handled. -/
def Phase.requests {Run : Type*} : Phase Run → List Request
  | waiting job | evaluating job _ _ _ => [job.request]
  | _ => []

/-- The request under evaluation. -/
def Phase.job? {Run : Type*} : Phase Run → Option EvalJob
  | evaluating job _ _ _ => some job
  | _ => none

/-- A connection. -/
structure Conn (Env Run : Type*) where
  phase : Phase Run
  /-- The environment of its isolated evaluations, once there was one. -/
  isolated : Option Env
  /-- What has been sent to its writer, in order. -/
  out : List Response
  /-- The requests it has handled, in order. -/
  history : List Exchange

/-- The state of the connections `κ` of a daemon. -/
structure Session (κ Env Host Run : Type*) where
  conn : κ → Conn Env Run
  /-- The shared environments there have been, under their handles. -/
  heap : Nat → Env
  /-- `get_env`: the handle of the current one. -/
  current : Nat
  host : Host
  /-- `eval_lock`: the connection that holds it. -/
  lock : Option κ
  /-- The display sink: the connection and the request that output is sent to. -/
  sink : Option (κ × UInt64)
  /-- What was displayed without a sink. -/
  stdout : List String

/-- The requests a connection has read, in order. -/
def Conn.requests {Env Run : Type*} (k : Conn Env Run) : List Request :=
  k.history.map Exchange.request ++ k.phase.requests

/-- The shared environments, after an evaluation has changed the one it evaluates in. -/
def Target.update {Env : Type*} (heap : Nat → Env) (env : Env) : Target → Nat → Env
  | shared handle => Function.update heap handle env
  | isolated => heap

/-- A connection after it has handled a request other than an evaluation. -/
def Conn.reply {Env Run : Type*} (k : Conn Env Run) (request : Request) (response : Response) :
    Conn Env Run :=
  { k with
    phase := if request = .stop then .closed else k.phase
    out := k.out ++ [response]
    history := k.history ++ [.other request response] }

/-- A connection after its evaluation has made progress. -/
def Conn.progress {Env Host Run Input Val : Type*} (k : Conn Env Run)
    (ev : Evaluator Env Host Run Input Val) (job : EvalJob) (target : Target)
    (before : List String) (p : Progress Env Host Run Val) : Conn Env Run :=
  let isolated := if target = .isolated then some p.env else k.isolated
  let out := k.out ++ p.displayed.map (.display job.id)
  match p.next with
  | .inl run =>
    { phase := .evaluating job target run (before ++ p.displayed), isolated, out
      history := k.history }
  | .inr result =>
    { phase := .idle, isolated, out := out ++ [.evalResult job.id (ev.outcome result)]
      history := k.history ++ [.eval job (before ++ p.displayed) (ev.outcome result)] }

/-- A connection after it has evaluated a dot command. -/
def Conn.dotLine {Env Host Run Input Val : Type*} (k : Conn Env Run)
    (ev : Evaluator Env Host Run Input Val) (job : EvalJob) (host : Host) : Conn Env Run :=
  let (_, displayed, result) := ev.evalDot (.ofList (stripHash (trim job.source))) host
  { k with
    phase := .idle
    out := k.out ++ displayed.map (.display job.id) ++ [.evalResult job.id (ev.outcome result)]
    history := k.history ++ [.eval job displayed (ev.outcome result)] }

namespace Conn

variable {Env Host Run Input Val : Type*} {ev : Evaluator Env Host Run Input Val}

/-- What has been sent on a connection: the frames of the requests it has handled, in
    order, and then those of the evaluation under way. -/
def Sent (k : Conn Env Run) : Prop :=
  k.out = k.history.flatMap Exchange.frames ++ k.phase.frames

theorem sent_progress {k : Conn Env Run} {job : EvalJob}
    {before : List String}
    (hk : k.out = k.history.flatMap Exchange.frames ++ before.map (.display job.id))
    (target : Target) (p : Progress Env Host Run Val) :
    (k.progress ev job target before p).Sent := by
  cases hn : p.next <;>
    simp [Sent, progress, hn, hk, Phase.frames, Exchange.frames]

theorem sent_dotLine {k : Conn Env Run}
    (hk : k.out = k.history.flatMap Exchange.frames) (job : EvalJob) (host : Host) :
    (k.dotLine ev job host).Sent := by
  simp [Sent, dotLine, hk, Phase.frames, Exchange.frames]

/-- An evaluation that has not ended is still the connection's. -/
theorem job?_progress (k : Conn Env Run) (job : EvalJob) (target : Target) (before : List String)
    (p : Progress Env Host Run Val) : (k.progress ev job target before p).phase.job? =
      if p.next.isLeft then some job else none := by
  cases hn : p.next <;> simp [progress, hn, Phase.job?]

/-- Progress does not read a request. -/
theorem requests_progress {k : Conn Env Run} {job : EvalJob} (hk : k.phase.requests = [job.request])
    (target : Target) (before : List String) (p : Progress Env Host Run Val) :
    (k.progress ev job target before p).requests = k.requests := by
  simp only [requests, hk]
  cases hn : p.next <;> simp [progress, hn, Phase.requests, Exchange.request]

theorem requests_dotLine {k : Conn Env Run} {job : EvalJob} (hk : k.phase.requests = [job.request])
    (host : Host) : (k.dotLine ev job host).requests = k.requests := by
  simp only [requests, hk]
  simp [dotLine, Phase.requests, Exchange.request]

end Conn

/-- A step of a connection. -/
inductive SessionStep (κ Input : Type*)
  /-- The connection reads a request, and answers it or has it wait for the lock. -/
  | receive (c : κ) (request : Request)
  /-- The connection gets the lock, and starts its evaluation. -/
  | acquire (c : κ)
  /-- The evaluation of the connection goes on. -/
  | resume (c : κ) (input : Input)
  /-- The connection is closed by its client. -/
  | close (c : κ)

/-- The connection that takes the step. -/
def SessionStep.conn {κ Input : Type*} : SessionStep κ Input → κ
  | receive c _ | acquire c | resume c _ | close c => c

/-- The request that the connection reads in a step. -/
def SessionStep.requests {κ Input : Type*} [DecidableEq κ] (c : κ) :
    SessionStep κ Input → List Request
  | receive d request => if d = c then [request] else []
  | _ => []

namespace Session

variable {κ Env Host Run Input Val : Type*} [DecidableEq κ]

/-- Change a connection. -/
def modify (s : Session κ Env Host Run) (c : κ) (f : Conn Env Run → Conn Env Run) :
    Session κ Env Host Run :=
  { s with conn := Function.update s.conn c (f (s.conn c)) }

/-- `display_output`: to the sink, or else to the standard output. -/
def displayOutput (s : Session κ Env Host Run) (text : String) : Session κ Env Host Run :=
  match s.sink with
  | some (c, id) => s.modify c fun k => { k with out := k.out ++ [.display id text] }
  | none => { s with stdout := s.stdout ++ [text] }

/-- The environment that an evaluation of the connection changes. -/
def readEnv (ev : Evaluator Env Host Run Input Val) (s : Session κ Env Host Run) (c : κ) :
    Target → Env
  | .shared handle => s.heap handle
  | .isolated => (s.conn c).isolated.getD ev.newRoot

/-- Change the environment that an evaluation of the connection changes. -/
def writeEnv (s : Session κ Env Host Run) (c : κ) (target : Target) (env : Env) :
    Session κ Env Host Run :=
  match target with
  | .shared handle => { s with heap := Function.update s.heap handle env }
  | .isolated => s.modify c fun k => { k with isolated := some env }

/-- The end of `eval_request`: the sink is reset, the lock is released and the outcome is
    sent. -/
def finish (s : Session κ Env Host Run) (c : κ) (job : EvalJob) (displayed : List String)
    (outcome : Outcome) : Session κ Env Host Run :=
  modify { s with sink := none, lock := none } c fun k => { k with
    phase := .idle
    out := k.out ++ [.evalResult job.id outcome]
    history := k.history ++ [.eval job displayed outcome] }

/-- The effects of an evaluation that has displayed something before, up to its next
    suspension or its end. -/
def advance (ev : Evaluator Env Host Run Input Val) (s : Session κ Env Host Run) (c : κ)
    (job : EvalJob) (target : Target) (before : List String) (p : Progress Env Host Run Val) :
    Session κ Env Host Run :=
  let s := p.displayed.foldl displayOutput { s.writeEnv c target p.env with host := p.host }
  match p.next with
  | .inl run => s.modify c fun k =>
      { k with phase := .evaluating job target run (before ++ p.displayed) }
  | .inr result => s.finish c job (before ++ p.displayed) (ev.outcome result)

/-- A dot command, which ends at once: it acts on the host alone. -/
def evalDotLine (ev : Evaluator Env Host Run Input Val) (s : Session κ Env Host Run) (c : κ)
    (job : EvalJob) : Session κ Env Host Run :=
  let (host, displayed, result) := ev.evalDot (.ofList (stripHash (trim job.source))) s.host
  (displayed.foldl displayOutput { s with host := host }).finish c job displayed
    (ev.outcome result)

/-- The environment that an evaluation of the job changes, if it starts now. -/
def target (s : Session κ Env Host Run) (job : EvalJob) : Target :=
  if job.isolated then .isolated else .shared s.current

/-- `eval_request`, once it has the lock. -/
def evalRequest (ev : Evaluator Env Host Run Input Val) (s : Session κ Env Host Run) (c : κ)
    (job : EvalJob) : Session κ Env Host Run :=
  let s := { s with lock := some c, sink := some (c, job.id) }
  if isDotCommandLine job.source then s.evalDotLine ev c job
  else
    s.advance ev c job (s.target job) []
      (ev.start job.source (s.readEnv ev c (s.target job)) s.host)

/-- The connection has handled a request other than an evaluation. -/
def reply (s : Session κ Env Host Run) (c : κ) (request : Request) (response : Response) :
    Session κ Env Host Run := s.modify c fun k => k.reply request response

variable (version did : String)

/-- `handle_conn`, on a request. -/
def handle (ev : Evaluator Env Host Run Input Val) (s : Session κ Env Host Run) (c : κ)
    (request : Request) : Session κ Env Host Run :=
  match request with
  | .hello _ => s.reply c request (.helloAck version did)
  | .ping => s.reply c request .pong
  | .stop => s.reply c request .stopping
  | .reset => { s with
      heap := Function.update s.heap (s.current + 1) ev.sessionEnv
      current := s.current + 1 }.reply c request .resetDone
  | .dumpEnv => s.reply c request (.envDump (ev.dumpEnvSource (s.heap s.current)))
  | .eval id source isolated =>
    s.modify c fun k => { k with phase := .waiting ⟨id, source, isolated⟩ }

variable (ev : Evaluator Env Host Run Input Val)

/-- The steps of the connections. The lock goes to any connection that waits for it, in the
    daemon to the one that has waited longest. -/
def next (s : Session κ Env Host Run) : SessionStep κ Input → Option (Session κ Env Host Run)
  | .receive c request => match (s.conn c).phase with
    | .idle => some (s.handle version did ev c request)
    | _ => none
  | .acquire c => match (s.conn c).phase, s.lock with
    | .waiting job, none => some (s.evalRequest ev c job)
    | _, _ => none
  | .resume c input => match (s.conn c).phase with
    | .evaluating job target run displayed =>
      some (s.advance ev c job target displayed
        (ev.resume run (s.readEnv ev c target) s.host input))
    | _ => none
  | .close c => match (s.conn c).phase with
    | .idle => some (s.modify c fun k => { k with phase := .closed })
    | _ => none

/-- No request has been read yet. -/
def Initial (s : Session κ Env Host Run) : Prop :=
  (∀ c, s.conn c = ⟨.idle, none, [], []⟩) ∧ s.lock = none ∧ s.sink = none

/-- The connections, interleaved in any order from some states. -/
def sessions (start : Session κ Env Host Run → Prop) :
    System (Session κ Env Host Run) (SessionStep κ Input) where
  init := start
  next := next version did ev

/-! ## What a step does to the connections -/

section Steps

variable {version did} {ev}

@[simp] theorem conn_modify (s : Session κ Env Host Run) (c : κ) (f : Conn Env Run → Conn Env Run) :
    (s.modify c f).conn = Function.update s.conn c (f (s.conn c)) := rfl

@[simp] theorem modify_modify (s : Session κ Env Host Run) (c : κ)
    (f g : Conn Env Run → Conn Env Run) :
    (s.modify c f).modify c g = s.modify c fun k => g (f k) := by
  simp [modify]

@[simp] theorem modify_id (s : Session κ Env Host Run) (c : κ) :
    (s.modify c fun k => k) = s := by
  simp [modify]

/-- With a sink, what is displayed is sent to the connection of the sink. -/
theorem foldl_displayOutput {s : Session κ Env Host Run} {c : κ} {id : UInt64}
    (hs : s.sink = some (c, id)) (texts : List String) :
    texts.foldl displayOutput s =
      s.modify c fun k => { k with out := k.out ++ texts.map (.display id) } := by
  induction texts generalizing s with
  | nil => simp
  | cons text texts ih =>
    rw [List.foldl_cons, ih (by simp [displayOutput, hs, modify])]
    simp [displayOutput, hs]

/-- What an evaluation does: it changes its connection, the environment it evaluates in
    and the host, and it gives up the lock and the sink when it ends. -/
theorem advance_eq {s : Session κ Env Host Run} {c : κ} {job : EvalJob}
    (hs : s.sink = some (c, job.id)) (target : Target) (before : List String)
    (p : Progress Env Host Run Val) :
    s.advance ev c job target before p = { s with
      conn := Function.update s.conn c ((s.conn c).progress ev job target before p)
      heap := target.update s.heap p.env
      host := p.host
      lock := if p.next.isLeft then s.lock else none
      sink := if p.next.isLeft then s.sink else none } := by
  have hsink : ({ s.writeEnv c target p.env with host := p.host } : Session κ Env Host Run).sink =
      some (c, job.id) := by cases target <;> exact hs
  simp only [advance, foldl_displayOutput hsink]
  cases target <;> cases hn : p.next <;>
    simp [writeEnv, modify, Conn.progress, Target.update, finish, hn]

/-- A dot command changes its connection and the host. -/
theorem evalDotLine_eq {s : Session κ Env Host Run} {c : κ} {job : EvalJob}
    (hs : s.sink = some (c, job.id)) :
    s.evalDotLine ev c job = { s with
      conn := Function.update s.conn c ((s.conn c).dotLine ev job s.host)
      host := (ev.evalDot (.ofList (stripHash (trim job.source))) s.host).1
      lock := none
      sink := none } := by
  rcases hd : ev.evalDot (.ofList (stripHash (trim job.source))) s.host with ⟨host, texts, result⟩
  have hsink : ({ s with host } : Session κ Env Host Run).sink = some (c, job.id) := hs
  simp [evalDotLine, hd, foldl_displayOutput hsink, finish, modify, Conn.dotLine]

/-- An evaluation of a dot command. -/
theorem evalRequest_of_dot {s : Session κ Env Host Run} {job : EvalJob}
    (h : isDotCommandLine job.source = true) (c : κ) :
    s.evalRequest ev c job = { s with
      conn := Function.update s.conn c ((s.conn c).dotLine ev job s.host)
      host := (ev.evalDot (.ofList (stripHash (trim job.source))) s.host).1
      lock := none
      sink := none } := by
  rw [evalRequest, if_pos h]
  exact evalDotLine_eq rfl

/-- The start of any other evaluation. -/
theorem evalRequest_of_not_dot {s : Session κ Env Host Run} {job : EvalJob}
    (h : isDotCommandLine job.source = false) (c : κ) {p : Progress Env Host Run Val}
    (hp : ev.start job.source (s.readEnv ev c (s.target job)) s.host = p) :
    s.evalRequest ev c job = { s with
      conn := Function.update s.conn c ((s.conn c).progress ev job (s.target job) [] p)
      heap := (s.target job).update s.heap p.env
      host := p.host
      lock := if p.next.isLeft then some c else none
      sink := if p.next.isLeft then some (c, job.id) else none } := by
  subst hp
  rw [evalRequest, if_neg (by simp [h])]
  exact advance_eq rfl ..

end Steps

/-! ## What is sent -/

section Sent

/-- The invariant of the connections: what has been sent, and that the connection that
    evaluates holds the lock and is the one of the sink. -/
structure Inv (s : Session κ Env Host Run) : Prop where
  sent : ∀ c, (s.conn c).Sent
  lock : ∀ c, s.lock = some c ↔ ((s.conn c).phase.job?).isSome
  sink : ∀ c job, (s.conn c).phase.job? = some job → s.sink = some (c, job.id)

omit [DecidableEq κ] in
theorem inv_initial {s : Session κ Env Host Run} (h : Initial s) : Inv s where
  sent c := by simp [h.1, Conn.Sent, Phase.frames]
  lock c := by simp [h.1, h.2.1, Phase.job?]
  sink c job hj := by simp [h.1, Phase.job?] at hj

variable {version did} {ev}

/-- A connection that neither evaluates nor starts to keeps the lock and the sink. -/
theorem Inv.quiet {s s' : Session κ Env Host Run} (hs : Inv s) {c : κ} {k : Conn Env Run}
    (hconn : s'.conn = Function.update s.conn c k) (hlock : s'.lock = s.lock)
    (hsink : s'.sink = s.sink) (hsent : k.Sent) (hc : (s.conn c).phase.job? = none)
    (hk : k.phase.job? = none) : Inv s' := by
  -- no connection starts or ends a job
  have hjob : ∀ d, (s'.conn d).phase.job? = (s.conn d).phase.job? := by
    intro d
    rw [hconn]
    rcases eq_or_ne d c with rfl | hd
    · rw [Function.update_self, hk, hc]
    · rw [Function.update_of_ne hd]
  refine ⟨fun d => ?_, fun d => ?_, fun d job hj => ?_⟩
  · rw [hconn]
    rcases eq_or_ne d c with rfl | hd
    · rwa [Function.update_self]
    · rw [Function.update_of_ne hd]
      exact hs.sent d
  · rw [hlock, hjob d]
    exact hs.lock d
  · rw [hsink]
    exact hs.sink d job (hjob d ▸ hj)

/-- A connection that has the lock, to itself, goes on or gives it up. -/
theorem Inv.own {s s' : Session κ Env Host Run} (hs : Inv s) {c : κ} {k : Conn Env Run}
    (hconn : s'.conn = Function.update s.conn c k) (hsent : k.Sent)
    (hother : ∀ d, d ≠ c → s.lock ≠ some d)
    (hlock : s'.lock = k.phase.job?.map fun _ => c)
    (hsink : s'.sink = k.phase.job?.map fun job => (c, job.id)) : Inv s' := by
  -- no other connection has a job, as it would hold the lock
  have hjob : ∀ d, d ≠ c → (s'.conn d).phase.job? = none := by
    intro d hd
    rw [hconn, Function.update_of_ne hd, ← Option.not_isSome_iff_eq_none, ← hs.lock d]
    exact hother d hd
  have hown : (s'.conn c).phase.job? = k.phase.job? := by rw [hconn, Function.update_self]
  refine ⟨fun d => ?_, fun d => ?_, fun d job hj => ?_⟩
  · rw [hconn]
    rcases eq_or_ne d c with rfl | hd
    · rwa [Function.update_self]
    · rw [Function.update_of_ne hd]
      exact hs.sent d
  · rcases eq_or_ne d c with rfl | hd
    · rw [hlock, hown]
      cases k.phase.job? <;> simp
    · rw [hlock, hjob d hd]
      cases k.phase.job? <;> simp [Ne.symm hd]
  · rcases eq_or_ne d c with rfl | hd
    · rw [hsink, ← hown, hj]
      rfl
    · rw [hjob d hd] at hj
      exact nomatch hj

/-- A request other than an evaluation is answered, and changes nothing else of the
    connections. -/
theorem Inv.reply {s : Session κ Env Host Run} (hs : Inv s) {c : κ}
    (hc : (s.conn c).phase = .idle) (request : Request) (r : Response) :
    Inv (s.reply c request r) := by
  refine hs.quiet rfl rfl rfl ?_ (by rw [hc]; rfl) ?_
  · have hsent := hs.sent c
    simp only [Conn.Sent, hc, Phase.frames, List.append_nil] at hsent
    simp only [Conn.Sent, Conn.reply, hc]
    split <;> simp [hsent, Phase.frames, Exchange.frames]
  · simp only [Conn.reply, hc]
    split <;> rfl

/-- An evaluation goes on, or ends. -/
theorem Inv.advance {s : Session κ Env Host Run} (hs : Inv s) {c : κ} {job : EvalJob}
    {target : Target} {run : Run} {before : List String}
    (hc : (s.conn c).phase = .evaluating job target run before) (p : Progress Env Host Run Val) :
    Inv (s.advance ev c job target before p) := by
  have hlock : s.lock = some c := (hs.lock c).2 (by rw [hc]; rfl)
  have hsink : s.sink = some (c, job.id) := hs.sink c job (by rw [hc]; rfl)
  have hsent := hs.sent c
  simp only [Conn.Sent, hc, Phase.frames] at hsent
  have hother : ∀ d, d ≠ c → s.lock ≠ some d := fun d hd h =>
    hd (Option.some.inj (h.symm.trans hlock))
  rw [advance_eq hsink]
  refine hs.own rfl (Conn.sent_progress hsent target p) hother ?_ ?_ <;>
    rw [Conn.job?_progress] <;> split_ifs <;> simp [hlock, hsink]

/-- An evaluation starts. -/
theorem Inv.evalRequest {s : Session κ Env Host Run} (hs : Inv s) {c : κ} {job : EvalJob}
    (hc : (s.conn c).phase = .waiting job) (hlock : s.lock = none) :
    Inv (s.evalRequest ev c job) := by
  have hother : ∀ d, d ≠ c → s.lock ≠ some d := fun d _ h => nomatch hlock ▸ h
  have hout : (s.conn c).out = (s.conn c).history.flatMap Exchange.frames := by
    simpa [Conn.Sent, hc, Phase.frames] using hs.sent c
  rcases Bool.eq_false_or_eq_true (isDotCommandLine job.source) with hdot | hdot
  · rw [evalRequest_of_dot hdot]
    exact hs.own rfl (Conn.sent_dotLine hout job s.host) hother rfl rfl
  · rw [evalRequest_of_not_dot hdot c rfl]
    refine hs.own rfl (Conn.sent_progress (by simpa using hout) _ _) hother ?_ ?_ <;>
      rw [Conn.job?_progress] <;> split_ifs <;> rfl

/-- Every step keeps the invariant. -/
theorem inv_next {s s' : Session κ Env Host Run} {a : SessionStep κ Input} (hs : Inv s)
    (h : next version did ev s a = some s') : Inv s' := by
  cases a with
  | receive c request =>
    simp only [next] at h
    split at h
    · rename_i hc
      obtain rfl := Option.some.inj h
      cases request with
      -- A new environment: the sessions of the others stay in the heap.
      | reset =>
        have hreset : Inv { s with
            heap := Function.update s.heap (s.current + 1) ev.sessionEnv
            current := s.current + 1 } := ⟨hs.sent, hs.lock, hs.sink⟩
        exact hreset.reply hc _ _
      | eval id source isolated =>
        refine hs.quiet rfl rfl rfl ?_ (by rw [hc]; rfl) rfl
        have hsent := hs.sent c
        simp only [Conn.Sent, hc] at hsent
        exact hsent
      | _ => exact hs.reply hc _ _
    · exact nomatch h
  | acquire c =>
    simp only [next] at h
    split at h
    · rename_i job hc hlock
      exact Option.some.inj h ▸ hs.evalRequest hc hlock
    · exact nomatch h
  | resume c input =>
    simp only [next] at h
    split at h
    · rename_i job target run displayed hc
      obtain rfl := Option.some.inj h
      exact hs.advance hc _
    · exact nomatch h
  | close c =>
    simp only [next] at h
    split at h
    · rename_i hc
      obtain rfl := Option.some.inj h
      refine hs.quiet rfl rfl rfl ?_ (by rw [hc]; rfl) rfl
      have hsent := hs.sent c
      simp only [Conn.Sent, hc] at hsent
      exact hsent
    · exact nomatch h

end Sent

/-! ## What is read -/

section Requests

variable {version did} {ev}

/-- The requests of each connection, when one of them changes. -/
theorem requests_update {s s' : Session κ Env Host Run} {d : κ} {k : Conn Env Run}
    (hconn : s'.conn = Function.update s.conn d k) {l : List Request}
    (hk : k.requests = (s.conn d).requests ++ l) (c : κ) :
    (s'.conn c).requests = (s.conn c).requests ++ if d = c then l else [] := by
  rw [hconn]
  rcases eq_or_ne d c with rfl | hd
  · rw [Function.update_self, hk, if_pos rfl]
  · rw [Function.update_of_ne hd.symm, if_neg hd, List.append_nil]

/-- The requests a connection has read grow by the one it reads in a step. -/
theorem requests_next {s s' : Session κ Env Host Run} {a : SessionStep κ Input} (hs : Inv s)
    (h : next version did ev s a = some s') (c : κ) :
    (s'.conn c).requests = (s.conn c).requests ++ a.requests c := by
  cases a with
  | receive d request =>
    simp only [next] at h
    split at h
    · rename_i hd
      obtain rfl := Option.some.inj h
      cases request <;> refine requests_update rfl ?_ c <;>
        simp [Conn.requests, Conn.reply, hd, Phase.requests, Exchange.request, EvalJob.request]
    · exact nomatch h
  | acquire d =>
    simp only [next] at h
    split at h
    · rename_i job hd hlock
      obtain rfl := Option.some.inj h
      have hreq : (s.conn d).phase.requests = [job.request] := by rw [hd]; rfl
      rcases Bool.eq_false_or_eq_true (isDotCommandLine job.source) with hdot | hdot
      -- A dot command is answered in the same step; an evaluation goes on.
      · rw [evalRequest_of_dot hdot]
        refine (requests_update (l := []) rfl ?_ c).trans (by rw [ite_self]; rfl)
        exact (Conn.requests_dotLine hreq s.host).trans (List.append_nil _).symm
      · rw [evalRequest_of_not_dot hdot d rfl]
        refine (requests_update (l := []) rfl ?_ c).trans (by rw [ite_self]; rfl)
        exact (Conn.requests_progress hreq _ _ _).trans (List.append_nil _).symm
    · exact nomatch h
  | resume d input =>
    simp only [next] at h
    split at h
    · rename_i job target run displayed hd
      obtain rfl := Option.some.inj h
      have hreq : (s.conn d).phase.requests = [job.request] := by rw [hd]; rfl
      rw [advance_eq (hs.sink d job (by rw [hd]; rfl))]
      refine (requests_update (l := []) rfl ?_ c).trans (by rw [ite_self]; rfl)
      exact (Conn.requests_progress hreq target displayed _).trans (List.append_nil _).symm
    · exact nomatch h
  | close d =>
    simp only [next] at h
    split at h
    · rename_i hd
      obtain rfl := Option.some.inj h
      refine (requests_update (l := []) rfl ?_ c).trans (by rw [ite_self]; rfl)
      simp [Conn.requests, hd, Phase.requests]
    · exact nomatch h

/-- What holds after a run: each connection has read the requests of its steps, and the
    invariant holds. -/
theorem requests_exec {s s' : Session κ Env Host Run} {l : List (SessionStep κ Input)}
    (hs : Inv s) (hl : (sessions version did ev Initial).exec s l = some s') (c : κ) :
    Inv s' ∧ (s'.conn c).requests = (s.conn c).requests ++ l.flatMap (SessionStep.requests c) := by
  induction l generalizing s with
  | nil =>
    obtain rfl := Option.some.inj hl
    exact ⟨hs, by simp⟩
  | cons a l ih =>
    obtain ⟨t, ht, hl⟩ := Option.bind_eq_some_iff.1 hl
    obtain ⟨hs', hreq⟩ := ih (inv_next hs ht) hl
    refine ⟨hs', ?_⟩
    rw [hreq, requests_next hs ht c, List.flatMap_cons, List.append_assoc]

end Requests

/-- An evaluator that displays what it is given, and suspends once. -/
def echo : Evaluator Unit Unit Unit String Unit where
  start source _ _ := ⟨(), (), [source], .inl ()⟩
  resume _ _ _ input := ⟨(), (), [input], .inr (.ok ())⟩
  evalDot _ host := (host, [], .ok ())
  sessionEnv := ()
  newRoot := ()
  dumpEnvSource _ := ""
  isNil _ := true
  display _ := ""

/-- Two connections, without any requests yet. -/
def fresh : Session Bool Unit Unit Unit where
  conn _ := ⟨.idle, none, [], []⟩
  heap _ := ()
  current := 0
  host := ()
  lock := none
  sink := none
  stdout := []

end Session

end Zscheme.Daemon
