import Zscheme.Daemon.Serial
import Zscheme.Daemon.Streams

/-!
# Running a script

A script runs in process (`zscheme standalone FILE`, `run_file`), where its text goes to
the Scheme reader, or in the daemon (`zscheme FILE`, `client::run`), which sends a text
that is a single dot command to the host instead.

* `sameRun_iff`: the two runs are the same exactly if the text is not a dot command,
  the request fits in a frame, and so do its answers if the evaluation succeeds.
* `dotScript_differs`: a script that fails in process and succeeds in the daemon.

`eval_source` and `eval_dot` are the `Daemon.Evaluator`.
-/

namespace Zscheme.Front

open Ipc Daemon

/-- `strip_shebang`: the text after a first line that starts with `#!`. -/
def stripShebang (source : String) : String :=
  match source.toList with
  | '#' :: '!' :: _ => .ofList (source.toList.dropWhile (· ≠ '\n')).tail
  | _ => source

/-! ## Evaluations -/

/-- What is evaluated, and by which evaluator. -/
inductive Evaluation
  /-- `eval_source`. -/
  | source (text : String)
  /-- `eval_dot`. -/
  | dot (command : String)
  deriving DecidableEq

/-- The evaluation of `run_file`. -/
def fileEvaluation (raw : String) : Evaluation := .source (stripShebang raw)

/-- The evaluation of `eval_request`: a line that is a dot command is one of the host. -/
def requestEvaluation (source : String) : Evaluation :=
  if isDotCommandLine source then .dot (.ofList (stripHash (trim source))) else .source source

variable {κ Env Host Run Input Val : Type*}

/-- An evaluation, up to its first suspension. -/
def Evaluation.begin (ev : Evaluator Env Host Run Input Val) (env : Env) (host : Host) :
    Evaluation → Progress Env Host Run Val
  | .source text => ev.start text env host
  | .dot command =>
    let (host, displayed, result) := ev.evalDot command host
    ⟨env, host, displayed, .inr result⟩

/-- An evaluation that has ended: the environment and the host as it left them, what it
    displayed and its result. -/
structure Ended (Env Host Val : Type*) where
  env : Env
  host : Host
  displayed : List String
  result : Except SchemeErr Val

/-- An evaluation to its end, with what it is sent while it is suspended. -/
def finish (ev : Evaluator Env Host Run Input Val) :
    Progress Env Host Run Val → List Input → Option (Ended Env Host Val)
  | p, [] => match p.next with
    | .inr result => some ⟨p.env, p.host, p.displayed, result⟩
    | .inl _ => none
  | p, input :: inputs => match p.next with
    | .inr _ => none
    | .inl run => (finish ev (ev.resume run p.env p.host input) inputs).map fun e =>
        { e with displayed := p.displayed ++ e.displayed }

/-- A run of a script that has ended: the environment and the host as it left them, and
    whether it succeeded. -/
structure Ran (Env Host : Type*) where
  env : Env
  host : Host
  ok : Bool
  deriving DecidableEq

/-! ## In process -/

/-- `run_file`, on the contents of the file. -/
def runFile (ev : Evaluator Env Host Run Input Val) (env : Env) (host : Host) (raw : String)
    (inputs : List Input) : Option (Ran Env Host) :=
  (finish ev ((fileEvaluation raw).begin ev env host) inputs).map fun e =>
    ⟨e.env, e.host, e.result.isOk⟩

/-! ## In the daemon -/

/-- The request of `client::run`. -/
def scriptJob (raw : String) (isolated : Bool) : EvalJob := ⟨1, stripShebang raw, isolated⟩

/-- The request arrives at the daemon. -/
def arrives (raw : String) (isolated : Bool) : Bool :=
  delivered Request.codec [(scriptJob raw isolated).request] = [(scriptJob raw isolated).request]

/-- The evaluation of the daemon, if the request arrives. -/
def clientEvaluation (raw : String) (isolated : Bool) : Option Evaluation :=
  if arrives raw isolated then some (requestEvaluation (stripShebang raw)) else none

variable [DecidableEq κ]

/-- `client::run`, connected to a daemon as `c`. The daemon evaluates the request if it
    arrives, and the client returns what it receives of the answer. -/
def clientRun (version did : String) (ev : Evaluator Env Host Run Input Val)
    (s : Session κ Env Host Run) (c : κ) (raw : String) (isolated : Bool) (inputs : List Input) :
    Option (Ran Env Host) :=
  let job := scriptJob raw isolated
  if arrives raw isolated then
    ((Session.runs version did ev).exec s (Session.evalSteps c job inputs)).bind fun s' =>
      if s'.lock.isSome then none
      else
        let frames := reads Response.codec ((s'.conn c).out.drop (s.conn c).out.length)
        some ⟨s'.heap s'.current, s'.host, match DaemonClient.eval job.id frames with
          | some ((_, .ok (.ok _)), _) => true
          | _ => false⟩
  else some ⟨s.heap s.current, s.host, false⟩

/-- A script means the same with and without the daemon: it is evaluated by the same
    evaluator, to the same end. -/
structure SameRun (version did : String) (ev : Evaluator Env Host Run Input Val)
    (s : Session κ Env Host Run) (c : κ) (raw : String) (inputs : List Input) : Prop where
  evaluation : clientEvaluation raw false = some (fileEvaluation raw)
  ran : clientRun version did ev s c raw false inputs =
    runFile ev (s.heap s.current) s.host raw inputs

/-! ## What the daemon does -/

/-- The evaluation that `eval_request` starts is the one of its request. -/
theorem evalRequest_eq (ev : Evaluator Env Host Run Input Val) {s : Session κ Env Host Run}
    (c : κ) {job : EvalJob} (hshared : job.isolated = false) :
    s.evalRequest ev c job =
      { s with lock := some c, sink := some (c, job.id) }.advance ev c job (.shared s.current) []
        ((requestEvaluation job.source).begin ev (s.heap s.current) s.host) := by
  rcases Bool.eq_false_or_eq_true (isDotCommandLine job.source) with hdot | hdot
  · rw [Session.evalRequest_of_dot hdot, requestEvaluation, if_pos hdot, Session.advance_eq rfl]
    simp [Evaluation.begin, Target.update, Conn.dotLine, Conn.progress]
  · rw [Session.evalRequest, if_neg (by simp [hdot]), requestEvaluation, if_neg (by simp [hdot])]
    simp [Session.target, hshared, Session.readEnv, Evaluation.begin]

/-- An evaluation to its end: what it leaves, and what is sent for it. -/
theorem exec_resumes {version did : String} {ev : Evaluator Env Host Run Input Val} {c : κ}
    {job : EvalJob} {s : Session κ Env Host Run} (hlock : s.lock = some c)
    (hsink : s.sink = some (c, job.id)) (before : List String) (p : Progress Env Host Run Val)
    (inputs : List Input) :
    (((Session.runs version did ev).exec (s.advance ev c job (.shared s.current) before p)
        (inputs.map (.resume c))).bind fun s' => if s'.lock.isSome then none
          else some (s'.heap s'.current, s'.host, (s'.conn c).out)) =
      (finish ev p inputs).map fun e => (e.env, e.host,
        (s.conn c).out ++ (Exchange.eval job e.displayed (ev.outcome e.result)).frames) := by
  induction inputs generalizing s before p with
  | nil =>
    rw [Session.advance_eq hsink]
    cases hn : p.next <;>
      simp [System.exec, finish, hn, hlock, Target.update, Conn.progress, Exchange.frames]
  | cons input inputs ih =>
    rw [List.map_cons, System.exec, finish, Session.advance_eq hsink]
    cases hn : p.next with
    | inr result =>
      -- it has ended, and takes no reply
      simp [Session.sessions, Session.next, Conn.progress, hn]
    | inl run =>
      -- suspended: the reply finds the environment and the host as it left them
      let t : Session κ Env Host Run := { s with
        conn := Function.update s.conn c ((s.conn c).progress ev job (.shared s.current) before p)
        heap := Target.update s.heap p.env (.shared s.current)
        host := p.host }
      have hphase : (t.conn c).phase =
          .evaluating job (.shared t.current) run (before ++ p.displayed) := by
        simp [t, Conn.progress, hn]
      have hout : (t.conn c).out = (s.conn c).out ++ p.displayed.map (.display job.id) := by
        simp [t, Conn.progress, hn]
      have henv : t.readEnv ev c (.shared t.current) = p.env := by
        simp [t, Session.readEnv, Target.update]
      have hnext : Session.next version did ev t (.resume c input) =
          some (t.advance ev c job (.shared t.current) (before ++ p.displayed)
            (ev.resume run p.env t.host input)) := by
        rw [Session.next_resume hphase, henv]
      have hrest := ih (s := t) hlock hsink (before ++ p.displayed)
        (ev.resume run p.env p.host input)
      simp only [Sum.isLeft_inl, if_true]
      change ((Option.bind (Session.next version did ev t (.resume c input)) _).bind _) = _
      rw [hnext, Option.bind_some, hrest, hout, Option.map_map]
      simp [Function.comp_def, Exchange.frames]

/-- A request to its end: what it leaves, and what is sent for it. -/
theorem exec_evalSteps (version did : String) (ev : Evaluator Env Host Run Input Val)
    {s : Session κ Env Host Run} {c : κ} (hidle : (s.conn c).phase = .idle)
    (hlock : s.lock = none) {job : EvalJob} (hshared : job.isolated = false) (inputs : List Input) :
    (((Session.runs version did ev).exec s (Session.evalSteps c job inputs)).bind fun s' =>
        if s'.lock.isSome then none
        else some (s'.heap s'.current, s'.host, (s'.conn c).out)) =
      (finish ev ((requestEvaluation job.source).begin ev (s.heap s.current) s.host) inputs).map
        fun e => (e.env, e.host,
          (s.conn c).out ++ (Exchange.eval job e.displayed (ev.outcome e.result)).frames) := by
  let t : Session κ Env Host Run := s.modify c fun k => { k with phase := .waiting job }
  have hread : Session.next version did ev s (.receive c job.request) = some t := by
    simp only [Session.next, hidle]
    rfl
  have hphase : (t.conn c).phase = .waiting job := by simp [t]
  have hout : (t.conn c).out = (s.conn c).out := by simp [t]
  have hacquire : Session.next version did ev t (.acquire c) = some (t.evalRequest ev c job) := by
    have hfree : t.lock = none := hlock
    simp only [Session.next, hphase, hfree]
  have hexec : (Session.runs version did ev).exec s (Session.evalSteps c job inputs) =
      (Session.next version did ev s (.receive c job.request)).bind fun s₁ =>
        (Session.next version did ev s₁ (.acquire c)).bind fun s₂ =>
          (Session.runs version did ev).exec s₂ (inputs.map (.resume c)) := rfl
  rw [hexec, hread, Option.bind_some, hacquire, Option.bind_some, evalRequest_eq ev c hshared]
  refine (exec_resumes (s := { t with lock := some c, sink := some (c, job.id) }) rfl rfl [] _
    inputs).trans ?_
  simp only [hout]
  rfl

/-! ## What the client receives -/

/-- The client succeeds exactly if the evaluation does and its whole answer arrives. -/
theorem eval_reads (ev : Evaluator Env Host Run Input Val) (job : EvalJob)
    (displayed : List String) (result : Except SchemeErr Val) :
    (match DaemonClient.eval job.id (reads Response.codec
        (Exchange.eval job displayed (ev.outcome result)).frames) with
      | some ((_, .ok (.ok _)), _) => true
      | _ => false) =
      ((Exchange.eval job displayed (ev.outcome result)).frames.all (fits Response.codec) &&
        result.isOk) := by
  have hok : (match ev.outcome result with
      | .ok _ => true
      | .error _ => false) = result.isOk := by
    cases result with
    | ok val =>
      rw [Evaluator.outcome]
      split_ifs <;> rfl
    | error e => rfl
  cases hall : (Exchange.eval job displayed (ev.outcome result)).frames.all
    (fits Response.codec) with
  | true =>
    have hframes := DaemonClient.eval_frames job displayed (ev.outcome result) []
    rw [List.append_nil] at hframes
    rw [reads_of_fits _ (List.all_eq_true.1 hall), hframes, Bool.true_and, ← hok]
    cases ev.outcome result <;> rfl
  | false =>
    -- the outcome does not arrive
    have hfits : ¬ ∀ r ∈ (Exchange.eval job displayed (ev.outcome result)).frames,
        fits Response.codec r = true := fun h => by
      rw [List.all_eq_true.2 h] at hall
      cases hall
    have hread := DaemonClient.eval_of_not_fits hfits []
    rw [List.append_nil] at hread
    rcases heval : DaemonClient.eval job.id (reads Response.codec
      (Exchange.eval job displayed (ev.outcome result)).frames) with _ | r
    · rfl
    · obtain ⟨texts, e, rfl⟩ := hread r heval
      rfl

theorem arrives_eq (raw : String) (isolated : Bool) :
    arrives raw isolated = fits Request.codec (scriptJob raw isolated).request := by
  rw [arrives, delivered_eq, List.takeWhile_cons]
  cases fits Request.codec (scriptJob raw isolated).request <;> simp

/-- The run of a request that arrives. -/
theorem clientRun_eq {version did : String} {ev : Evaluator Env Host Run Input Val}
    {s : Session κ Env Host Run} {c : κ} (hidle : (s.conn c).phase = .idle)
    (hlock : s.lock = none) {raw : String} (harrives : arrives raw false = true)
    (inputs : List Input) :
    clientRun version did ev s c raw false inputs =
      (finish ev ((requestEvaluation (stripShebang raw)).begin ev (s.heap s.current) s.host)
        inputs).map fun e => ⟨e.env, e.host,
          (Exchange.eval (scriptJob raw false) e.displayed (ev.outcome e.result)).frames.all
            (fits Response.codec) && e.result.isOk⟩ := by
  let ran (o : Env × Host × List Response) : Ran Env Host :=
    ⟨o.1, o.2.1, match DaemonClient.eval (scriptJob raw false).id
        (reads Response.codec (o.2.2.drop (s.conn c).out.length)) with
      | some ((_, .ok (.ok _)), _) => true
      | _ => false⟩
  have hshared : (scriptJob raw false).isolated = false := rfl
  have hmap := congrArg (Option.map ran)
    (exec_evalSteps version did ev hidle hlock hshared inputs)
  rw [Option.map_map, Option.map_bind] at hmap
  rw [clientRun, if_pos harrives]
  refine Eq.trans ?_ (hmap.trans ?_)
  · congr 1
    funext s'
    simp only [Function.comp_apply, ran]
    split_ifs <;> rfl
  · congr 1
    funext e
    simp only [Function.comp_apply, ran, List.drop_left, eval_reads]

/-! ## The two runs -/

/-- The two runs are the same exactly if the text is not a dot command, the request fits
    in a frame, and so does the answer if the evaluation succeeds. -/
theorem sameRun_iff {version did : String} {ev : Evaluator Env Host Run Input Val}
    {s : Session κ Env Host Run} {c : κ} (hidle : (s.conn c).phase = .idle)
    (hlock : s.lock = none) (raw : String) (inputs : List Input) :
    SameRun version did ev s c raw inputs ↔
      isDotCommandLine (stripShebang raw) = false ∧
        fits Request.codec (scriptJob raw false).request = true ∧
        ∀ e, finish ev (ev.start (stripShebang raw) (s.heap s.current) s.host) inputs = some e →
          e.result.isOk = true → ∀ frame ∈ (Exchange.eval (scriptJob raw false) e.displayed
            (ev.outcome e.result)).frames, fits Response.codec frame = true := by
  have hevaluation : clientEvaluation raw false = some (fileEvaluation raw) ↔
      isDotCommandLine (stripShebang raw) = false ∧ arrives raw false = true := by
    rw [clientEvaluation, requestEvaluation, fileEvaluation]
    split_ifs <;> simp_all
  have hran (harr : arrives raw false = true) (hdot : isDotCommandLine (stripShebang raw) = false) :
      clientRun version did ev s c raw false inputs =
          runFile ev (s.heap s.current) s.host raw inputs ↔
        ∀ e, finish ev (ev.start (stripShebang raw) (s.heap s.current) s.host) inputs = some e →
          e.result.isOk = true → ∀ frame ∈ (Exchange.eval (scriptJob raw false) e.displayed
            (ev.outcome e.result)).frames, fits Response.codec frame = true := by
    have hbegin : (requestEvaluation (stripShebang raw)).begin ev (s.heap s.current) s.host =
        ev.start (stripShebang raw) (s.heap s.current) s.host := by
      rw [requestEvaluation, if_neg (by simp [hdot])]
      rfl
    rw [clientRun_eq hidle hlock harr, hbegin]
    cases hfinish : finish ev (ev.start (stripShebang raw) (s.heap s.current) s.host) inputs with
    | none => simp [runFile, fileEvaluation, Evaluation.begin, hfinish]
    | some e =>
      simp [runFile, fileEvaluation, Evaluation.begin, hfinish]
  refine ⟨fun h => ?_, fun ⟨hdot, hfits, hanswer⟩ => ?_⟩
  · obtain ⟨hdot, harr⟩ := hevaluation.1 h.evaluation
    exact ⟨hdot, arrives_eq raw false ▸ harr, (hran harr hdot).1 h.ran⟩
  · have harr : arrives raw false = true := (arrives_eq raw false).trans hfits
    exact ⟨hevaluation.2 ⟨hdot, harr⟩, (hran harr hdot).2 hanswer⟩

section Examples

/-- A reader that refuses texts that start with a dot, and a host that knows every path. -/
def dotless : Evaluator Unit Unit Empty Unit Unit where
  start text _ _ := ⟨(), (), [], .inr (if text.toList.head? = some '.' then
    .error (.parseError "unexpected dot") else .ok ())⟩
  resume run := run.elim
  evalDot _ _ := ((), [], .ok ())
  sessionEnv := ()
  newRoot := ()
  dumpEnvSource _ := ""
  isNil _ := true
  display _ := ""

/-- A daemon that has just accepted a connection. -/
def accepted : Session Unit Unit Unit Empty :=
  ⟨fun _ => ⟨.idle, none, [], []⟩, fun _ => (), 0, (), none, none, []⟩

/-- A script that is a Scheme expression. -/
def sumScript : String := "#!/usr/bin/env zscheme\n(+ 1 2)\n"

theorem sameRun_sum : SameRun "" "" dotless accepted () sumScript [] ↔
    isDotCommandLine (stripShebang sumScript) = false ∧
      fits Request.codec (scriptJob sumScript false).request = true ∧
      ∀ e, finish dotless (dotless.start (stripShebang sumScript) () ()) [] = some e →
        e.result.isOk = true →
          ∀ frame ∈ (Exchange.eval (scriptJob sumScript false) e.displayed
            (dotless.outcome e.result)).frames, fits Response.codec frame = true :=
  sameRun_iff rfl rfl sumScript []

/-- A script that is a dot command. -/
def dotScript : String := "#!/usr/bin/env zscheme\n.my.ctx.room\n"

/-- It is one evaluation in process and another one in the daemon: the first fails, and
    the second succeeds. -/
theorem dotScript_differs :
    (fileEvaluation dotScript = .source ".my.ctx.room\n" ∧
      runFile dotless () () dotScript [] = some ⟨(), (), false⟩) ∧
    clientEvaluation dotScript false = some (.dot ".my.ctx.room") ∧
      clientRun "" "" dotless accepted () dotScript false [] = some ⟨(), (), true⟩ := by
  have harrives : arrives dotScript false = true := by
    rw [arrives_eq]
    decide +kernel
  rw [clientEvaluation, if_pos harrives, clientRun_eq rfl rfl harrives]
  decide +kernel

end Examples

end Zscheme.Front
