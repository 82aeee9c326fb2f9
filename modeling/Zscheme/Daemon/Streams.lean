import Mathlib.Data.List.TakeWhile
import Zscheme.Daemon.Session
import Zscheme.Ipc.Frame

/-!
# What a client prints and returns

A client reads the frames of its connection one after the other (`DaemonClient`). The
daemon sends it, for each of its requests in order, what its evaluation displayed and then
its outcome, and nothing of another connection's. So each `DaemonClient::eval` prints its
own output and returns its own outcome if and only if every frame is within the limit of
`read_frame` (`streams`): a larger one is written, and refused by the reader.
-/

namespace Zscheme.Daemon

open Ipc

namespace DaemonClient

/-- `DaemonClient::hello`, on what the calls of `read_frame` return: what the next ones
    return, once the handshake is read. None if it fails, or the stream ends first. -/
def hello (version : String) : List (Except String Response) →
    Option (List (Except String Response))
  | .ok (.helloAck v _) :: rs => if v = version then some rs else none
  | _ => none

/-- `DaemonClient::eval`, on what the calls of `read_frame` return after its request: what it
    prints and what it returns, where the outer error is a failure of the connection, and what
    the next calls return. None if the stream ends first. -/
def eval (id : UInt64) : List (Except String Response) →
    Option ((List String × Except String Outcome) × List (Except String Response))
  | [] => none
  | .error e :: rs => some (([], .error e), rs)
  | .ok (.display rid text) :: rs =>
    if rid = id then
      (eval id rs).map fun ((texts, outcome), rest) => ((text :: texts, outcome), rest)
    else eval id rs
  | .ok (.evalResult rid outcome) :: rs =>
    if rid = id then some (([], .ok outcome), rs) else eval id rs
  | .ok _ :: rs => eval id rs

/-- What the evaluations of a client print and return, one after the other, until one of
    them does not return. -/
def evals : List UInt64 → List (Except String Response) →
    List (List String × Except String Outcome)
  | [], _ => []
  | id :: ids, rs => match eval id rs with
    | none => []
    | some (r, rest) => r :: evals ids rest

/-- The evaluations of a client with the given ids, after the handshake, on the frames that
    are sent to it. None without a handshake. -/
def session (version : String) (ids : List UInt64) (sent : List Response) :
    Option (List (List String × Except String Outcome)) :=
  (hello version (reads Response.codec sent)).map (evals ids)

/-- An evaluation prints and returns what the daemon sent for it. -/
theorem eval_frames (job : EvalJob) (displayed : List String) (outcome : Outcome)
    (rest : List (Except String Response)) :
    eval job.id ((Exchange.eval job displayed outcome).frames.map .ok ++ rest) =
      some ((displayed, .ok outcome), rest) := by
  simp only [Exchange.frames]
  induction displayed with
  | nil => simp [eval]
  | cons text texts ih => simpa [eval] using ih

/-- What has no outcome is read up to its end, or up to an error. -/
theorem eval_display (id rid : UInt64) (displayed : List String)
    {last : List (Except String Response)} (hlast : last = [] ∨ ∃ e, last = [.error e]) :
    ∀ r ∈ eval id (displayed.map (fun text => .ok (.display rid text)) ++ last),
      ∃ texts e, r = ((texts, .error e), []) := by
  induction displayed with
  | nil =>
    rcases hlast with rfl | ⟨e, rfl⟩ <;> rintro r ⟨⟩
    exact ⟨[], e, rfl⟩
  | cons text texts ih =>
    simp only [List.map_cons, List.cons_append, eval]
    split_ifs
    · intro r hr
      obtain ⟨r', hr', rfl⟩ := Option.map_eq_some_iff.1 hr
      obtain ⟨texts', e, rfl⟩ := ih r' hr'
      exact ⟨text :: texts', e, rfl⟩
    · exact ih

/-- An evaluation returns the same when more frames follow. -/
theorem eval_append {id : UInt64} {rs rest : List (Except String Response)}
    {r : List String × Except String Outcome} (h : eval id rs = some (r, rest))
    (more : List (Except String Response)) : eval id (rs ++ more) = some (r, rest ++ more) := by
  -- what answers the request comes before anything that is appended
  induction rs generalizing r with
  | nil => cases h
  | cons f rs ih =>
    rcases f with e | f
    · cases h
      rfl
    cases f with
    | display rid text =>
      by_cases hid : rid = id
      · simp only [eval, if_pos hid, Option.map_eq_some_iff] at h
        obtain ⟨⟨⟨texts, outcome⟩, rest'⟩, hr, he⟩ := h
        obtain ⟨rfl, rfl⟩ := Prod.mk.inj he
        simp [eval, hid, ih hr]
      · simp only [eval, if_neg hid] at h
        simp [eval, hid, ih h]
    | evalResult rid outcome =>
      by_cases hid : rid = id
      · simp only [eval, if_pos hid, Option.some.injEq, Prod.mk.injEq] at h
        simp [eval, hid, h]
      · simp only [eval, if_neg hid] at h
        simp [eval, hid, ih h]
    | _ =>
      simp only [eval] at h
      simp [eval, ih h]

/-- A client that has received less has seen fewer evaluations return. -/
theorem evals_append (ids : List UInt64) (rs more : List (Except String Response)) :
    evals ids rs <+: evals ids (rs ++ more) := by
  induction ids generalizing rs with
  | nil => exact List.prefix_rfl
  | cons id ids ih =>
    cases he : eval id rs with
    | none => simp [evals, he]
    | some p =>
      obtain ⟨r, rest⟩ := p
      simpa [evals, he, eval_append he more] using ih rest

/-- The exchange of an evaluation that printed and returned something. -/
def exchange (run : EvalJob × List String × Outcome) : Exchange := .eval run.1 run.2.1 run.2.2

/-- What its own evaluation printed and returned. -/
def returned (run : EvalJob × List String × Outcome) : List String × Except String Outcome :=
  (run.2.1, .ok run.2.2)

/-- The evaluations of a client return, each with what was sent for it; one that has not
    ended does not return. -/
theorem evals_frames {Run : Type*} (runs : List (EvalJob × List String × Outcome))
    (phase : Phase Run) (more : List UInt64) :
    evals (runs.map (·.1.id) ++ more)
      (((runs.map exchange).flatMap Exchange.frames ++ phase.frames).map .ok) =
        runs.map returned := by
  induction runs with
  | nil =>
    cases more with
    | nil => rfl
    | cons id ids =>
      have hnone : eval id (phase.frames.map .ok) = none := by
        cases phase with
        | evaluating job _ _ displayed =>
          simp only [Phase.frames]
          induction displayed with
          | nil => rfl
          | cons text texts ih =>
            simp only [List.map_cons, eval, ih, Option.map_none, ite_self]
        | _ => rfl
      simp [evals, hnone]
  | cons run runs ih =>
    obtain ⟨job, displayed, outcome⟩ := run
    rw [List.map_append] at ih
    simp only [List.map_cons, List.cons_append, List.flatMap_cons, List.append_assoc, evals,
      exchange, List.map_append, eval_frames, returned]
    exact congrArg _ ih

/-- What is read of messages that do not all fit is some of those before the last one. -/
theorem exists_take_of_not_fits {T : Type*} (p : T → Bool) (l : List T) (x : T) (rest : List T)
    (h : ¬ ∀ r ∈ l ++ [x], p r = true) : ∃ k, (l ++ [x] ++ rest).takeWhile p = l.take k := by
  induction l with
  | nil =>
    have hx : ¬ p x = true := by simpa using h
    exact ⟨0, List.takeWhile_cons_of_neg hx⟩
  | cons a l ih =>
    by_cases ha : p a = true
    · obtain ⟨k, hk⟩ := ih fun hall => h (List.forall_mem_cons.2 ⟨ha, hall⟩)
      refine ⟨k + 1, ?_⟩
      rw [List.cons_append, List.cons_append, List.takeWhile_cons_of_pos ha, hk,
        List.take_succ_cons]
    · exact ⟨0, List.takeWhile_cons_of_neg ha⟩

/-- An evaluation whose frames do not all fit does not return, or returns an error of the
    connection. -/
theorem eval_of_not_fits {job : EvalJob} {displayed : List String} {outcome : Outcome}
    (h : ¬ ∀ r ∈ (Exchange.eval job displayed outcome).frames, fits Response.codec r = true)
    (rest : List Response) : ∀ r ∈ eval job.id (reads Response.codec
      ((Exchange.eval job displayed outcome).frames ++ rest)),
        ∃ texts e, r = ((texts, .error e), []) := by
  obtain ⟨last, hreads, hlast⟩ :=
    reads_eq Response.codec ((Exchange.eval job displayed outcome).frames ++ rest)
  obtain ⟨k, hk⟩ := exists_take_of_not_fits _ _ _ rest h
  have heq : (((displayed.map (Response.display job.id)).take k).map .ok :
      List (Except String Response)) =
        (displayed.take k).map fun text => .ok (.display job.id text) := by
    rw [← List.map_take, List.map_map]
    rfl
  rw [hreads, Exchange.frames, hk, heq]
  exact eval_display job.id job.id (displayed.take k) hlast

/-- The evaluations of a client return, each with what was sent for it, if and only if each
    frame of them fits. -/
theorem evals_reads_iff (runs : List (EvalJob × List String × Outcome)) (rest : List Response) :
    evals (runs.map (·.1.id)) (reads Response.codec
        ((runs.map exchange).flatMap Exchange.frames ++ rest)) = runs.map returned ↔
      ∀ r ∈ (runs.map exchange).flatMap Exchange.frames, fits Response.codec r = true := by
  induction runs with
  | nil => exact iff_of_true rfl (by simp)
  | cons run runs ih =>
    obtain ⟨job, displayed, outcome⟩ := run
    simp only [List.map_cons, List.flatMap_cons, List.append_assoc, exchange, returned,
      List.forall_mem_append]
    by_cases h : ∀ r ∈ (Exchange.eval job displayed outcome).frames, fits Response.codec r = true
    · rw [reads_append_of_fits _ h, evals, eval_frames, and_iff_right h]
      simpa only [List.cons.injEq, true_and] using ih
    · refine iff_of_false (fun heq => ?_) fun hall => h hall.1
      rw [evals] at heq
      split at heq
      · cases heq
      · next r rest' heval =>
        obtain ⟨texts, e, hr⟩ := eval_of_not_fits h _ _ heval
        cases hr
        cases heq

/-- The handshake and the evaluations of a client return, each with what was sent for it,
    if and only if each frame of them fits. -/
theorem session_iff (version did : String) (runs : List (EvalJob × List String × Outcome))
    (rest : List Response) :
    session version (runs.map (·.1.id)) (.helloAck version did ::
        ((runs.map exchange).flatMap Exchange.frames ++ rest)) = some (runs.map returned) ↔
      ∀ r ∈ Response.helloAck version did :: (runs.map exchange).flatMap Exchange.frames,
        fits Response.codec r = true := by
  rw [session, List.forall_mem_cons]
  by_cases h : fits Response.codec (.helloAck version did) = true
  · rw [reads_cons_of_fits _ h, hello, if_pos rfl, Option.map_some, Option.some_inj,
      evals_reads_iff]
    simp [h]
  · obtain ⟨last, hreads, hlast⟩ := reads_eq Response.codec (.helloAck version did ::
      ((runs.map exchange).flatMap Exchange.frames ++ rest))
    rw [hreads, List.takeWhile_cons_of_neg h]
    refine iff_of_false ?_ fun hall => h hall.1
    rcases hlast with rfl | ⟨e, rfl⟩ <;> simp [hello]

end DaemonClient

namespace Session

variable {κ Env Host Run Input Val : Type*} [DecidableEq κ] {version did : String}
  {ev : Evaluator Env Host Run Input Val}

/-- After any run, a connection has handled the requests it has read, in order, but for
    one that may be under way. What has been sent on it is, for each of these, what was
    displayed while it was evaluated, in order, under its id, and then its outcome (or the
    reply to it); and then what the evaluation under way has displayed.

    A client that evaluates one source after the other has seen each of its evaluations
    that ended print its own output and return its own outcome if and only if each frame
    that was sent for them, and for the handshake, fits; with some of the frames, all of
    which fit, it has seen the first of them do so. -/
theorem streams {s₀ s : Session κ Env Host Run} {l : List (SessionStep κ Input)}
    (h₀ : Initial s₀) (hl : (sessions version did ev Initial).exec s₀ l = some s) (c : κ) :
    l.flatMap (SessionStep.requests c) =
      (s.conn c).history.map Exchange.request ++ (s.conn c).phase.requests ∧
    (s.conn c).out = (s.conn c).history.flatMap Exchange.frames ++ (s.conn c).phase.frames ∧
    ∀ clientVersion (runs : List (EvalJob × List String × Outcome)),
      (s.conn c).history = .other (.hello clientVersion) (.helloAck version did) ::
        runs.map DaemonClient.exchange →
      (DaemonClient.session version (runs.map (·.1.id)) (s.conn c).out =
          some (runs.map DaemonClient.returned) ↔
        ∀ r ∈ (s.conn c).history.flatMap Exchange.frames, fits Response.codec r = true) ∧
      ∀ more received results, received <+: (s.conn c).out →
        (∀ r ∈ received, fits Response.codec r = true) →
        DaemonClient.session version (runs.map (·.1.id) ++ more) received = some results →
        results <+: runs.map DaemonClient.returned := by
  obtain ⟨hinv, hreq⟩ := requests_exec (inv_initial h₀) hl c
  have hsent := hinv.sent c
  have hempty : (s₀.conn c).requests = [] := by simp [h₀.1, Conn.requests, Phase.requests]
  refine ⟨?_, hsent, fun clientVersion runs hh => ?_⟩
  · rw [hempty, List.nil_append] at hreq
    exact hreq.symm
  -- All that was sent answers the handshake and then the evaluations.
  rw [hsent, hh, List.flatMap_cons, Exchange.frames, List.singleton_append, List.cons_append]
  refine ⟨DaemonClient.session_iff version did runs _, fun more received results hr hfits hs => ?_⟩
  rw [DaemonClient.session, reads_of_fits _ hfits] at hs
  obtain ⟨rest, hrest⟩ := hr
  cases received with
  | nil => cases hs
  | cons r rs =>
    rw [List.cons_append] at hrest
    obtain ⟨rfl, hrs⟩ := List.cons.inj hrest
    rw [List.map_cons, DaemonClient.hello, if_pos rfl, Option.map_some] at hs
    obtain rfl := Option.some.inj hs
    rw [← DaemonClient.evals_frames runs (s.conn c).phase more, ← hrs, List.map_append]
    exact DaemonClient.evals_append _ _ _

/-- Two clients whose evaluations overlap. -/
def greeted : List (SessionStep Bool String) :=
  [.receive true (.hello ""), .receive false (.hello ""), .receive true (.eval 1 "a" false),
    .acquire true, .receive false (.eval 1 "b" false), .resume true "x", .acquire false,
    .resume false "y"]

/-- Each client prints what was displayed for it, and returns its own outcome. -/
theorem streams_greeted : ∃ s, (sessions "" "" echo Initial).exec fresh greeted = some s ∧
    DaemonClient.session "" [1] (s.conn true).out = some [(["a", "x"], .ok (.ok none))] ∧
    DaemonClient.session "" [1] (s.conn false).out = some [(["b", "y"], .ok (.ok none))] := by
  obtain ⟨s, hs⟩ : ∃ s, (sessions "" "" echo Initial).exec fresh greeted = some s := ⟨_, rfl⟩
  have hclient (c : Bool) (a x : String) (h : (s.conn c).history = .other (.hello "")
      (.helloAck "" "") :: [(⟨1, a, false⟩, [a, x], .ok none)].map DaemonClient.exchange) :=
    ((streams ⟨fun _ => rfl, rfl, rfl⟩ hs c).2.2 "" _ h).1.2
  obtain rfl := Option.some.inj hs
  exact ⟨_, rfl, hclient true "a" "x" rfl (by decide +kernel),
    hclient false "b" "y" rfl (by decide +kernel)⟩

/-! ## A text that is too large -/

/-- A text of so many bytes. -/
def textOf (n : Nat) : String := .ofList (List.replicate n 'a')

/-- An evaluator that displays a text of so many bytes. -/
def loud (n : Nat) : Evaluator Unit Unit Unit String Unit where
  start _ _ _ := ⟨(), (), [textOf n], .inr (.ok ())⟩
  resume _ _ _ _ := ⟨(), (), [], .inr (.ok ())⟩
  evalDot _ host := (host, [], .ok ())
  sessionEnv := ()
  newRoot := ()
  dumpEnvSource _ := ""
  isNil _ := true
  display _ := ""

/-- The length of the encoding of an output. -/
theorem length_encode_display (id : UInt64) (s : String) :
    (Response.display id s).toCbor.encode.length = (Cbor.head 0 id.toNat).length +
      (Cbor.head 3 s.utf8ByteSize).length + s.utf8ByteSize + 18 := by
  have hname : "Display".utf8ByteSize = 7 := by decide
  have hid : "id".utf8ByteSize = 2 := by decide
  have htext : "text".utf8ByteSize = 4 := by decide
  have hhead : (Cbor.head 3 7).length = 1 ∧ (Cbor.head 3 2).length = 1 ∧
      (Cbor.head 3 4).length = 1 ∧ (Cbor.head 5 1).length = 1 ∧ (Cbor.head 5 2).length = 1 := by
    decide
  simp only [Response.toCbor, variant, Cbor.encode, Cbor.encodePairs, List.length_append,
    List.length_cons, List.length_nil, length_utf8, hname, hid, htext, hhead]
  omega

/-- An output that is over the limit of `read_frame`, and within that of `write_frame`, is
    an error for the client. -/
theorem reads_textOf {n : Nat} (hgt : MAX_FRAME_LEN ≤ n) (hlt : n + 36 < 2 ^ 32)
    (id : UInt64) (rest : List Response) :
    ∃ e, reads Response.codec (.display id (textOf n) :: rest) = [.error e] := by
  have hid := Cbor.length_head_le 0 id.toNat
  have hle := Cbor.length_head_le 3 n
  have hlen := length_encode_display id (textOf n)
  rw [textOf, utf8ByteSize_replicate] at hlen
  have henc : Response.codec.encode (.display id (textOf n)) =
      some (Response.display id (textOf n)).toCbor.encode := if_pos (by rw [textOf]; omega)
  exact ⟨_, reads_cons_of_large Response.codec henc (by rw [textOf]; omega)
    (by rw [textOf]; omega) rest⟩

/-- A client whose evaluation displays a text of 17 MiB: it returns an error of the
    connection, and not the outcome. -/
theorem not_streams :
    let n := 17 * 1024 * 1024
    let job : EvalJob := ⟨1, "(display s)", false⟩
    ∃ s, (sessions "" "" (loud n) Initial).exec fresh
        [.receive true (.hello ""), .receive true job.request, .acquire true] = some s ∧
      (s.conn true).history = [.other (.hello "") (.helloAck "" ""),
        .eval job [textOf n] (.ok none)] ∧
      ∃ e, DaemonClient.session "" [1] (s.conn true).out = some [([], .error e)] := by
  intro n job
  have hlarge : MAX_FRAME_LEN ≤ n ∧ n + 36 < 2 ^ 32 := by decide
  generalize n = m at hlarge ⊢
  refine ⟨_, rfl, ?_⟩
  have hdot : isDotCommandLine job.source = false := by decide +kernel
  rw [evalRequest_of_not_dot hdot true rfl]
  refine ⟨rfl, ?_⟩
  obtain ⟨e, he⟩ := reads_textOf hlarge.1 hlarge.2 1 [.evalResult 1 (.ok none)]
  refine ⟨e, ?_⟩
  have hack : fits Response.codec (.helloAck "" "") = true := by decide +kernel
  have hsession : DaemonClient.session "" [1] [.helloAck "" "", .display 1 (textOf m),
      .evalResult 1 (.ok none)] = some [([], .error e)] := by
    rw [DaemonClient.session, reads_cons_of_fits _ hack, he]
    rfl
  exact hsession

end Session

end Zscheme.Daemon
