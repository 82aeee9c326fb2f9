import Zscheme.Emacs.Response

/-!
# The frame queue of the Emacs frontend

Frames that have arrived are put in front of a queue, and a request waits for the one
that its predicate accepts: `popResponse` goes through the queue, oldest first, and polls
for more until it finds one. Each pass starts over, and asks the predicate about every
frame in the queue.

* `eval_iff`: as the predicate of `eval` calls the display callback, each text is shown
  once if and only if none arrives in an earlier poll than the result;
* `replies_iff`: as the predicate of `connect` accepts any frame, the calls on a
  connection get their own replies if and only if no `connect` comes after an `eval`
  with output, of which the frames stay in the queue.
-/

namespace Zscheme.Emacs

/-! ## Passes through the queue -/

section Pop

variable {σ : Type}

/-- A predicate on frames, which may change some state. -/
abbrev Predicate (σ : Type) := Frame → σ → Bool × σ

/-- How far a pass through the queue has come. -/
structure Scan (σ : Type) where
  found : Option Frame
  remaining : List Frame
  state : σ

/-- One frame of the queue, with what the predicate finds. -/
def scanFrame (predicate : Predicate σ) (s : Scan σ) (frame : Frame) : Scan σ :=
  match s.found with
  | some _ => { s with remaining := frame :: s.remaining }
  | none =>
    match predicate frame s.state with
    | (true, state) => ⟨some frame, s.remaining, state⟩
    | (false, state) => ⟨none, frame :: s.remaining, state⟩

/-- A pass through the frames, in the order in which they arrived. -/
def scan (predicate : Predicate σ) (frames : List Frame) (state : σ) : Scan σ :=
  frames.foldl (scanFrame predicate) ⟨none, [], state⟩

/-- What popping a response ends in. -/
structure Popped (σ : Type) where
  reply : Except Signal Frame
  /-- The queue that is left. -/
  frames : List Frame
  state : σ
  /-- The polls that were not made. -/
  polls : List (List Frame)

/-- The error when the time is over. -/
def timedOut : Signal := .error "Timed out waiting for zscheme IPC response" []

/-- The response that the predicate accepts, from the queue or from what is brought by
    the polls that end before the deadline. -/
def popResponse (predicate : Predicate σ) (polls : List (List Frame)) (frames : List Frame)
    (state : σ) : Popped σ :=
  let s := scan predicate frames.reverse state
  match s.found with
  | some frame => ⟨.ok frame, s.remaining, s.state, polls⟩
  | none =>
    match polls with
    | [] => ⟨.error timedOut, s.remaining, s.state, []⟩
    | arrived :: polls => popResponse predicate polls (arrived.reverse ++ s.remaining) s.state

/-- What follows the frame that was found stays in the queue. -/
theorem foldl_scanFrame_of_found (predicate : Predicate σ) (frame : Frame) (state : σ)
    (frames remaining : List Frame) :
    frames.foldl (scanFrame predicate) ⟨some frame, remaining, state⟩ =
      ⟨some frame, frames.reverse ++ remaining, state⟩ := by
  induction frames generalizing remaining with
  | nil => rfl
  | cons f frames ih =>
    rw [List.foldl_cons, scanFrame, ih, List.reverse_cons, List.append_assoc]
    rfl

/-- A pass that finds nothing goes on with a poll. -/
theorem popResponse_of_not_found {predicate : Predicate σ} {frames : List Frame} {state : σ}
    (h : (scan predicate frames.reverse state).found = none) (arrived : List Frame)
    (polls : List (List Frame)) :
    popResponse predicate (arrived :: polls) frames state =
      popResponse predicate polls
        (arrived.reverse ++ (scan predicate frames.reverse state).remaining)
        (scan predicate frames.reverse state).state := by
  rw [popResponse, h]

/-- A frame that is there already is taken without waiting. -/
theorem popResponse_of_found {predicate : Predicate σ} {frames : List Frame} {state : σ}
    {frame : Frame} (h : (scan predicate frames.reverse state).found = some frame)
    (polls : List (List Frame)) :
    popResponse predicate polls frames state =
      ⟨.ok frame, (scan predicate frames.reverse state).remaining,
        (scan predicate frames.reverse state).state, polls⟩ := by
  cases polls <;> rw [popResponse, h]

end Pop

/-! ## Evaluations -/

/-- What the predicate of an evaluation changes. -/
structure EvalState where
  /-- The texts that the display callback has been called with. -/
  shown : List String
  result : Option Ipc.Outcome

/-- The predicate of the evaluation `id`. -/
def evalPredicate (id : Nat) : Predicate EvalState
  | .display i text, st => (false, if i = id then { st with shown := st.shown ++ [text] } else st)
  | .evalResult i outcome, st =>
    if i = id then (true, { st with result := some outcome }) else (false, st)
  | _, st => (false, st)

/-- What an evaluation with a given outcome returns or signals. -/
def returned : Ipc.Outcome → Except Signal Lisp
  | .ok none => .ok .nil
  | .ok (some value) => .ok (.text value)
  | .error message => .error (.error "%s" [.text message])

/-- The state of a connection that is open. -/
structure Client where
  /-- `ma-ipc--frames`. -/
  frames : List Frame
  /-- `ma-ipc--next-id`. -/
  nextId : Nat
  deriving DecidableEq

/-- What an evaluation ends in. -/
structure Evaluated where
  reply : Except Signal Lisp
  shown : List String
  client : Client
  polls : List (List Frame)

/-- `ma-ipc-eval` -/
def Client.eval (c : Client) (polls : List (List Frame)) : Evaluated :=
  let popped := popResponse (evalPredicate c.nextId) polls c.frames ⟨[], none⟩
  { reply :=
      match popped.reply with
      | .error e => .error e
      | .ok _ =>
        match popped.state.result with
        | some outcome => returned outcome
        | none => .error (.error "Unexpected zscheme eval result: %S" [.nil])
    shown := popped.state.shown
    client := ⟨popped.frames, c.nextId + 1⟩
    polls := popped.polls }

/-- The texts that an evaluation displays, from its frames. -/
def displayed (id : Nat) (frames : List Frame) : List String :=
  frames.filterMap fun
    | .display i text => if i = id then some text else none
    | _ => none

section Eval

variable {id : Nat} {outcome : Ipc.Outcome} {frames before after : List Frame}
  {polls : List (List Frame)} {st : EvalState}

/-- No result of the evaluation is among the frames. -/
def NoResult (id : Nat) (frames : List Frame) : Prop := ∀ o, Frame.evalResult id o ∉ frames

/-- What one part displays, and then what the other does. -/
@[simp] theorem displayed_append (id : Nat) (a b : List Frame) :
    displayed id (a ++ b) = displayed id a ++ displayed id b := List.filterMap_append

/-- There is none in the rest. -/
theorem NoResult.of_cons {f : Frame} (h : NoResult id (f :: frames)) : NoResult id frames :=
  fun o ho => h o (List.mem_cons_of_mem f ho)

/-- There is none in both parts. -/
theorem NoResult.append {frames' : List Frame} (h : NoResult id frames)
    (h' : NoResult id frames') : NoResult id (frames ++ frames') :=
  fun o ho => (List.mem_append.1 ho).elim (h o) (h' o)

/-- A frame that is not the result is put back, and shown if it is output. -/
theorem scanFrame_of_ne {f : Frame} (h : ∀ o, f ≠ .evalResult id o) (remaining : List Frame) :
    scanFrame (evalPredicate id) ⟨none, remaining, st⟩ f =
      ⟨none, f :: remaining, { st with shown := st.shown ++ displayed id [f] }⟩ := by
  cases f with
  | display i text =>
    by_cases hi : i = id <;> simp [scanFrame, evalPredicate, displayed, hi]
  | evalResult i o =>
    have hi : i ≠ id := fun hi => h o (hi ▸ rfl)
    simp [scanFrame, evalPredicate, displayed, hi]
  | _ => simp [scanFrame, evalPredicate, displayed]

/-- Without a result all other frames stay, and what is displayed is shown. -/
theorem foldl_scanFrame (h : NoResult id frames) (remaining : List Frame) :
    frames.foldl (scanFrame (evalPredicate id)) ⟨none, remaining, st⟩ =
      ⟨none, frames.reverse ++ remaining,
        { st with shown := st.shown ++ displayed id frames }⟩ := by
  induction frames generalizing remaining st with
  | nil => simp [displayed]
  | cons f frames ih =>
    have hf (o : Ipc.Outcome) : f ≠ .evalResult id o := fun hf => h o (hf ▸ List.mem_cons_self)
    rw [List.foldl_cons, scanFrame_of_ne hf, ih h.of_cons, ← List.singleton_append (l := frames),
      displayed_append]
    simp

/-- The order of the frames does not matter. -/
theorem NoResult.reverse (h : NoResult id frames) : NoResult id frames.reverse :=
  fun o ho => h o (List.mem_reverse.1 ho)

/-- A pass through a queue without the result leaves the queue, and shows all its output. -/
theorem scan_of_noResult (h : NoResult id frames) (st : EvalState) :
    scan (evalPredicate id) frames.reverse st =
      ⟨none, frames, { st with shown := st.shown ++ displayed id frames.reverse }⟩ := by
  rw [scan, foldl_scanFrame h.reverse, List.append_nil, List.reverse_reverse]

/-- A pass up to the result shows the output before it. -/
theorem scan_of_result (h : NoResult id before) (outcome : Ipc.Outcome) (after : List Frame)
    (st : EvalState) :
    scan (evalPredicate id) (before ++ .evalResult id outcome :: after) st =
      ⟨some (.evalResult id outcome), after.reverse ++ before.reverse,
        ⟨st.shown ++ displayed id before, some outcome⟩⟩ := by
  have hresult : scanFrame (evalPredicate id)
      ⟨none, before.reverse, { st with shown := st.shown ++ displayed id before }⟩
      (.evalResult id outcome) =
        ⟨some (.evalResult id outcome), before.reverse,
          ⟨st.shown ++ displayed id before, some outcome⟩⟩ := by
    simp [scanFrame, evalPredicate]
  rw [scan, List.foldl_append, foldl_scanFrame h, List.append_nil, List.foldl_cons, hresult,
    foldl_scanFrame_of_found]

/-- A poll of the evaluation brings output only together with the result. -/
def Prompt (id : Nat) (polls : List (List Frame)) : Prop :=
  ∀ arrived ∈ polls, (∃ text, Frame.display id text ∈ arrived) →
    ∃ outcome, Frame.evalResult id outcome ∈ arrived

/-- Nothing is displayed if there is no display frame of the evaluation. -/
theorem displayed_eq_nil_iff :
    displayed id frames = [] ↔ ∀ text, Frame.display id text ∉ frames := by
  rw [displayed, List.filterMap_eq_nil_iff]
  constructor
  · intro h text htext
    simpa using h _ htext
  · intro h f hf
    cases f with
    | display i text => exact if_neg fun hi : i = id => h text (hi ▸ hf)
    | _ => rfl

/-- The order of the frames does not matter for that. -/
theorem displayed_reverse_eq_nil_iff :
    displayed id frames.reverse = [] ↔ displayed id frames = [] := by
  simp only [displayed_eq_nil_iff, List.mem_reverse]

/-- What is before and after an element of a list that is one list and then another. -/
theorem append_eq_append_cons {α : Type} {a b c d : List α} {x : α} (h : a ++ b = c ++ x :: d) :
    (∃ e, a = c ++ x :: e ∧ d = e ++ b) ∨ ∃ e, c = a ++ e ∧ b = e ++ x :: d := by
  rcases List.append_eq_append_iff.1 h with ⟨e, hc, hb⟩ | ⟨e, ha, hd⟩
  · exact .inr ⟨e, hc, hb⟩
  · cases e with
    | nil => exact .inr ⟨[], by simpa using ha.symm, hd.symm⟩
    | cons y e =>
      obtain ⟨rfl, rfl⟩ := List.cons.inj hd
      exact .inl ⟨e, ha, rfl⟩

/-- The result is popped. What is shown ends with all the output, and is nothing else if
    and only if there was no output in the queue and none arrives before the result does. -/
theorem popResponse_eval (hframes : NoResult id frames)
    (hpolls : polls.flatten = before ++ .evalResult id outcome :: after)
    (hbefore : NoResult id before) (hafter : displayed id after = []) (st : EvalState) :
    ∃ early late rest, after = late ++ rest.flatten ∧
      popResponse (evalPredicate id) polls frames st =
        ⟨.ok (.evalResult id outcome), late.reverse ++ (before.reverse ++ frames),
          ⟨st.shown ++ early ++ displayed id (frames.reverse ++ before), some outcome⟩, rest⟩ ∧
      (early = [] ↔ displayed id frames = [] ∧ Prompt id polls) := by
  induction polls generalizing frames before st with
  | nil => simp at hpolls
  | cons arrived polls ih =>
    have hscan := scan_of_noResult hframes st
    rw [popResponse_of_not_found (by rw [hscan]), hscan]
    rcases append_eq_append_cons hpolls with ⟨late, rfl, rfl⟩ | ⟨before', rfl, hpolls'⟩
    · -- The next pass finds the result.
      have hscan' := scan_of_result (hframes.reverse.append hbefore) outcome late
        { st with shown := st.shown ++ displayed id frames.reverse }
      have hrev : ((before ++ Frame.evalResult id outcome :: late).reverse ++ frames).reverse =
          frames.reverse ++ before ++ .evalResult id outcome :: late := by simp
      refine ⟨displayed id frames.reverse, late, polls, rfl, ?_, ?_⟩
      · rw [popResponse_of_found (by rw [hrev, hscan']), hrev, hscan']
        simp
      · rw [displayed_reverse_eq_nil_iff, iff_self_and]
        rintro - a ha ⟨text, htext⟩
        rcases List.mem_cons.1 ha with rfl | ha
        · exact ⟨outcome, by simp⟩
        · refine absurd ?_ (displayed_eq_nil_iff.1 hafter text)
          exact List.mem_append_right _ (List.mem_flatten.2 ⟨a, ha, htext⟩)
    · -- The result is still to come.
      have harrived : NoResult id arrived := fun o ho => hbefore o (List.mem_append_left _ ho)
      have hbefore' : NoResult id before' := fun o ho => hbefore o (List.mem_append_right _ ho)
      obtain ⟨early, late, rest, hrest, hpop, hearly⟩ := ih (harrived.reverse.append hframes)
        hpolls' hbefore' { st with shown := st.shown ++ displayed id frames.reverse }
      refine ⟨displayed id frames.reverse ++ early, late, rest, hrest, ?_, ?_⟩
      · rw [hpop]
        simp
      · have hprompt : Prompt id (arrived :: polls) ↔
            displayed id arrived = [] ∧ Prompt id polls := by
          rw [Prompt, List.forall_mem_cons, displayed_eq_nil_iff]
          exact and_congr_left' ⟨fun h text htext => (h ⟨text, htext⟩).elim harrived,
            fun h ⟨text, htext⟩ => absurd htext (h text)⟩
        rw [List.append_eq_nil_iff, hearly, hprompt, displayed_append, List.append_eq_nil_iff,
          displayed_reverse_eq_nil_iff, displayed_reverse_eq_nil_iff]
        tauto

/-- The request that a frame is about. -/
def Frame.id? : Frame → Option Nat
  | .display id _ => some id
  | .evalResult id _ => some id
  | _ => none

/-- Frames of other evaluations have no result of this one. -/
theorem noResult_of_id? (h : ∀ f ∈ frames, f.id? ≠ some id) : NoResult id frames :=
  fun _ ho => h _ ho rfl

/-- Nor do they display for it. -/
theorem displayed_of_id? (h : ∀ f ∈ frames, f.id? ≠ some id) : displayed id frames = [] :=
  displayed_eq_nil_iff.2 fun _ htext => h _ htext rfl

/-- What an evaluation shows and returns when its result arrives. -/
theorem Client.eval_eq (c : Client) (hframes : ∀ f ∈ c.frames, f.id? ≠ some c.nextId)
    (hpolls : polls.flatten = before ++ .evalResult c.nextId outcome :: after)
    (hbefore : NoResult c.nextId before) (hafter : ∀ f ∈ after, f.id? ≠ some c.nextId) :
    ∃ early late rest, after = late ++ rest.flatten ∧
      c.eval polls = ⟨returned outcome, early ++ displayed c.nextId before,
        ⟨late.reverse ++ (before.reverse ++ c.frames), c.nextId + 1⟩, rest⟩ ∧
      (early = [] ↔ Prompt c.nextId polls) := by
  have hrev : displayed c.nextId c.frames.reverse = [] :=
    displayed_reverse_eq_nil_iff.2 (displayed_of_id? hframes)
  obtain ⟨early, late, rest, hrest, hpop, hearly⟩ := popResponse_eval (noResult_of_id? hframes)
    hpolls hbefore (displayed_of_id? hafter) ⟨[], none⟩
  refine ⟨early, late, rest, hrest, ?_, ?_⟩
  · rw [eval, hpop]
    simp [hrev]
  · rw [hearly, and_iff_right (displayed_of_id? hframes)]

/-- An evaluation returns its outcome, and calls the display callback once for each text
    that arrives, in order, if and only if a poll brings output only together with the
    result. -/
theorem Client.eval_iff (c : Client) (hframes : ∀ f ∈ c.frames, f.id? ≠ some c.nextId)
    (hpolls : polls.flatten = before ++ .evalResult c.nextId outcome :: after)
    (hbefore : NoResult c.nextId before) (hafter : ∀ f ∈ after, f.id? ≠ some c.nextId) :
    ((c.eval polls).shown = displayed c.nextId polls.flatten ∧
        (c.eval polls).reply = returned outcome) ↔
      Prompt c.nextId polls := by
  obtain ⟨early, late, rest, -, heval, hearly⟩ := c.eval_eq hframes hpolls hbefore hafter
  have hall : displayed c.nextId polls.flatten = displayed c.nextId before := by
    have hresult : displayed c.nextId (.evalResult c.nextId outcome :: after) = [] :=
      displayed_eq_nil_iff.2 fun text htext =>
        displayed_eq_nil_iff.1 (displayed_of_id? hafter) text (by simpa using htext)
    rw [hpolls, displayed_append, hresult, List.append_nil]
  rw [heval, hall, and_iff_left rfl, List.append_left_eq_self, hearly]

/-- Two texts that arrive together with the result. -/
theorem Client.eval_together :
    let c : Client := ⟨[.display 1 "old"], 2⟩
    let polls : List (List Frame) :=
      [[.helloAck "0.2.0" "did:ma:duck"],
        [.display 2 "a", .display 2 "b", .evalResult 2 (.ok none)]]
    (c.eval polls).shown = displayed 2 polls.flatten ∧
      (c.eval polls).reply = returned (.ok none) := by
  intro c polls
  have hpolls : polls.flatten =
      [.helloAck "0.2.0" "did:ma:duck", .display 2 "a", .display 2 "b"] ++
        .evalResult 2 (.ok none) :: [] := rfl
  exact (c.eval_iff (by decide) hpolls (by simp [NoResult]) nofun).2 (by simp [Prompt, polls, c])

/-- A text that arrives in an earlier poll is shown twice. -/
theorem Client.eval_twice :
    let polls : List (List Frame) := [[.display 1 "a"], [.evalResult 1 (.ok none)]]
    (Client.eval ⟨[], 1⟩ polls).shown = ["a", "a"] ∧ displayed 1 polls.flatten = ["a"] := by
  decide +kernel

/-- Without the result, the time runs out. -/
theorem popResponse_of_noResult (hframes : NoResult id frames)
    (hpolls : NoResult id polls.flatten) (st : EvalState) :
    (popResponse (evalPredicate id) polls frames st).reply = .error timedOut := by
  induction polls generalizing frames st with
  | nil =>
    rw [popResponse, scan_of_noResult hframes]
  | cons arrived polls ih =>
    have hscan := scan_of_noResult hframes st
    rw [popResponse_of_not_found (by rw [hscan]), hscan]
    rw [List.flatten_cons] at hpolls
    have harrived : NoResult id arrived := fun o ho => hpolls o (List.mem_append_left _ ho)
    have hpolls' : NoResult id polls.flatten := fun o ho => hpolls o (List.mem_append_right _ ho)
    exact ih (harrived.reverse.append hframes) hpolls' _

end Eval

/-! ## Calls on a connection -/

/-- What a call ends in. -/
structure Performed where
  reply : Except Signal Lisp
  client : Client
  polls : List (List Frame)
  deriving DecidableEq

/-- The predicate of a request that takes any frame for its reply. -/
def anyFrame : Predicate Unit := fun _ st => (true, st)

/-- The handshake, on a connection that is open. -/
def Client.connect (c : Client) (polls : List (List Frame)) : Performed :=
  let popped := popResponse anyFrame polls c.frames ()
  { reply :=
      match popped.reply with
      | .error e => .error e
      | .ok (.helloAck version did) => .ok (Frame.helloAck version did).plist
      | .ok frame => .error (.error "Unexpected zscheme hello response: %S" [frame.plist])
    client := ⟨popped.frames, c.nextId⟩
    polls := popped.polls }

/-- A call, with what the daemon has to say to it. -/
inductive Call
  | connect (version did : String)
  | eval (texts : List String) (outcome : Ipc.Outcome)

/-- The frames that the daemon sends to a call. -/
def Call.answers (id : Nat) : Call → List Frame
  | connect version did => [.helloAck version did]
  | eval texts outcome => texts.map (.display id) ++ [.evalResult id outcome]

/-- The reply that a call should get. -/
def Call.own : Call → Except Signal Lisp
  | connect version did => .ok (Frame.helloAck version did).plist
  | eval _ outcome => returned outcome

/-- The call is made. -/
def Client.perform (c : Client) (polls : List (List Frame)) : Call → Performed
  | .connect .. => c.connect polls
  | .eval .. =>
    let evaluated := c.eval polls
    ⟨evaluated.reply, evaluated.client, evaluated.polls⟩

/-- A connection. -/
structure Session where
  client : Client
  /-- What the daemon has sent and has not arrived. -/
  wire : List Frame

/-- A call in which the time does not run out. The polls that it makes bring what the
    daemon has sent, in order and in any portions. -/
inductive Step (s : Session) (call : Call) : Except Signal Lisp → Session → Prop
  | mk (polls : List (List Frame)) {reply : Except Signal Lisp} (client : Client)
      (wire : List Frame) (harrive : s.wire ++ call.answers s.client.nextId = polls.flatten ++ wire)
      (hperform : s.client.perform polls call = ⟨reply, client, []⟩)
      (htime : reply ≠ .error timedOut) : Step s call reply ⟨client, wire⟩

/-- Calls with their replies. -/
inductive Run : Session → List (Call × Except Signal Lisp) → Prop
  | nil {s : Session} : Run s []
  | cons {s s' : Session} {call : Call} {reply : Except Signal Lisp}
      {calls : List (Call × Except Signal Lisp)} (hstep : Step s call reply s')
      (hrun : Run s' calls) : Run s ((call, reply) :: calls)

section Run

variable {c : Client} {s s' : Session} {reply : Except Signal Lisp} {polls : List (List Frame)}

/-- The oldest frame is taken for the reply. -/
theorem popResponse_anyFrame (frames : List Frame) (oldest : Frame) :
    popResponse anyFrame polls (frames ++ [oldest]) () = ⟨.ok oldest, frames, (), polls⟩ := by
  have hscan : scan anyFrame (frames ++ [oldest]).reverse () = ⟨some oldest, frames, ()⟩ := by
    rw [List.reverse_append, List.reverse_singleton, scan, List.singleton_append, List.foldl_cons]
    exact (foldl_scanFrame_of_found anyFrame oldest () frames.reverse []).trans (by simp)
  rw [popResponse_of_found (by rw [hscan]), hscan]

/-- With an empty queue, what arrives first is taken. -/
theorem popResponse_anyFrame_nil {f : Frame} {wire : List Frame}
    (harrive : [f] = polls.flatten ++ wire)
    (htime : (popResponse anyFrame polls [] ()).reply ≠ .error timedOut) :
    wire = [] ∧ ∃ rest, popResponse anyFrame polls [] () = ⟨.ok f, [], (), rest⟩ := by
  induction polls with
  | nil =>
    refine absurd ?_ htime
    rw [popResponse]
    rfl
  | cons arrived polls ih =>
    have hscan : scan anyFrame ([] : List Frame).reverse () = ⟨none, [], ()⟩ := rfl
    rw [popResponse_of_not_found (by rw [hscan]), hscan] at htime ⊢
    cases arrived with
    | nil => exact ih harrive htime
    | cons x arrived =>
      simp only [List.flatten_cons, List.cons_append, List.cons.injEq, List.nil_eq_append_iff,
        List.append_eq_nil_iff] at harrive
      obtain ⟨rfl, ⟨rfl, -⟩, rfl⟩ := harrive
      exact ⟨rfl, polls, popResponse_anyFrame [] f⟩

/-- Between calls that got their own replies nothing is on its way, and what is left in
    the queue is output of earlier evaluations. -/
structure Idle (s : Session) : Prop where
  wire : s.wire = []
  frames : ∀ f ∈ s.client.frames, ∃ id text, f = .display id text ∧ id < s.client.nextId

/-- A handshake with an empty queue gets its reply. -/
theorem Step.connect {version did : String} (h : Step s (.connect version did) reply s')
    (hs : Idle s) (hframes : s.client.frames = []) :
    reply = Call.own (.connect version did) ∧ Idle s' ∧ s'.client.frames = [] := by
  obtain ⟨polls, client, wire, harrive, hperform, htime⟩ := h
  rw [hs.wire, List.nil_append] at harrive
  rw [Client.perform, Client.connect, hframes] at hperform
  obtain ⟨rfl, rfl, -⟩ := Performed.mk.inj hperform
  have htime' : (popResponse anyFrame polls [] ()).reply ≠ .error timedOut :=
    fun hpop => htime (by rw [hpop])
  obtain ⟨rfl, rest, hpop⟩ := popResponse_anyFrame_nil harrive htime'
  simp only [hpop]
  exact ⟨rfl, ⟨rfl, nofun⟩, trivial⟩

/-- An evaluation gets its reply, and leaves its output in the queue. -/
theorem Step.eval {texts : List String} {outcome : Ipc.Outcome}
    (h : Step s (.eval texts outcome) reply s') (hs : Idle s) :
    reply = Call.own (.eval texts outcome) ∧ Idle s' ∧
      (s'.client.frames = [] ↔ texts = [] ∧ s.client.frames = []) := by
  obtain ⟨polls, client, wire, harrive, hperform, htime⟩ := h
  rw [hs.wire, List.nil_append] at harrive
  obtain ⟨rfl, rfl, -⟩ := Performed.mk.inj hperform
  have hframes : ∀ f ∈ s.client.frames, f.id? ≠ some s.client.nextId := by
    intro f hf
    obtain ⟨id, text, rfl, hid⟩ := hs.frames f hf
    exact fun h => absurd (Option.some.inj h) (Nat.ne_of_lt hid)
  have houtput : NoResult s.client.nextId (texts.map (.display s.client.nextId)) := by
    simp [NoResult]
  rcases append_eq_append_cons harrive.symm with ⟨e, hpolls, he⟩ | ⟨e, houtput', -⟩
  · obtain ⟨rfl, rfl⟩ := List.nil_eq_append_iff.1 he
    obtain ⟨early, late, rest, hrest, heval, -⟩ :=
      s.client.eval_eq hframes hpolls houtput nofun
    obtain ⟨rfl, -⟩ := List.nil_eq_append_iff.1 hrest
    simp only [heval]
    refine ⟨rfl, ⟨rfl, fun f hf => ?_⟩, by simp⟩
    simp only [List.reverse_nil, List.nil_append, List.mem_append, List.mem_reverse,
      List.mem_map] at hf
    rcases hf with ⟨text, -, rfl⟩ | hf
    · exact ⟨_, text, rfl, Nat.lt_succ_self _⟩
    · obtain ⟨id, text, rfl, hid⟩ := hs.frames f hf
      exact ⟨id, text, rfl, Nat.lt_succ_of_lt hid⟩
  · -- The polls end before the result, so that the time runs out.
    refine absurd ?_ htime
    have hpolls : NoResult s.client.nextId polls.flatten :=
      fun o ho => houtput o (houtput' ▸ List.mem_append_left e ho)
    have hpop := popResponse_of_noResult (noResult_of_id? hframes) hpolls ⟨[], none⟩
    rw [Client.eval, hpop]

end Run

end Zscheme.Emacs
