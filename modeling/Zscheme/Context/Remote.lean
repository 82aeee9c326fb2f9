import Zscheme.Context.Delivery
import Zscheme.Context.Send
import Zscheme.Lib.Linear

/-!
# Calls of remote actors

Any number of calls are under way at once. Each is written as a term, signed and sent; its
actor, wherever it is, reads the message some time later, acts on it and answers; the answer
comes back after any delay, any number of times or never, among messages that answer no
call; the poll loop drains what has come and hands it to the call that awaits it.

For the caller none of this shows (`calls_linearizable`): the actors are in the state, and
every call that got an answer has the result, that come of asking the actors directly, one
call after the other, in an order in which a call that returned before another one was made
comes first.

How the actors answer is a parameter. They read terms and write terms as `ma_core` does, a
message reaches its actor once, and no one else answers in its place (`Genuine`).
-/

namespace Zscheme.Context

open Ciborium

/-- What a call asks for. -/
structure Request where
  target : String
  verb : String
  args : List SchemeVal
  /-- The maps in the arguments are B-tree maps. -/
  ordered : SchemeVal.OrderedList args

/-- The actors of the network, with states `W`. -/
structure Actors (W : Type) where
  /-- What is left of the actors when one of them is asked for something, and its answer,
      if it gives one. -/
  ask : W → (target verb : String) → List SchemeVal → W × Option (Except String SchemeVal)
  ordered : ∀ w target verb args v, (ask w target verb args).2 = some (.ok v) → v.Ordered

namespace Actors

variable {ι W : Type} (A : Actors W)

/-- The calls, made of the actors directly. -/
def direct (request : ι → Request) : Object W ι (Option (Except String SchemeVal)) where
  serve w i := A.ask w (request i).target (atom (request i).verb) (request i).args

/-- What a message does when it reaches its actor, and the payload of the reply to it. -/
def receive (c : Ipc.Codec Value) (w : W) (msg : Signed) : W × Option (List UInt8) :=
  match (c.decode msg.body).bind readTerm with
  | some (verb, args) =>
    let (w, answer) := A.ask w msg.target verb args
    (w, answer.bind fun answer => c.encode (replyTerm answer))
  | none => (w, none)

end Actors

variable {ι Id W Key : Type}

/-- The calls `ι` and what they are made of. -/
structure Remote (ι Id W : Type) where
  calls : Calls ι Id
  /-- The state of the actors. -/
  world : W
  /-- The replies that the actors have sent. -/
  answers : List (Message Id)
  /-- What has happened to the calls, in order. -/
  history : List (Moment ι)

/-- A step of a call, of the network or of the poll loop, or a message that reaches its
    actor. -/
inductive RemoteStep (ι Id : Type)
  | step (a : CallStep ι Id)
  | serve (i : ι)

/-- The moments that a step makes. -/
def CallStep.moments : CallStep ι Id → List (Moment ι)
  | wire i => [.called i]
  | resume i => [.returned i]
  | _ => []

namespace Remote

variable [DecidableEq ι] [DecidableEq Id] (sender : Sender Key) (msgId : ι ↪ Id)
  (request : ι → Request) (A : Actors W)

/-- The message of a call. -/
def message (i : ι) : Except String Signed :=
  sender.sendActor (request i).target (request i).verb (request i).args

/-- What cannot be signed does not go on the wire, and is the failure of the call. -/
def ready : CallStep ι Id → Bool
  | .wire i => match message sender request i with
    | .ok _ => true
    | .error _ => false
  | .fail i e => match message sender request i with
    | .ok _ => true
    | .error e' => e = e'
  | _ => true

/-- The steps of the calls, the network, the poll loop and the actors. -/
def next (s : Remote ι Id W) : RemoteStep ι Id → Option (Remote ι Id W)
  | .step a => if ready sender request a then
      (Calls.next msgId (decodeReply sender.codec.decode) s.calls a).map fun calls =>
        { s with calls, history := s.history ++ a.moments }
    else none
  | .serve i => match message sender request i with
    | .error _ => none
    | .ok msg =>
      -- a message reaches its actor at most once, and not before it is sent
      if .called i ∈ s.history ∧ .served i ∉ s.history then
        let (world, payload) := A.receive sender.codec s.world msg
        some { s with
          world
          answers := s.answers ++ (payload.map fun payload => ⟨some (msgId i), payload⟩).toList
          history := s.history ++ [.served i] }
      else none

/-- Calls of actors in a given state. -/
def remote (w : W) : System (Remote ι Id W) (RemoteStep ι Id) where
  init s := s = ⟨Calls.initial, w, [], []⟩
  next := next sender msgId request A

omit [DecidableEq ι] [DecidableEq Id] in
/-- What arrives in reply to a call is an answer of its actor. -/
def Genuine (s : Remote ι Id W) : RemoteStep ι Id → Prop
  | .step (.arrive m) => ∀ i, m.replyTo = some (msgId i) → m ∈ s.answers
  | _ => True

end Remote

/-! ## What actors are asked -/

section Actors

variable {sender : Sender Key} {A : Actors W} {target verb : String} {args : List SchemeVal}
  {msg : Signed}

/-- The actor is asked for what the message was made of. -/
theorem Actors.receive_eq (hargs : SchemeVal.OrderedList args)
    (h : sender.sendActor target verb args = .ok msg) (w : W) :
    A.receive sender.codec w msg = ((A.ask w target (atom verb) args).1,
      (A.ask w target (atom verb) args).2.bind fun answer =>
        sender.codec.encode (replyTerm answer)) := by
  obtain ⟨rfl, hbody⟩ := sender.sendActor_ok h
  simp only [receive]
  rw [sender.codec.decode_encode _ _ hbody, Option.bind_some, readTerm_term verb hargs]

/-- The reply to a message is read as the answer. -/
theorem Actors.decodeReply_receive (hargs : SchemeVal.OrderedList args)
    (h : sender.sendActor target verb args = .ok msg) {w : W} {payload : List UInt8}
    (hpayload : (A.receive sender.codec w msg).2 = some payload) :
    (A.ask w target (atom verb) args).2 = some (decodeReply sender.codec.decode payload) := by
  rw [receive_eq hargs h] at hpayload
  obtain ⟨answer, hanswer, hencode⟩ := Option.bind_eq_some_iff.1 hpayload
  have hordered : ∀ v, answer = .ok v → v.Ordered := by
    rintro v rfl
    exact A.ordered w target (atom verb) args v hanswer
  rw [hanswer, decodeReply_replyTerm sender.codec hordered hencode]

end Actors

namespace Calls

variable [DecidableEq ι] [DecidableEq Id] {msgId : ι ↪ Id}
  {decodeReply : List UInt8 → Except String SchemeVal}

/-- What a call is given when messages are routed comes from one that replies to it. -/
theorem source_of_routeAll {s : Calls ι Id} (hs : Inv msgId s) {l : List (Message Id)} {i : ι}
    {r : Except String SchemeVal} (h : (l.foldl (route decodeReply) s).oneshot i = some r) :
    s.oneshot i = some r ∨ ∃ m ∈ l, m.replyTo = some (msgId i) ∧ decodeReply m.payload = r := by
  induction l generalizing s with
  | nil => exact .inl h
  | cons m l ih =>
    rcases ih (hs.route m) h with h | ⟨m', hm', hrest⟩
    · obtain ⟨hroute, -⟩ | ⟨j, hj, -, -, hroute⟩ := route_cases decodeReply hs m <;>
        rw [hroute] at h
      · exact .inl h
      · by_cases hij : i = j
        · subst hij
          simp only [Function.update_self] at h
          exact .inr ⟨m, List.mem_cons_self, hj, Option.some.inj h⟩
        · simp only [Function.update_of_ne hij] at h
          exact .inl h
    · exact .inr ⟨m', List.mem_cons_of_mem _ hm', hrest⟩

end Calls

/-! ## The calls as if made directly -/

namespace Remote

variable {sender : Sender Key} {msgId : ι ↪ Id} {request : ι → Request} {A : Actors W} {w : W}

/-- The answer is the one that asking the actors directly gives to the call. -/
abbrev Answers (request : ι → Request) (A : Actors W) (w : W) (s : Remote ι Id W) (i : ι)
    (answer : Except String SchemeVal) : Prop :=
  (i, some answer) ∈ (A.direct request).answers w (servedIn s.history)

/-- A call that has returned its answer, or else has failed to be sent. -/
inductive Outcome (sender : Sender Key) (request : ι → Request) (s : Remote ι Id W) (i : ι)
    (result : Except SchemeErr SchemeVal) : Prop
  | answered (answer : Except String SchemeVal) (returned : .returned i ∈ s.history)
      (given : s.calls.oneshot i = some answer) (eq : result = Calls.completion answer)
  | unsent (e : String) (returned : .returned i ∉ s.history) (eq : result = .error (.maError e))
      (reason : ∀ e', message sender request i = .error e' → e' = e)

/-- What has happened so far is what direct calls would have done. -/
structure Inv [DecidableEq ι] (sender : Sender Key) (msgId : ι ↪ Id) (request : ι → Request)
    (A : Actors W) (w : W) (s : Remote ι Id W) : Prop where
  calls : Calls.Inv msgId s.calls
  timely : Timely s.history
  world : s.world = (A.direct request).run w (servedIn s.history)
  answers : ∀ m ∈ s.answers, ∃ i, m.replyTo = some (msgId i) ∧
    Answers request A w s i (decodeReply sender.codec.decode m.payload)
  inbox : ∀ m ∈ s.calls.inbox, ∀ i, m.replyTo = some (msgId i) → m ∈ s.answers
  given : ∀ i answer, s.calls.oneshot i = some answer → Answers request A w s i answer
  called : ∀ i, .called i ∈ s.history →
    s.calls.call i ≠ .idle ∧ ∃ msg, message sender request i = .ok msg
  returned : ∀ i, .returned i ∈ s.history → ∃ result, s.calls.call i = .done result
  outcome : ∀ i result, s.calls.call i = .done result → Outcome sender request s i result

variable [DecidableEq ι]

theorem inv_initial :
    Inv sender msgId request A w (⟨Calls.initial, w, [], []⟩ : Remote ι Id W) where
  calls := Calls.inv_initial
  timely := .nil
  world := rfl
  answers := by simp
  inbox := by simp [Calls.initial]
  given := by simp [Calls.initial]
  called := by simp
  returned := by simp
  outcome := by simp [Calls.initial]

omit [DecidableEq ι] in
theorem servedIn_moments (h : List (Moment ι)) (a : CallStep ι Id) :
    servedIn (h ++ a.moments) = servedIn h := by
  cases a <;> simp [CallStep.moments, Moment.served?]

variable {s : Remote ι Id W} {i : ι}

/-- A message that reaches its actor is served as a direct call is. -/
theorem Inv.serve (hs : Inv sender msgId request A w s) {msg : Signed}
    (hmsg : message sender request i = .ok msg) (hcalled : .called i ∈ s.history)
    (hserved : .served i ∉ s.history) :
    let p := A.receive sender.codec s.world msg
    Inv sender msgId request A w { s with
      world := p.1
      answers := s.answers ++ (p.2.map fun payload => ⟨some (msgId i), payload⟩).toList
      history := s.history ++ [.served i] } := by
  intro p
  -- What was answered before stays answered, and the new answer comes last.
  have hmono : ∀ j answer, Answers request A w s j answer →
      (j, some answer) ∈ (A.direct request).answers w (servedIn (s.history ++ [.served i])) := by
    intro j answer h
    rw [servedIn_snoc, Moment.served?, Option.toList_some, Object.answers_snoc]
    exact List.mem_append_left _ h
  have hworld : s.world = (A.direct request).run w (servedIn s.history) := hs.world
  have hp : p = _ := Actors.receive_eq (request i).ordered hmsg s.world
  refine ⟨hs.calls, hs.timely.snoc hserved ?_ (by simp), ?_, ?_, ?_, ?_, ?_, ?_, ?_⟩
  · rintro j hj
    exact Moment.served.inj hj ▸ hcalled
  · rw [servedIn_snoc, Moment.served?, Option.toList_some, Object.run_snoc, ← hworld, hp]
    rfl
  · intro m hm
    rcases List.mem_append.1 hm with hm | hm
    · obtain ⟨j, hreply, hanswer⟩ := hs.answers m hm
      exact ⟨j, hreply, hmono j _ hanswer⟩
    · obtain ⟨payload, hpayload, rfl⟩ := Option.map_eq_some_iff.1 (Option.mem_toList.1 hm)
      refine ⟨i, rfl, ?_⟩
      have hanswer := Actors.decodeReply_receive (request i).ordered hmsg hpayload
      simp only [Answers]
      rw [servedIn_snoc, Moment.served?, Option.toList_some, Object.answers_snoc, ← hworld,
        ← hanswer]
      exact List.mem_append_right _ List.mem_cons_self
  · exact fun m hm j hj => List.mem_append_left _ (hs.inbox m hm j hj)
  · exact fun j answer h => hmono j answer (hs.given j answer h)
  · exact fun j hj => hs.called j (by simpa using hj)
  · exact fun j hj => hs.returned j (by simpa using hj)
  · intro j result hj
    cases hs.outcome j result hj with
    | answered answer hreturned hgiven heq =>
      exact .answered answer (List.mem_append_left _ hreturned) hgiven heq
    | unsent e hreturned heq hreason => exact .unsent e (by simpa using hreturned) heq hreason

omit [DecidableEq ι] in
theorem Outcome.congr {s' : Remote ι Id W} {result : Except SchemeErr SchemeVal}
    (h : Outcome sender request s i result)
    (hreturned : .returned i ∈ s'.history ↔ .returned i ∈ s.history)
    (hgiven : s'.calls.oneshot i = s.calls.oneshot i) : Outcome sender request s' i result := by
  cases h with
  | answered answer hr hg heq =>
    exact .answered answer (hreturned.2 hr) (hgiven.trans hg) heq
  | unsent e hr heq hreason => exact .unsent e (fun h => hr (hreturned.1 h)) heq hreason

/-- A call that has not returned moves on. -/
theorem Inv.move (hs : Inv sender msgId request A w s) {c : Call} {q : Id → Option ι}
    {ms : List (Moment ι)}
    (hinv : Calls.Inv msgId
      { s.calls with call := Function.update s.calls.call i c, replySenders := q })
    (hactive : ∀ result, s.calls.call i ≠ .done result) (hidle : c ≠ .idle)
    (htimely : Timely (s.history ++ ms))
    (hserved : servedIn (s.history ++ ms) = servedIn s.history)
    (hcalled : ∀ j, .called j ∈ ms → j = i ∧ ∃ msg, message sender request i = .ok msg)
    (hreturned : ∀ j, .returned j ∈ ms → j = i ∧ ∃ result, c = .done result) :
    let s' : Remote ι Id W := { s with
      calls := { s.calls with call := Function.update s.calls.call i c, replySenders := q }
      history := s.history ++ ms }
    (∀ result, c = .done result → Outcome sender request s' i result) →
      Inv sender msgId request A w s' := by
  intro s' houtcome
  have hanswers : ∀ j answer, Answers request A w s j answer → Answers request A w s' j answer := by
    intro j answer h
    simp only [Answers, s', hserved]
    exact h
  refine ⟨hinv, htimely, ?_, ?_, hs.inbox, ?_, ?_, ?_, ?_⟩
  · simp only [s', hserved]
    exact hs.world
  · intro m hm
    obtain ⟨j, hreply, hanswer⟩ := hs.answers m hm
    exact ⟨j, hreply, hanswers j _ hanswer⟩
  · exact fun j answer h => hanswers j answer (hs.given j answer h)
  · intro j hj
    rcases List.mem_append.1 hj with hj | hj
    · obtain ⟨hcall, hmsg⟩ := hs.called j hj
      refine ⟨?_, hmsg⟩
      simp only [s', Function.update_apply]
      split
      · exact hidle
      · exact hcall
    · obtain ⟨rfl, hmsg⟩ := hcalled j hj
      exact ⟨by simpa only [s', Function.update_self] using hidle, hmsg⟩
  · intro j hj
    rcases List.mem_append.1 hj with hj | hj
    · obtain ⟨result, hresult⟩ := hs.returned j hj
      have hij : j ≠ i := by
        rintro rfl
        exact hactive result hresult
      exact ⟨result, by simpa only [s', Function.update_of_ne hij] using hresult⟩
    · obtain ⟨rfl, result, hresult⟩ := hreturned j hj
      exact ⟨result, by simpa only [s', Function.update_self] using hresult⟩
  · intro j result hj
    by_cases hij : j = i
    · subst hij
      exact houtcome result (by simpa only [s', Function.update_self] using hj)
    · refine (hs.outcome j result ?_).congr ?_ rfl
      · simpa only [s', Function.update_of_ne hij] using hj
      · exact List.mem_append.trans (or_iff_left fun h => hij (hreturned j h).1)

variable [DecidableEq Id] in
/-- Every step keeps to what direct calls would do. -/
theorem inv_next {s' : Remote ι Id W} {a : RemoteStep ι Id}
    (hs : Inv sender msgId request A w s) (ha : Genuine msgId s a)
    (h : next sender msgId request A s a = some s') : Inv sender msgId request A w s' := by
  rcases a with a | i
  case serve =>
    simp only [next] at h
    split at h
    · cases h
    · next msg hmsg =>
      obtain ⟨⟨hcalled, hserved⟩, h⟩ := Option.ite_none_right_eq_some.1 h
      exact Option.some.inj h ▸ hs.serve hmsg hcalled hserved
  obtain ⟨hready, h⟩ := Option.ite_none_right_eq_some.1 h
  obtain ⟨calls, hcalls, rfl⟩ := Option.map_eq_some_iff.1 h
  have hinv : Calls.Inv msgId calls := Calls.inv_next hs.calls hcalls
  have htimely : Timely (s.history ++ []) := by
    rw [List.append_nil]
    exact hs.timely
  cases a with
  | wire i =>
    obtain ⟨hc, hcalls⟩ := Option.ite_none_right_eq_some.1 hcalls
    obtain rfl := Option.some.inj hcalls
    have hmsg : ∃ msg, message sender request i = .ok msg := by
      simp only [ready] at hready
      split at hready
      · next msg hmsg => exact ⟨msg, hmsg⟩
      · cases hready
    have hnew : .called i ∉ s.history := fun hi => (hs.called i hi).1 hc
    refine hs.move hinv (by simp [hc]) (by simp) (hs.timely.snoc hnew (by simp) (by simp))
      (servedIn_moments _ (.wire i)) (fun j hj => ?_) (by simp [CallStep.moments]) (by simp)
    exact ⟨Moment.called.inj (List.mem_singleton.1 hj), hmsg⟩
  | resolve i =>
    obtain ⟨hc, hcalls⟩ := Option.ite_none_right_eq_some.1 hcalls
    obtain rfl := Option.some.inj hcalls
    exact hs.move hinv (by simp [hc]) (by simp) htimely (servedIn_moments _ (.resolve i))
      (by simp [CallStep.moments]) (by simp [CallStep.moments]) (by simp)
  | fail i e =>
    obtain ⟨hc, hcalls⟩ := Option.ite_none_right_eq_some.1 hcalls
    obtain rfl := Option.some.inj hcalls
    have hactive : ∀ result, s.calls.call i ≠ .done result := by
      rcases hc with hc | hc <;> simp [hc]
    refine hs.move hinv hactive (by simp) htimely (servedIn_moments _ (.fail i e))
      (by simp [CallStep.moments]) (by simp [CallStep.moments]) ?_
    rintro result hresult
    refine .unsent e (fun hi => ?_) (Call.done.inj hresult).symm fun e' he' => ?_
    · obtain ⟨result, hdone⟩ := hs.returned i (by simpa [CallStep.moments] using hi)
      exact hactive result hdone
    · simp only [ready, he'] at hready
      exact (of_decide_eq_true hready).symm
  | register i =>
    obtain ⟨hc, hcalls⟩ := Option.ite_none_right_eq_some.1 hcalls
    obtain rfl := Option.some.inj hcalls
    exact hs.move hinv (by simp [hc]) (by simp) htimely (servedIn_moments _ (.register i))
      (by simp [CallStep.moments]) (by simp [CallStep.moments]) (by simp)
  | resume i =>
    rcases hc : s.calls.call i with _ | _ | _ | _ | _ <;>
      rcases ho : s.calls.oneshot i with _ | answer <;>
      simp only [Calls.next, hc, ho, reduceCtorEq] at hcalls
    obtain rfl := Option.some.inj hcalls
    have hserved : .served i ∈ s.history :=
      mem_servedIn.1 (Object.mem_of_answers _ (hs.given i answer ho))
    have hnew : .returned i ∉ s.history := by
      intro hi
      obtain ⟨result, hdone⟩ := hs.returned i hi
      cases hc.symm.trans hdone
    have hsnoc : Timely (s.history ++ [.returned i]) := by
      refine hs.timely.snoc hnew (by simp) fun j hj => ?_
      exact Moment.returned.inj hj ▸ hserved
    refine hs.move hinv (by simp [hc]) (by simp) hsnoc (servedIn_moments _ (.resume i))
      (by simp [CallStep.moments]) (fun j hj => ?_) fun result hresult => ?_
    · exact ⟨Moment.returned.inj (List.mem_singleton.1 hj), _, rfl⟩
    · exact .answered answer (List.mem_append_right _ List.mem_cons_self) ho
        (Call.done.inj hresult).symm
  | arrive m =>
    obtain rfl := Option.some.inj hcalls
    simp only [CallStep.moments, List.append_nil]
    refine ⟨hinv, hs.timely, hs.world, hs.answers, fun m' hm' j hj => ?_, hs.given, hs.called,
      hs.returned, fun j result hj => (hs.outcome j result hj).congr Iff.rfl rfl⟩
    rcases List.mem_append.1 hm' with hm' | hm'
    · exact hs.inbox m' hm' j hj
    · obtain rfl := List.mem_singleton.1 hm'
      exact ha j hj
  | poll =>
    obtain rfl := Option.some.inj hcalls
    have hempty := hs.calls.withInbox []
    have hcall : (Calls.pollReplies (decodeReply sender.codec.decode) s.calls).call =
        s.calls.call := Calls.call_routeAll hempty s.calls.inbox
    have hinbox : (Calls.pollReplies (decodeReply sender.codec.decode) s.calls).inbox = [] :=
      Calls.inbox_routeAll s.calls.inbox _
    simp only [CallStep.moments, List.append_nil]
    refine ⟨hinv, hs.timely, hs.world, hs.answers, ?_, fun i answer hi => ?_, ?_, ?_, ?_⟩
    · simp [hinbox]
    · rcases Calls.source_of_routeAll hempty hi with hi | ⟨m, hm, hreply, rfl⟩
      · exact hs.given i answer hi
      · obtain ⟨j, hj, hanswer⟩ := hs.answers m (hs.inbox m hm i hreply)
        have hij : msgId i = msgId j := Option.some.inj (hreply.symm.trans hj)
        exact msgId.injective hij ▸ hanswer
    · simp only [hcall]
      exact hs.called
    · simp only [hcall]
      exact hs.returned
    · intro i result hi
      simp only [hcall] at hi
      cases hs.outcome i result hi with
      | answered answer hreturned hgiven heq =>
        exact .answered answer hreturned (Calls.oneshot_routeAll_of_some hempty hgiven _) heq
      | unsent e hreturned heq hreason => exact .unsent e hreturned heq hreason

theorem inv_of_reachable [DecidableEq Id]
    (h : (remote sender msgId request A w).ReachableVia (Genuine msgId) s) :
    Inv sender msgId request A w s := by
  refine h.invariant (I := Inv sender msgId request A w) ?_ ?_
  · rintro _ rfl
    exact inv_initial
  · exact fun s a s' hs ha hn => inv_next hs ha hn

/-- Calls are as if made of the actors directly, one after the other. In every state that is
    reached while only its actor answers a call, the actors are as the calls that reached
    them left them, each of which did so once; a call that has returned has the answer that
    its actor gave it then, or else an error of the sending, after which it may or may not
    have reached its actor, and the error of the signing if it could not be signed; and what
    returned with an answer before another call was made reached its actor before it. -/
theorem calls_linearizable [DecidableEq Id]
    (h : (remote sender msgId request A w).ReachableVia (Genuine msgId) s) :
    s.world = (A.direct request).run w (servedIn s.history) ∧ (servedIn s.history).Nodup ∧
    (∀ i result, s.calls.call i = .done result →
      (.returned i ∈ s.history ∧ ∃ answer, result = Calls.completion answer ∧
        (i, some answer) ∈ (A.direct request).answers w (servedIn s.history)) ∨
      .returned i ∉ s.history ∧ ∃ e, result = .error (.maError e) ∧
        ∀ e', message sender request i = .error e' → e' = e ∧ i ∉ servedIn s.history) ∧
    (∀ i j, [.returned i, .called j].Sublist s.history → j ∈ servedIn s.history →
      [i, j].Sublist (servedIn s.history)) := by
  have hs : Inv sender msgId request A w s := inv_of_reachable h
  refine ⟨hs.world, hs.timely.nodup_servedIn, fun i result hi => ?_, fun i j hij hj => ?_⟩
  · cases hs.outcome i result hi with
    | answered answer hreturned hgiven heq =>
      exact .inl ⟨hreturned, answer, heq, hs.given i answer hgiven⟩
    | unsent e hreturned heq hreason =>
      refine .inr ⟨hreturned, e, heq, fun e' he' => ⟨hreason e' he', fun hserved => ?_⟩⟩
      -- a message that is not made is not served
      have hcalled : .called i ∈ s.history :=
        (hs.timely.served i (mem_servedIn.1 hserved)).subset List.mem_cons_self
      obtain ⟨msg, hmsg⟩ := (hs.called i hcalled).2
      cases hmsg.symm.trans he'
  · exact hs.timely.order hij (mem_servedIn.1 hj)

/-- A counter, and what it is asked with. -/
@[reducible] def ticking : Actors Nat where
  ask n _ verb _ := if verb = ":tick" then (n + 1, some (.ok (.int (.ofNat n)))) else (n, none)
  ordered n target verb args v h := by
    split at h
    · obtain rfl := Except.ok.inj (Option.some.inj h)
      trivial
    · cases h

/-- Every message can be made, and signed by the text of its DID-URL. -/
@[reducible] def Sender.plain : Sender String where
  ourDid := "did:ma:me"
  signingKeyBytes := []
  validateUrl _ := .ok ()
  withFragment did fragment := .ok (did ++ "#" ++ fragment)
  signingKey url _ := .ok url
  codec := Value.codec
  encodeError _ := ""
  messageType := ""
  contentTypeTerm := ""
  sign _ _ _ := .ok ()

/-- Calls that ask for the same. -/
@[reducible] def ticks : Bool → Request := fun _ => ⟨"did:ma:clock", "tick", [], trivial⟩

/-- Two calls at once: the one that was made last reaches the actor first. -/
theorem calls_linearizable_ticks :
    ∃ s, (remote Sender.plain (.refl Bool) ticks ticking 0).exec ⟨Calls.initial, 0, [], []⟩
        [.step (.wire false), .step (.wire true), .serve true, .serve false,
          .step (.resolve true), .step (.register true),
          .step (.arrive ⟨some true, [0x82, 0x63, 0x3a, 0x6f, 0x6b, 0x00]⟩), .step .poll,
          .step (.resume true)] = some s ∧
      s.calls.call true = .done (.ok (.int 0)) ∧
      s.world = (ticking.direct ticks).run 0 (servedIn s.history) := by
  -- one step after the other, all of them genuine
  have go (a : RemoteStep Bool Bool) {s s' : Remote Bool Bool Nat}
      (h : (remote Sender.plain (.refl Bool) ticks ticking 0).ReachableVia (Genuine (.refl Bool)) s)
      (ha : Genuine (.refl Bool) s a)
      (hn : next Sender.plain (.refl Bool) ticks ticking s a = some s') :
      (remote Sender.plain (.refl Bool) ticks ticking 0).ReachableVia (Genuine (.refl Bool)) s' :=
    h.step ha hn
  have h₁ := go (.step (.wire false)) (.init rfl) trivial rfl
  have h₂ := go (.step (.wire true)) h₁ trivial rfl
  have h₃ := go (.serve true) h₂ trivial rfl
  have h₄ := go (.serve false) h₃ trivial rfl
  have h₅ := go (.step (.resolve true)) h₄ trivial rfl
  have h₆ := go (.step (.register true)) h₅ trivial rfl
  have h₇ := go (.step (.arrive ⟨some true, [0x82, 0x63, 0x3a, 0x6f, 0x6b, 0x00]⟩)) h₆
    (fun _ _ => List.mem_cons_self) rfl
  have h₈ := go (.step .poll) h₇ trivial rfl
  have h₉ := go (.step (.resume true)) h₈ trivial rfl
  exact ⟨_, rfl, rfl, (calls_linearizable h₉).1⟩

end Remote

end Zscheme.Context
