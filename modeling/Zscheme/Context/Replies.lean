import Mathlib.Logic.Function.Basic
import Mathlib.Logic.Embedding.Basic
import Zscheme.Lib.System
import Zscheme.Scheme.Value

/-!
# Calls and their replies

How the host context (`CliCtx`) sends actor calls and routes their replies:

* `do_actor_call` sends the signed message (`send_actor`), and *then* registers a
  `oneshot` sender under the message id (`register_reply_sender`) and awaits its
  receiver;
* `poll_replies`, run by the poll loop, drains the inbox and hands each reply to
  the sender registered under its `reply_to`. A reply without one is dropped.

The calls, the network and the poll loop interleave freely: every step of each is
a label of the system `replies`. The message of a call goes on the wire before
`send_actor` returns, so the peer may answer while the call is still being sent.
Message ids are distinct: the id of each call is given by an embedding.
-/

namespace Zscheme.Context

/-- A message of the inbox (`ma_core::Message`): the fields `poll_replies` reads. -/
structure Message (Id : Type*) where
  /-- The id of the message it replies to, if it is a reply. -/
  replyTo : Option Id
  /-- The bytes of its body. -/
  payload : List UInt8

/-- How far a `do_actor_call` has got. -/
inductive Call
  /-- Not yet on the wire. -/
  | idle
  /-- The signed message is on the wire, and the send future is pending. -/
  | onWire
  /-- `send_actor` has returned the message id. -/
  | sent
  /-- The sender is registered, and the call awaits its receiver. -/
  | awaiting
  /-- The call has returned. -/
  | done (result : Except SchemeErr SchemeVal)
  deriving DecidableEq

variable {ι Id : Type*}

/-- The state of the calls `ι`, whose messages have ids in `Id`. -/
structure Calls (ι Id : Type*) where
  /-- The calls. -/
  call : ι → Call
  /-- What each call's `oneshot` channel holds. -/
  oneshot : ι → Option (Except String SchemeVal)
  /-- `reply_senders`: the sender registered under each message id. -/
  replySenders : Id → Option ι
  /-- The messages that have arrived since the last tick. -/
  inbox : List (Message Id)

/-- A step of a call, of the network or of the poll loop. -/
inductive CallStep (ι Id : Type*)
  /-- The signed message of the call goes on the wire. -/
  | wire (i : ι)
  /-- The send future of the call resolves. -/
  | resolve (i : ι)
  /-- `send_actor` fails, before or after the message went on the wire. -/
  | fail (i : ι) (e : String)
  /-- `register_reply_sender`. -/
  | register (i : ι)
  /-- The receiver of the call resolves. -/
  | resume (i : ι)
  /-- A message arrives in the inbox. -/
  | arrive (m : Message Id)
  /-- A tick of the poll loop. -/
  | poll

namespace Calls

section Model

variable [DecidableEq ι] [DecidableEq Id] (msgId : ι ↪ Id)
  (decodeReply : List UInt8 → Except String SchemeVal)

/-- No call has started. -/
def initial : Calls ι Id := ⟨fun _ => .idle, fun _ => none, fun _ => none, []⟩

/-- What awaiting the receiver makes of the reply. -/
def completion : Except String SchemeVal → Except SchemeErr SchemeVal
  | .ok val => .ok val
  | .error e => .error (.maError e)

/-- `poll_replies` on one drained message: its reply goes to the sender registered
    under its `reply_to`, which is removed; without one it is dropped. -/
def route (s : Calls ι Id) (m : Message Id) : Calls ι Id :=
  match m.replyTo with
  | none => s
  | some id =>
    match s.replySenders id with
    | none => s
    | some i => { s with
        replySenders := Function.update s.replySenders id none
        oneshot := Function.update s.oneshot i (some (decodeReply m.payload)) }

/-- `poll_replies`: drain the inbox and route every message, in order. -/
def pollReplies (s : Calls ι Id) : Calls ι Id :=
  s.inbox.foldl (route decodeReply) { s with inbox := [] }

/-- The steps of the calls, the network and the poll loop. -/
def next (s : Calls ι Id) : CallStep ι Id → Option (Calls ι Id)
  | .wire i => if s.call i = .idle then
      some { s with call := Function.update s.call i .onWire } else none
  | .resolve i => if s.call i = .onWire then
      some { s with call := Function.update s.call i .sent } else none
  | .fail i e => if s.call i = .idle ∨ s.call i = .onWire then
      some { s with call := Function.update s.call i (.done (.error (.maError e))) } else none
  | .register i => if s.call i = .sent then
      some { s with
        call := Function.update s.call i .awaiting
        replySenders := Function.update s.replySenders (msgId i) (some i) } else none
  | .resume i => match s.call i, s.oneshot i with
    | .awaiting, some r =>
      some { s with call := Function.update s.call i (.done (completion r)) }
    | _, _ => none
  | .arrive m => some { s with inbox := s.inbox ++ [m] }
  | .poll => some (pollReplies decodeReply s)

/-- The calls, the network and the poll loop, interleaved in any order. -/
def replies : System (Calls ι Id) (CallStep ι Id) where
  init s := s = initial
  next := next msgId decodeReply

end Model

/-! ## What a tick must deliver -/

variable (msgId : ι ↪ Id) (decodeReply : List UInt8 → Except String SchemeVal)

/-- The call is on the wire, and has not been given a reply. -/
def InFlight (s : Calls ι Id) (i : ι) : Prop :=
  (s.call i = .onWire ∨ s.call i = .sent ∨ s.call i = .awaiting) ∧ s.oneshot i = none

/-- The message is on the wire, but the sender of the call is not registered. -/
def Unregistered (s : Calls ι Id) (i : ι) : Prop := s.call i = .onWire ∨ s.call i = .sent

variable [DecidableEq ι] [DecidableEq Id]

/-- The reply to the call that has been in the inbox longest. -/
def firstReply (s : Calls ι Id) (i : ι) : Option (Message Id) :=
  s.inbox.find? fun m => m.replyTo = some (msgId i)

/-- A tick of the poll loop delivers every reply it drains to a call in flight: the
    call is left awaiting a receiver that holds the reply, and returns it. -/
def Delivers (s : Calls ι Id) : CallStep ι Id → Prop
  | .poll => ∀ i m, s.InFlight i → s.firstReply msgId i = some m →
      (next msgId decodeReply (pollReplies decodeReply s) (.resume i)).map (·.call i) =
        some (.done (completion (decodeReply m.payload)))
  | _ => True

/-- No tick of the poll loop finds a reply to a call whose message is on the wire and
    whose sender is not yet registered. -/
def NoEarlyReply (s : Calls ι Id) : CallStep ι Id → Prop
  | .poll => ∀ i, s.Unregistered i → s.firstReply msgId i = none
  | _ => True

/-! ## The table of senders -/

variable {msgId decodeReply}

/-- The senders registered are those of the calls awaiting a reply, each under the id
    of its message, and only calls that have registered have been given a reply. -/
structure Inv (msgId : ι ↪ Id) (s : Calls ι Id) : Prop where
  registered : ∀ id i, s.replySenders id = some i ↔
    id = msgId i ∧ s.call i = .awaiting ∧ s.oneshot i = none
  silent : ∀ i, s.Unregistered i ∨ s.call i = .idle → s.oneshot i = none

omit [DecidableEq ι] [DecidableEq Id] in
theorem inv_initial : Inv msgId (initial : Calls ι Id) where
  registered id i := by simp [initial]
  silent i _ := rfl

omit [DecidableEq ι] [DecidableEq Id] in
theorem Inv.withInbox {s : Calls ι Id} (hs : Inv msgId s) (l : List (Message Id)) :
    Inv msgId { s with inbox := l } := ⟨hs.registered, hs.silent⟩

variable (decodeReply) in
/-- What routing a message can do: drop it, if no call awaits it, or give its reply to
    the call that does. -/
theorem route_cases {s : Calls ι Id} (hs : Inv msgId s) (m : Message Id) :
    (route decodeReply s m = s ∧
      ∀ i, m.replyTo = some (msgId i) → s.call i = .awaiting → s.oneshot i ≠ none) ∨
    ∃ i, m.replyTo = some (msgId i) ∧ s.call i = .awaiting ∧ s.oneshot i = none ∧
      route decodeReply s m = { s with
        replySenders := Function.update s.replySenders (msgId i) none
        oneshot := Function.update s.oneshot i (some (decodeReply m.payload)) } := by
  cases hm : m.replyTo with
  | none => exact .inl ⟨by simp only [route, hm], fun _ h => nomatch h⟩
  | some id =>
    cases hid : s.replySenders id with
    | none =>
      refine .inl ⟨by simp only [route, hm, hid], fun i he hc ho => ?_⟩
      rw [(hs.registered id i).2 ⟨Option.some.inj he, hc, ho⟩] at hid
      exact Option.some_ne_none _ hid
    | some i =>
      obtain ⟨rfl, hc, ho⟩ := (hs.registered id i).1 hid
      exact .inr ⟨i, rfl, hc, ho, by simp only [route, hm, hid]⟩

theorem Inv.route {s : Calls ι Id} (hs : Inv msgId s) (m : Message Id) :
    Inv msgId (route decodeReply s m) := by
  obtain ⟨h, -⟩ | ⟨j, -, hc, ho, h⟩ := route_cases decodeReply hs m <;> rw [h]
  · exact hs
  · refine ⟨fun id i => ?_, fun i hi => ?_⟩
    · -- The sender of `j` is gone, and `j` has its reply; the others are untouched.
      by_cases hij : i = j
      · subst hij
        by_cases hid : id = msgId i
        · subst hid
          simp
        · simp [hs.registered, hid]
      · by_cases hid : id = msgId j
        · subst hid
          simp [msgId.injective.eq_iff, Ne.symm hij]
        · simp [Function.update_of_ne hid, Function.update_of_ne hij, hs.registered]
    · have hij : i ≠ j := by
        rintro rfl
        simp [Unregistered, hc] at hi
      simp only [Function.update_of_ne hij]
      exact hs.silent i hi

theorem Inv.routeAll {s : Calls ι Id} (hs : Inv msgId s) (l : List (Message Id)) :
    Inv msgId (l.foldl (Calls.route decodeReply) s) := by
  induction l generalizing s with
  | nil => exact hs
  | cons m l ih => exact ih (hs.route m)

/-- Routing does not move any call. -/
theorem call_routeAll {s : Calls ι Id} (hs : Inv msgId s) (l : List (Message Id)) :
    (l.foldl (route decodeReply) s).call = s.call := by
  induction l generalizing s with
  | nil => rfl
  | cons m l ih =>
    rw [List.foldl_cons, ih (hs.route m)]
    obtain ⟨h, -⟩ | ⟨j, -, -, -, h⟩ := route_cases decodeReply hs m <;> rw [h]

/-- A channel that holds a reply keeps it. -/
theorem oneshot_routeAll_of_some {s : Calls ι Id} (hs : Inv msgId s) {i : ι}
    {r : Except String SchemeVal} (hr : s.oneshot i = some r) (l : List (Message Id)) :
    (l.foldl (route decodeReply) s).oneshot i = some r := by
  induction l generalizing s with
  | nil => exact hr
  | cons m l ih =>
    refine ih (hs.route m) ?_
    obtain ⟨h, -⟩ | ⟨j, -, -, ho, h⟩ := route_cases decodeReply hs m <;> rw [h]
    · exact hr
    · have hij : i ≠ j := by
        rintro rfl
        exact Option.some_ne_none _ (hr.symm.trans ho)
      simpa only [Function.update_of_ne hij] using hr

/-- Routing messages gives each call awaiting a reply the first of its replies. -/
theorem oneshot_routeAll {s : Calls ι Id} (hs : Inv msgId s) {i : ι}
    (hc : s.call i = .awaiting) (ho : s.oneshot i = none) (l : List (Message Id)) :
    (l.foldl (route decodeReply) s).oneshot i =
      (l.find? fun m => m.replyTo = some (msgId i)).map fun m => decodeReply m.payload := by
  -- the first message with the id settles the call, and no later one changes it
  induction l generalizing s with
  | nil => exact ho
  | cons m l ih =>
    rw [List.foldl_cons]
    obtain ⟨h, hnone⟩ | ⟨j, hj, -, -, h⟩ := route_cases decodeReply hs m
    · rw [List.find?_cons_of_neg (by simpa using fun hm => hnone i hm hc ho), h]
      exact ih hs hc ho
    · by_cases hij : i = j
      · subst hij
        rw [List.find?_cons_of_pos (by simpa using hj)]
        exact oneshot_routeAll_of_some (hs.route m) (by simp [h]) l
      · have hm : ¬m.replyTo = some (msgId i) := by
          rw [hj, Option.some.injEq, msgId.injective.eq_iff]
          exact Ne.symm hij
        rw [List.find?_cons_of_neg (by simpa using hm)]
        refine ih (hs.route m) (by rw [h]; exact hc) ?_
        rw [h]
        simpa [Function.update_of_ne hij] using ho

omit [DecidableEq Id] in
/-- A call that awaits nothing, or has its reply, can move on without the table. -/
theorem Inv.move {s : Calls ι Id} (hs : Inv msgId s) {i : ι} {c : Call}
    (hi : ¬(s.call i = .awaiting ∧ s.oneshot i = none)) (hc : c ≠ .awaiting)
    (ho : c = .onWire ∨ c = .sent → s.oneshot i = none) (hidle : c ≠ .idle) :
    Inv msgId { s with call := Function.update s.call i c } where
  registered id j := by
    rw [hs.registered id j]
    by_cases hij : j = i
    · subst hij
      simp only [Function.update_self, hc, hi, false_and]
    · simp only [Function.update_of_ne hij]
  silent j hj := by
    by_cases hij : j = i
    · subst hij
      simp only [Unregistered, Function.update_self, hidle, or_false] at hj
      exact ho hj
    · simp only [Unregistered, Function.update_of_ne hij] at hj
      exact hs.silent j hj

theorem Inv.register {s : Calls ι Id} (hs : Inv msgId s) {i : ι} (hi : s.call i = .sent) :
    Inv msgId { s with
      call := Function.update s.call i .awaiting
      replySenders := Function.update s.replySenders (msgId i) (some i) } where
  registered id j := by
    have ho := hs.silent i (.inl (.inr hi))
    -- the id is registered for its call only, as ids are distinct
    by_cases hij : j = i
    · subst hij
      by_cases hid : id = msgId j
      · simp [hid, ho]
      · simp [hid, hs.registered]
    · by_cases hid : id = msgId i
      · subst hid
        simp [Ne.symm hij, msgId.injective.eq_iff]
      · simp [hid, hij, hs.registered]
  silent j hj := by
    by_cases hij : j = i
    · exact hij ▸ hs.silent i (.inl (.inr hi))
    · simp only [Unregistered, Function.update_of_ne hij] at hj
      exact hs.silent j hj

/-- Every step keeps the table of senders. -/
theorem inv_next {s s' : Calls ι Id} {a : CallStep ι Id} (hs : Inv msgId s)
    (h : next msgId decodeReply s a = some s') : Inv msgId s' := by
  cases a with
  | wire i =>
    obtain ⟨hc, h⟩ := Option.ite_none_right_eq_some.1 h
    exact Option.some.inj h ▸ hs.move (by simp [hc]) (by simp) (fun _ => hs.silent i (.inr hc))
      (by simp)
  | resolve i =>
    obtain ⟨hc, h⟩ := Option.ite_none_right_eq_some.1 h
    exact Option.some.inj h ▸ hs.move (by simp [hc]) (by simp)
      (fun _ => hs.silent i (.inl (.inl hc))) (by simp)
  | fail i e =>
    obtain ⟨hc, h⟩ := Option.ite_none_right_eq_some.1 h
    exact Option.some.inj h ▸ hs.move (by rcases hc with hc | hc <;> simp [hc]) (by simp)
      (by simp) (by simp)
  | register i =>
    obtain ⟨hc, h⟩ := Option.ite_none_right_eq_some.1 h
    exact Option.some.inj h ▸ hs.register hc
  | resume i =>
    cases hc : s.call i <;> cases ho : s.oneshot i <;> simp only [next, hc, ho, reduceCtorEq] at h
    exact Option.some.inj h ▸ hs.move (by simp [ho]) (by simp) (by simp) (by simp)
  | arrive m => exact Option.some.inj h ▸ hs.withInbox _
  | poll => exact Option.some.inj h ▸ (hs.withInbox []).routeAll _

/-! ## No reply is lost, unless it comes early -/

/-- A tick delivers what it drains exactly if it drains nothing too early. -/
theorem delivers_iff_noEarlyReply {s : Calls ι Id} (hs : Inv msgId s) (a : CallStep ι Id) :
    s.Delivers msgId decodeReply a ↔ s.NoEarlyReply msgId a := by
  cases a with
  | poll =>
    have hs' := hs.withInbox []
    have hcall : (pollReplies decodeReply s).call = s.call := call_routeAll hs' s.inbox
    constructor
    · intro h i hi
      by_contra hne
      obtain ⟨m, hm⟩ := Option.ne_none_iff_exists'.1 hne
      have hdone := h i m ⟨hi.imp_right .inl, hs.silent i (.inl hi)⟩ hm
      -- The call is not awaiting a receiver: it cannot return.
      rcases hi with hi | hi <;> simp [next, hcall, hi] at hdone
    · intro h i m hi hm
      have hc : s.call i = .awaiting := by
        rcases hi.1 with hc | hc | hc
        · exact absurd hm (by simp [h i (.inl hc)])
        · exact absurd hm (by simp [h i (.inr hc)])
        · exact hc
      have ho : (pollReplies decodeReply s).oneshot i = some (decodeReply m.payload) := by
        rw [pollReplies, oneshot_routeAll hs' hc hi.2]
        exact congrArg (Option.map _) hm
      simp [next, hcall, hc, ho]
  | _ => exact Iff.rfl

variable (msgId decodeReply)

/-- In every run, the ticks of the poll loop deliver every reply they drain to a call
    in flight, if and only if none of them finds a reply to a call whose message is on
    the wire and whose sender is not yet registered. -/
theorem always_delivers_iff (l : List (CallStep ι Id)) :
    (replies msgId decodeReply).Always (Delivers msgId decodeReply) initial l ↔
      (replies msgId decodeReply).Always (NoEarlyReply msgId) initial l :=
  System.always_congr (I := Inv msgId) (fun _ _ _ hs hn => inv_next hs hn)
    (fun _ a hs => delivers_iff_noEarlyReply hs a) inv_initial l

end Calls

/-! ## A lost reply -/

/-- A reply that overtakes the resolution of its send. -/
def overtaken : List (CallStep Unit Unit) :=
  [.wire (), .arrive ⟨some (), []⟩, .poll]

/-- The reply arrives before the send future resolves, and a tick drops it; the call
    then registers its sender and awaits a reply that nobody holds any more. -/
theorem reply_lost :
    (¬(Calls.replies (.refl Unit) fun _ => .ok .nil).Always
      (Calls.Delivers (.refl Unit) fun _ => .ok .nil) Calls.initial overtaken) ∧
    ∃ s, (Calls.replies (.refl Unit) fun _ => .ok .nil).exec Calls.initial
        (overtaken ++ [.resolve (), .register ()]) = some s ∧
      s.call () = .awaiting ∧ s.oneshot () = none ∧ s.inbox.isEmpty := by
  refine ⟨fun h => ?_, _, rfl, rfl, rfl, rfl⟩
  have := (h.2 _ rfl).2 _ rfl
  exact nomatch this.1 () ⟨some (), []⟩ ⟨.inl rfl, rfl⟩ rfl

end Zscheme.Context
