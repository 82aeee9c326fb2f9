import Zscheme.Context.Replies

/-!
# Which reply completes which call

The messages that arrived are kept in a ledger, in order of arrival, beside which of
them completed which call. In every run each reply goes to its own call
(`replies_routed`): a call is completed by a message that was drained and replies to it,
at most once and by a message that completes no other call, and the table of senders
holds exactly the calls that still wait.
-/

namespace Zscheme.Context

variable {ι Id : Type*}

/-- What arrived, and what became of it. -/
structure Ledger (ι Id : Type*) where
  /-- The messages that arrived so far, in order. -/
  arrived : List (Message Id)
  /-- How many of them were drained. -/
  drained : Nat
  /-- The calls that were completed, each with the number of the message that did. -/
  completed : List (ι × Nat)

namespace Calls

variable [DecidableEq ι] [DecidableEq Id] (msgId : ι ↪ Id)
  (decodeReply : List UInt8 → Except String SchemeVal)

/-- The next message is drained; it completes the call whose sender is found for it. -/
def deliver (s : Calls ι Id) (g : Ledger ι Id) (m : Message Id) : Ledger ι Id :=
  { g with
    drained := g.drained + 1
    completed := match m.replyTo.bind s.replySenders with
      | some i => (i, g.drained) :: g.completed
      | none => g.completed }

/-- The ledger after a step. -/
def record (s : Calls ι Id) (g : Ledger ι Id) : CallStep ι Id → Ledger ι Id
  | .arrive m => { g with arrived := g.arrived ++ [m] }
  | .poll => (s.inbox.foldl (fun (s, g) m => (route decodeReply s m, deliver s g m))
      ({ s with inbox := [] }, g)).2
  | _ => g

/-- The calls, with the ledger beside them. -/
def recorded : System (Calls ι Id × Ledger ι Id) (CallStep ι Id) where
  init s := s = (initial, ⟨[], 0, []⟩)
  next s a := (next msgId decodeReply s.1 a).map fun s' => (s', record decodeReply s.1 s.2 a)

/-! ## The ledger is true -/

/-- Each completion of the ledger is the reply of a drained message to its own call. -/
structure Attributed (s : Calls ι Id) (g : Ledger ι Id) : Prop where
  inv : Inv msgId s
  le : g.drained ≤ g.arrived.length
  given : ∀ i r, s.oneshot i = some r → ∃ k, (i, k) ∈ g.completed
  source : ∀ i k, (i, k) ∈ g.completed → k < g.drained ∧ ∃ m, g.arrived[k]? = some m ∧
    m.replyTo = some (msgId i) ∧ s.oneshot i = some (decodeReply m.payload)
  calls : (g.completed.map Prod.fst).Nodup
  messages : (g.completed.map Prod.snd).Nodup
  result : ∀ i r, s.call i = .done r → (∃ e, r = .error (.maError e) ∧ s.oneshot i = none) ∨
    ∃ reply, s.oneshot i = some reply ∧ r = completion reply

variable {msgId decodeReply} {s s' : Calls ι Id} {g : Ledger ι Id} {m : Message Id}

theorem route_of_unmatched (h : m.replyTo.bind s.replySenders = none) :
    route decodeReply s m = s := by
  simp only [route]
  rcases hid : m.replyTo with _ | id
  · rfl
  · have hnone : s.replySenders id = none := by simpa only [hid, Option.bind_some] using h
    simp only [hnone]

theorem route_of_matched (hs : Inv msgId s) {i : ι} (h : m.replyTo.bind s.replySenders = some i) :
    m.replyTo = some (msgId i) ∧ s.call i = .awaiting ∧ s.oneshot i = none ∧
      route decodeReply s m = { s with
        replySenders := Function.update s.replySenders (msgId i) none
        oneshot := Function.update s.oneshot i (some (decodeReply m.payload)) } := by
  obtain ⟨id, hid, hi⟩ := Option.bind_eq_some_iff.1 h
  obtain ⟨rfl, hc, ho⟩ := (hs.registered id i).1 hi
  refine ⟨hid, hc, ho, ?_⟩
  simp only [route, hid, hi]

/-- Delivering one message keeps the ledger true. -/
theorem Attributed.deliver (h : Attributed msgId decodeReply s g)
    (hm : g.arrived[g.drained]? = some m) :
    Attributed msgId decodeReply (route decodeReply s m) (Calls.deliver s g m) := by
  have hlt : g.drained < g.arrived.length := (List.getElem?_eq_some_iff.1 hm).1
  have hinv : Inv msgId (route decodeReply s m) := h.inv.route m
  rcases hmatch : m.replyTo.bind s.replySenders with _ | i
  · rw [route_of_unmatched hmatch]
    have hg : Calls.deliver s g m = { g with drained := g.drained + 1 } := by
      simp only [Calls.deliver, hmatch]
    rw [hg]
    refine ⟨h.inv, hlt, h.given, fun i k hk => ?_, h.calls, h.messages, h.result⟩
    obtain ⟨hk, hsource⟩ := h.source i k hk
    exact ⟨Nat.lt_succ_of_lt hk, hsource⟩
  · obtain ⟨hreply, hc, ho, hroute : route decodeReply s m = _⟩ := route_of_matched h.inv hmatch
    have hg : Calls.deliver s g m = { g with
        drained := g.drained + 1
        completed := (i, g.drained) :: g.completed } := by
      simp only [Calls.deliver, hmatch]
    -- The call had no reply so far, and the message is later than all before.
    have hi : i ∉ g.completed.map Prod.fst := by
      intro hi
      obtain ⟨⟨_, k⟩, hk, rfl⟩ := List.mem_map.1 hi
      obtain ⟨_, _, _, _, hsome⟩ := h.source _ k hk
      exact Option.some_ne_none _ (hsome.symm.trans ho)
    have hk : g.drained ∉ g.completed.map Prod.snd := by
      intro hk
      obtain ⟨⟨j, _⟩, hj, rfl⟩ := List.mem_map.1 hk
      exact Nat.lt_irrefl _ (h.source j _ hj).1
    rw [hroute, hg]
    rw [hroute] at hinv
    refine ⟨hinv, hlt, fun j r hr => ?_, fun j k hj => ?_, List.nodup_cons.2 ⟨hi, h.calls⟩,
      List.nodup_cons.2 ⟨hk, h.messages⟩, fun j r hr => ?_⟩
    · by_cases hij : j = i
      · exact ⟨g.drained, hij ▸ List.mem_cons_self⟩
      · obtain ⟨k, hk⟩ := h.given j r (by simpa only [Function.update_of_ne hij] using hr)
        exact ⟨k, List.mem_cons_of_mem _ hk⟩
    · rcases List.mem_cons.1 hj with hnew | hold
      · obtain ⟨rfl, rfl⟩ := Prod.mk.inj hnew
        exact ⟨Nat.lt_succ_self _, m, hm, hreply, Function.update_self ..⟩
      · have hij : j ≠ i := by
          rintro rfl
          exact hi (List.mem_map.2 ⟨(_, k), hold, rfl⟩)
        obtain ⟨hlt, m', hm', hr, ho'⟩ := h.source j k hold
        refine ⟨Nat.lt_succ_of_lt hlt, m', hm', hr, ?_⟩
        simpa only [Function.update_of_ne hij] using ho'
    · have hij : j ≠ i := by
        rintro rfl
        cases hc.symm.trans hr
      simpa only [Function.update_of_ne hij] using h.result j r hr

/-- Draining the messages that are left keeps the ledger true. -/
theorem Attributed.drain {l : List (Message Id)} (h : Attributed msgId decodeReply s g)
    (hl : g.arrived.drop g.drained = l) :
    let p := l.foldl (fun (s, g) m => (route decodeReply s m, Calls.deliver s g m)) (s, g)
    Attributed msgId decodeReply p.1 p.2 ∧ p.1 = l.foldl (route decodeReply) s ∧
      p.2.arrived = g.arrived ∧ p.2.drained = g.arrived.length := by
  induction l generalizing s g with
  | nil =>
    have hle := List.drop_eq_nil_iff.1 hl
    exact ⟨h, rfl, rfl, Nat.le_antisymm h.le hle⟩
  | cons m l ih =>
    have hm : g.arrived[g.drained]? = some m := by
      rw [← List.head?_drop, hl]
      rfl
    have hl' : g.arrived.drop (g.drained + 1) = l := by
      rw [← List.tail_drop, hl]
      rfl
    obtain ⟨hp, hs, ha, hd⟩ := ih (h.deliver hm) hl'
    exact ⟨hp, hs, ha, hd⟩

/-- Routing leaves the inbox alone. -/
theorem inbox_routeAll (l : List (Message Id)) (s : Calls ι Id) :
    (l.foldl (route decodeReply) s).inbox = s.inbox := by
  induction l generalizing s with
  | nil => rfl
  | cons m l ih =>
    rw [List.foldl_cons, ih]
    simp only [route]
    split
    · rfl
    · split <;> rfl

omit [DecidableEq ι] [DecidableEq Id] in
/-- A step that gives no reply keeps the ledger true. -/
theorem Attributed.move (h : Attributed msgId decodeReply s g) (hinv : Inv msgId s')
    (ho : s'.oneshot = s.oneshot)
    (hr : ∀ i r, s'.call i = .done r → s.call i = .done r ∨
      (∃ e, r = .error (.maError e) ∧ s.oneshot i = none) ∨
        ∃ reply, s.oneshot i = some reply ∧ r = completion reply) :
    Attributed msgId decodeReply s' g := by
  refine ⟨hinv, h.le, ?_, ?_, h.calls, h.messages, fun i r hc => ?_⟩
  · rw [ho]
    exact h.given
  · rw [ho]
    exact h.source
  · rw [ho]
    rcases hr i r hc with hc | hc
    · exact h.result i r hc
    · exact hc

/-- The ledger is true, and the inbox holds what is not drained. -/
def Recorded (msgId : ι ↪ Id) (decodeReply : List UInt8 → Except String SchemeVal)
    (p : Calls ι Id × Ledger ι Id) : Prop :=
  Attributed msgId decodeReply p.1 p.2 ∧ p.1.inbox = p.2.arrived.drop p.2.drained

/-- Every step keeps the ledger true. -/
theorem Recorded.next {a : CallStep ι Id} (h : Recorded msgId decodeReply (s, g))
    (hs : next msgId decodeReply s a = some s') :
    Recorded msgId decodeReply (s', record decodeReply s g a) := by
  obtain ⟨h, hin⟩ : Attributed msgId decodeReply s g ∧ s.inbox = g.arrived.drop g.drained := h
  have hinv := inv_next h.inv hs
  -- A call moves to a state in which it has not returned, or returns what it was given.
  have hmove : ∀ (i : ι) (c : Call) (q : Id → Option ι),
      s' = { s with call := Function.update s.call i c, replySenders := q } →
      (∀ r, c = .done r → (∃ e, r = .error (.maError e) ∧ s.oneshot i = none) ∨
        ∃ reply, s.oneshot i = some reply ∧ r = completion reply) →
      Recorded msgId decodeReply (s', g) := by
    rintro i c q rfl hc
    refine ⟨h.move hinv rfl fun j r hr => ?_, hin⟩
    by_cases hij : j = i
    · subst hij
      exact .inr (hc r (by simpa only [Function.update_self] using hr))
    · exact .inl (by simpa only [Function.update_of_ne hij] using hr)
  cases a with
  | wire i =>
    obtain ⟨_, hs⟩ := Option.ite_none_right_eq_some.1 hs
    exact hmove i _ _ (Option.some.inj hs).symm nofun
  | resolve i =>
    obtain ⟨_, hs⟩ := Option.ite_none_right_eq_some.1 hs
    exact hmove i _ _ (Option.some.inj hs).symm nofun
  | fail i e =>
    obtain ⟨hc, hs⟩ := Option.ite_none_right_eq_some.1 hs
    refine hmove i _ _ (Option.some.inj hs).symm fun r hr => .inl ⟨e, ?_, ?_⟩
    · exact (Call.done.inj hr).symm
    · exact h.inv.silent i (hc.symm.imp_left .inl)
  | register i =>
    obtain ⟨_, hs⟩ := Option.ite_none_right_eq_some.1 hs
    exact hmove i _ _ (Option.some.inj hs).symm nofun
  | resume i =>
    rcases hc : s.call i with _ | _ | _ | _ | _ <;> rcases ho : s.oneshot i with _ | reply <;>
      simp only [Calls.next, hc, ho, reduceCtorEq] at hs
    refine hmove i _ _ (Option.some.inj hs).symm fun r hr => .inr ⟨reply, ho, ?_⟩
    exact (Call.done.inj hr).symm
  | arrive m =>
    obtain rfl := Option.some.inj hs
    refine ⟨⟨hinv, ?_, h.given, ?_, h.calls, h.messages, h.result⟩, ?_⟩
    · simpa only [record, List.length_append] using Nat.le_add_right_of_le h.le
    · intro i k hk
      obtain ⟨hlt, m', hm', hr, ho⟩ := h.source i k hk
      refine ⟨hlt, m', ?_, hr, ho⟩
      rw [record, List.getElem?_append_left (Nat.lt_of_lt_of_le hlt h.le)]
      exact hm'
    · simp only [record, hin, List.drop_append_of_le_length h.le]
  | poll =>
    obtain rfl := Option.some.inj hs
    have h' : Attributed msgId decodeReply { s with inbox := [] } g :=
      h.move (h.inv.withInbox []) rfl fun _ _ hr => .inl hr
    obtain ⟨hp, hroute, ha, hd⟩ := h'.drain hin.symm
    rw [hroute] at hp
    refine ⟨hp, (inbox_routeAll s.inbox _).trans ?_⟩
    simp only [record, ha, hd, List.drop_length]

/-- A message that no sender is registered for can be left out of what is drained. -/
theorem pollReplies_of_unmatched {before after : List (Message Id)}
    (h : m.replyTo.bind s.replySenders = none) (hin : s.inbox = before ++ m :: after) :
    pollReplies decodeReply s = pollReplies decodeReply { s with inbox := before ++ after } := by
  have hleft : ∀ (l : List (Message Id)) (s : Calls ι Id),
      m.replyTo.bind s.replySenders = none →
      m.replyTo.bind (l.foldl (route decodeReply) s).replySenders = none := by
    intro l
    induction l with
    | nil => exact fun _ h => h
    | cons m' l ih =>
      intro s h
      refine ih _ ?_
      simp only [route]
      split
      · exact h
      · split
        · exact h
        · -- Senders are only ever removed.
          rcases hid : m.replyTo with _ | id
          · rfl
          · rw [hid, Option.bind_some] at h
            rw [Option.bind_some]
            simp only [Function.update_apply]
            split
            · rfl
            · exact h
  simp only [pollReplies]
  rw [hin, List.foldl_append, List.foldl_append, List.foldl_cons,
    route_of_unmatched (hleft before { s with inbox := [] } h)]

/-- In every run each reply goes to its own call: a call is completed only by a message
    that was drained and replies to it; no call is completed twice, and no message
    completes two; a call that has returned what it was given has returned its reply;
    a message without a registered call changes nothing; and the table of senders holds
    the calls that are registered and not completed. -/
theorem replies_routed (h : (recorded msgId decodeReply).Reachable (s, g)) :
    (∀ i r, s.oneshot i = some r → ∃ k, (i, k) ∈ g.completed) ∧
    (∀ i k, (i, k) ∈ g.completed → k < g.drained ∧ ∃ m, g.arrived[k]? = some m ∧
      m.replyTo = some (msgId i) ∧ s.oneshot i = some (decodeReply m.payload)) ∧
    ((g.completed.map Prod.fst).Nodup ∧ (g.completed.map Prod.snd).Nodup) ∧
    (∀ i r, s.call i = .done r → (∃ e, r = .error (.maError e) ∧ s.oneshot i = none) ∨
      ∃ reply, s.oneshot i = some reply ∧ r = completion reply) ∧
    (∀ m before after, m.replyTo.bind s.replySenders = none → s.inbox = before ++ m :: after →
      pollReplies decodeReply s = pollReplies decodeReply { s with inbox := before ++ after }) ∧
    (∀ id, s.replySenders id ≠ none ↔
      ∃ i, id = msgId i ∧ s.call i = .awaiting ∧ s.oneshot i = none) := by
  -- the invariant of the calls, with the record of what was routed
  have hr : Recorded msgId decodeReply (s, g) := by
    refine h.invariant (I := Recorded msgId decodeReply) ?_ ?_
    · rintro _ rfl
      exact ⟨⟨inv_initial, Nat.le_refl _, nofun, nofun, .nil, .nil, nofun⟩, rfl⟩
    · rintro ⟨s, g⟩ a p h _ hp
      obtain ⟨s', hs, rfl⟩ := Option.map_eq_some_iff.1 hp
      exact h.next hs
  have ha : Attributed msgId decodeReply s g := hr.1
  refine ⟨ha.given, ha.source, ⟨ha.calls, ha.messages⟩, ha.result,
    fun _ _ _ => pollReplies_of_unmatched, fun id => ?_⟩
  constructor
  · intro hid
    obtain ⟨i, hi⟩ := Option.ne_none_iff_exists'.1 hid
    exact ⟨i, (ha.inv.registered id i).1 hi⟩
  · rintro ⟨i, hi⟩
    rw [(ha.inv.registered id i).2 hi]
    exact nofun

/-- A call that was answered twice in one batch. -/
theorem replies_routed_twice :
    let decode : List UInt8 → Except String SchemeVal := fun b => .ok (.bytes b)
    ∃ s g, (recorded (.refl Unit) decode).exec (initial, ⟨[], 0, []⟩)
        [.wire (), .resolve (), .register (), .arrive ⟨some (), [1]⟩, .arrive ⟨some (), [2]⟩,
          .poll, .resume ()] = some (s, g) ∧
      s.call () = .done (.ok (.bytes [1])) ∧ (g.completed.map Prod.fst).Nodup := by
  intro decode
  refine ⟨_, _, rfl, rfl, ?_⟩
  exact (replies_routed (System.reachable_of_exec (S := recorded (.refl Unit) decode)
    (l := [.wire (), .resolve (), .register (), .arrive ⟨some (), [1]⟩,
      .arrive ⟨some (), [2]⟩, .poll, .resume ()]) rfl rfl)).2.2.1.1

end Calls

end Zscheme.Context
