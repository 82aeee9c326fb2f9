import Mathlib.Data.List.TakeWhile
import Zscheme.Emacs.Connection

/-!
# What the calls of the Emacs frontend get

Whatever the daemon does for its other connections meanwhile, however its responses are
cut into chunks, and whichever calls run out of time: a call of `ma-ipc-eval` that returns
has shown what its own evaluation displayed, and returns the outcome of that evaluation.
-/

namespace Zscheme.Emacs

open Daemon (Conn Evaluator Exchange SessionStep)
open Zscheme.Emacs.Filter (Decoded daemonFrame)

/-! ## Frames about an evaluation -/

/-- The frames about an evaluation. -/
def about (id : Nat) (frames : List Frame) : List Frame := frames.filter (·.id? = some id)

section About

variable {id : Nat} {frames before after : List Frame}

theorem mem_about {f : Frame} : f ∈ about id frames ↔ f ∈ frames ∧ f.id? = some id := by
  simp [about]

theorem about_append (id : Nat) (a b : List Frame) : about id (a ++ b) = about id a ++ about id b :=
  List.filter_append ..

theorem displayed_about (id : Nat) (frames : List Frame) :
    displayed id (about id frames) = displayed id frames := by
  induction frames with
  | nil => rfl
  | cons f frames ih =>
    cases f with
    | display i text | evalResult i o =>
      by_cases hi : i = id <;> simp_all [about, displayed, Frame.id?]
    | _ => simpa [about, displayed, Frame.id?] using ih

@[simp] theorem displayed_map (id : Nat) (texts : List String) :
    displayed id (texts.map (.display id)) = texts := by
  simp [displayed, List.filterMap_map]

/-- A result ends the frames of its evaluation. -/
theorem about_result {texts : List String} {o outcome : Ipc.Outcome} (hbefore : NoResult id before)
    (h : before ++ .evalResult id o :: after <+:
      texts.map (.display id) ++ [.evalResult id outcome]) :
    before = texts.map (.display id) ∧ o = outcome := by
  obtain ⟨more, hmore⟩ := h
  rw [List.append_assoc, List.cons_append] at hmore
  rcases append_eq_append_cons hmore.symm with ⟨e, htexts, -⟩ | ⟨e, rfl, he⟩
  · have hmem : Frame.evalResult id o ∈ texts.map (.display id) := by simp [htexts]
    simp at hmem
  · cases e with
    | nil =>
      obtain ⟨heq, -⟩ := List.cons.inj he
      cases heq
      exact ⟨List.append_nil _, rfl⟩
    | cons f e =>
      obtain ⟨rfl, -⟩ := List.cons.inj he
      exact absurd (by simp) (hbefore outcome)

/-- The first result of an evaluation among some frames. -/
theorem exists_first_result {o : Ipc.Outcome} (h : .evalResult id o ∈ frames) :
    ∃ before outcome after, frames = before ++ .evalResult id outcome :: after ∧
      NoResult id before := by
  induction frames with
  | nil => cases h
  | cons f frames ih =>
    by_cases hf : ∃ outcome, f = .evalResult id outcome
    · obtain ⟨outcome, rfl⟩ := hf
      exact ⟨[], outcome, frames, rfl, by simp [NoResult]⟩
    · have hmem : .evalResult id o ∈ frames := by
        rcases List.mem_cons.1 h with heq | hmem
        · exact absurd ⟨o, heq.symm⟩ hf
        · exact hmem
      obtain ⟨before, outcome, after, rfl, hbefore⟩ := ih hmem
      refine ⟨f :: before, outcome, after, rfl, fun o' ho' => ?_⟩
      rcases List.mem_cons.1 ho' with rfl | ho'
      · exact hf ⟨o', rfl⟩
      · exact hbefore o' ho'

end About

/-- The frame of a response is about the same evaluation. -/
theorem id?_frame (r : Ipc.Response) : (frame r).id? = r.id?.map UInt64.toNat := by
  cases r <;> rfl

theorem about_map_frame (id : UInt64) (rs : List Ipc.Response) :
    about id.toNat (rs.map frame) = (rs.filter (·.id? = some id)).map frame := by
  rw [about, List.filter_map]
  refine congrArg _ (List.filter_congr fun r _ => ?_)
  simp only [Function.comp, id?_frame, decide_eq_decide]
  cases r.id? with
  | none => simp
  | some i => simp [UInt64.toNat_inj]

theorem map_frame_eval (job : Daemon.EvalJob) (texts : List String) (outcome : Ipc.Outcome) :
    (Exchange.eval job texts outcome).frames.map frame =
      texts.map (.display job.id.toNat) ++ [.evalResult job.id.toNat outcome] := by
  simp [Exchange.frames, frame]

/-! ## The invariant -/

/-- The id of the evaluation that is asked for. -/
def Request.id? : Request → Option Nat
  | eval id _ _ => some id
  | _ => none

/-- The request is too large, and the call said so. -/
def Ended.Refused (e : Ended) : Prop :=
  ¬e.request.Fits ∧ e.reply = .error (Filter.tooLarge e.request.ipc.toCbor.encode.length)

/-- The call of an evaluation has shown nothing but output of it. If it returned, then with
    the outcome of the evaluation, and after it has shown all that was displayed. -/
def Ended.Own {Env Run : Type*} (k : Conn Env Run) (e : Ended) : Prop :=
  ∀ id source isolated, e.request = .eval id source isolated →
    (∀ text ∈ e.shown, .display (.ofNat id) text ∈ k.out) ∧
      (e.reply = .error timedOut ∨ e.Refused ∨
        ∃ texts outcome, .eval ⟨.ofNat id, source, isolated⟩ texts outcome ∈ k.history ∧
          e.reply = returned outcome ∧ texts <:+ e.shown)

/-- An ended call keeps what it got when more is sent. -/
theorem Ended.Own.mono {Env Run : Type*} {k k' : Conn Env Run} {e : Ended} (h : e.Own k)
    (hout : k.out <+: k'.out) (hhistory : k.history <+: k'.history) : e.Own k' := by
  intro id source isolated hrequest
  obtain ⟨hshown, hreply⟩ := h id source isolated hrequest
  refine ⟨fun text htext => hout.subset (hshown text htext), hreply.imp_right (Or.imp_right ?_)⟩
  rintro ⟨texts, outcome, hx, hrest⟩
  exact ⟨texts, outcome, hhistory.subset hx, hrest⟩

/-- The call of a handshake got the version and the identity of the daemon. -/
def Ended.Greeted (version did : String) (e : Ended) : Prop :=
  e.reply = .error timedOut ∨ e.Refused ∨ e.reply = .ok (Frame.helloAck version did).plist

namespace Connection

variable {κ Env Host Run Input Val : Type*}

/-- What has been sent, and read: the frames of some requests, whose ids are used once. -/
structure Upstream (c : κ) (s : Connection κ Env Host Run) (rs : List Request) : Prop where
  sent : s.sent = (rs.map Request.bytes).flatten
  fits : ∀ r ∈ rs, r.Fits
  known : ∀ r ∈ rs, r.Known
  ids : ((rs.map Request.ipc).filterMap Ipc.Request.id?).Nodup
  fresh : ∀ id ∈ (rs.map Request.ipc).filterMap Ipc.Request.id?, id.toNat < s.client.nextId
  read : (s.daemon.conn c).requests <+: rs.map Request.ipc

/-- What has arrived: some responses, which are in the queue unless they were taken from
    it, and a part of the next. -/
structure Downstream (c : κ) (s : Connection κ Env Host Run) (got : List Ipc.Response) :
    Prop where
  out : got <+: (s.daemon.conn c).out
  le : s.arrived ≤ (s.stream c).length
  arrived : (s.stream c).take s.arrived = (got.map daemonFrame).flatten ++ s.buffer
  wait : Filter.turn s.buffer = .wait
  queue : ∀ f ∈ s.client.frames, f ∈ got.map frame

/-- What is known of the call that waits: all frames about its evaluation that have
    arrived are in the queue. -/
structure Waits (s : Connection κ Env Host Run) (rs : List Request) (got : List Ipc.Response)
    (r : Request) (st : EvalState) : Prop where
  mem : r ∈ rs
  result : st.result = none
  about : ∀ id, r.id? = some id → about id s.client.frames.reverse = about id (got.map frame)
  shown : ∀ id, r.id? = some id → ∀ text ∈ st.shown, .display id text ∈ got.map frame

/-- What holds of the frontend and the daemon. -/
structure Inv (version did : String) (c : κ) (s : Connection κ Env Host Run) (rs : List Request)
    (got : List Ipc.Response) : Prop where
  daemon : s.daemon.Inv
  due : ∀ x ∈ (s.daemon.conn c).history, x.Due version did
  upstream : s.Upstream c rs
  downstream : s.Downstream c got
  waits : ∀ r st, s.call = some (r, st) → s.Waits rs got r st
  calls : ∀ r ∈ rs, (∃ e ∈ s.ended, e.request = r) ∨ ∃ st, s.call = some (r, st)
  own : ∀ e ∈ s.ended, e.Own (s.daemon.conn c)
  greeted : ∀ e ∈ s.ended.takeWhile (·.request.id? = none), e.Greeted version did

variable {version did : String} {ev : Evaluator Env Host Run Input Val} {c : κ}
  {s s' : Connection κ Env Host Run} {rs : List Request} {got : List Ipc.Response}

theorem Upstream.requests_eq (h : s.Upstream c rs) : s.requests = rs.map Request.ipc := by
  rw [requests, h.sent, Request.readFrames_bytes h.fits]

theorem inv_initial (h : s.Initial) : s.Inv version did c [] [] := by
  obtain ⟨hdaemon, hsent, harrived, hbuffer, hframes, hcall, hended⟩ := h
  have hconn := hdaemon.1 c
  refine ⟨Daemon.Session.inv_initial hdaemon, by simp [hconn], ?_, ?_, by simp [hcall], by simp,
    by simp [hended], by simp [hended]⟩
  · exact ⟨by simp [hsent], by simp, by simp, by simp, by simp,
      by simp [hconn, Conn.requests, Daemon.Phase.requests]⟩
  · exact ⟨List.nil_prefix, by simp [harrived], by simp [harrived, hbuffer],
      by rw [hbuffer]; rfl, by simp [hframes]⟩

/-! ### The daemon takes a step -/

theorem Inv.daemon_next [DecidableEq κ] (h : s.Inv version did c rs got) {a : SessionStep κ Input}
    (hs' : next version did ev c s (.daemon a) = some s')
    (hout : ∀ r ∈ (s'.daemon.conn c).out, Decoded r) : s'.Inv version did c rs got := by
  simp only [next] at hs'
  split_ifs at hs' with hread
  obtain ⟨daemon, hnext, rfl⟩ := Option.map_eq_some_iff.1 hs'
  obtain ⟨hgrows, hhistory⟩ := Daemon.Session.grows_next h.daemon hnext c
  have hstream : s.stream c <+: ({ s with daemon } : Connection κ Env Host Run).stream c := by
    obtain ⟨more, hmore⟩ := hgrows
    have hout' : ∀ r ∈ (s.daemon.conn c).out, Decoded r := fun r hr =>
      hout r (hmore ▸ List.mem_append_left _ hr)
    refine ⟨(more.map daemonFrame).flatten, ?_⟩
    rw [stream, stream, writeAll_eq hout', writeAll_eq hout, ← hmore]
    simp
  refine ⟨Daemon.Session.inv_next h.daemon hnext, ?_, ⟨h.upstream.sent, h.upstream.fits,
    h.upstream.known, h.upstream.ids, h.upstream.fresh, ?_⟩, ⟨h.downstream.out.trans hgrows,
    h.downstream.le.trans hstream.length_le, ?_, h.downstream.wait, h.downstream.queue⟩,
    fun r st hr => ⟨(h.waits r st hr).mem, (h.waits r st hr).result, (h.waits r st hr).about,
      (h.waits r st hr).shown⟩, h.calls, fun e he => (h.own e he).mono hgrows hhistory, h.greeted⟩
  · exact Daemon.Session.forall_conn_next (P := fun k => ∀ x ∈ k.history, x.Due version did)
      (fun _ _ hmoves hk => hmoves.due hk) h.daemon hnext c h.due
  · rw [Daemon.Session.requests_next h.daemon hnext c, ← h.upstream.requests_eq]
    exact hread
  · obtain ⟨more, hmore⟩ := hstream
    rw [← hmore, List.take_append_of_le_length h.downstream.le]
    exact h.downstream.arrived

/-! ### The frontend takes a step -/

/-- One more call has ended. -/
theorem greeted_concat {l : List Ended} {e : Ended}
    (hl : ∀ x ∈ l.takeWhile (·.request.id? = none), x.Greeted version did)
    (he : (∀ x ∈ l, x.request.id? = none) → e.request.id? = none → e.Greeted version did) :
    ∀ x ∈ (l ++ [e]).takeWhile (·.request.id? = none), x.Greeted version did := by
  rw [List.takeWhile_append]
  split_ifs with hlen
  · have hall : l.takeWhile (·.request.id? = none) = l :=
      (List.takeWhile_prefix _).eq_of_length hlen
    rw [hall] at hl
    rw [List.forall_mem_append]
    refine ⟨hl, fun x hx => ?_⟩
    by_cases hid : e.request.id? = none
    · rw [List.takeWhile_cons_of_pos (by simpa using hid), List.takeWhile_nil,
        List.mem_singleton] at hx
      rw [hx]
      refine he (fun y hy => ?_) hid
      simpa using List.takeWhile_eq_self_iff.1 hall y hy
    · rw [List.takeWhile_cons_of_neg (by simpa using hid)] at hx
      cases hx
  · exact hl

/-- The frames that have been sent are about evaluations that have been asked for. -/
theorem Inv.id_lt (h : s.Inv version did c rs got) {f : Frame} (hf : f ∈ got.map frame) {id : Nat}
    (hid : f.id? = some id) : id < s.client.nextId := by
  obtain ⟨r, hr, rfl⟩ := List.mem_map.1 hf
  rw [id?_frame, Option.map_eq_some_iff] at hid
  obtain ⟨i, hi, rfl⟩ := hid
  have hmem := Conn.id_mem_requests (h.daemon.sent c) h.due (h.downstream.out.subset hr) hi
  exact h.upstream.fresh i ((h.upstream.read.sublist.filterMap _).subset hmem)

/-- A call ends. -/
theorem Inv.finish (h : s.Inv version did c rs got) {e : Ended} (client : Client)
    (hnextId : s.client.nextId ≤ client.nextId) (hqueue : ∀ f ∈ client.frames, f ∈ s.client.frames)
    (hcall : ∀ r st, s.call = some (r, st) → e.request = r) (hown : e.Own (s.daemon.conn c))
    (hgreeted : (∀ x ∈ s.ended, x.request.id? = none) → e.request.id? = none →
      e.Greeted version did) :
    ({ s with client, call := none, ended := s.ended ++ [e] } :
      Connection κ Env Host Run).Inv version did c rs got := by
  refine ⟨h.daemon, h.due, ⟨h.upstream.sent, h.upstream.fits, h.upstream.known, h.upstream.ids,
    fun id hid => (h.upstream.fresh id hid).trans_le hnextId, h.upstream.read⟩,
    ⟨h.downstream.out, h.downstream.le, h.downstream.arrived, h.downstream.wait,
      fun f hf => h.downstream.queue f (hqueue f hf)⟩,
    by simp, fun r hr => .inl ?_, ?_, greeted_concat h.greeted hgreeted⟩
  · rcases h.calls r hr with ⟨x, hx, hrequest⟩ | ⟨st, hst⟩
    · exact ⟨x, List.mem_append_left _ hx, hrequest⟩
    · exact ⟨e, by simp, hcall r st hst⟩
  · rw [List.forall_mem_append]
    exact ⟨h.own, by simpa using hown⟩

/-- The id of the request as the daemon knows it. -/
theorem id?_ipc {r : Request} (h : r.Known) {i : UInt64} (hi : r.ipc.id? = some i) :
    r.id? = some i.toNat := by
  cases r with
  | eval id source isolated =>
    cases hi
    exact congrArg some (UInt64.toNat_ofNat_of_lt' h).symm
  | _ => cases hi

/-- A call starts, with an id that is not used yet if it is an evaluation. -/
theorem Inv.start (h : s.Inv version did c rs got) {client : Client} {r : Request}
    (hframes : client.frames = s.client.frames) (hnextId : s.client.nextId ≤ client.nextId)
    (hcall : s.call = none) (hknown : r.Known) (hfits : r.Fits)
    (hid : ∀ id, r.id? = some id → s.client.nextId ≤ id ∧ id < client.nextId) :
    ({ s with client, sent := s.sent ++ r.bytes, call := some (r, ⟨[], none⟩) } :
      Connection κ Env Host Run).Inv version did c (rs ++ [r]) got := by
  refine ⟨h.daemon, h.due, ⟨by simp [h.upstream.sent], ?_, ?_, ?_, ?_, ?_⟩, ⟨h.downstream.out,
    h.downstream.le, h.downstream.arrived, h.downstream.wait, hframes ▸ h.downstream.queue⟩, ?_,
    ?_, h.own, h.greeted⟩
  · rw [List.forall_mem_append]
    exact ⟨h.upstream.fits, by simpa using hfits⟩
  · rw [List.forall_mem_append]
    exact ⟨h.upstream.known, by simpa using hknown⟩
  · rw [List.map_append, List.filterMap_append, List.nodup_append]
    refine ⟨h.upstream.ids, ?_, ?_⟩
    · rw [List.map_singleton]
      cases hr : r.ipc.id? <;> simp [hr]
    · rintro i hi _ hj rfl
      have hr := id?_ipc hknown (i := i) (by simpa using hj)
      exact absurd (h.upstream.fresh i hi) (Nat.not_lt.2 (hid _ hr).1)
  · rw [List.map_append, List.filterMap_append, List.forall_mem_append]
    refine ⟨fun i hi => (h.upstream.fresh i hi).trans_le hnextId, fun i hi => ?_⟩
    exact (hid _ (id?_ipc hknown (i := i) (by simpa using hi))).2
  · rw [List.map_append]
    exact h.upstream.read.trans (List.prefix_append _ _)
  · intro r' st hr'
    obtain ⟨rfl, rfl⟩ := Prod.mk.inj (Option.some.inj hr')
    -- nothing about the evaluation has arrived, and so nothing is in the queue
    have hnew : ∀ id, r.id? = some id → ∀ f ∈ got.map frame, f.id? ≠ some id :=
      fun id hr f hf hfid => absurd (h.id_lt hf hfid) (Nat.not_lt.2 (hid id hr).1)
    refine ⟨by simp, rfl, fun id hr => ?_, by simp⟩
    have hgot : about id (got.map frame) = [] :=
      List.filter_eq_nil_iff.2 fun f hf => by simpa using hnew id hr f hf
    rw [hgot, hframes]
    refine List.filter_eq_nil_iff.2 fun f hf => ?_
    simpa using hnew id hr f (h.downstream.queue f (List.mem_reverse.1 hf))
  · rw [List.forall_mem_append]
    refine ⟨fun r' hr' => ?_, by simp⟩
    rcases h.calls r' hr' with hended | ⟨st, hst⟩
    · exact .inl hended
    · rw [hcall] at hst
      cases hst

/-- A chunk arrives. -/
theorem Downstream.arrive (h : s.Downstream c got) (hout : ∀ r ∈ (s.daemon.conn c).out, Decoded r)
    {chunk : List UInt8} (hchunk : chunk <+: (s.stream c).drop s.arrived) :
    ∃ new buffer, Filter.processFilter ⟨s.buffer, []⟩ chunk =
        (⟨buffer, ((new.map frame).map Frame.plist).reverse⟩, none) ∧
      ({ s with
        arrived := s.arrived + chunk.length
        buffer
        client := { s.client with frames := (new.map frame).reverse ++ s.client.frames } } :
          Connection κ Env Host Run).Downstream c (got ++ new) := by
  obtain ⟨rest, hrest⟩ := h.out
  have hgot : (got.map daemonFrame).flatten ++ (rest.map daemonFrame).flatten = s.stream c := by
    rw [stream, writeAll_eq hout, ← hrest, List.map_append, List.flatten_append]
  -- what is kept and what arrives is a part of what is left of the stream
  have htake : (s.stream c).take (s.arrived + chunk.length) =
      (got.map daemonFrame).flatten ++ (s.buffer ++ chunk) := by
    rw [List.take_add, h.arrived, List.prefix_iff_eq_take.1 hchunk, List.length_take,
      List.append_assoc]
    simp
  have hp : s.buffer ++ chunk <+: (rest.map daemonFrame).flatten := by
    rw [← List.prefix_append_right_inj (got.map daemonFrame).flatten, hgot, ← htake]
    exact List.take_prefix _ _
  have hdecoded : ∀ r ∈ rest, Decoded r := fun r hr => hout r (hrest ▸ List.mem_append_right _ hr)
  obtain ⟨new, more, buffer, rfl, hbytes, hwait, hdrain⟩ := drain_responses hdecoded hp
  refine ⟨new, buffer, hdrain, ⟨more, by simpa using hrest⟩, ?_, ?_, hwait, ?_⟩
  · have hlen := hchunk.length_le
    rw [List.length_drop] at hlen
    have hle := h.le
    show s.arrived + chunk.length ≤ (s.stream c).length
    omega
  · show (s.stream c).take (s.arrived + chunk.length) = _
    rw [htake, hbytes]
    simp
  · intro f hf
    rw [List.map_append, List.mem_append]
    rcases List.mem_append.1 hf with hnew | hold
    · exact .inr (List.mem_reverse.1 hnew)
    · exact .inl (h.queue f hold)

/-- The frames that the filter pushes go to the queue. -/
theorem Inv.push (h : s.Inv version did c rs got) {new : List Ipc.Response} {arrived : Nat}
    {buffer : List UInt8}
    (hdownstream : ({ s with
      arrived, buffer
      client := { s.client with frames := (new.map frame).reverse ++ s.client.frames } } :
        Connection κ Env Host Run).Downstream c (got ++ new)) :
    ({ s with
      arrived, buffer
      client := { s.client with frames := (new.map frame).reverse ++ s.client.frames } } :
        Connection κ Env Host Run).Inv version did c rs (got ++ new) := by
  refine ⟨h.daemon, h.due, ⟨h.upstream.sent, h.upstream.fits, h.upstream.known, h.upstream.ids,
    h.upstream.fresh, h.upstream.read⟩, hdownstream, fun r st hcall => ?_, h.calls, h.own,
    h.greeted⟩
  have hw := h.waits r st hcall
  refine ⟨hw.mem, hw.result, fun id hid => ?_, fun id hid text htext => ?_⟩
  · rw [List.reverse_append, List.reverse_reverse, about_append, hw.about id hid, List.map_append,
      about_append]
  · rw [List.map_append, List.mem_append]
    exact .inl (hw.shown id hid text htext)

theorem Inv.arrive [DecidableEq κ] (h : s.Inv version did c rs got)
    (hout : ∀ r ∈ (s.daemon.conn c).out, Decoded r) {chunk : List UInt8} {frames : List Frame}
    (hs' : next version did ev c s (.arrive chunk frames) = some s') :
    ∃ got', s'.Inv version did c rs got' := by
  simp only [next] at hs'
  split_ifs at hs' with hcond
  obtain ⟨hchunk, hitems⟩ := hcond
  obtain ⟨new, buffer, hfilter, hdownstream⟩ := h.downstream.arrive hout hchunk
  rw [hfilter] at hitems hs'
  obtain rfl : frames = new.map frame := by
    have hmap := List.reverse_injective hitems
    exact (List.map_injective_iff.2 plist_injective hmap).symm
  obtain rfl := Option.some.inj hs'
  exact ⟨got ++ new, h.push hdownstream⟩

/-- A display that has arrived was sent. -/
theorem Downstream.display_mem (h : s.Downstream c got) {id : Nat} {text : String}
    (hmem : .display id text ∈ got.map frame) :
    .display (.ofNat id) text ∈ (s.daemon.conn c).out := by
  obtain ⟨r, hr, hframe⟩ := List.mem_map.1 hmem
  cases r with
  | display i t =>
    cases hframe
    rw [UInt64.ofNat_toNat]
    exact h.out.subset hr
  | _ => cases hframe

/-- The time of a call runs out. -/
theorem Inv.timeOut (h : s.Inv version did c rs got) {r : Request} {st : EvalState}
    (hcall : s.call = some (r, st)) :
    ({ s with call := none, ended := s.ended ++ [⟨r, .error timedOut, st.shown⟩] } :
      Connection κ Env Host Run).Inv version did c rs got := by
  have hw := h.waits r st hcall
  refine h.finish s.client (Nat.le_refl _) (fun f hf => hf) (fun r' st' hcall' => ?_) ?_
    fun _ _ => .inl rfl
  · exact (Prod.mk.inj (Option.some.inj (hcall.symm.trans hcall'))).1
  · intro id source isolated hrequest
    have hid : r.id? = some id := by rw [show r = .eval id source isolated from hrequest]; rfl
    exact ⟨fun text htext => h.downstream.display_mem (hw.shown id hid text htext), .inl rfl⟩

/-! ### A pass through the queue -/

/-- What is sent about an evaluation that has been handled is what it displayed, and then its
    outcome. -/
theorem Inv.about_out (h : s.Inv version did c rs got) {job : Daemon.EvalJob}
    {texts : List String} {outcome : Ipc.Outcome}
    (hx : .eval job texts outcome ∈ (s.daemon.conn c).history) :
    (s.daemon.conn c).out.filter (·.id? = some job.id) =
      (Exchange.eval job texts outcome).frames := by
  have hids := (h.upstream.read.sublist.filterMap Ipc.Request.id?).nodup h.upstream.ids
  exact Conn.about_out (h.daemon.sent c) h.due hids hx

/-- The result that a call finds is that of its evaluation, and what was displayed is before
    it in the queue. -/
theorem Inv.outcome (h : s.Inv version did c rs got) {id : Nat} {source : String} {isolated : Bool}
    {st : EvalState} (hw : s.Waits rs got (.eval id source isolated) st) {before after : List Frame}
    {outcome : Ipc.Outcome}
    (hqueue : s.client.frames.reverse = before ++ .evalResult id outcome :: after)
    (hbefore : NoResult id before) :
    ∃ texts, .eval ⟨.ofNat id, source, isolated⟩ texts outcome ∈ (s.daemon.conn c).history ∧
      displayed id before = texts := by
  have hmem : .evalResult id outcome ∈ s.client.frames.reverse := by simp [hqueue]
  obtain ⟨r, hr, hframe⟩ := List.mem_map.1 (h.downstream.queue _ (List.mem_reverse.1 hmem))
  obtain ⟨i, hi, rfl⟩ : ∃ i : UInt64, i.toNat = id ∧ r = .evalResult i outcome := by
    cases r with
    | evalResult i o =>
      cases hframe
      exact ⟨i, rfl, rfl⟩
    | _ => cases hframe
  subst hi
  obtain ⟨job, texts, rfl, hx⟩ :=
    Conn.handled_of_result (h.daemon.sent c) h.due (h.downstream.out.subset hr)
  -- it is the only request with this id
  have hread : job.request ∈ rs.map Request.ipc := by
    refine h.upstream.read.subset (List.mem_append_left _ (List.mem_map.2 ⟨_, hx, rfl⟩))
  have hasked : .eval job.id source isolated ∈ rs.map Request.ipc := by
    simpa [Request.ipc] using List.mem_map_of_mem (f := Request.ipc) hw.mem
  have heq : job.request = .eval job.id source isolated :=
    Daemon.eq_of_nodup_filterMap h.upstream.ids hread hasked rfl rfl
  obtain ⟨i, source', isolated'⟩ := job
  cases heq
  refine ⟨texts, by simpa using hx, ?_⟩
  have hsent : about i.toNat ((s.daemon.conn c).out.map frame) =
      texts.map (.display i.toNat) ++ [.evalResult i.toNat outcome] := by
    rw [about_map_frame, h.about_out hx]
    exact map_frame_eval ..
  have harrived : about i.toNat s.client.frames.reverse <+:
      about i.toNat ((s.daemon.conn c).out.map frame) := by
    rw [hw.about _ (by simp [Request.id?])]
    exact (h.downstream.out.map frame).filter _
  rw [hsent, hqueue, about_append, about, about, List.filter_cons_of_pos (by simp [Frame.id?])]
    at harrived
  have hbefore' : NoResult i.toNat (about i.toNat before) := fun o ho =>
    hbefore o (mem_about.1 ho).1
  rw [← displayed_about, (about_result hbefore' harrived).1, displayed_map]

/-- As long as the frontend has only made handshakes, nothing else has been sent. -/
theorem Inv.helloAck (h : s.Inv version did c rs got) (hids : ∀ r ∈ rs, r.id? = none) {f : Frame}
    (hf : f ∈ s.client.frames) : f = .helloAck version did := by
  obtain ⟨r, hr, rfl⟩ := List.mem_map.1 (h.downstream.queue f hf)
  have hhello : ∀ r ∈ rs, ∃ v, r = .hello v := by
    intro r hr
    have hknown := h.upstream.known r hr
    have hid := hids r hr
    cases r with
    | hello v => exact ⟨v, rfl⟩
    | eval => cases hid
    | _ => cases hknown
  have hnone : (rs.map Request.ipc).filterMap Ipc.Request.id? = [] := by
    rw [List.filterMap_eq_nil_iff, List.forall_mem_map]
    intro r hr
    obtain ⟨v, rfl⟩ := hhello r hr
    rfl
  have hread := h.upstream.read.sublist.filterMap Ipc.Request.id?
  rw [hnone, List.sublist_nil] at hread
  obtain ⟨request, hrequest, hdue⟩ :=
    Conn.due_of_no_id (h.daemon.sent c) h.due hread (h.downstream.out.subset hr)
  obtain ⟨r', hr', rfl⟩ := List.mem_map.1 (h.upstream.read.subset hrequest)
  obtain ⟨v, rfl⟩ := hhello r' hr'
  cases hdue
  rfl

/-- The first frame in the queue is taken by a handshake. -/
theorem scan_hello {v : String} (frames : List Frame) (oldest : Frame) (st : EvalState) :
    scan (Request.hello v).predicate (frames ++ [oldest]).reverse st =
      ⟨some oldest, frames, st⟩ := by
  rw [List.reverse_append, List.reverse_singleton, scan, List.singleton_append, List.foldl_cons]
  exact (foldl_scanFrame_of_found _ oldest st frames.reverse []).trans (by simp)

theorem Inv.look_hello (h : s.Inv version did c rs got) {v : String} {st : EvalState}
    (hcall : s.call = some (.hello v, st)) : (s.look (.hello v) st).Inv version did c rs got := by
  rcases List.eq_nil_or_concat' s.client.frames with hnil | ⟨frames, oldest, hframes⟩
  · have hlook : s.look (.hello v) st = s := by
      simp only [Connection.look, hnil]
      rw [scan, List.reverse_nil, List.foldl_nil]
      simp only [← hnil, ← hcall]
    rwa [hlook]
  · rw [Connection.look, hframes, scan_hello]
    refine h.finish _ (Nat.le_refl _) (fun f hf => ?_) (fun r' st' hcall' => ?_) ?_
      fun hended _ => ?_
    · rw [hframes]
      exact List.mem_append_left _ hf
    · exact (Prod.mk.inj (Option.some.inj (hcall.symm.trans hcall'))).1
    · intro id source isolated hrequest
      cases hrequest
    · -- all calls so far are handshakes
      have hids : ∀ r ∈ rs, r.id? = none := by
        intro r hr
        rcases h.calls r hr with ⟨e, he, rfl⟩ | ⟨st', hst'⟩
        · exact hended e he
        · obtain ⟨rfl, -⟩ := Prod.mk.inj (Option.some.inj (hcall.symm.trans hst'))
          rfl
      obtain rfl := h.helloAck hids (f := oldest) (by simp [hframes])
      exact .inr (.inr rfl)

theorem Inv.look_eval (h : s.Inv version did c rs got) {id : Nat} {source : String}
    {isolated : Bool} {st : EvalState} (hcall : s.call = some (.eval id source isolated, st)) :
    (s.look (.eval id source isolated) st).Inv version did c rs got := by
  have hw := h.waits _ st hcall
  by_cases hno : NoResult id s.client.frames
  · -- the frames stay in the queue, and their texts are shown
    have hscan := scan_of_noResult hno st
    rw [Connection.look, Request.predicate, hscan]
    refine ⟨h.daemon, h.due, ⟨h.upstream.sent, h.upstream.fits, h.upstream.known, h.upstream.ids,
      h.upstream.fresh, h.upstream.read⟩, ⟨h.downstream.out, h.downstream.le,
      h.downstream.arrived, h.downstream.wait, h.downstream.queue⟩, fun r st' hcall' => ?_,
      fun r hr => ?_, h.own, h.greeted⟩
    · obtain ⟨rfl, rfl⟩ := Prod.mk.inj (Option.some.inj hcall')
      refine ⟨hw.mem, hw.result, hw.about, fun i hi text htext => ?_⟩
      rcases List.mem_append.1 htext with htext | htext
      · exact hw.shown i hi text htext
      · cases hi
        obtain ⟨f, hf, hfi⟩ := List.mem_filterMap.1 htext
        refine h.downstream.queue _ (List.mem_reverse.1 ?_)
        cases f with
        | display i' text' =>
          simp only [Option.ite_none_right_eq_some] at hfi
          obtain ⟨rfl, hfi⟩ := hfi
          cases hfi
          exact hf
        | _ => cases hfi
    · refine (h.calls r hr).imp_right ?_
      rintro ⟨st', hst'⟩
      obtain ⟨rfl, -⟩ := Prod.mk.inj (Option.some.inj (hcall.symm.trans hst'))
      exact ⟨_, rfl⟩
  · simp only [NoResult, not_forall, not_not] at hno
    obtain ⟨o, ho⟩ := hno
    obtain ⟨before, outcome, after, hqueue, hbefore⟩ :=
      exists_first_result (List.mem_reverse.2 ho)
    obtain ⟨texts, hx, htexts⟩ := h.outcome hw hqueue hbefore
    rw [Connection.look, Request.predicate, hqueue, scan_of_result hbefore outcome after st, htexts]
    refine h.finish _ (Nat.le_refl _) (fun f hf => ?_) (fun r' st' hcall' => ?_) ?_ fun _ hid => ?_
    · have hmem : f ∈ s.client.frames.reverse := by
        rw [hqueue]
        rcases List.mem_append.1 hf with hf | hf
        · exact List.mem_append_right _ (List.mem_cons_of_mem _ (List.mem_reverse.1 hf))
        · exact List.mem_append_left _ (List.mem_reverse.1 hf)
      exact List.mem_reverse.1 hmem
    · exact (Prod.mk.inj (Option.some.inj (hcall.symm.trans hcall'))).1
    · intro i source' isolated' hrequest
      cases hrequest
      refine ⟨fun text htext => ?_, .inr (.inr ⟨texts, outcome, hx, rfl, List.suffix_append _ _⟩)⟩
      rcases List.mem_append.1 htext with htext | htext
      · exact h.downstream.display_mem (hw.shown id rfl text htext)
      · have hmem : Ipc.Response.display (.ofNat id) text ∈ (s.daemon.conn c).out.filter
            (·.id? = some (UInt64.ofNat id)) := by
          rw [h.about_out hx]
          simp [Exchange.frames, htext]
        exact (List.mem_filter.1 hmem).1
    · cases hid

theorem Inv.look (h : s.Inv version did c rs got) {r : Request} {st : EvalState}
    (hcall : s.call = some (r, st)) : (s.look r st).Inv version did c rs got := by
  have hknown := h.upstream.known r (h.waits r st hcall).mem
  cases r with
  | hello v => exact h.look_hello hcall
  | eval => exact h.look_eval hcall
  | _ => cases hknown

/-- A call starts, or is refused at once. -/
theorem Inv.begin (h : s.Inv version did c rs got) (client : Client) {r : Request}
    (hframes : client.frames = s.client.frames) (hnextId : s.client.nextId ≤ client.nextId)
    (hcall : s.call = none) (hknown : r.Known)
    (hid : ∀ id, r.id? = some id → s.client.nextId ≤ id ∧ id < client.nextId) :
    ∃ rs', (Connection.begin { s with client } r).Inv version did c rs' got := by
  rw [Connection.begin, Request.send_eq hknown]
  by_cases hfits : r.Fits
  · rw [if_pos hfits]
    exact ⟨_, h.start hframes hnextId hcall hknown hfits hid⟩
  · rw [if_neg hfits]
    have hrefused : Ended.Refused
        ⟨r, .error (Filter.tooLarge r.ipc.toCbor.encode.length), []⟩ := ⟨hfits, rfl⟩
    refine ⟨rs, ?_⟩
    have hend := h.finish client hnextId (fun f hf => hframes ▸ hf)
      (fun r' st' hcall' => by simp [hcall] at hcall')
      (fun id source isolated _ => ⟨by simp, .inr (.inl hrefused)⟩) fun _ _ => .inr (.inl hrefused)
    rwa [← hcall] at hend

/-- Once all bytes have arrived, all responses have. -/
theorem Inv.all_arrived (h : s.Inv version did c rs got)
    (hout : ∀ r ∈ (s.daemon.conn c).out, Decoded r) (hall : (s.stream c).length ≤ s.arrived) :
    got = (s.daemon.conn c).out := by
  obtain ⟨rest, hrest⟩ := h.downstream.out
  cases rest with
  | nil => simpa using hrest
  | cons r rest =>
    -- what is left in the buffer would begin with a frame
    have hr : Decoded r := hout r (by simp [← hrest])
    have hstream := h.downstream.arrived
    rw [List.take_of_length_le hall, stream, writeAll_eq hout, ← hrest, List.map_append,
      List.flatten_append, List.append_cancel_left_eq, List.map_cons, List.flatten_cons] at hstream
    have htake := Reader.turn_append_of_take (r := Filter.reader)
      (Filter.Answer.ofResponse r hr).turn (rest.map daemonFrame).flatten
    have hwait := h.downstream.wait
    rw [← hstream] at hwait
    cases htake.symm.trans hwait

/-- When all responses have arrived, a pass through the queue ends the call of an evaluation
    that has been handled. -/
theorem Inv.look_answered (h : s.Inv version did c rs (s.daemon.conn c).out) {id : Nat}
    {source : String} {isolated : Bool} {st : EvalState}
    (hcall : s.call = some (.eval id source isolated, st)) {texts : List String}
    {outcome : Ipc.Outcome}
    (hx : .eval ⟨.ofNat id, source, isolated⟩ texts outcome ∈ (s.daemon.conn c).history) :
    ∃ texts outcome shown,
      .eval ⟨.ofNat id, source, isolated⟩ texts outcome ∈ (s.daemon.conn c).history ∧
      (s.look (.eval id source isolated) st).call = none ∧
      (s.look (.eval id source isolated) st).ended =
        s.ended ++ [⟨.eval id source isolated, returned outcome, shown⟩] ∧ texts <:+ shown := by
  have hw := h.waits _ _ hcall
  have hknown : id < 2 ^ 64 := h.upstream.known _ hw.mem
  have hid : (UInt64.ofNat id).toNat = id := UInt64.toNat_ofNat_of_lt' hknown
  -- the result is in the queue
  have hout : about id ((s.daemon.conn c).out.map frame) =
      texts.map (.display id) ++ [.evalResult id outcome] := by
    have hmap := map_frame_eval ⟨.ofNat id, source, isolated⟩ texts outcome
    rw [← h.about_out hx, ← about_map_frame] at hmap
    simpa only [hid] using hmap
  have hmem : .evalResult id outcome ∈ about id s.client.frames.reverse := by
    rw [hw.about id rfl, hout]
    simp
  obtain ⟨before, outcome', after, hqueue, hbefore⟩ := exists_first_result (mem_about.1 hmem).1
  obtain ⟨texts', hx', htexts⟩ := h.outcome hw hqueue hbefore
  refine ⟨texts', outcome', st.shown ++ texts', hx', ?_⟩
  rw [Connection.look, Request.predicate, hqueue, scan_of_result hbefore outcome' after st, htexts]
  exact ⟨rfl, rfl, List.suffix_append _ _⟩

/-! ## Every run -/

section Run

variable [DecidableEq κ]

/-- A step is one of the daemon, or leaves it as it is. -/
theorem next_cases {e : Event κ Input} (h : next version did ev c s e = some s') :
    (∃ a, e = .daemon a ∧ s.daemon.next version did ev a = some s'.daemon ∧
        s'.client = s.client) ∨
      s'.daemon = s.daemon ∧ s.client.nextId ≤ s'.client.nextId := by
  cases e with
  | daemon a =>
    simp only [next] at h
    split_ifs at h
    obtain ⟨daemon, hnext, rfl⟩ := Option.map_eq_some_iff.1 h
    exact .inl ⟨a, rfl, hnext, rfl⟩
  | hello v =>
    simp only [next] at h
    split at h
    · obtain rfl := Option.some.inj h
      rw [begin]
      split <;> exact .inr ⟨rfl, Nat.le_refl _⟩
    · cases h
  | eval source isolated =>
    simp only [next] at h
    split at h
    · obtain rfl := Option.some.inj h
      rw [begin]
      split <;> exact .inr ⟨rfl, Nat.le_succ _⟩
    · cases h
  | arrive chunk frames =>
    simp only [next] at h
    split_ifs at h
    obtain rfl := Option.some.inj h
    exact .inr ⟨rfl, Nat.le_refl _⟩
  | look =>
    obtain ⟨call, -, rfl⟩ := Option.map_eq_some_iff.1 h
    rw [Connection.look]
    split <;> exact .inr ⟨rfl, Nat.le_refl _⟩
  | timeOut =>
    obtain ⟨call, -, rfl⟩ := Option.map_eq_some_iff.1 h
    exact .inr ⟨rfl, Nat.le_refl _⟩

theorem daemon_inv (hs : (connection version did ev c).Reachable s) : s.daemon.Inv := by
  refine hs.invariant (I := fun s => s.daemon.Inv)
    (fun s h₀ => Daemon.Session.inv_initial (And.left h₀)) fun s e s' h _ hn => ?_
  rcases next_cases hn with ⟨a, -, hnext, -⟩ | ⟨hdaemon, -⟩
  · exact Daemon.Session.inv_next h hnext
  · exact hdaemon ▸ h

/-- The invariant holds in every run. -/
theorem exists_inv (hs : (connection version did ev c).Reachable s)
    (hout : ∀ r ∈ (s.daemon.conn c).out, Decoded r) (hid : s.client.nextId ≤ 2 ^ 64) :
    ∃ rs got, s.Inv version did c rs got := by
  induction hs with
  | init h₀ => exact ⟨[], [], inv_initial h₀⟩
  | @step s s' e hs _ hn ih =>
    -- the bounds hold before the step as well
    have hprev : (∀ r ∈ (s.daemon.conn c).out, Decoded r) ∧ s.client.nextId ≤ 2 ^ 64 := by
      rcases next_cases hn with ⟨a, -, hnext, hclient⟩ | ⟨hdaemon, hle⟩
      · have hgrows := (Daemon.Session.grows_next (daemon_inv hs) hnext c).1
        exact ⟨fun r hr => hout r (hgrows.subset hr), hclient ▸ hid⟩
      · exact ⟨hdaemon ▸ hout, hle.trans hid⟩
    obtain ⟨rs, got, h⟩ := ih hprev.1 hprev.2
    cases e with
    | daemon a => exact ⟨rs, got, h.daemon_next hn hout⟩
    | hello v =>
      simp only [connection, next] at hn
      split at hn
      · rename_i hcall
        obtain rfl := Option.some.inj hn
        obtain ⟨rs', h'⟩ := h.begin s.client (r := .hello v) rfl (Nat.le_refl _) hcall trivial
          (by rintro _ ⟨⟩)
        exact ⟨rs', got, h'⟩
      · cases hn
    | eval source isolated =>
      have hlt : s.client.nextId < 2 ^ 64 := by
        simp only [connection, next] at hn
        split at hn
        · obtain rfl := Option.some.inj hn
          rw [begin] at hid
          split at hid <;> exact hid
        · cases hn
      simp only [connection, next] at hn
      split at hn
      · rename_i hcall
        obtain rfl := Option.some.inj hn
        obtain ⟨rs', h'⟩ := h.begin ⟨s.client.frames, s.client.nextId + 1⟩
          (r := .eval s.client.nextId source isolated) rfl (Nat.le_succ _) hcall hlt fun i hi => by
            cases hi
            exact ⟨Nat.le_refl _, Nat.lt_succ_self _⟩
        exact ⟨rs', got, h'⟩
      · cases hn
    | arrive chunk frames =>
      have hn : next version did ev c s (.arrive chunk frames) = some s' := hn
      obtain ⟨got', h'⟩ := h.arrive hprev.1 hn
      exact ⟨rs, got', h'⟩
    | look =>
      obtain ⟨⟨r, st⟩, hcall, rfl⟩ := Option.map_eq_some_iff.1 hn
      exact ⟨rs, got, h.look hcall⟩
    | timeOut =>
      obtain ⟨⟨r, st⟩, hcall, rfl⟩ := Option.map_eq_some_iff.1 hn
      exact ⟨rs, got, h.timeOut hcall⟩

/-- A connection that is open, to a daemon that has another. -/
def opened : Connection Bool Unit Unit Unit :=
  ⟨Daemon.Session.fresh, [], 0, [], ⟨[], 1⟩, none, []⟩

/-- The evaluation of `a` has been asked for, and the daemon has handled it. -/
theorem exists_handled : ∃ s, (connection "" "" Daemon.Session.echo true).Reachable s ∧
    s.call = some (.eval 1 "a" false, ⟨[], none⟩) ∧ s.client.nextId = 2 ∧ s.ended = [] ∧
    (s.daemon.conn true).phase = .idle ∧ (s.daemon.conn true).requests = s.requests ∧
    (s.daemon.conn true).history = [.eval ⟨1, "a", false⟩ ["a", "b"] (.ok none)] ∧
    (s.daemon.conn true).out = [.display 1 "a", .display 1 "b", .evalResult 1 (.ok none)] := by
  let r : Request := .eval 1 "a" false
  have hknown : r.Known := by
    show 1 < 2 ^ 64
    decide
  have hfits : ∀ x ∈ [r], x.Fits := by
    simp only [List.forall_mem_singleton]
    decide +kernel
  have hsend : r.send = .ok r.bytes := by rw [Request.send_eq hknown, if_pos (hfits r (by simp))]
  let s (d : Daemon.Session Bool Unit Unit Unit) : Connection Bool Unit Unit Unit :=
    ⟨d, r.bytes, 0, [], ⟨[], 2⟩, some (r, ⟨[], none⟩), []⟩
  have hrequests d : (s d).requests = [.eval 1 "a" false] := by
    have hread := Request.readFrames_bytes hfits
    rw [List.map_singleton, List.flatten_singleton] at hread
    rw [requests, hread]
    rfl
  have hopened : (connection "" "" Daemon.Session.echo true).Reachable opened :=
    .init ⟨⟨fun _ => rfl, rfl, rfl⟩, rfl, rfl, rfl, rfl, rfl, rfl⟩
  have hbegin : (connection "" "" Daemon.Session.echo true).next opened (.eval "a" false) =
      some (s Daemon.Session.fresh) := by
    show some (begin _ r) = _
    rw [begin, hsend]
    rfl
  have hs : (connection "" "" Daemon.Session.echo true).Reachable (s Daemon.Session.fresh) :=
    hopened.step trivial hbegin
  have hserve {d d' : Daemon.Session Bool Unit Unit Unit} {a : SessionStep Bool String}
      (hd : d.next "" "" Daemon.Session.echo a = some d')
      (hread : (d.conn true).requests ++ a.requests true <+: [.eval 1 "a" false])
      (hs : (connection "" "" Daemon.Session.echo true).Reachable (s d)) :
      (connection "" "" Daemon.Session.echo true).Reachable (s d') := by
    have hnext : (connection "" "" Daemon.Session.echo true).next (s d) (.daemon a) =
        some (s d') := by
      show (if _ then _ else _) = _
      rw [hrequests, if_pos hread]
      show (d.next "" "" Daemon.Session.echo a).map _ = _
      rw [hd]
      rfl
    exact hs.step trivial hnext
  have hreceive := hserve (a := .receive true (.eval 1 "a" false)) rfl (by decide) hs
  have hacquire := hserve (a := .acquire true) rfl (by decide) hreceive
  have hresume := hserve (a := .resume true "b") rfl (by decide) hacquire
  exact ⟨_, hresume, rfl, rfl, rfl, rfl, (hrequests _).symm, rfl, rfl⟩

/-- The frames of the evaluation are such that the frontend decodes them. -/
theorem decoded_handled :
    ∀ r ∈ [Ipc.Response.display 1 "a", .display 1 "b", .evalResult 1 (.ok none)], Decoded r := by
  simp only [List.forall_mem_cons]
  refine ⟨⟨?_, trivial, ?_⟩, ⟨?_, trivial, ?_⟩, ⟨?_, trivial, ?_⟩, by simp⟩ <;> decide +kernel

/-- In every run, the call of an evaluation that returned has shown output of its own
    evaluation only, and all of it, in order, at the end; it returned the outcome of the
    evaluation, about which the daemon has sent nothing else. The handshakes before the
    first evaluation got the version and the identity of the daemon. -/
theorem calls_answered (hs : (connection version did ev c).Reachable s)
    (hout : ∀ r ∈ (s.daemon.conn c).out, Decoded r) (hid : s.client.nextId ≤ 2 ^ 64) :
    (∀ e ∈ s.ended, e.Own (s.daemon.conn c)) ∧
      (∀ e ∈ s.ended.takeWhile (·.request.id? = none), e.Greeted version did) ∧
      ∀ job texts outcome, .eval job texts outcome ∈ (s.daemon.conn c).history →
        (s.daemon.conn c).out.filter (·.id? = some job.id) =
          texts.map (.display job.id) ++ [.evalResult job.id outcome] := by
  obtain ⟨rs, got, h⟩ := exists_inv hs hout hid
  exact ⟨h.own, h.greeted, fun job texts outcome hx => h.about_out hx⟩

/-- The time of an evaluation runs out after it has been handled. -/
theorem calls_answered_timedOut : ∃ s, (connection "" "" Daemon.Session.echo true).Reachable s ∧
    s.ended = [⟨.eval 1 "a" false, .error timedOut, []⟩] ∧
    (∀ e ∈ s.ended, e.Own (s.daemon.conn true)) ∧
    (s.daemon.conn true).out.filter (·.id? = some 1) =
      [.display 1 "a", .display 1 "b", .evalResult 1 (.ok none)] := by
  obtain ⟨s, hs, hcall, hnextId, hended, hphase, -, hhistory, hout⟩ := exists_handled
  let t : Connection Bool Unit Unit Unit :=
    { s with call := none, ended := s.ended ++ [⟨.eval 1 "a" false, .error timedOut, []⟩] }
  have ht : (connection "" "" Daemon.Session.echo true).Reachable t := by
    refine hs.step (a := .timeOut) trivial ?_
    show s.call.map _ = _
    rw [hcall]
    rfl
  have hdecoded : ∀ r ∈ (t.daemon.conn true).out, Decoded r := fun r hr =>
    decoded_handled r (hout ▸ hr)
  obtain ⟨hown, -, hfilter⟩ := calls_answered ht hdecoded (by show s.client.nextId ≤ _; omega)
  refine ⟨t, ht, ?_, hown, ?_⟩
  · show s.ended ++ _ = _
    rw [hended, List.nil_append]
  · exact hfilter ⟨1, "a", false⟩ ["a", "b"] (.ok none) (hhistory ▸ List.mem_singleton_self _)

variable (ev) in
/-- What has been sent can arrive, however it is cut, and the filter does not fail. -/
theorem Inv.arrives (h : s.Inv version did c rs got)
    (hout : ∀ r ∈ (s.daemon.conn c).out, Decoded r) {chunk : List UInt8}
    (hchunk : chunk <+: (s.stream c).drop s.arrived) :
    (Filter.processFilter ⟨s.buffer, []⟩ chunk).2 = none ∧
    ∃ new s', next version did ev c s (.arrive chunk (new.map frame)) = some s' ∧
      s'.Inv version did c rs (got ++ new) ∧ s'.daemon = s.daemon ∧ s'.call = s.call ∧
      s'.ended = s.ended ∧ s'.arrived = s.arrived + chunk.length := by
  obtain ⟨new, buffer, hfilter, hdownstream⟩ := h.downstream.arrive hout hchunk
  refine ⟨by rw [hfilter], new, _, ?_, h.push hdownstream, rfl, rfl, rfl, rfl⟩
  simp only [next, hfilter]
  exact if_pos ⟨hchunk, trivial⟩

/-- What has been sent can arrive in any portions, and the filter takes them without an
    error. Once the daemon has handled all that the frontend has sent, and what the daemon has
    sent has arrived, one pass through the queue ends the call of an evaluation. -/
theorem answers_arrive (hs : (connection version did ev c).Reachable s)
    (hout : ∀ r ∈ (s.daemon.conn c).out, Decoded r) (hid : s.client.nextId ≤ 2 ^ 64) :
    (∀ chunk, chunk <+: (s.stream c).drop s.arrived →
      (Filter.processFilter ⟨s.buffer, []⟩ chunk).2 = none ∧
      ∃ frames s', next version did ev c s (.arrive chunk frames) = some s') ∧
    ∀ id source isolated st, s.call = some (.eval id source isolated, st) →
      (s.daemon.conn c).phase = .idle → (s.daemon.conn c).requests = s.requests →
      ∃ frames s' texts outcome shown,
        (connection version did ev c).exec s
          [.arrive ((s.stream c).drop s.arrived) frames, .look] = some s' ∧
        .eval ⟨.ofNat id, source, isolated⟩ texts outcome ∈ (s.daemon.conn c).history ∧
        s'.call = none ∧
        s'.ended = s.ended ++ [⟨.eval id source isolated, returned outcome, shown⟩] ∧
        texts <:+ shown := by
  obtain ⟨rs, got, h⟩ := exists_inv hs hout hid
  refine ⟨fun chunk hchunk => ?_, fun id source isolated st hcall hphase hrequests => ?_⟩
  · obtain ⟨hfilter, new, s', hnext, -⟩ := h.arrives ev hout hchunk
    exact ⟨hfilter, _, s', hnext⟩
  · -- the evaluation has been handled
    have hread : .eval (.ofNat id) source isolated ∈ (s.daemon.conn c).requests := by
      rw [hrequests, h.upstream.requests_eq]
      exact List.mem_map_of_mem (f := Request.ipc) (h.waits _ _ hcall).mem
    have hidle : (s.daemon.conn c).phase.requests = [] := by rw [hphase]; rfl
    rw [Conn.requests, hidle, List.append_nil, List.mem_map] at hread
    obtain ⟨x, hx, hrequest⟩ := hread
    obtain ⟨texts, outcome, rfl⟩ : ∃ texts outcome,
        x = .eval ⟨.ofNat id, source, isolated⟩ texts outcome := by
      cases x with
      | eval job texts outcome =>
        obtain ⟨i, source', isolated'⟩ := job
        cases hrequest
        exact ⟨texts, outcome, rfl⟩
      | other request reply =>
        cases hrequest
        exact (h.due _ hx).elim
    obtain ⟨-, new, t, hnext, ht, hdaemon, hcall', hended, harrived⟩ :=
      h.arrives ev hout (List.prefix_rfl (l := (s.stream c).drop s.arrived))
    have hall : (t.stream c).length ≤ t.arrived := by
      have hstream : t.stream c = s.stream c := by rw [stream, stream, hdaemon]
      rw [harrived, hstream, List.length_drop]
      omega
    have hgot := ht.all_arrived (hdaemon ▸ hout) hall
    rw [ht.all_arrived (hdaemon ▸ hout) hall] at ht
    obtain ⟨texts, outcome, shown, hx', hnone, hended', hshown⟩ :=
      ht.look_answered (hcall'.trans hcall) (hdaemon ▸ hx)
    refine ⟨new.map frame, t.look (.eval id source isolated) st, texts, outcome, shown, ?_,
      hdaemon ▸ hx', hnone, hended ▸ hended', hshown⟩
    have hlook : next version did ev c t .look = some (t.look (.eval id source isolated) st) := by
      rw [next, hcall', hcall]
      rfl
    simp only [System.exec, connection, hnext, hlook, Option.bind_some]

/-- An evaluation that has been handled ends when its frames arrive. -/
theorem answers_arrive_echo : ∃ s, (connection "" "" Daemon.Session.echo true).Reachable s ∧
    ∃ frames s' texts outcome shown,
      (connection "" "" Daemon.Session.echo true).exec s
        [.arrive ((s.stream true).drop s.arrived) frames, .look] = some s' ∧
      .eval ⟨1, "a", false⟩ texts outcome ∈ (s.daemon.conn true).history ∧ s'.call = none ∧
      s'.ended = s.ended ++ [⟨.eval 1 "a" false, returned outcome, shown⟩] ∧ texts <:+ shown := by
  obtain ⟨s, hs, hcall, hnextId, -, hphase, hrequests, -, hout⟩ := exists_handled
  have hdecoded : ∀ r ∈ (s.daemon.conn true).out, Decoded r := fun r hr =>
    decoded_handled r (hout ▸ hr)
  exact ⟨s, hs, (answers_arrive hs hdecoded (by omega)).2 1 "a" false _ hcall hphase hrequests⟩

end Run

end Connection

end Zscheme.Emacs
